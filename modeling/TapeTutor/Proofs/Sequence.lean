import TapeTutor.Proofs.Reachable

/-!
# One source behind another

Put one source behind another.  If the first is a program by itself, nothing it does depends on
what follows, and the second does what it does by itself, only later: its positions have moved, its
tape is not fresh and part of the instructions has been used up.

Three things move by the length of the first program: the table of jumps, the machine and whatever
names a position, which are records and faults.  `Program.append` puts two programs together in
that way.

* `Program.ofInstructions_append`: reading two lists of instructions in a row is reading each of
  them.  The pass over the second begins with nothing waiting, and it never looks at the table in
  front of its own part (`Program.Scan.run_within`).
* `Machine.step_append_of_lt`: before the end of the first program, a step is a step of it.
* `Machine.step_append_shift`, `Machine.run_append_shift`: behind it, a step and a whole run are
  those of the second program, moved.

There is one point where the two halves have to meet: an execution of the first program that
succeeds ends *exactly* at its end, because no jump leads past it.
-/

namespace TapeTutor

/-! ## Moving positions -/

/-- The fault with its position moved by `d`. -/
def Fault.shift (d : Nat) : Fault → Fault
  | unmatched bracket position => unmatched bracket (d + position)
  | overflow ip pointer => overflow (d + ip) pointer
  | underflow ip => underflow (d + ip)
  | ceiling limit => ceiling limit
  | brokenJump ip => brokenJump (d + ip)

/-- The record with its position moved by `d`. -/
def Record.shift (d : Nat) (r : Record) : Record := { r with ip := d + r.ip }

/-- What a step came to, with all positions moved by `d`. -/
def Event.shift (d : Nat) : Event → Event
  | halted => halted
  | faulted fault => faulted (fault.shift d)
  | executed record => executed (record.shift d)

namespace Program

/-- One program behind another. -/
def append (p q : Program) : Program where
  code := p.code ++ q.code
  targets := p.targets ++ q.targets.map (Option.map (p.size + ·))

variable {p q : Program} {ip : Nat}

@[simp]
theorem size_append (p q : Program) : (p.append q).size = p.size + q.size :=
  Array.size_append

theorem get?_append_of_lt (hlt : ip < p.size) : (p.append q).get? ip = p.get? ip :=
  Array.getElem?_append_left hlt

theorem get?_append_add (p q : Program) (ip : Nat) :
    (p.append q).get? (p.size + ip) = q.get? ip := by
  show (p.code ++ q.code)[p.code.size + ip]? = q.code[ip]?
  rw [Array.getElem?_append_right (Nat.le_add_right _ _), Nat.add_sub_cancel_left]

theorem target?_append_of_lt (htable : p.targets.size = p.size) (hlt : ip < p.size) :
    (p.append q).target? ip = p.target? ip := by
  rw [target?, append, Array.getElem?_append_left (by omega), target?]

theorem target?_append_add (htable : p.targets.size = p.size) (ip : Nat) :
    (p.append q).target? (p.size + ip) = (q.target? ip).map (p.size + ·) := by
  rw [target?, append, Array.getElem?_append_right (by omega), htable, Nat.add_sub_cancel_left,
    Array.getElem?_map, target?]
  cases q.targets[ip]? with
  | none => rfl
  | some target => rfl

/-- A parsed program has one entry of its table for each instruction. -/
theorem Parsed.size_targets (h : p.Parsed) : p.targets.size = p.size := by
  rw [h.paired.size, Array.length_toList, size]

/-! ## Reading two lists in a row -/

/-- The pass over a part of a longer program, seen in the whole of it: its positions are moved, and
there are entries in front of and behind its part of the table. -/
def Scan.within (front back : Array (Option Nat)) (s : Scan) : Scan where
  pending := s.pending.map (front.size + ·)
  targets := front ++ s.targets.map (Option.map (front.size + ·)) ++ back

variable {s s' : Scan} {i : Instruction} {position : Nat} {cs ds : List Instruction}

theorem setIfInBounds_within (front back t : Array (Option Nat)) {k : Nat} (hk : k < t.size)
    (target : Option Nat) :
    (front ++ t ++ back).setIfInBounds (front.size + k) target =
      front ++ t.setIfInBounds k target ++ back := by
  rw [Array.setIfInBounds_append_left (by rw [Array.size_append]; omega),
    Array.setIfInBounds_append_right (Nat.le_add_right _ _), Nat.add_sub_cancel_left]

/-- What the pass keeps: the length of the table, and that waiting openers have been read. -/
theorem Scan.visit_keeps (h : s.visit i position = .ok s')
    (hpending : ∀ o ∈ s.pending, o < position) :
    s'.targets.size = s.targets.size ∧ ∀ o ∈ s'.pending, o < position + 1 := by
  cases i with
  | loopOpen =>
    cases h
    refine ⟨rfl, fun o ho => ?_⟩
    rcases List.mem_cons.mp ho with rfl | hmem
    · exact Nat.lt_succ_self o
    · exact Nat.lt_succ_of_lt (hpending o hmem)
  | loopClose =>
    rw [visit] at h
    split at h
    · contradiction
    · next opener rest hstack =>
      cases h
      refine ⟨by simp only [Array.size_setIfInBounds], fun o ho => ?_⟩
      exact Nat.lt_succ_of_lt (hpending o (by rw [hstack]; exact List.mem_cons_of_mem _ ho))
  | _ =>
    cases h
    exact ⟨rfl, fun o ho => Nat.lt_succ_of_lt (hpending o ho)⟩

/-- **One step** of the pass does the same inside a longer program. -/
theorem Scan.visit_within (front back : Array (Option Nat)) (i : Instruction)
    (hposition : position < s.targets.size) (hpending : ∀ o ∈ s.pending, o < position) :
    (s.within front back).visit i (front.size + position) =
      match s.visit i position with
      | .ok s' => .ok (s'.within front back)
      | .error f => .error (f.shift front.size) := by
  cases i with
  | loopClose =>
    cases hstack : s.pending with
    | nil => simp only [visit, within, hstack, List.map_nil, Fault.shift]
    | cons opener rest =>
      have hopener : opener < s.targets.size := by
        have hlt := hpending opener (by rw [hstack]; exact List.mem_cons_self)
        omega
      simp only [visit, within, hstack, List.map_cons, Array.map_setIfInBounds]
      rw [setIfInBounds_within _ _ _ (by simpa using hopener),
        setIfInBounds_within _ _ _ (by simpa using hposition)]
      rfl
  | _ => rfl

/-- **The whole pass** does the same inside a longer program. -/
theorem Scan.run_within (front back : Array (Option Nat)) (s : Scan) (position : Nat)
    (cs : List Instruction)
    (hfit : position + cs.length ≤ s.targets.size) (hpending : ∀ o ∈ s.pending, o < position) :
    (s.within front back).run (front.size + position) cs =
      match s.run position cs with
      | .ok s' => .ok (s'.within front back)
      | .error f => .error (f.shift front.size) := by
  induction cs generalizing s position with
  | nil => rfl
  | cons i rest ih =>
    rw [List.length_cons] at hfit
    rw [run, run, visit_within front back i (by omega) hpending]
    cases hvisit : s.visit i position with
    | error f => rfl
    | ok s' =>
      obtain ⟨hsize, hpending'⟩ := visit_keeps hvisit hpending
      exact ih s' (position + 1) (by omega) hpending'

theorem Scan.run_append (s : Scan) (position : Nat) (cs ds : List Instruction) :
    s.run position (cs ++ ds) =
      match s.run position cs with
      | .ok s' => s'.run (position + cs.length) ds
      | .error f => .error f := by
  induction cs generalizing s position with
  | nil => rfl
  | cons i rest ih =>
    rw [List.cons_append, run, run]
    cases s.visit i position with
    | error f => rfl
    | ok s' =>
      dsimp only
      rw [ih, List.length_cons, Nat.add_assoc, Nat.add_comm 1]

/-- The pass that has made a program: it has read everything, and nothing waits. -/
theorem exists_run_of_ofInstructions (h : ofInstructions cs = .ok p) :
    (Scan.start cs.length).run 0 cs = .ok ⟨[], p.targets⟩ := by
  unfold ofInstructions at h
  split at h
  · contradiction
  · next s hrun =>
    split at h
    · contradiction
    · next hlast =>
      cases h
      rw [hrun, ← List.getLast?_eq_none_iff.mp hlast]

/-- Before its first instruction, the pass over a whole is the pass over its first part. -/
theorem Scan.start_within_front (n m : Nat) :
    Scan.start (n + m) = (Scan.start n).within #[] (Array.replicate m none) := by
  simp only [start, within, Array.map_replicate, Option.map_none, Array.empty_append,
    List.map_nil, Array.replicate_append_replicate]

/-- Behind the first part, with nothing waiting, it is the pass over the second. -/
theorem Scan.within_front_eq (targets : Array (Option Nat)) (m : Nat) :
    Scan.within #[] (Array.replicate m none) ⟨[], targets⟩ =
      (Scan.start m).within targets #[] := by
  have hstay : (Option.map fun k => 0 + k) = (id : Option Nat → Option Nat) := by
    funext target
    cases target <;> simp
  simp only [start, within, List.map_nil, Array.size_empty, hstay, Array.map_id,
    Array.map_replicate, Option.map_none, Array.empty_append, Array.append_empty]

/-- **Reading in a row.**  Behind a program, a list of instructions is read as by itself. -/
theorem ofInstructions_append (h : ofInstructions cs = .ok p) (ds : List Instruction) :
    ofInstructions (cs ++ ds) =
      match ofInstructions ds with
      | .ok q => .ok (p.append q)
      | .error f => .error (f.shift p.size) := by
  have hcode := code_of_ofInstructions h
  have hsize : p.size = cs.length := by
    rw [size, hcode, List.size_toArray]
  have htable : p.targets.size = p.size := by
    rw [hsize, (paired_of_ofInstructions h).size]
  -- the pass over the first list hands over to the pass over the second
  have hfirst : (Scan.start (cs.length + ds.length)).run 0 cs =
      .ok ((Scan.start ds.length).within p.targets #[]) := by
    have hwithin := Scan.run_within #[] (Array.replicate ds.length none) (Scan.start cs.length) 0
      cs (by simp [Scan.start]) (by simp [Scan.start])
    rw [exists_run_of_ofInstructions h, ← Scan.start_within_front] at hwithin
    rw [← Scan.within_front_eq]
    exact hwithin
  have hsecond := Scan.run_within p.targets #[] (Scan.start ds.length) 0 ds
    (by simp [Scan.start]) (by simp [Scan.start])
  have hrun : (Scan.start (cs.length + ds.length)).run 0 (cs ++ ds) =
      match (Scan.start ds.length).run 0 ds with
      | .ok s' => .ok (s'.within p.targets #[])
      | .error f => .error (f.shift p.size) := by
    rw [Scan.run_append, hfirst, ← htable, ← hsecond]
    dsimp only
    rw [show 0 + cs.length = p.targets.size + 0 by omega]
  rw [ofInstructions, List.length_append, hrun, ofInstructions]
  cases (Scan.start ds.length).run 0 ds with
  | error f => rfl
  | ok s =>
    simp only [Scan.within, List.getLast?_map]
    cases s.pending.getLast? with
    | none =>
      simp only [Option.map_none, append, hcode, htable, Array.append_empty, List.append_toArray]
    | some opener =>
      simp only [Option.map_some, Fault.shift, htable]

end Program

/-! ## Running in a row -/

namespace Machine

variable {p q : Program} {input : Array UInt8} {m m' : Machine} {rs : List Record} {limit : Nat}

/-- The machine with its position moved by `d`. -/
def shift (d : Nat) (m : Machine) : Machine := { m with ip := d + m.ip }

/-- Two programs that have the same instruction and the same jump at the position of a machine do
the same in one step. -/
theorem step_congr {p p' : Program} (hget : p'.get? m.ip = p.get? m.ip)
    (htarget : p'.target? m.ip = p.target? m.ip) : m.step p' input = m.step p input := by
  have hfault : ∀ i, m.fault? p' i = m.fault? p i := by
    intro i
    cases i <;> simp only [fault?, htarget]
  have hperform : ∀ i, m.perform p' input i = m.perform p input i := by
    intro i
    cases i <;> simp only [perform, effect, jump, htarget]
  simp only [step, hget, hfault, hperform]

/-- Before the end of the first program, a step is a step of it. -/
theorem step_append_of_lt (htable : p.targets.size = p.size) (hlt : m.ip < p.size) :
    m.step (p.append q) input = m.step p input :=
  step_congr (Program.get?_append_of_lt hlt) (Program.target?_append_of_lt htable hlt)

/-- A run of the first program is a run of both. -/
theorem Path.append_program (htable : p.targets.size = p.size) (h : Path p input m rs m') :
    Path (p.append q) input m rs m' := by
  induction h with
  | nil m => exact .nil m
  | cons hs _ ih =>
    obtain ⟨i, hi, _, _⟩ := eq_of_step_executed hs
    refine .cons ?_ ih
    rw [step_append_of_lt htable (Program.lt_size_of_get? hi)]
    exact hs

/-- What is refused in the first program is refused in both. -/
theorem Refused.append_program (htable : p.targets.size = p.size) {f : Fault}
    (h : Refused p input limit m f) : Refused (p.append q) input limit m f := by
  rcases h with ⟨hlt, hs⟩ | ⟨hlimit, hip, hf⟩
  · obtain ⟨i, hi, _⟩ := fault?_of_step_faulted hs
    refine Or.inl ⟨hlt, ?_⟩
    rw [step_append_of_lt htable (Program.lt_size_of_get? hi)]
    exact hs
  · refine Or.inr ⟨hlimit, ?_, hf⟩
    rw [Program.size_append]
    omega

/-! ### Behind the first program -/

theorem fault?_append_shift (htable : p.targets.size = p.size) (i : Instruction) :
    (m.shift p.size).fault? (p.append q) i = (m.fault? q i).map (Fault.shift p.size) := by
  have hnone : (p.append q).target? (p.size + m.ip) = none ↔ q.target? m.ip = none := by
    rw [Program.target?_append_add htable, Option.map_eq_none_iff]
  have hcell : (m.shift p.size).cell = m.cell := rfl
  cases i with
  | right =>
    by_cases hlt : m.head + 1 < m.tape.size <;> simp [fault?, shift, hlt, Fault.shift]
  | left =>
    by_cases hzero : m.head = 0 <;> simp [fault?, shift, hzero, Fault.shift]
  | loopOpen =>
    simp only [fault?, hcell]
    by_cases hbroken : m.cell = 0 ∧ q.target? m.ip = none
    · rw [if_pos hbroken, if_pos ⟨hbroken.1, hnone.mpr hbroken.2⟩]
      rfl
    · rw [if_neg hbroken, if_neg fun h => hbroken ⟨h.1, hnone.mp h.2⟩]
      rfl
  | loopClose =>
    simp only [fault?, hcell]
    by_cases hbroken : m.cell ≠ 0 ∧ q.target? m.ip = none
    · rw [if_pos hbroken, if_pos ⟨hbroken.1, hnone.mpr hbroken.2⟩]
      rfl
    · rw [if_neg hbroken, if_neg fun h => hbroken ⟨h.1, hnone.mp h.2⟩]
      rfl
  | _ => rfl

/-- A jump inside the second program leads as far. -/
theorem jump_append_shift (htable : p.targets.size = p.size) :
    (m.shift p.size).jump (p.append q) = (m.jump q).shift p.size := by
  simp only [jump, shift, Program.target?_append_add htable]
  cases q.target? m.ip with
  | none => rfl
  | some target => rfl

theorem perform_append_shift (htable : p.targets.size = p.size) (i : Instruction) :
    (m.shift p.size).perform (p.append q) input i = (m.perform q input i).shift p.size := by
  have hcell : (m.shift p.size).cell = m.cell := rfl
  have hcursor : (m.shift p.size).cursor = m.cursor := rfl
  have hadvance : ∀ m : Machine, (m.shift p.size).advance = m.advance.shift p.size := fun _ => rfl
  cases i with
  | input =>
    simp only [perform, effect, read, hcursor]
    cases input[m.cursor]? <;> rfl
  | loopOpen =>
    simp only [perform, effect, hcell, jump_append_shift htable]
    split <;> exact hadvance _
  | loopClose =>
    simp only [perform, effect, hcell, jump_append_shift htable]
    split <;> exact hadvance _
  | _ => rfl

/-- **Behind the first program**, a step is a step of the second, moved. -/
theorem step_append_shift (htable : p.targets.size = p.size) :
    (m.shift p.size).step (p.append q) input =
      ((m.step q input).1.shift p.size, (m.step q input).2.shift p.size) := by
  have hget : (p.append q).get? (m.shift p.size).ip = q.get? m.ip :=
    Program.get?_append_add p q m.ip
  simp only [step, hget, fault?_append_shift htable, perform_append_shift htable]
  cases q.get? m.ip with
  | none => rfl
  | some i =>
    dsimp only
    cases m.fault? q i <;> rfl

/-- A bounded run with all positions moved by `d`, and its records behind those of `history`. -/
def Run.behind (history : Array Record) (d : Nat) (r : Run) : Run where
  ending :=
    match r.ending with
    | .faulted fault => .faulted (fault.shift d)
    | ending => ending
  machine := r.machine.shift d
  history := history ++ r.history.map (Record.shift d)

/-- Behind the first program, a whole run is a run of the second, moved. -/
theorem run_append_shift (htable : p.targets.size = p.size) (q : Program) (input : Array UInt8)
    (capture : Bool) (allowance : Nat) (m : Machine) (history kept : Array Record) :
    run (p.append q) input capture allowance (m.shift p.size)
        (history ++ kept.map (Record.shift p.size)) =
      (run q input capture allowance m kept).behind history p.size := by
  induction allowance generalizing m kept with
  | zero =>
    have hend : (p.append q).size ≤ (m.shift p.size).ip ↔ q.size ≤ m.ip := by
      rw [Program.size_append]
      exact Nat.add_le_add_iff_left
    simp only [run, hend]
    split <;> rfl
  | succ allowance ih =>
    simp only [run, step_append_shift htable]
    rcases hstep : m.step q input with ⟨_ | f | r, m'⟩
    · rfl
    · rfl
    · -- the record goes behind those kept so far, on either side
      have hnext := ih m' (if capture then kept.push r else kept)
      cases capture with
      | false => exact hnext
      | true =>
        rw [if_pos rfl, Array.map_push, Array.append_push] at hnext
        exact hnext

end Machine

/-! ## Executing in a row -/

namespace Interpreter

open Machine

variable {first second : String} {p q : Program}

theorem clean_append (first second : String) :
    clean (first ++ second) = clean first ++ clean second := by
  rw [clean, String.toList_append, List.filterMap_append]
  rfl

/-- Goes on with another program on the tape, the input, the output and the count that are there,
`d` positions further on. -/
def goOn (it : Interpreter) (q : Program) (d : Nat) : Execution × Interpreter :=
  let r := (Machine.run q it.config.input it.config.capture
    (it.config.maxIterations - it.machine.iterations) { it.machine with ip := 0 } #[]).behind
      it.history d
  (conclude it.config r, { it with machine := r.machine, history := r.history })

/-- A successful run of a parsed program ends exactly at its end. -/
theorem ip_eq_size_of_path {config : Config} {rs : List Record} {m : Machine} (hp : p.Parsed)
    (hpath : Path p config.input (.fresh config.memorySize) rs m) (hend : p.size ≤ m.ip) :
    m.ip = p.size :=
  Nat.le_antisymm (hp.ip_le_of_path hpath (Nat.zero_le _)) hend

theorem parse_append (hp : Program.parse first = .ok p) (second : String) :
    Program.parse (first ++ second) =
      match Program.parse second with
      | .ok q => .ok (p.append q)
      | .error f => .error (f.shift p.size) := by
  rw [Program.parse, clean_append]
  exact Program.ofInstructions_append hp (clean second)

/-- A failure of the first source is the failure of both. -/
theorem execute_append_of_error (it : Interpreter) (hp : Program.parse first = .ok p)
    (hq : Program.parse second = .ok q) {e : Failure} (he : (it.execute first).1 = .error e) :
    it.execute (first ++ second) = it.execute first := by
  have hboth : Program.parse (first ++ second) = .ok (p.append q) := by
    rw [parse_append hp, hq]
  have htable := Program.Parsed.size_targets ⟨first, hp⟩
  obtain ⟨rs, m, hpath, _, ⟨_, hexecute⟩ | ⟨f, href, hexecute⟩⟩ := execute_cases it hp
  · rw [hexecute] at he
    contradiction
  · rw [hexecute]
    exact execute_of_refused it hboth (hpath.append_program htable) (href.append_program htable)

/-- After a success of the first source, the second goes on from where that has ended. -/
theorem execute_append_of_ok (it : Interpreter) (hp : Program.parse first = .ok p)
    (hq : Program.parse second = .ok q) {c : Completion} (hc : (it.execute first).1 = .ok c) :
    it.execute (first ++ second) = (it.execute first).2.goOn q p.size := by
  have hboth : Program.parse (first ++ second) = .ok (p.append q) := by
    rw [parse_append hp, hq]
  have htable := Program.Parsed.size_targets ⟨first, hp⟩
  obtain ⟨rs, m, hpath, hle, ⟨hend, hexecute⟩ | ⟨f, _, hexecute⟩⟩ := execute_cases it hp
  · have hip := ip_eq_size_of_path ⟨first, hp⟩ hpath hend
    -- the machine at the end of the first program stands at the start of the second
    have hmeet : m = Machine.shift p.size { m with ip := 0 } := by
      rw [Machine.shift, Nat.add_zero, ← hip]
    have hrun := run_append_shift htable q it.config.input it.config.capture
      (it.config.maxIterations - m.iterations) { m with ip := 0 } (it.settled rs m).history #[]
    rw [Array.map_empty, Array.append_empty, ← hmeet] at hrun
    rw [execute_of_path it hboth (hpath.append_program htable) hle, hexecute,
      show (if it.config.capture then rs.toArray else #[]) = (it.settled rs m).history from rfl,
      hrun]
    rfl
  · rw [hexecute] at hc
    contradiction

/-- **Sources in sequence.**  Let the first source be a program.

* Both together are a program if and only if the second is, and a bracket without a partner in the
  second is reported as such, behind the first.
* The jumps of both are those of the first, followed by those of the second, moved.
* If executing the first fails, so does executing both, in the same way and with the same
  interpreter left.
* If it succeeds, executing both is going on with the second: from the machine that the first has
  left and with what it has left of the allowed instructions. -/
theorem execute_append_eq {first : String} {p : Program} (hp : Program.parse first = .ok p)
    (second : String) :
    ((∃ r, Program.parse (first ++ second) = .ok r) ↔ ∃ q, Program.parse second = .ok q) ∧
    (∀ f, Program.parse second = .error f → ∃ bracket n, f = .unmatched bracket n ∧
      Program.parse (first ++ second) = .error (.unmatched bracket ((clean first).length + n))) ∧
    ∀ q, Program.parse second = .ok q →
      (∃ r, Program.parse (first ++ second) = .ok r ∧
        r.code.toList = clean first ++ clean second ∧
        r.targets.toList = p.targets.toList ++
          q.targets.toList.map (Option.map ((clean first).length + ·))) ∧
      ∀ it : Interpreter,
        (∀ e, (it.execute first).1 = .error e →
          it.execute (first ++ second) = it.execute first) ∧
        ∀ c, (it.execute first).1 = .ok c →
          (it.execute first).2.machine.ip = (clean first).length ∧
          (it.execute first).2.machine.iterations = c.iterations ∧
          it.execute (first ++ second) = (it.execute first).2.goOn q (clean first).length := by
  have hparse := parse_append hp second
  have hsize : p.size = (clean first).length := by
    rw [Program.size, Program.code_of_ofInstructions hp, List.size_toArray]
  refine ⟨?_, ?_, ?_⟩
  · rw [hparse]
    cases Program.parse second with
    | ok q => exact ⟨fun _ => ⟨q, rfl⟩, fun _ => ⟨_, rfl⟩⟩
    | error f => simp
  · intro f hf
    rw [hf] at hparse
    have hfamily := Program.category_of_parse_error hf
    cases f with
    | unmatched bracket n =>
      rw [← hsize]
      exact ⟨bracket, n, rfl, hparse⟩
    | _ => contradiction
  · intro q hq
    rw [hq] at hparse
    refine ⟨⟨p.append q, hparse, ?_, ?_⟩, fun it => ⟨?_, ?_⟩⟩
    · rw [Program.append, Program.code_of_ofInstructions hp, Program.code_of_ofInstructions hq]
      simp
    · rw [← hsize]
      simp [Program.append]
    · intro e he
      exact execute_append_of_error it hp hq he
    · intro c hc
      obtain ⟨p', rs, m, hp', hpath, _, hend, rfl, hleft⟩ := exists_path_of_execute_ok it hc
      cases hp.symm.trans hp'
      rw [← hsize]
      refine ⟨?_, ?_, execute_append_of_ok it hp hq hc⟩
      · rw [hleft]
        exact ip_eq_size_of_path ⟨first, hp⟩ hpath hend
      · rw [hleft]
        rfl

/-- A loop that leaves the head where it was, and behind it one that needs what it has left; and
behind it a bracket too many. -/
theorem execute_append_eq_loops :
    ∃ p q, Program.parse "++[>+<-]" = .ok p ∧ Program.parse ">[-<+>]<." = .ok q ∧
      Program.parse ("++[>+<-]" ++ "+]") = .error (.unmatched .closing 9) ∧
      (fresh { memorySize := 2, maxIterations := 20 }).execute ("++[>+<-]" ++ ">[-<+>]<.") =
        ((fresh { memorySize := 2, maxIterations := 20 }).execute "++[>+<-]").2.goOn q 8 := by
  obtain ⟨p, hp⟩ : ∃ p, Program.parse "++[>+<-]" = .ok p := ⟨_, rfl⟩
  obtain ⟨q, hq⟩ : ∃ q, Program.parse ">[-<+>]<." = .ok q := ⟨_, rfl⟩
  obtain ⟨bracket, n, hfault, hboth⟩ :=
    (execute_append_eq hp "+]").2.1 (.unmatched .closing 1) rfl
  cases hfault
  obtain ⟨_, hexecute⟩ := (execute_append_eq hp ">[-<+>]<.").2.2 q hq
  obtain ⟨_, hok⟩ := hexecute (fresh { memorySize := 2, maxIterations := 20 })
  exact ⟨p, q, hp, hq, hboth, (hok _ rfl).2.2⟩

end Interpreter

end TapeTutor
