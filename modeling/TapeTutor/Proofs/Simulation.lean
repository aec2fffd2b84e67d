import TapeTutor.Proofs.Path
import TapeTutor.Proofs.Structured

/-!
# The machine runs trees of loops

The machine fetches instructions by position and jumps through a table; a structured run walks a
tree.  Both do the same.

The store of a machine (`Machine.store`) is all it holds except for its position in the program.
A structured run of a block, started in that store, is *followed* by the machine
(`Machine.Follows`): whatever result it comes to, the machine has a path to a machine with the
store of the result, and stands there behind the block, or before an instruction that is
refused for the fault of the result.

Following is closed under sequencing (`Follows.bind`), so the proof has the shape of the
definition of a structured run, with one lemma for each of its clauses.  Both brackets of a loop
share one postcondition: the machine is behind the loop if the cell is zero, and at the start of
the body if it is not.
-/

namespace TapeTutor

namespace Machine

/-! ## The store of a machine -/

/-- What a machine holds, apart from its position in the program. -/
def store (input : Array UInt8) (m : Machine) : Store where
  tape := m.tape.toList
  head := m.head
  input := input.toList.drop m.cursor
  output := m.output.toList
  spent := m.iterations

variable {p : Program} {input : Array UInt8} {limit : Nat} {m : Machine}

@[simp] theorem cell_store (input : Array UInt8) (m : Machine) : (m.store input).cell = m.cell := by
  simp [Store.cell, store, cell]

theorem store_write (input : Array UInt8) (m : Machine) (v : UInt8) :
    (m.write v).store input = (m.store input).put v := by
  simp [store, write, Store.put]

theorem store_advance (input : Array UInt8) (m : Machine) :
    m.advance.store input = (m.store input).tick := rfl

/-- Reading takes the first byte of the input that is still to come. -/
theorem store_read (input : Array UInt8) (m : Machine) (position : Nat) :
    (m.store input).perform position .input = .ok ((m.read input).store input) := by
  simp only [Store.perform, read]
  by_cases hlt : m.cursor < input.size
  · have hdrop : (m.store input).input = input[m.cursor] :: input.toList.drop (m.cursor + 1) :=
      List.drop_eq_getElem_cons (by simpa using hlt)
    rw [hdrop, Array.getElem?_eq_getElem hlt]
    simp [store, write, Store.put]
  · have hdrop : (m.store input).input = [] :=
      List.drop_eq_nil_of_le (by rw [Array.length_toList]; omega)
    rw [hdrop, Array.getElem?_eq_none (by omega), store_write]

/-- An action does to the store of a machine what its instruction does to the machine, and it
fails when, and as, the instruction does. -/
theorem store_perform (p : Program) (input : Array UInt8) (m : Machine) (a : Action) :
    (m.store input).tick.perform m.ip a =
      match m.fault? p a.instruction with
      | none => .ok ((m.perform p input a.instruction).store input)
      | some f => .error f := by
  cases a with
  | right =>
    by_cases hlt : m.head + 1 < m.tape.size
    · simp [Store.perform, Action.instruction, fault?, perform, effect, advance, store,
        Store.tick, hlt]
    · simp [Store.perform, Action.instruction, fault?, store, Store.tick, hlt]
  | left =>
    by_cases hzero : m.head = 0
    · simp [Store.perform, Action.instruction, fault?, store, Store.tick, hzero]
    · simp [Store.perform, Action.instruction, fault?, perform, effect, advance, store,
        Store.tick, hzero]
  | increment =>
    show Except.ok _ = Except.ok ((m.write (m.cell + 1)).advance.store input)
    rw [store_advance, store_write, Store.cell_tick, cell_store]
    rfl
  | decrement =>
    show Except.ok _ = Except.ok ((m.write (m.cell - 1)).advance.store input)
    rw [store_advance, store_write, Store.cell_tick, cell_store]
    rfl
  | output =>
    show Except.ok _ = Except.ok _
    rw [Store.cell_tick, cell_store]
    simp [Action.instruction, perform, effect, advance, store, Store.tick]
  | input =>
    -- paying does not touch the input, so it can come first
    have hread := store_read input m.advance m.ip
    rw [store_advance] at hread
    rw [hread]
    simp only [Action.instruction, fault?, perform, effect, read, advance]
    split <;> rfl

/-! ## Following a structured run -/

/-- The machine has a path to a machine with the store of the result; there `post` holds, or
the next instruction is refused for the fault of the result. -/
def Follows (p : Program) (input : Array UInt8) (limit : Nat) (post : Machine → Prop)
    (m : Machine) : Store.Result → Prop
  | .ok s => ∃ rs m', Path p input m rs m' ∧ m'.store input = s ∧ m'.iterations ≤ limit ∧ post m'
  | .error (f, s) =>
      ∃ rs m', Path p input m rs m' ∧ m'.store input = s ∧ m'.iterations ≤ limit ∧
        Refused p input limit m' f

theorem Follows.pure {post : Machine → Prop} (hle : m.iterations ≤ limit) (hpost : post m) :
    Follows p input limit post m (.ok (m.store input)) :=
  ⟨[], m, .nil m, rfl, hle, hpost⟩

/-- A machine that follows one run and then, from wherever that leads, the next, follows the
two in sequence. -/
theorem Follows.bind {post post' : Machine → Prop} {v : Store.Result} {k : Store → Store.Result}
    (h : Follows p input limit post m v)
    (hk : ∀ m', m.iterations ≤ m'.iterations → m'.iterations ≤ limit → post m' →
      Follows p input limit post' m' (k (m'.store input))) :
    Follows p input limit post' m (v.bind k) := by
  cases v with
  | error e => exact h
  | ok s =>
    obtain ⟨rs, m', hpath, rfl, hle, hpost⟩ := h
    have hcount := hpath.iterations_eq
    have hnext := hk m' (by omega) hle hpost
    show Follows p input limit post' m (k (m'.store input))
    cases hv : k (m'.store input) with
    | error e =>
      rw [hv] at hnext
      obtain ⟨rs', m'', hpath', hrest⟩ := hnext
      exact ⟨rs ++ rs', m'', hpath.append hpath', hrest⟩
    | ok s =>
      rw [hv] at hnext
      obtain ⟨rs', m'', hpath', hrest⟩ := hnext
      exact ⟨rs ++ rs', m'', hpath.append hpath', hrest⟩

theorem ip_perform_action (p : Program) (input : Array UInt8) (m : Machine) (a : Action) :
    (m.perform p input a.instruction).ip = m.ip + 1 := by
  cases a with
  | input =>
    simp only [Action.instruction, perform, effect, advance, read]
    split <;> rfl
  | _ => rfl

theorem follows_act {a : Action} (hi : p.get? m.ip = some a.instruction)
    (hle : m.iterations ≤ limit) :
    Follows p input limit (fun m' => m'.ip = m.ip + 1) m
      ((m.store input).act limit m.ip a) := by
  have hstore := store_perform p input m a
  by_cases hlt : m.iterations < limit
  · rw [Store.act, Store.charge_of_lt hlt]
    simp only [Except.bind]
    rw [hstore]
    cases hf : m.fault? p a.instruction with
    | none =>
      exact ⟨[m.record a.instruction], _, .single (step_of_perform input hi hf), rfl,
        by rw [iterations_perform]; omega, ip_perform_action p input m a⟩
    | some f =>
      exact ⟨[], m, .nil m, rfl, hle, Or.inl ⟨hlt, step_of_fault? input hi hf⟩⟩
  · rw [Store.act, Store.charge_of_le (by show limit ≤ m.iterations; omega)]
    exact ⟨[], m, .nil m, rfl, hle, Or.inr ⟨by omega, Program.lt_size_of_get? hi, rfl⟩⟩

/-- Where a bracket leaves the machine: behind the loop if the cell is zero, at the start of
the body if it is not. -/
def AtLoop (start behind : Nat) (m : Machine) : Prop :=
  m.ip = if m.cell = 0 then behind else start

/-- A bracket is paid for, and it only decides where to go on. -/
theorem follows_bracket {i : Instruction} {start behind : Nat} (hi : p.get? m.ip = some i)
    (hf : m.fault? p i = none) (hle : m.iterations ≤ limit)
    (hperform : m.perform p input i =
      { m with
        ip := if m.cell = 0 then behind else start
        iterations := m.iterations + 1 }) :
    Follows p input limit
      (fun m' => m'.iterations = m.iterations + 1 ∧ AtLoop start behind m') m
      ((m.store input).charge limit) := by
  by_cases hlt : m.iterations < limit
  · rw [Store.charge_of_lt hlt]
    refine ⟨[m.record i], m.perform p input i, .single (step_of_perform input hi hf), ?_, ?_, ?_⟩
    · rw [hperform]
      rfl
    · rw [iterations_perform]
      omega
    · rw [hperform]
      exact ⟨rfl, rfl⟩
  · rw [Store.charge_of_le (by show limit ≤ m.iterations; omega)]
    exact ⟨[], m, .nil m, rfl, hle, Or.inr ⟨by omega, Program.lt_size_of_get? hi, rfl⟩⟩

theorem perform_open {close : Nat} (ht : p.target? m.ip = some close) :
    m.perform p input .loopOpen =
      { m with
        ip := if m.cell = 0 then close + 1 else m.ip + 1
        iterations := m.iterations + 1 } := by
  by_cases hcell : m.cell = 0
  · simp [perform, effect, advance, jump, ht, hcell]
  · simp [perform, effect, advance, hcell]

theorem perform_close {opener : Nat} (ht : p.target? m.ip = some opener) :
    m.perform p input .loopClose =
      { m with
        ip := if m.cell = 0 then m.ip + 1 else opener + 1
        iterations := m.iterations + 1 } := by
  by_cases hcell : m.cell = 0
  · simp [perform, effect, advance, hcell]
  · simp [perform, effect, advance, jump, ht, hcell]

theorem follows_open {close : Nat} (hi : p.get? m.ip = some .loopOpen)
    (ht : p.target? m.ip = some close) (hle : m.iterations ≤ limit) :
    Follows p input limit
      (fun m' => m'.iterations = m.iterations + 1 ∧ AtLoop (m.ip + 1) (close + 1) m') m
      ((m.store input).charge limit) := by
  exact follows_bracket hi (by simp [fault?, ht]) hle (perform_open ht)

theorem follows_close {opener : Nat} (hi : p.get? m.ip = some .loopClose)
    (ht : p.target? m.ip = some opener) (hle : m.iterations ≤ limit) :
    Follows p input limit
      (fun m' => m'.iterations = m.iterations + 1 ∧ AtLoop (opener + 1) (m.ip + 1) m') m
      ((m.store input).charge limit) := by
  exact follows_bracket hi (by simp [fault?, ht]) hle (perform_close ht)

/-- A machine that has executed the opening bracket of a loop, or come back from the closing
one, follows the loop, if from the start of the body it follows the body. -/
theorem follows_repeatWhile {body : Store → Store.Result} {start close opener : Nat}
    (hspent : ∀ s t, body s = .ok t → s.spent ≤ t.spent)
    (hbody : ∀ m', m'.ip = start → m'.iterations ≤ limit →
      Follows p input limit (fun m'' => m''.ip = close) m' (body (m'.store input)))
    (hclose : p.get? close = some .loopClose) (ht : p.target? close = some opener)
    (hstart : start = opener + 1) (hpaid : 0 < m.iterations) (hle : m.iterations ≤ limit)
    (hat : AtLoop start (close + 1) m) :
    Follows p input limit (fun m' => m'.ip = close + 1) m
      ((m.store input).repeatWhile limit body) := by
  -- every round pays for its closing bracket
  induction hleft : limit - m.iterations using Nat.strongRecOn generalizing m with
  | ind left ih =>
    rw [Store.repeatWhile_eq hspent hpaid hle, cell_store]
    unfold AtLoop at hat
    by_cases hcell : m.cell = 0
    · rw [if_pos hcell] at hat ⊢
      exact Follows.pure hle hat
    · rw [if_neg hcell] at hat ⊢
      refine (hbody m hat hle).bind fun m₁ hmono₁ hle₁ hip₁ => ?_
      refine (follows_close (by rw [hip₁]; exact hclose) (by rw [hip₁]; exact ht) hle₁).bind
        fun m₂ _ hle₂ hpost₂ => ?_
      obtain ⟨hcount₂, hat₂⟩ := hpost₂
      rw [← hstart, hip₁] at hat₂
      exact ih (limit - m₂.iterations) (by omega) (by omega) hle₂ hat₂ rfl

/-- **The machine follows structured runs.**  Started at a block that is placed in its program,
the machine comes to the end of the block, or is refused, as the structured run says. -/
theorem follows_run {b : Block} (hplaced : b.Placed p m.ip) (hle : m.iterations ≤ limit) :
    Follows p input limit (fun m' => m'.ip = m.ip + b.size) m
      (b.run limit m.ip (m.store input)) := by
  induction b generalizing m with
  | done => exact Follows.pure hle rfl
  | act a rest ih =>
    obtain ⟨hi, hrest⟩ := hplaced
    refine (follows_act hi hle).bind fun m₁ _ hle₁ hip₁ => ?_
    rw [← hip₁] at hrest ⊢
    rw [Block.size_act, show m.ip + (rest.size + 1) = m₁.ip + rest.size by omega]
    exact ih hrest hle₁
  | loop body rest ihbody ihrest =>
    obtain ⟨⟨hopen, htopen⟩, ⟨hclose, htclose⟩, hbody, hrest⟩ := hplaced
    refine (follows_open hopen htopen hle).bind fun m₁ _ hle₁ hpost₁ => ?_
    obtain ⟨hcount₁, hat₁⟩ := hpost₁
    have hloop : Follows p input limit (fun m' => m'.ip = m.ip + 1 + body.size + 1) m₁
        ((m₁.store input).repeatWhile limit (body.run limit (m.ip + 1))) := by
      refine follows_repeatWhile (fun _ _ => Block.spent_le_run) ?_ hclose htclose rfl
        (by omega) hle₁ hat₁
      intro m' hip' hle'
      rw [← hip'] at hbody ⊢
      exact ihbody hbody hle'
    refine hloop.bind fun m₂ _ hle₂ hip₂ => ?_
    rw [← hip₂] at hrest ⊢
    rw [Block.size_loop, show m.ip + (body.size + rest.size + 2) = m₂.ip + rest.size by omega]
    exact ihrest hrest hle₂

end Machine

/-! ## Executions -/

namespace Interpreter

open Machine

/-- An execution, and the interpreter it leaves, have the outcome of a structured run: success
or the same fault, the same output and instruction count, the same tape and head. -/
def Agrees (r : Execution × Interpreter) : Store.Result → Prop
  | .ok s =>
      ∃ c, r.1 = .ok c ∧ c.output.toList = s.output ∧ c.iterations = s.spent ∧
        r.2.machine.tape.toList = s.tape ∧ r.2.machine.head = s.head
  | .error (f, s) =>
      ∃ e, r.1 = .error e ∧ e.fault = f ∧ e.output.toList = s.output ∧
        e.iterations = s.spent ∧
        r.2.machine.tape.toList = s.tape ∧ r.2.machine.head = s.head

theorem store_fresh (size : Nat) (input : Array UInt8) :
    (Machine.fresh size).store input = .fresh size input.toList := by
  simp [Machine.store, Machine.fresh, Store.fresh]

/-- Executing a source is running the tree that spells it. -/
theorem execute_agrees_run (it : Interpreter) {source : String} {b : Block}
    (hb : b.code = clean source) :
    Agrees (it.execute source)
      (b.run it.config.maxIterations 0
        (.fresh it.config.memorySize it.config.input.toList)) := by
  obtain ⟨p, hp, hsize, hplaced⟩ := Program.exists_ofInstructions_code b
  rw [hb] at hp
  have hfollows : Follows p it.config.input it.config.maxIterations _
      (.fresh it.config.memorySize) _ := follows_run hplaced (Nat.zero_le _)
  rw [store_fresh] at hfollows
  show Agrees _ (b.run _ (Machine.fresh it.config.memorySize).ip _)
  cases hv : b.run it.config.maxIterations (Machine.fresh it.config.memorySize).ip
      (.fresh it.config.memorySize it.config.input.toList) with
  | ok s =>
    rw [hv] at hfollows
    obtain ⟨rs, m, hpath, rfl, hle, hip⟩ := hfollows
    have hend : p.size ≤ m.ip := by
      rw [hip, hsize]
      exact Nat.le_add_left _ _
    rw [execute_of_finished it hp hpath hle hend]
    exact ⟨_, rfl, rfl, rfl, rfl, rfl⟩
  | error e =>
    rw [hv] at hfollows
    obtain ⟨f, s⟩ := e
    obtain ⟨rs, m, hpath, rfl, _, href⟩ := hfollows
    rw [execute_of_refused it hp hpath href]
    exact ⟨_, rfl, rfl, rfl, rfl, rfl, rfl⟩

/-- **Executing is structured running.**  A source that parses has exactly one tree of loops,
and executing the source has the outcome of running that tree on a fresh store: success or the
same fault, the same output and instruction count, the same tape and head. -/
theorem execute_eq_structured_run (it : Interpreter) {source : String} {p : Program}
    (hp : Program.parse source = .ok p) :
    ∃ b, Block.ofCode? (clean source) = some b ∧ (∀ c : Block, c.code = clean source ↔ c = b) ∧
      Agrees (it.execute source)
        (b.run it.config.maxIterations 0
          (.fresh it.config.memorySize it.config.input.toList)) := by
  obtain ⟨b, hb⟩ := Program.exists_ofCode? hp
  refine ⟨b, hb, fun c => ?_, execute_agrees_run it (Block.ofCode?_eq_some_iff.mp hb)⟩
  rw [← Block.ofCode?_eq_some_iff, hb, Option.some_inj]
  exact eq_comm

/-- A run that the ceiling cuts in the middle of an inner loop. -/
theorem execute_eq_structured_run_cut :
    ∃ p, Program.parse "++[>+[-.]<-]" = .ok p ∧
      ∃ b, Block.ofCode? (clean "++[>+[-.]<-]") = some b ∧
        (∀ c : Block, c.code = clean "++[>+[-.]<-]" ↔ c = b) ∧
        Agrees
          ((fresh { memorySize := 2, maxIterations := 16 }).execute "++[>+[-.]<-]")
          (b.run 16 0 (.fresh 2 [])) :=
  ⟨_, rfl, execute_eq_structured_run (fresh { memorySize := 2, maxIterations := 16 }) rfl⟩

end Interpreter

end TapeTutor
