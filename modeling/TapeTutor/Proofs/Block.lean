import TapeTutor.Program

/-!
# Programs as trees of loops

A balanced program is a tree: a sequence of actions and loops, whose bodies are sequences again.
`Block` is that tree, written as a sequence whose head is an action or a loop, so that one
induction serves the sequence and its nesting alike.

Two readers of a list of instructions meet here.

* `Block.ofCode?` knows nothing of positions.  It reads from the *right*, because a block is
  built from its tail: a `]` sets the block behind it aside and starts a new one, and a `[` makes
  a loop of the block read so far and of the one set aside last.  It accepts exactly the lists
  that some block spells (`ofCode?_eq_some_iff`).
* `Program.ofInstructions` reads from the *left* and fills the table of jump targets.

They accept the same lists (`exists_ofCode?`, `exists_ofInstructions_code`), and in the table of
an accepted list every loop of the tree finds its two brackets linked to each other
(`Block.Placed`).  The invariant of the left-to-right pass is that scanning a whole block leaves
the waiting openers alone and changes the table inside the block only
(`Program.Scan.run_code`).
-/

namespace TapeTutor

/-- The instructions that are not brackets. -/
inductive Action where
  | right
  | left
  | increment
  | decrement
  | output
  | input
deriving DecidableEq, Repr

/-- The instruction that performs an action. -/
def Action.instruction : Action → Instruction
  | right => .right
  | left => .left
  | increment => .increment
  | decrement => .decrement
  | output => .output
  | input => .input

/-- The action of an instruction; a bracket has none. -/
def Instruction.action? : Instruction → Option Action
  | right => some .right
  | left => some .left
  | increment => some .increment
  | decrement => some .decrement
  | output => some .output
  | input => some .input
  | loopOpen => none
  | loopClose => none

theorem Action.instruction_of_action? {i : Instruction} {a : Action} (h : i.action? = some a) :
    a.instruction = i := by
  cases i <;> cases h <;> rfl

/-- A sequence of actions and loops. -/
inductive Block where
  /-- Nothing more. -/
  | done
  /-- An action, and then the rest. -/
  | act (a : Action) (rest : Block)
  /-- A loop, and then the rest. -/
  | loop (body rest : Block)
deriving DecidableEq, Repr

namespace Block

/-- The instructions that spell a block. -/
def code : Block → List Instruction
  | done => []
  | act a rest => a.instruction :: rest.code
  | loop body rest => .loopOpen :: (body.code ++ .loopClose :: rest.code)

/-- The number of instructions of a block. -/
def size (b : Block) : Nat := b.code.length

/-- One block after another. -/
def append : Block → Block → Block
  | done, c => c
  | act a rest, c => act a (rest.append c)
  | loop body rest, c => loop body (rest.append c)

@[simp] theorem size_act (a : Action) (rest : Block) : (act a rest).size = rest.size + 1 := rfl

@[simp] theorem size_loop (body rest : Block) :
    (loop body rest).size = body.size + rest.size + 2 := by
  simp only [size, code, List.length_cons, List.length_append]
  omega

@[simp] theorem append_done (b : Block) : b.append done = b := by
  induction b with
  | done => rfl
  | act a rest ih => rw [append, ih]
  | loop body rest _ ih => rw [append, ih]

@[simp] theorem code_append (b c : Block) : (b.append c).code = b.code ++ c.code := by
  induction b with
  | done => rfl
  | act a rest ih => rw [append, code, ih, code, List.cons_append]
  | loop body rest _ ih =>
    rw [append, code, ih, code, List.cons_append, List.append_assoc, List.cons_append]

/-! ## Reading from the right -/

/-- Reads one more instruction in front of a block; with the block go the blocks set aside,
the innermost first. -/
def readStep (i : Instruction) (s : Block × List Block) : Option (Block × List Block) :=
  match i with
  | .loopClose => some (done, s.1 :: s.2)
  | .loopOpen =>
      match s.2 with
      | [] => none
      | rest :: outer => some (loop s.1 rest, outer)
  | i => i.action?.map fun a => (act a s.1, s.2)

/-- Reads a list of instructions, the last one first. -/
def readBack : List Instruction → Option (Block × List Block)
  | [] => some (done, [])
  | i :: rest => (readBack rest).bind (readStep i)

/-- The block that a list of instructions spells, if it spells one. -/
def ofCode? (code : List Instruction) : Option Block :=
  match readBack code with
  | some (b, []) => some b
  | _ => none

@[simp] theorem readStep_action (a : Action) (s : Block × List Block) :
    readStep a.instruction s = some (act a s.1, s.2) := by
  cases a <;> rfl

/-- Reading the instructions of a block puts it in front of what was read before. -/
theorem readBack_code_append (b : Block) (rest : List Instruction) :
    readBack (b.code ++ rest) = (readBack rest).map fun s => (b.append s.1, s.2) := by
  induction b generalizing rest with
  | done =>
    rw [code, List.nil_append]
    cases readBack rest <;> rfl
  | act a tail ih =>
    rw [code, List.cons_append, readBack, ih]
    cases readBack rest with
    | none => rfl
    | some s =>
      rw [Option.map_some, Option.bind_some, readStep_action]
      rfl
  | loop body tail ihbody ihtail =>
    rw [code, List.cons_append, List.append_assoc, List.cons_append, readBack, ihbody, readBack,
      ihtail]
    cases readBack rest with
    | none => rfl
    | some s =>
      show some (loop (body.append done) (tail.append s.1), s.2) = _
      rw [append_done]
      rfl

theorem ofCode?_code (b : Block) : ofCode? b.code = some b := by
  have h := readBack_code_append b []
  rw [List.append_nil] at h
  rw [ofCode?, h]
  show some (b.append done) = some b
  rw [append_done]

/-- What has been read is the block in front, and each block set aside behind a `]`. -/
theorem code_of_readBack {cs : List Instruction} {b : Block} {outer : List Block}
    (h : readBack cs = some (b, outer)) :
    b.code ++ outer.flatMap (fun c => .loopClose :: c.code) = cs := by
  induction cs generalizing b outer with
  | nil =>
    cases h
    rfl
  | cons i rest ih =>
    rw [readBack] at h
    obtain ⟨⟨c, out⟩, hrest, hstep⟩ := Option.bind_eq_some_iff.mp h
    have hc := ih hrest
    unfold readStep at hstep
    split at hstep
    · cases hstep
      rw [← hc]
      rfl
    · cases out with
      | nil => contradiction
      | cons c' out =>
        cases hstep
        rw [← hc]
        simp [code]
    · obtain ⟨a, ha, hb⟩ := Option.map_eq_some_iff.mp hstep
      cases hb
      rw [← hc, code, Action.instruction_of_action? ha, List.cons_append]

/-- **A list of instructions has at most one tree**, and `ofCode?` finds it. -/
theorem ofCode?_eq_some_iff {cs : List Instruction} {b : Block} :
    ofCode? cs = some b ↔ b.code = cs := by
  constructor
  · intro h
    unfold ofCode? at h
    split at h
    · next c hread =>
      cases h
      have hc := code_of_readBack hread
      rwa [List.flatMap_nil, List.append_nil] at hc
    · contradiction
  · rintro rfl
    exact ofCode?_code b

end Block

/-! ## Both readers accept the same lists -/

namespace Program

/-- A pass that ends with no opener waiting has read, from the right, one block more than there
were openers waiting when it began. -/
theorem exists_readBack_of_run {s s' : Scan} {position : Nat} {cs : List Instruction}
    (h : s.run position cs = .ok s') (hend : s'.pending = []) :
    ∃ b outer, Block.readBack cs = some (b, outer) ∧ outer.length = s.pending.length := by
  induction cs generalizing s position with
  | nil =>
    rw [Scan.run] at h
    cases h
    exact ⟨.done, [], rfl, by rw [hend]; rfl⟩
  | cons i rest ih =>
    rw [Scan.run] at h
    cases hv : s.visit i position with
    | error f =>
      rw [hv] at h
      contradiction
    | ok t =>
      rw [hv] at h
      obtain ⟨b, outer, hread, hlen⟩ := ih h
      rw [Block.readBack, hread, Option.bind_some]
      cases i with
      | loopOpen =>
        -- the opener waits in the rest of the pass, so a block has been set aside for it
        rw [Scan.visit] at hv
        cases hv
        cases outer with
        | nil => simp at hlen
        | cons c outer =>
          exact ⟨.loop b c, outer, rfl, by simpa using hlen⟩
      | loopClose =>
        rw [Scan.visit] at hv
        cases hpending : s.pending with
        | nil =>
          rw [hpending] at hv
          contradiction
        | cons opener waiting =>
          rw [hpending] at hv
          cases hv
          exact ⟨.done, b :: outer, rfl, by simpa using hlen⟩
      | right => cases hv; exact ⟨.act .right b, outer, rfl, hlen⟩
      | left => cases hv; exact ⟨.act .left b, outer, rfl, hlen⟩
      | increment => cases hv; exact ⟨.act .increment b, outer, rfl, hlen⟩
      | decrement => cases hv; exact ⟨.act .decrement b, outer, rfl, hlen⟩
      | output => cases hv; exact ⟨.act .output b, outer, rfl, hlen⟩
      | input => cases hv; exact ⟨.act .input b, outer, rfl, hlen⟩

/-- Every program is a tree of loops. -/
theorem exists_ofCode? {cs : List Instruction} {p : Program} (h : ofInstructions cs = .ok p) :
    ∃ b, Block.ofCode? cs = some b := by
  unfold ofInstructions at h
  split at h
  · contradiction
  · next s hrun =>
    split at h
    · contradiction
    · next hlast =>
      obtain ⟨b, outer, hread, hlen⟩ :=
        exists_readBack_of_run hrun (List.getLast?_eq_none_iff.mp hlast)
      have houter : outer = [] := List.eq_nil_of_length_eq_zero hlen
      refine ⟨b, ?_⟩
      rw [Block.ofCode?, hread, houter]

/-- The loops of a block that starts at a position are linked in a table of targets. -/
def Linked (targets : Array (Option Nat)) : Nat → Block → Prop
  | _, .done => True
  | position, .act _ rest => Linked targets (position + 1) rest
  | position, .loop body rest =>
      targets[position]? = some (some (position + 1 + body.size)) ∧
      targets[position + 1 + body.size]? = some (some position) ∧
      Linked targets (position + 1) body ∧
      Linked targets (position + 1 + body.size + 1) rest

/-- Only the entries inside a block decide whether its loops are linked. -/
theorem Linked.congr {t t' : Array (Option Nat)} {b : Block} {position : Nat}
    (h : Linked t position b)
    (hagree : ∀ i, position ≤ i → i < position + b.size → t'[i]? = t[i]?) :
    Linked t' position b := by
  induction b generalizing position with
  | done => trivial
  | act a rest ih =>
    rw [Block.size_act] at hagree
    exact ih h fun i hlo hhi => hagree i (by omega) (by omega)
  | loop body rest ihbody ihrest =>
    rw [Block.size_loop] at hagree
    obtain ⟨hopen, hclose, hbody, hrest⟩ := h
    refine ⟨?_, ?_, ihbody hbody ?_, ihrest hrest ?_⟩
    · rw [hagree _ (by omega) (by omega), hopen]
    · rw [hagree _ (by omega) (by omega), hclose]
    · exact fun i hlo hhi => hagree i (by omega) (by omega)
    · exact fun i hlo hhi => hagree i (by omega) (by omega)

/-- A table in which two positions have been linked to each other. -/
def linkPair (t : Array (Option Nat)) (opener closer : Nat) : Array (Option Nat) :=
  (t.setIfInBounds opener (some closer)).setIfInBounds closer (some opener)

section LinkPair

variable {t : Array (Option Nat)} {opener closer : Nat}

theorem size_linkPair : (linkPair t opener closer).size = t.size := by
  rw [linkPair, Array.size_setIfInBounds, Array.size_setIfInBounds]

theorem getElem?_linkPair_of_ne {i : Nat} (hopen : i ≠ opener) (hclose : i ≠ closer) :
    (linkPair t opener closer)[i]? = t[i]? := by
  rw [linkPair, Array.getElem?_setIfInBounds_ne (Ne.symm hclose),
    Array.getElem?_setIfInBounds_ne (Ne.symm hopen)]

theorem getElem?_linkPair_opener (hne : opener ≠ closer) (hlt : opener < t.size) :
    (linkPair t opener closer)[opener]? = some (some closer) := by
  rw [linkPair, Array.getElem?_setIfInBounds_ne (Ne.symm hne),
    Array.getElem?_setIfInBounds_self_of_lt hlt]

theorem getElem?_linkPair_closer (hlt : closer < t.size) :
    (linkPair t opener closer)[closer]? = some (some opener) := by
  rw [linkPair]
  exact Array.getElem?_setIfInBounds_self_of_lt (by rwa [Array.size_setIfInBounds])

end LinkPair

/-- **Scanning a block.**  The pass gets past it, the waiting openers are those from before, the
table has changed inside the block only, and there the loops of the block are linked. -/
theorem Scan.run_code (b : Block) (s : Scan) (position : Nat) (rest : List Instruction)
    (hfit : position + b.size ≤ s.targets.size) :
    ∃ t, s.run position (b.code ++ rest) =
        Scan.run { pending := s.pending, targets := t } (position + b.size) rest ∧
      t.size = s.targets.size ∧
      (∀ i, i < position ∨ position + b.size ≤ i → t[i]? = s.targets[i]?) ∧
      Linked t position b := by
  induction b generalizing s position rest with
  | done => exact ⟨s.targets, rfl, rfl, fun _ _ => rfl, trivial⟩
  | act a tail ih =>
    rw [Block.size_act] at hfit
    obtain ⟨t, hrun, hsize, hframe, hlinked⟩ := ih s (position + 1) rest (by omega)
    refine ⟨t, ?_, hsize, ?_, hlinked⟩
    · rw [Block.code, List.cons_append, Scan.run, Block.size_act,
        show position + (tail.size + 1) = position + 1 + tail.size by omega, ← hrun]
      cases a <;> rfl
    · rw [Block.size_act]
      exact fun i hi => hframe i (by omega)
  | loop body tail ihbody ihtail =>
    rw [Block.size_loop] at hfit
    -- the opener waits on top while the body is scanned
    obtain ⟨t₁, hrun₁, hsize₁, hframe₁, hlinked₁⟩ :=
      ihbody { s with pending := position :: s.pending } (position + 1)
        (.loopClose :: (tail.code ++ rest)) (by simp only; omega)
    have hfit₁ : position + (body.size + tail.size + 2) ≤ t₁.size := by
      rw [hsize₁]
      exact hfit
    -- the two brackets meet, and nothing else changes
    let t₂ := linkPair t₁ position (position + 1 + body.size)
    have hsize₂ : t₂.size = t₁.size := size_linkPair
    have hother : ∀ i, i ≠ position → i ≠ position + 1 + body.size → t₂[i]? = t₁[i]? :=
      fun i hne hne' => getElem?_linkPair_of_ne hne hne'
    have hopen₂ : t₂[position]? = some (some (position + 1 + body.size)) :=
      getElem?_linkPair_opener (by omega) (by omega)
    have hclose₂ : t₂[position + 1 + body.size]? = some (some position) :=
      getElem?_linkPair_closer (by omega)
    obtain ⟨t₃, hrun₃, hsize₃, hframe₃, hlinked₃⟩ :=
      ihtail { pending := s.pending, targets := t₂ } (position + 1 + body.size + 1) rest
        (by simp only; omega)
    refine ⟨t₃, ?_, hsize₃.trans (hsize₂.trans hsize₁), ?_, ?_, ?_, ?_, hlinked₃⟩
    · rw [Block.code, List.cons_append, List.append_assoc, List.cons_append, Scan.run]
      simp only [Scan.visit]
      rw [hrun₁, Scan.run]
      simp only [Scan.visit]
      rw [Block.size_loop,
        show position + (body.size + tail.size + 2) =
          position + 1 + body.size + 1 + tail.size by omega]
      exact hrun₃
    · rw [Block.size_loop]
      intro i hi
      rw [hframe₃ i (by omega), hother i (by omega) (by omega), hframe₁ i (by omega)]
    · rw [hframe₃ _ (by omega), hopen₂]
    · rw [hframe₃ _ (by omega), hclose₂]
    · refine hlinked₁.congr fun i hlo hhi => ?_
      rw [hframe₃ i (by omega), hother i (by omega) (by omega)]

end Program

/-! ## Trees inside programs -/

/-- The instructions of a block stand in a program from a position on, and the brackets of each
of its loops jump to each other. -/
def Block.Placed (p : Program) : Nat → Block → Prop
  | _, .done => True
  | position, .act a rest => p.get? position = some a.instruction ∧ Placed p (position + 1) rest
  | position, .loop body rest =>
      (p.get? position = some .loopOpen ∧
        p.target? position = some (position + 1 + body.size)) ∧
      (p.get? (position + 1 + body.size) = some .loopClose ∧
        p.target? (position + 1 + body.size) = some position) ∧
      Placed p (position + 1) body ∧ Placed p (position + 1 + body.size + 1) rest

namespace Program

theorem placed_of_linked {p : Program} {b : Block} {position : Nat}
    (hcode : ∀ k, k < b.size → p.get? (position + k) = b.code[k]?)
    (hlinked : Linked p.targets position b) : b.Placed p position := by
  induction b generalizing position with
  | done => trivial
  | act a rest ih =>
    rw [Block.size_act] at hcode
    refine ⟨hcode 0 (by omega), ih (fun k hk => ?_) hlinked⟩
    rw [Nat.add_assoc, Nat.add_comm 1 k, hcode (k + 1) (by omega)]
    exact List.getElem?_cons_succ
  | loop body rest ihbody ihrest =>
    rw [Block.size_loop] at hcode
    obtain ⟨hopen, hclose, hbody, hrest⟩ := hlinked
    refine ⟨⟨hcode 0 (by omega), ?_⟩, ⟨?_, ?_⟩, ihbody (fun k hk => ?_) hbody,
      ihrest (fun k hk => ?_) hrest⟩
    · rw [target?, hopen]
      rfl
    · rw [Nat.add_assoc, Nat.add_comm 1, hcode _ (by omega), Block.code,
        List.getElem?_cons_succ, Block.size, List.getElem?_append_right (Nat.le_refl _),
        Nat.sub_self, List.getElem?_cons_zero]
    · rw [target?, hclose]
      rfl
    · rw [Nat.add_assoc, Nat.add_comm 1, hcode _ (by omega), Block.code,
        List.getElem?_cons_succ, List.getElem?_append_left hk]
    · rw [show position + 1 + body.size + 1 + k = position + (body.size + (k + 1) + 1) by omega,
        hcode _ (by omega), Block.code, List.getElem?_cons_succ,
        List.getElem?_append_right (by simp only [Block.size]; omega)]
      simp [Block.size]

/-- Every tree of loops is a program, and it is placed in that program from the start. -/
theorem exists_ofInstructions_code (b : Block) :
    ∃ p, ofInstructions b.code = .ok p ∧ p.size = b.size ∧ b.Placed p 0 := by
  obtain ⟨t, hrun, _, _, hlinked⟩ := Scan.run_code b (Scan.start b.code.length) 0 []
    (by simp [Scan.start, Block.size])
  rw [List.append_nil] at hrun
  refine ⟨{ code := b.code.toArray, targets := t }, ?_, ?_, placed_of_linked ?_ hlinked⟩
  · rw [ofInstructions, hrun]
    rfl
  · simp [size, Block.size]
  · intro k hk
    simp [get?]

end Program

end TapeTutor
