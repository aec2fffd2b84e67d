import TapeTutor.Proofs.Reachable

/-!
# Who is to blame for a failed execution

A fault points into the *cleaned* source, while the user has written the raw one, so what stands at
its position has to be said of `strip source`: that is where a report puts its caret.

* A syntax fault is found before anything is executed.  The depth is what tells that its position
  holds the bracket it reports (`getElem?_of_isLeast_neg` for a `]`; a `[` waits for its partner and
  is an opener by definition).
* A fault of the machine comes from the instruction under its position, and all that
  `Machine.fault?` looks at besides that is the head and the jump (`Machine.fault?_cases`).  A fault
  changes nothing, so the machine that is left is the one that the last executed instruction has
  made: as many calls of `step` lead there (`Interpreter.Stands`).
* The ceiling has no culprit, but an instruction that was still to come.
-/

namespace TapeTutor

/-! ## What stands in a cleaned source -/

theorem getElem?_strip (source : String) (k : Nat) :
    (strip source).toList[k]? = (clean source)[k]?.map Instruction.toChar := by
  rw [strip, spell, String.toList_ofList, List.getElem?_map]

theorem length_strip (source : String) : (strip source).length = (clean source).length := by
  rw [strip, spell, String.length_ofList, List.length_map]

/-- The instruction that a bracket stands for. -/
def Bracket.instruction : Bracket → Instruction
  | opening => .loopOpen
  | closing => .loopClose

theorem Bracket.text_eq (bracket : Bracket) :
    bracket.text = String.singleton bracket.instruction.toChar := by
  cases bracket <;> rfl

/-- The first position behind which the depth is negative holds a `]`. -/
theorem getElem?_of_isLeast_neg {code : List Instruction} {j : Nat}
    (h : IsLeast {j | depth code (j + 1) < 0} j) : code[j]? = some .loopClose := by
  have hneg : depth code (j + 1) < 0 := h.1
  have hbefore : 0 ≤ depth code j := by
    cases j with
    | zero => exact Int.le_of_eq (depth_zero code).symm
    | succ j =>
      by_contra hnot
      have hle := h.2 (show depth code (j + 1) < 0 by omega)
      omega
  cases hc : code[j]? with
  | none =>
    -- behind the end the depth does not change any more
    have hend : code.length ≤ j := List.getElem?_eq_none_iff.mp hc
    rw [depth_of_length_le (show code.length ≤ j + 1 by omega)] at hneg
    rw [depth_of_length_le hend] at hbefore
    omega
  | some c =>
    have hrise := depth_succ hc
    cases c with
    | loopClose => rfl
    | _ =>
      simp only [Instruction.rise] at hrise
      omega

/-- The bracket that a source is refused for stands where the fault says. -/
theorem Program.getElem?_of_unmatched {source : String} {bracket : Bracket} {position : Nat}
    (h : parse source = .error (.unmatched bracket position)) :
    (clean source)[position]? = some bracket.instruction := by
  cases bracket with
  | opening => exact ((ofInstructions_eq_opening_iff _ _).mp h).2.2.1.1
  | closing => exact getElem?_of_isLeast_neg ((ofInstructions_eq_closing_iff _ _).mp h)

/-! ## Faults of the machine -/

namespace Machine

variable {p : Program} {input : Array UInt8} {m m' : Machine} {i : Instruction} {f : Fault}

/-- On a parsed program and a machine that fits, a fault is a move off the tape: to the right from
the last cell, or to the left from the first. -/
theorem step_faulted_cases {config : Config} (hp : p.Parsed) (hfits : m.Fits config)
    (h : m.step p input = (.faulted f, m')) :
    (p.get? m.ip = some .right ∧ f = .overflow m.ip m.head ∧ m.head = config.memorySize - 1) ∨
      (p.get? m.ip = some .left ∧ f = .underflow m.ip ∧ m.head = 0) := by
  obtain ⟨i, hi, hf⟩ := fault?_of_step_faulted h
  have hhead := hfits.head_lt
  have hsize := hfits.size_tape
  rcases fault?_cases hf with ⟨rfl, rfl, hedge⟩ | ⟨rfl, rfl, hzero⟩ | rfl
  · exact Or.inl ⟨hi, rfl, by omega⟩
  · exact Or.inr ⟨hi, rfl, hzero⟩
  · exact absurd hf (hp.fault?_ne_brokenJump hi m.ip)

end Machine

/-! ## Failed executions -/

namespace Interpreter

open Machine

variable {source : String} {p : Program} {rs : List Record} {m : Machine}

/-- What stands in the cleaned source is what the program has there. -/
theorem getElem?_strip_of_get? (hp : Program.parse source = .ok p) {ip : Nat} {i : Instruction}
    (h : p.get? ip = some i) : (strip source).toList[ip]? = some i.toChar := by
  rw [Program.get?, Program.code_of_ofInstructions hp, List.getElem?_toArray] at h
  rw [getElem?_strip, h, Option.map_some]

/-- **A failed execution names its culprit**, and leaves the machine as the culprit found it.

* A syntax fault names a bracket of the cleaned source, the one that stands at its position, and
  nothing has been executed.
* A fault at the right end of the tape names a `>`, and the head is on the last cell; a fault at the
  left end names a `<`, and the head is on the first.  The machine stands at that instruction, as it
  does after as many calls of `step` as are reported.
* At the ceiling, all allowed instructions have been executed and there is one more.
* There is no other fault. -/
theorem execute_error_names_culprit (it : Interpreter) (hvalid : it.config.Valid)
    {source : String} {e : Failure} (h : (it.execute source).1 = .error e) :
    e.output = (it.execute source).2.machine.output ∧
    e.iterations = (it.execute source).2.machine.iterations ∧
    it.Stands source e.iterations (it.execute source).2.machine ∧
    ((∃ bracket position c, e.fault = .unmatched bracket position ∧
        position < (strip source).length ∧
        (strip source).toList[position]? = some c ∧ bracket.text = String.singleton c ∧
        e.output = #[] ∧ e.iterations = 0 ∧
        (it.execute source).2.machine.tape = Array.replicate it.config.memorySize 0) ∨
      (∃ ip pointer, e.fault = .overflow ip pointer ∧
        (strip source).toList[ip]? = some '>' ∧ pointer = it.config.memorySize - 1 ∧
        (it.execute source).2.machine.head = pointer ∧
        (it.execute source).2.machine.ip = ip) ∨
      (∃ ip, e.fault = .underflow ip ∧
        (strip source).toList[ip]? = some '<' ∧
        (it.execute source).2.machine.head = 0 ∧
        (it.execute source).2.machine.ip = ip) ∨
      ∃ limit, e.fault = .ceiling limit ∧ limit = it.config.maxIterations ∧
        e.iterations = limit ∧
        (it.execute source).2.machine.ip < (strip source).length) := by
  rcases exists_path_of_execute_error it h with
    ⟨f, hp, rfl, hleft⟩ | ⟨p, rs, m, f, hp, hpath, href, rfl, hleft⟩
  · rw [hleft]
    refine ⟨rfl, rfl, ⟨fun k hk => absurd hk (Nat.not_lt_zero k), rfl⟩, Or.inl ?_⟩
    have hfamily := Program.category_of_parse_error hp
    cases f with
    | unmatched bracket position =>
      have hget := Program.getElem?_of_unmatched hp
      have hlt := (List.getElem?_eq_some_iff.mp hget).1
      refine ⟨bracket, position, bracket.instruction.toChar, rfl, ?_, ?_, bracket.text_eq, rfl, rfl,
        rfl⟩
      · rw [length_strip]
        exact hlt
      · rw [getElem?_strip, hget, Option.map_some]
    | _ => contradiction
  · rw [hleft]
    refine ⟨rfl, rfl, stands_of_path it hp hpath, Or.inr ?_⟩
    rcases href with ⟨_, hstep⟩ | ⟨hlimit, hip, rfl⟩
    · have hfits := (fits_fresh hvalid).of_path hpath
      rcases step_faulted_cases ⟨source, hp⟩ hfits hstep with
        ⟨hget, rfl, hhead⟩ | ⟨hget, rfl, hhead⟩
      · exact Or.inl ⟨m.ip, m.head, rfl, getElem?_strip_of_get? hp hget, hhead, rfl, rfl⟩
      · exact Or.inr (Or.inl ⟨m.ip, rfl, getElem?_strip_of_get? hp hget, hhead, rfl⟩)
    · refine Or.inr (Or.inr ⟨_, rfl, rfl, hlimit, ?_⟩)
      rw [length_strip, ← List.size_toArray, ← Program.code_of_ofInstructions hp]
      exact hip

/-- Off the tape in the second round of a loop, in a source with comments. -/
theorem execute_error_names_culprit_overflow :
    ((fresh { memorySize := 2, maxIterations := 9 }).execute "go + [ > + ]").1 =
        .error ⟨.overflow 2 1, #[], 5⟩ ∧
      (strip "go + [ > + ]").toList[2]? = some '>' ∧
      (fresh { memorySize := 2, maxIterations := 9 }).Stands "go + [ > + ]" 5
        ((fresh { memorySize := 2, maxIterations := 9 }).execute "go + [ > + ]").2.machine := by
  have he : ((fresh { memorySize := 2, maxIterations := 9 }).execute "go + [ > + ]").1 =
      .error ⟨.overflow 2 1, #[], 5⟩ := rfl
  obtain ⟨_, _, hstands, ⟨_, _, _, hf, _⟩ | ⟨ip, pointer, hf, hget, _⟩ | ⟨_, hf, _⟩ | ⟨_, hf, _⟩⟩ :=
    execute_error_names_culprit (fresh { memorySize := 2, maxIterations := 9 }) (by decide) he
  · contradiction
  · cases hf
    exact ⟨he, hget, hstands⟩
  · contradiction
  · contradiction

end Interpreter

end TapeTutor
