import TapeTutor.Proofs.Ceiling
import TapeTutor.Proofs.Matching

/-!
# Every interpreter that can be reached

An interpreter is used by executing sources, stepping through them, starting over, looking at its
cells, debugging and animating.  `Operation` lists these uses, and `Interpreter.Reachable` is what
any number of them makes of a new interpreter.

What all of them have in common is that nothing moves a machine but its own step, so it is enough
to look at that.

* `Machine.Fits` is what a step keeps on any program: the tape has its length, the head is on it,
  the input is not overread and no more has been written than executed.
* On a parsed program every bracket has a partner inside the program (`Program.Paired`).  So a jump
  always has a target, and the position behind it is still within the program or at its end.

`Interpreter.Sound` puts the two together for an interpreter, whatever its session.  A debugger and
an animation call `step` and nothing else; what they keep and what they report is derived once, for
any property that calls, resets and executions keep (`Interpreter.Kept`).  Every interpreter that
can be reached has such a property if a new one has it (`Reachable.of_kept`).
-/

namespace TapeTutor

/-! ## Machines that fit a configuration -/

namespace Machine

variable {config : Config} {p : Program} {m m' : Machine} {i : Instruction}

/-- The tape has its length, the head is on it, the input is not overread, and every byte written
has cost an instruction. -/
structure Fits (config : Config) (m : Machine) : Prop where
  size_tape : m.tape.size = config.memorySize
  head_lt : m.head < m.tape.size
  cursor_le : m.cursor ≤ config.input.size
  size_output_le : m.output.size ≤ m.iterations

theorem fits_fresh (hvalid : config.Valid) : Fits config (.fresh config.memorySize) where
  size_tape := Array.size_replicate
  head_lt := by
    simp only [fresh, Array.size_replicate]
    exact hvalid.1
  cursor_le := Nat.zero_le _
  size_output_le := Nat.le_refl _

/-- The cell under the head is a cell of the tape. -/
theorem Fits.getElem?_head (h : Fits config m) : m.tape[m.head]? = some m.cell := by
  rw [cell, Array.getD_eq_getD_getElem?, Array.getElem?_eq_getElem h.head_lt, Option.getD_some]

/-- The head stays on the tape: the moves that would take it off are faults. -/
theorem head_perform_lt (input : Array UInt8) (hlt : m.head < m.tape.size)
    (hf : m.fault? p i = none) : (m.perform p input i).head < m.tape.size := by
  cases i with
  | right =>
    simp only [fault?] at hf
    split at hf
    · assumption
    · contradiction
  | left =>
    show m.head - 1 < m.tape.size
    omega
  | input =>
    simp only [perform, effect, advance, read]
    split <;> exact hlt
  | loopOpen =>
    simp only [perform, effect, advance]
    split <;> exact hlt
  | loopClose =>
    simp only [perform, effect, advance]
    split <;> exact hlt
  | _ => exact hlt

/-- Only an input byte that is there moves the position in the input. -/
theorem cursor_perform_le (p : Program) (i : Instruction) {input : Array UInt8}
    (hle : m.cursor ≤ input.size) : (m.perform p input i).cursor ≤ input.size := by
  cases i with
  | input =>
    simp only [perform, effect, advance, read]
    split
    · next byte hbyte =>
      exact (Array.getElem?_eq_some_iff.mp hbyte).1
    · exact hle
  | loopOpen =>
    simp only [perform, effect, advance]
    split <;> exact hle
  | loopClose =>
    simp only [perform, effect, advance]
    split <;> exact hle
  | _ => exact hle

theorem length_printed_le (rs : List Record) : (printed rs).length ≤ rs.length :=
  List.length_filterMap_le _ _

/-- **One step** keeps a machine fitting. -/
theorem Fits.perform (h : Fits config m) (hf : m.fault? p i = none) :
    Fits config (m.perform p config.input i) where
  size_tape := by
    rw [size_tape_perform]
    exact h.size_tape
  head_lt := by
    rw [size_tape_perform]
    exact head_perform_lt config.input h.head_lt hf
  cursor_le := cursor_perform_le p i h.cursor_le
  size_output_le := by
    have hwritten := congrArg List.length (output_perform p config.input m i)
    have hone := length_printed_le [m.record i]
    have hle := h.size_output_le
    rw [List.length_append, Array.length_toList, Array.length_toList] at hwritten
    rw [List.length_singleton] at hone
    rw [iterations_perform]
    omega

theorem Fits.of_step (h : Fits config m) {r : Record}
    (hs : m.step p config.input = (.executed r, m')) : Fits config m' := by
  rcases step_cases p config.input m with ⟨_, hs'⟩ | ⟨_, _, _, _, hs'⟩ | ⟨i, _, hf, hs'⟩
  · cases hs.symm.trans hs'
  · cases hs.symm.trans hs'
  · cases hs.symm.trans hs'
    exact h.perform hf

/-- **A whole run** keeps a machine fitting. -/
theorem Fits.of_path (h : Fits config m) {rs : List Record}
    (hpath : Path p config.input m rs m') : Fits config m' := by
  induction hpath with
  | nil m => exact h
  | cons hs _ ih => exact ih (h.of_step hs)

end Machine

/-! ## Parsed programs -/

namespace Program

/-- The program comes from a source. -/
def Parsed (p : Program) : Prop := ∃ source, parse source = .ok p

variable {p : Program} {m : Machine} {i : Instruction} {ip target : Nat}

theorem Parsed.paired (h : p.Parsed) : Paired p.code.toList p := by
  obtain ⟨source, hp⟩ := h
  rw [code_of_ofInstructions hp]
  exact paired_of_ofInstructions hp

/-- A jump stays inside the program. -/
theorem Parsed.target?_lt (h : p.Parsed) (htarget : p.target? ip = some target) :
    target < p.size := by
  have hlt : ∀ {k c}, p.code.toList[k]? = some c → k < p.size := fun hget => by
    rw [Array.getElem?_toList] at hget
    exact lt_size_of_get? hget
  rcases (h.paired.target?_eq_some_iff ip target).mp htarget with hmatched | hmatched
  · exact hlt hmatched.closer
  · exact hlt hmatched.opener

/-- Every bracket jumps. -/
theorem Parsed.target?_ne_none (h : p.Parsed)
    (hi : p.get? ip = some .loopOpen ∨ p.get? ip = some .loopClose) : p.target? ip ≠ none := by
  rw [get?, ← Array.getElem?_toList] at hi
  rcases hi with hopen | hclose
  · obtain ⟨j, hj, _⟩ := h.paired.target?_opener hopen
    rw [hj]
    simp
  · obtain ⟨j, hj, _⟩ := h.paired.target?_closer hclose
    rw [hj]
    simp

/-- No jump of a parsed program leads nowhere. -/
theorem Parsed.fault?_ne_brokenJump (h : p.Parsed) (hi : p.get? m.ip = some i) (ip : Nat) :
    m.fault? p i ≠ some (.brokenJump ip) := by
  cases i with
  | right =>
    simp only [Machine.fault?]
    split <;> simp
  | left =>
    simp only [Machine.fault?]
    split <;> simp
  | loopOpen =>
    simp only [Machine.fault?]
    rw [if_neg fun hbroken => h.target?_ne_none (Or.inl hi) hbroken.2]
    simp
  | loopClose =>
    simp only [Machine.fault?]
    rw [if_neg fun hbroken => h.target?_ne_none (Or.inr hi) hbroken.2]
    simp
  | _ => simp [Machine.fault?]

theorem Parsed.ip_jump_lt (h : p.Parsed) (hlt : m.ip < p.size) : (m.jump p).ip < p.size := by
  simp only [Machine.jump]
  cases htarget : p.target? m.ip with
  | none => exact hlt
  | some target => exact h.target?_lt htarget

/-- Behind an executed instruction there is the next one, or the end of the program. -/
theorem Parsed.ip_perform_le (h : p.Parsed) (input : Array UInt8) (hi : p.get? m.ip = some i) :
    (m.perform p input i).ip ≤ p.size := by
  have hlt : m.ip < p.size := lt_size_of_get? hi
  have hjump := h.ip_jump_lt hlt
  cases i with
  | loopOpen =>
    simp only [Machine.perform, Machine.effect, Machine.advance]
    split
    · exact hjump
    · exact hlt
  | loopClose =>
    simp only [Machine.perform, Machine.effect, Machine.advance]
    split
    · exact hlt
    · exact hjump
  | input =>
    simp only [Machine.perform, Machine.effect, Machine.advance, Machine.read]
    split <;> exact hlt
  | _ => exact hlt

/-- A run stays within the program. -/
theorem Parsed.ip_le_of_path (h : p.Parsed) {input : Array UInt8} {rs : List Record} {m' : Machine}
    (hpath : Machine.Path p input m rs m') (hle : m.ip ≤ p.size) : m'.ip ≤ p.size := by
  induction hpath with
  | nil m => exact hle
  | cons hs _ ih =>
    obtain ⟨i, hi, _, rfl⟩ := Machine.eq_of_step_executed hs
    exact ih (h.ip_perform_le input hi)

theorem Parsed.step_ne_brokenJump (h : p.Parsed) {input : Array UInt8} {m' : Machine} {f : Fault}
    (hs : m.step p input = (.faulted f, m')) (ip : Nat) : f ≠ .brokenJump ip := by
  obtain ⟨i, hi, hf⟩ := Machine.fault?_of_step_faulted hs
  rintro rfl
  exact h.fault?_ne_brokenJump hi ip hf

end Program

/-! ## Sound interpreters -/

namespace Interpreter

open Machine

variable {config : Config} {p : Program} {it : Interpreter} {source : String}

/-- What holds of an interpreter for a configuration, whatever has been done with it. -/
structure Sound (config : Config) (it : Interpreter) : Prop where
  config_eq : it.config = config
  fits : it.machine.Fits config
  running : ∀ p, it.session = .running p → p.Parsed ∧ it.machine.ip ≤ p.size

theorem sound_fresh (hvalid : config.Valid) : Sound config (fresh config) where
  config_eq := rfl
  fits := fits_fresh hvalid
  running := by rintro _ ⟨⟩

theorem Sound.reset (h : Sound config it) (hvalid : config.Valid) : Sound config it.reset := by
  rw [Interpreter.reset, h.config_eq]
  exact sound_fresh hvalid

/-- A session that has just begun is sound. -/
theorem Sound.begun (h : Sound config it) (hvalid : config.Valid) (hp : p.Parsed) :
    Sound config (it.begun p) where
  config_eq := h.config_eq
  fits := (h.reset hvalid).fits
  running := by
    rintro q ⟨⟩
    exact ⟨hp, Nat.zero_le _⟩

/-- Everything a call can do: the session begins, goes on or is over. -/
theorem call_cases (it : Interpreter) (source : String) :
    (∃ f, it.session = .notStarted ∧ Program.parse source = .error f ∧
      it.step source = (.failed f, it.reset)) ∨
    (∃ p, it.session = .notStarted ∧ Program.parse source = .ok p ∧
      it.step source = (it.begun p).stepRunning p) ∨
    (∃ p, it.session = .running p ∧ it.step source = it.stepRunning p) ∨
    (it.session = .over ∧ it.step source = (.done it.machine.output, it)) := by
  rcases hsession : it.session with _ | p | _
  · cases hp : Program.parse source with
    | error f => exact Or.inl ⟨f, rfl, rfl, by simp only [step, hsession, hp]⟩
    | ok p => exact Or.inr (Or.inl ⟨p, rfl, rfl, by simp only [step, hsession, hp]; rfl⟩)
  · exact Or.inr (Or.inr (Or.inl ⟨p, rfl, step_of_running source hsession⟩))
  · exact Or.inr (Or.inr (Or.inr ⟨rfl, by simp only [step, hsession]⟩))

/-- The number of instructions that the step session has executed: none before it has begun,
whatever the machine was used for before. -/
def sessionCount (it : Interpreter) : Nat :=
  if it.session = .notStarted then 0 else it.machine.iterations

/-- A call executes one instruction or none, and counts it behind those of its session. -/
theorem iterations_step (it : Interpreter) (source : String) :
    (it.step source).2.machine.iterations =
      it.sessionCount + (match (it.step source).1 with | .stepped _ _ => 1 | _ => 0) := by
  have hrunning : ∀ (it : Interpreter) p, (it.stepRunning p).2.machine.iterations =
      it.machine.iterations + (match (it.stepRunning p).1 with | .stepped _ _ => 1 | _ => 0) := by
    intro it p
    rcases step_cases p it.config.input it.machine with
      ⟨hend, _⟩ | ⟨_, f, _, _, hstep⟩ | ⟨i, _, _, hstep⟩
    · rw [stepRunning_of_halted it hend]
      rfl
    · rw [stepRunning_of_faulted it hstep]
      rfl
    · rw [stepRunning_of_executed it hstep]
      exact iterations_perform _ _ _ _
  rcases call_cases it source with
    ⟨f, hs, _, hstep⟩ | ⟨p, hs, _, hstep⟩ | ⟨p, hs, hstep⟩ | ⟨hs, hstep⟩
  · rw [hstep, sessionCount, if_pos hs]
    rfl
  · rw [hstep, sessionCount, if_pos hs]
    exact hrunning _ _
  · rw [hstep, sessionCount, if_neg (by simp [hs])]
    exact hrunning _ _
  · rw [hstep, sessionCount, if_neg (by simp [hs])]
    rfl

theorem session_stepRunning (hs : it.session = .running p) :
    (it.stepRunning p).2.session ≠ .notStarted := by
  rcases step_cases p it.config.input it.machine with
    ⟨hend, _⟩ | ⟨_, f, _, _, hstep⟩ | ⟨i, _, _, hstep⟩
  · rw [stepRunning_of_halted it hend]
    simp
  · rw [stepRunning_of_faulted it hstep]
    simp
  · rw [stepRunning_of_executed it hstep]
    intro hidle
    cases hs.symm.trans hidle

/-- A call that executes an instruction leaves a session that has begun, and has counted it. -/
theorem begun_of_stepped {it' : Interpreter} {source : String} {r : Record} {out : Array UInt8}
    (h : it.step source = (.stepped r out, it')) :
    it'.session ≠ .notStarted ∧ it'.machine.iterations = it.sessionCount + 1 := by
  have hcount := iterations_step it source
  rw [h] at hcount
  refine ⟨?_, hcount⟩
  rcases call_cases it source with
    ⟨f, _, _, hstep⟩ | ⟨p, _, _, hstep⟩ | ⟨p, hs, hstep⟩ | ⟨_, hstep⟩
  · cases h.symm.trans hstep
  · have hbegun : ((it.begun p).stepRunning p).2.session ≠ .notStarted := session_stepRunning rfl
    rwa [← hstep, h] at hbegun
  · have hbegun := session_stepRunning hs
    rwa [← hstep, h] at hbegun
  · cases h.symm.trans hstep

/-- A call in a running session keeps the interpreter sound, and it does not fail at a jump. -/
theorem Sound.stepRunning (h : Sound config it) (hs : it.session = .running p) :
    Sound config (it.stepRunning p).2 ∧
      ∀ f, (it.stepRunning p).1 = .failed f → ∀ ip, f ≠ .brokenJump ip := by
  obtain ⟨hp, _⟩ := h.running p hs
  have hover : Sound config { it with session := .over } := ⟨h.config_eq, h.fits, by simp⟩
  rcases step_cases p it.config.input it.machine with
    ⟨hend, _⟩ | ⟨_, f, _, _, hstep⟩ | ⟨i, hi, hf, hstep⟩
  · rw [stepRunning_of_halted it hend]
    exact ⟨hover, by simp⟩
  · rw [stepRunning_of_faulted it hstep]
    refine ⟨hover, ?_⟩
    rintro f ⟨⟩
    exact hp.step_ne_brokenJump hstep
  · rw [stepRunning_of_executed it hstep]
    refine ⟨⟨h.config_eq, ?_, ?_⟩, by simp⟩
    · rw [h.config_eq]
      exact h.fits.perform hf
    · intro q hq
      cases hs.symm.trans hq
      exact ⟨hp, hp.ip_perform_le it.config.input hi⟩

/-- **One call** keeps the interpreter sound, and it does not fail at a jump. -/
theorem Sound.step (h : Sound config it) (hvalid : config.Valid) (source : String) :
    Sound config (it.step source).2 ∧
      ∀ f, (it.step source).1 = .failed f → ∀ ip, f ≠ .brokenJump ip := by
  rcases call_cases it source with
    ⟨f, _, hp, hstep⟩ | ⟨p, _, hp, hstep⟩ | ⟨p, hs, hstep⟩ | ⟨_, hstep⟩
  · rw [hstep]
    refine ⟨h.reset hvalid, ?_⟩
    rintro f ⟨⟩ ip rfl
    exact absurd (Program.category_of_parse_error hp) (by simp [Fault.category])
  · rw [hstep]
    exact (h.begun hvalid ⟨source, hp⟩).stepRunning rfl
  · rw [hstep]
    exact h.stepRunning hs
  · rw [hstep]
    exact ⟨h, by simp⟩

/-- **An execution** leaves a sound interpreter, and it does not fail at a jump. -/
theorem Sound.execute (h : Sound config it) (hvalid : config.Valid) (source : String) :
    Sound config (it.execute source).2 ∧
      ∀ e, (it.execute source).1 = .error e → ∀ ip, e.fault ≠ .brokenJump ip := by
  cases hp : Program.parse source with
  | error f =>
    rw [execute_of_parse_error it hp]
    refine ⟨h.reset hvalid, ?_⟩
    rintro e ⟨⟩ ip hbroken
    have hfamily := Program.category_of_parse_error hp
    rw [show f = .brokenJump ip from hbroken] at hfamily
    contradiction
  | ok p =>
    obtain ⟨rs, m, hpath, _, hcases⟩ := execute_cases it hp
    have hsettled : Sound config (it.settled rs m) := by
      rw [h.config_eq] at hpath
      exact ⟨h.config_eq, (fits_fresh hvalid).of_path hpath, by rintro _ ⟨⟩⟩
    rcases hcases with ⟨_, hexecute⟩ | ⟨f, hrefused, hexecute⟩
    · rw [hexecute]
      exact ⟨hsettled, by simp⟩
    · rw [hexecute]
      refine ⟨hsettled, ?_⟩
      rintro e ⟨⟩ ip
      rcases hrefused with ⟨_, hstep⟩ | ⟨_, _, rfl⟩
      · exact Program.Parsed.step_ne_brokenJump ⟨source, hp⟩ hstep ip
      · rintro ⟨⟩

/-! ## Whatever is kept -/

/-- A property of interpreters that calls, resets and executions keep, and one of the faults that
are reported. -/
structure Kept (P : Interpreter → Prop) (Q : Fault → Prop) : Prop where
  step : ∀ it source, P it → P (it.step source).2
  failed : ∀ it source f, P it → (it.step source).1 = .failed f → Q f
  ceiling : ∀ limit, Q (.ceiling limit)
  reset : ∀ it, P it → P it.reset
  execute : ∀ it source, P it → P (it.execute source).2
  executed : ∀ it source e, P it → (it.execute source).1 = .error e → Q e.fault

end Interpreter

namespace Debugger

open Interpreter

variable {P : Interpreter → Prop} {Q : Fault → Prop} {d : Debugger}

/-- A turn leaves an interpreter with the property, and what it reports has the other. -/
structure Turn.Upholds (P : Interpreter → Prop) (Q : Fault → Prop) (t : Turn) : Prop where
  left : P t.debugger.interpreter
  reported : ∀ f, t.ending = some (.failed f) → Q f

theorem upholds_fail {f : Fault} (hd : P d.interpreter) (hf : Q f) : (d.fail f).Upholds P Q := by
  refine ⟨hd, ?_⟩
  rintro f ⟨⟩
  exact hf

theorem upholds_finish (output : Array UInt8) (hd : P d.interpreter) :
    (d.finish output).Upholds P Q :=
  ⟨hd, by rintro _ ⟨⟩⟩

/-- A step of the debugger is a call, counted. -/
theorem upholds_step (hkept : Kept P Q) (hd : P d.interpreter) :
    P d.step.2.interpreter ∧ ∀ f, d.step.1 = .failed f → Q f := by
  have hnext := hkept.step d.interpreter d.code hd
  have hfailed := hkept.failed d.interpreter d.code
  rcases hstep : d.interpreter.step d.code with ⟨⟨r, out⟩ | ⟨out⟩ | ⟨f⟩, it⟩
  all_goals rw [hstep] at hnext hfailed
  · rw [step_of_stepped hstep]
    exact ⟨hnext, by simp⟩
  · rw [step_of_done hstep]
    exact ⟨hnext, by simp⟩
  · rw [step_of_failed hstep]
    exact ⟨hnext, fun f => hfailed f hd⟩

theorem upholds_proceed (hkept : Kept P Q) (hd : P d.interpreter) : d.proceed.Upholds P Q := by
  obtain ⟨hnext, hfailed⟩ := upholds_step hkept hd
  rw [proceed]
  split
  · exact upholds_fail hd (hkept.ceiling _)
  · rcases hstep : d.step with ⟨⟨r, out⟩ | ⟨out⟩ | ⟨f⟩, d'⟩
    all_goals rw [hstep] at hnext hfailed
    · exact ⟨hnext, by simp⟩
    · exact upholds_finish out hnext
    · exact upholds_fail hnext (hfailed f rfl)

theorem upholds_skipLoop (hkept : Kept P Q) (fuel : Nat) (hd : P d.interpreter) :
    (skipLoop fuel d).Upholds P Q := by
  induction fuel generalizing d with
  | zero => exact upholds_fail hd (hkept.ceiling _)
  | succ fuel ih =>
    obtain ⟨hnext, hfailed⟩ := upholds_step hkept hd
    rw [skipLoop]
    split
    · exact upholds_fail hd (hkept.ceiling _)
    · rcases hstep : d.step with ⟨⟨r, out⟩ | ⟨out⟩ | ⟨f⟩, d'⟩
      all_goals rw [hstep] at hnext hfailed
      · exact ih hnext
      · exact upholds_finish out hnext
      · exact upholds_fail hnext (hfailed f rfl)

theorem upholds_answer (hkept : Kept P Q) (hd : P d.interpreter) (reply : Reply) :
    (d.answer reply).Upholds P Q := by
  cases reply with
  | none => exact ⟨hd, by rintro _ ⟨⟩⟩
  | some line =>
    simp only [answer]
    split
    · exact upholds_proceed hkept hd
    · exact ⟨hd, by simp⟩
    · exact upholds_skipLoop hkept _ hd
    · exact ⟨hd, by simp⟩
    · exact ⟨hd, by simp⟩

/-- What every turn upholds, a whole conversation upholds. -/
theorem upholds_converse (hkept : Kept P Q) {t : Turn} (ht : t.Upholds P Q) (said : String)
    (replies : List Reply) :
    P (converse said t replies).debugger.interpreter ∧
      ∀ f, (converse said t replies).ending = .failed f → Q f := by
  induction replies generalizing said t with
  | nil =>
    obtain ⟨text, ending, debugger⟩ := t
    cases ending with
    | none => exact ⟨ht.left, by simp⟩
    | some ending =>
      refine ⟨ht.left, fun f hf => ht.reported f ?_⟩
      exact congrArg some hf
  | cons reply rest ih =>
    obtain ⟨text, ending, debugger⟩ := t
    cases ending with
    | none => exact ih (upholds_answer hkept ht.left reply) (said ++ text)
    | some ending =>
      refine ⟨ht.left, fun f hf => ht.reported f ?_⟩
      exact congrArg some hf

/-- Runs a debugger again and again, each time on a list of lines. -/
def runs : List (List Reply) → Debugger → List Talk × Debugger
  | [], d => ([], d)
  | script :: rest, d => ((d.run script) :: (runs rest (d.run script).debugger).1,
      (runs rest (d.run script).debugger).2)

theorem upholds_runs (hkept : Kept P Q) (scripts : List (List Reply)) (hd : P d.interpreter) :
    P (d.runs scripts).2.interpreter ∧
      ∀ talk ∈ (d.runs scripts).1, ∀ f, talk.ending = .failed f → Q f := by
  induction scripts generalizing d with
  | nil => exact ⟨hd, by simp [runs]⟩
  | cons script rest ih =>
    obtain ⟨hleft, hreported⟩ :=
      upholds_converse hkept (upholds_proceed hkept hd) greeting script
    obtain ⟨hrest, htalks⟩ := ih hleft
    refine ⟨hrest, ?_⟩
    intro talk htalk
    rcases List.mem_cons.mp htalk with rfl | hmem
    · exact hreported
    · exact htalks talk hmem

end Debugger

/-- What calls keep, an animation keeps. -/
theorem Viewer.upholds_animateLoop {P : Interpreter → Prop} {Q : Fault → Prop}
    (hkept : Interpreter.Kept P Q) (v : Viewer) (draw : Bool) (code : String) (fuel : Nat)
    (stop : Option Nat) {it : Interpreter} (hit : P it) (drawn : List String) :
    P (v.animateLoop draw code fuel stop it drawn).interpreter ∧
      ∀ f output, (v.animateLoop draw code fuel stop it drawn).ending = .failed f output →
        Q f := by
  induction fuel generalizing stop it drawn with
  | zero =>
    unfold animateLoop
    split
    · exact ⟨hit, by simp⟩
    · refine ⟨hit, ?_⟩
      rintro f output ⟨⟩
      exact hkept.ceiling _
  | succ fuel ih =>
    have hnext := hkept.step it code hit
    have hfailed := hkept.failed it code
    rw [animateLoop]
    split
    · exact ⟨hit, by simp⟩
    · split
      · refine ⟨hit, ?_⟩
        rintro f output ⟨⟩
        exact hkept.ceiling _
      · rcases hstep : it.step code with ⟨⟨r, out⟩ | ⟨out⟩ | ⟨f⟩, it'⟩
        all_goals rw [hstep] at hnext hfailed
        · exact ih _ hnext _
        · exact ⟨hnext, by simp⟩
        · refine ⟨hnext, ?_⟩
          rintro g output ⟨⟩
          exact hfailed f hit rfl

/-! ## Operations -/

/-- Something that can be done with an interpreter. -/
inductive Operation where
  | execute (source : String)
  | step (source : String)
  | reset
  | snapshot (start count : Nat)
  /-- Debugs a source, with one run of the debugger for each list of lines. -/
  | debug (source : String) (scripts : List (List Debugger.Reply))
  | animate (viewer : Viewer) (draw : Bool) (source : String) (stop : Option Nat)

/-- What an operation hands back. -/
inductive Answer where
  | execution (result : Execution)
  | outcome (outcome : Outcome)
  | nothing
  | cells (cells : Array UInt8)
  | talks (talks : List Debugger.Talk)
  | animation (ending : AnimationEnd) (frames : List String)

/-- The faults that an answer reports. -/
def Answer.faults : Answer → List Fault
  | execution (.error failure) => [failure.fault]
  | outcome (.failed fault) => [fault]
  | talks ts => ts.filterMap fun talk =>
      match talk.ending with
      | .failed fault => some fault
      | _ => none
  | animation (.failed fault _) _ => [fault]
  | _ => []

namespace Interpreter

variable {config : Config} {it : Interpreter}

/-- Does something with an interpreter. -/
def perform (it : Interpreter) : Operation → Answer × Interpreter
  | .execute source => ((.execution (it.execute source).1), (it.execute source).2)
  | .step source => (.outcome (it.step source).1, (it.step source).2)
  | .reset => (.nothing, it.reset)
  | .snapshot start count => (.cells (it.snapshot start count), it)
  | .debug source scripts =>
      let (talks, d) := (Debugger.start it source).runs scripts
      (.talks talks, d.interpreter)
  | .animate viewer draw source stop =>
      let a := viewer.animate draw source stop it
      (.animation a.ending a.frames, a.interpreter)

/-- A new interpreter, after any number of operations. -/
inductive Reachable (config : Config) : Interpreter → Prop
  | new {it : Interpreter} : new config = .ok it → Reachable config it
  | next {it : Interpreter} (operation : Operation) :
      Reachable config it → Reachable config (it.perform operation).2

/-- **One operation** keeps what calls, resets and executions keep, and so do its reports. -/
theorem Kept.perform {P : Interpreter → Prop} {Q : Fault → Prop} (hkept : Kept P Q) (h : P it)
    (operation : Operation) :
    P (it.perform operation).2 ∧ ∀ f ∈ (it.perform operation).1.faults, Q f := by
  cases operation with
  | execute source =>
    refine ⟨hkept.execute it source h, ?_⟩
    simp only [Interpreter.perform]
    cases hx : (it.execute source).1 with
    | ok c => simp [Answer.faults]
    | error e =>
      intro f hf
      rw [List.mem_singleton.mp hf]
      exact hkept.executed it source e h hx
  | step source =>
    refine ⟨hkept.step it source h, ?_⟩
    simp only [Interpreter.perform]
    cases hx : (it.step source).1 with
    | failed fault =>
      intro f hf
      rw [List.mem_singleton.mp hf]
      exact hkept.failed it source fault h hx
    | _ => simp [Answer.faults]
  | reset => exact ⟨hkept.reset it h, by simp [Interpreter.perform, Answer.faults]⟩
  | snapshot start count => exact ⟨h, by simp [Interpreter.perform, Answer.faults]⟩
  | debug source scripts =>
    obtain ⟨hleft, hfaults⟩ :=
      Debugger.upholds_runs hkept scripts (d := Debugger.start it source) (hkept.reset it h)
    refine ⟨hleft, ?_⟩
    intro f hf
    obtain ⟨talk, htalk, hending⟩ := List.mem_filterMap.mp hf
    refine hfaults talk htalk f ?_
    split at hending
    · next fault heq =>
      cases hending
      exact heq
    · contradiction
  | animate viewer draw source stop =>
    obtain ⟨hleft, hfault⟩ := viewer.upholds_animateLoop hkept draw source
      it.config.maxIterations stop h []
    refine ⟨hleft, ?_⟩
    simp only [Interpreter.perform, Viewer.animate]
    cases hx : (viewer.animateLoop draw source it.config.maxIterations stop it []).ending with
    | failed fault output =>
      intro f hf
      rw [List.mem_singleton.mp hf]
      exact hfault fault output hx
    | _ => simp [Answer.faults]

/-! ## Every reachable interpreter -/

theorem Reachable.valid (h : Reachable config it) : config.Valid := by
  induction h with
  | new hnew => exact (valid_of_new hnew).1
  | next _ _ ih => exact ih

/-- **Any number of operations** keeps what each of them keeps. -/
theorem Reachable.of_kept {P : Interpreter → Prop} {Q : Fault → Prop} (h : Reachable config it)
    (hkept : Kept P Q) (hfresh : P (fresh config)) : P it := by
  induction h with
  | new hnew =>
    obtain ⟨_, rfl⟩ := valid_of_new hnew
    exact hfresh
  | next operation _ ih => exact (hkept.perform ih operation).1

theorem kept_sound (hvalid : config.Valid) :
    Kept (Sound config) fun f => ∀ ip, f ≠ .brokenJump ip where
  step _ source h := (h.step hvalid source).1
  failed _ source f h hf := (h.step hvalid source).2 f hf
  ceiling _ := by simp
  reset _ h := h.reset hvalid
  execute _ source h := (h.execute hvalid source).1
  executed _ source e h he := (h.execute hvalid source).2 e he

theorem Reachable.sound (h : Reachable config it) : Sound config it :=
  h.of_kept (kept_sound h.valid) (sound_fresh h.valid)

/-- The machines from which an operation steps: a source begins on a fresh tape, and a running
session goes on where it stands. -/
inductive Begins (it : Interpreter) : Program → Machine → Prop
  | afresh {source : String} {p : Program} :
      Program.parse source = .ok p → Begins it p (.fresh it.config.memorySize)
  | onward {p : Program} : it.session = .running p → Begins it p it.machine

/-- Wherever an operation begins, all machines it comes through are in order. -/
theorem Sound.fits_of_begins (h : Sound config it) (hvalid : config.Valid) {p : Program}
    {m m' : Machine} {rs : List Record} (hbegins : it.Begins p m)
    (hpath : Machine.Path p config.input m rs m') : m'.Fits config ∧ m'.ip ≤ p.size := by
  cases hbegins with
  | afresh hp =>
    rw [h.config_eq] at hpath
    exact ⟨(Machine.fits_fresh hvalid).of_path hpath,
      Program.Parsed.ip_le_of_path ⟨_, hp⟩ hpath (Nat.zero_le _)⟩
  | onward hs =>
    obtain ⟨hp, hle⟩ := h.running p hs
    exact ⟨h.fits.of_path hpath, hp.ip_le_of_path hpath hle⟩

/-- **What holds of every interpreter that can be reached.**

* The configuration is the one it was made with.  The tape has its length, the head is on it, the
  input is not overread and no more bytes have been written than instructions executed.
* The program of a running session has been parsed, and the next instruction is one of it, unless
  it has ended.
* All this also holds in the middle of an operation: of every machine it comes through.  So the
  cell that an instruction reads or writes, the one under the head, is always a cell of the tape,
  and so is every cell of a copy.
* No operation reports a bracket without a partner. -/
theorem reachable_invariant (h : Reachable config it) :
    it.config = config ∧
    it.machine.tape.size = config.memorySize ∧
    it.machine.head < it.machine.tape.size ∧
    it.machine.cursor ≤ config.input.size ∧
    it.machine.output.size ≤ it.machine.iterations ∧
    (∀ p, it.session = .running p →
      (∃ source, Program.parse source = .ok p) ∧ it.machine.ip ≤ p.size) ∧
    (∀ p m rs m', it.Begins p m → Machine.Path p config.input m rs m' →
      m'.Fits config ∧ m'.ip ≤ p.size ∧ m'.tape[m'.head]? = some m'.cell) ∧
    (∀ start count k value, (it.snapshot start count)[k]? = some value →
      it.machine.tape[start + k]? = some value) ∧
    ∀ operation, ∀ f ∈ (it.perform operation).1.faults, ∀ ip, f ≠ .brokenJump ip := by
  have hsound := h.sound
  have hfits := hsound.fits
  refine ⟨hsound.config_eq, hfits.size_tape, hfits.head_lt, hfits.cursor_le,
    hfits.size_output_le, hsound.running, ?_, ?_, ?_⟩
  · intro p m rs m' hbegins hpath
    obtain ⟨hfits', hip⟩ := hsound.fits_of_begins h.valid hbegins hpath
    exact ⟨hfits', hip, hfits'.getElem?_head⟩
  · intro start count k value hk
    rw [snapshot, Machine.snapshot, Array.getElem?_extract] at hk
    split at hk
    · exact hk
    · contradiction
  · intro operation
    exact ((kept_sound h.valid).perform hsound operation).2

/-- An interpreter whose last animation was interrupted inside a loop, after an execution that ran
off the tape. -/
theorem reachable_invariant_interrupted :
    ∃ it p, Reachable { memorySize := 2, maxIterations := 9 } it ∧ it.session = .running p ∧
      it.machine.ip ≤ p.size ∧ it.machine.head < it.machine.tape.size ∧
      ∀ operation, ∀ f ∈ (it.perform operation).1.faults, ∀ ip, f ≠ .brokenJump ip := by
  have hnew : Reachable { memorySize := 2, maxIterations := 9 }
      (fresh { memorySize := 2, maxIterations := 9 }) := .new rfl
  have h := (hnew.next (.execute "+[>+]")).next (.animate {} false "+[-+]" (some 3))
  obtain ⟨p, hp⟩ : ∃ p, ((((fresh { memorySize := 2, maxIterations := 9 }).perform
      (.execute "+[>+]")).2).perform (.animate {} false "+[-+]" (some 3))).2.session =
        .running p := ⟨_, rfl⟩
  obtain ⟨_, _, hhead, _, _, hrunning, _, _, hfaults⟩ := reachable_invariant h
  exact ⟨_, p, h, hp, (hrunning p hp).2, hhead, hfaults⟩

end Interpreter

end TapeTutor
