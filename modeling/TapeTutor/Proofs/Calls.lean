import TapeTutor.Proofs.Afresh

/-!
# Consecutive calls, each with a source of its own

Every call of `step` is given a source, but a session reads only one.  Which one, and what becomes
of the others, is the protocol of a session.

* As long as the sources do not parse, there is no session.  A call fails with what is wrong with
  its source and starts over (`calls_of_notStarted` says that this leaves no trace).
* The first source that parses begins the session.  From then on the sources are not looked at
  (`step_eq_step_of_begun`), so the calls are those of that source alone
  (`getElem?_calls_of_begun`).
* A call that finds the program at its end, or an instruction that cannot be executed, closes the
  session (`over_of_closes`).  Every later call says that it is over and changes nothing
  (`calls_of_over`).

`Interpreter.calls` lists what consecutive calls come to.  A call sees the past only through the
interpreter it is given, so the list can be cut behind any call (`getElem?_calls_add`), and each
part of the protocol is about one stretch of it.
-/

namespace TapeTutor

/-- Behind a call with this outcome there is nothing to execute: the program is over, or an
instruction has failed.  A source that does not parse closes nothing. -/
def Outcome.Closes : Outcome → Prop
  | .stepped _ _ => False
  | .done _ => True
  | .failed fault => fault.category ≠ .syntactic

/-- None of the sources is a program. -/
def Program.NoneParses (sources : List String) : Prop :=
  ∀ source ∈ sources, ∃ f, Program.parse source = .error f

namespace Interpreter

open Machine

variable {it it' : Interpreter} {source : String} {sources : List String} {p : Program}
  {o : Outcome}

/-- What consecutive calls come to, one for each source, and the interpreter each of them
leaves. -/
def calls : List String → Interpreter → List (Outcome × Interpreter)
  | [], _ => []
  | source :: rest, it => it.step source :: calls rest (it.step source).2

theorem length_calls (sources : List String) (it : Interpreter) :
    (it.calls sources).length = sources.length := by
  induction sources generalizing it with
  | nil => rfl
  | cons source rest ih => rw [calls, List.length_cons, ih, List.length_cons]

/-- Behind a call, the rest of the calls is made of the interpreter it has left. -/
theorem getElem?_calls_add {i : Nat} (h : (it.calls sources)[i]? = some (o, it')) (n : Nat) :
    (it.calls sources)[i + 1 + n]? = (it'.calls (sources.drop (i + 1)))[n]? := by
  induction sources generalizing it i with
  | nil => simp [calls] at h
  | cons source rest ih =>
    rw [calls] at h ⊢
    rw [List.drop_succ_cons]
    cases i with
    | zero =>
      rw [List.getElem?_cons_zero, Option.some.injEq] at h
      rw [Nat.zero_add, Nat.add_comm 1 n, List.getElem?_cons_succ, List.drop_zero, h]
    | succ i =>
      rw [List.getElem?_cons_succ] at h
      rw [show i + 1 + 1 + n = i + 1 + n + 1 by omega, List.getElem?_cons_succ]
      exact ih h

/-- Each of the calls is a call of some interpreter with the same configuration. -/
theorem exists_step_of_calls {i : Nat} (h : (it.calls sources)[i]? = some (o, it')) :
    ∃ (before : Interpreter) (source : String), before.config = it.config ∧
      before.step source = (o, it') := by
  induction sources generalizing it i with
  | nil => simp [calls] at h
  | cons source rest ih =>
    rw [calls] at h
    cases i with
    | zero =>
      rw [List.getElem?_cons_zero, Option.some.injEq] at h
      exact ⟨it, source, rfl, h⟩
    | succ i =>
      rw [List.getElem?_cons_succ] at h
      obtain ⟨before, given, hconfig, hstep⟩ := ih h
      exact ⟨before, given, hconfig.trans (config_step it source), hstep⟩

/-! ## Before the session -/

/-- A call on a source that does not parse starts over. -/
theorem step_of_parse_error {f : Fault} (hidle : it.session = .notStarted)
    (hp : Program.parse source = .error f) : it.step source = (.failed f, it.reset) := by
  rw [step_of_notStarted hidle, step_reset_of_parse_error it hp]

/-- Without a session, calls look at nothing but the configuration. -/
theorem calls_of_notStarted (hidle : it.session = .notStarted) (sources : List String) :
    it.calls sources = it.reset.calls sources := by
  cases sources with
  | nil => rfl
  | cons source rest => rw [calls, calls, step_of_notStarted hidle]

/-- Sources that do not parse can be left out: behind them the calls are those of a new
interpreter. -/
theorem getElem?_calls_of_noneParses (hidle : it.session = .notStarted) {k : Nat}
    (hk : k ≤ sources.length) (hnone : Program.NoneParses (sources.take k)) (i : Nat) :
    (it.calls sources)[k + i]? = (it.reset.calls (sources.drop k))[i]? := by
  -- every failed call starts over, so the interpreter has to be general
  induction k generalizing it sources with
  | zero => rw [Nat.zero_add, List.drop_zero, calls_of_notStarted hidle]
  | succ k ih =>
    cases sources with
    | nil => simp at hk
    | cons source rest =>
      obtain ⟨f, hp⟩ := hnone source (by simp)
      have hrest : Program.NoneParses (rest.take k) := fun s hs =>
        hnone s (by rw [List.take_succ_cons]; exact List.mem_cons_of_mem _ hs)
      rw [calls, step_of_parse_error hidle hp, Nat.add_right_comm, List.getElem?_cons_succ,
        List.drop_succ_cons]
      exact ih rfl (Nat.le_of_succ_le_succ hk) hrest

/-! ## In the session -/

/-- Once the session has begun, a call does not look at its source. -/
theorem step_eq_step_of_begun (hbegun : it.session ≠ .notStarted) (source source' : String) :
    it.step source = it.step source' := by
  unfold step
  split
  · contradiction
  · rfl
  · rfl

/-- A session that has begun stays so. -/
theorem begun_step (hbegun : it.session ≠ .notStarted) (source : String) :
    (it.step source).2.session ≠ .notStarted := by
  rcases call_cases it source with
    ⟨f, hs, _, _⟩ | ⟨p, hs, _, _⟩ | ⟨p, hs, hstep⟩ | ⟨hs, hstep⟩
  · contradiction
  · contradiction
  · rw [hstep]
    exact session_stepRunning hs
  · rw [hstep]
    exact hbegun

/-- A source that parses begins the session. -/
theorem begun_step_of_parse_ok (hp : Program.parse source = .ok p) :
    (it.step source).2.session ≠ .notStarted := by
  rcases call_cases it source with
    ⟨f, _, hf, _⟩ | ⟨q, _, _, hstep⟩ | ⟨q, hs, hstep⟩ | ⟨hs, hstep⟩
  · cases hp.symm.trans hf
  · rw [hstep]
    exact session_stepRunning rfl
  · rw [hstep]
    exact session_stepRunning hs
  · rw [hstep, hs]
    simp

/-- Calls in a session are calls with one and the same source. -/
theorem getElem?_calls_of_begun (hbegun : it.session ≠ .notStarted) (source : String) {i : Nat}
    (hi : i < sources.length) :
    (it.calls sources)[i]? = some ((it.afterSteps source i).step source) := by
  induction sources generalizing it i with
  | nil => simp at hi
  | cons given rest ih =>
    rw [calls, step_eq_step_of_begun hbegun given source]
    cases i with
    | zero => rfl
    | succ i =>
      rw [List.getElem?_cons_succ]
      exact ih (begun_step hbegun source) (Nat.lt_of_succ_lt_succ hi)

/-- The source that begins a session decides about all calls. -/
theorem getElem?_calls_of_parse_ok (hp : Program.parse source = .ok p) {i : Nat}
    (hi : i < (source :: sources).length) :
    (it.calls (source :: sources))[i]? = some ((it.afterSteps source i).step source) := by
  rw [calls]
  cases i with
  | zero => rfl
  | succ i =>
    rw [List.getElem?_cons_succ]
    exact getElem?_calls_of_begun (begun_step_of_parse_ok hp) source
      (Nat.lt_of_succ_lt_succ hi)

/-! ## Behind the session -/

theorem over_of_stepRunning (h : it.stepRunning p = (o, it')) (hcloses : o.Closes) :
    it'.session = .over ∧ ∀ output, o = .done output → it'.machine.output = output := by
  rcases step_cases p it.config.input it.machine with
    ⟨hend, _⟩ | ⟨_, f, _, _, hstep⟩ | ⟨i, _, _, hstep⟩
  · cases h.symm.trans (stepRunning_of_halted it hend)
    exact ⟨rfl, by rintro output ⟨⟩; rfl⟩
  · cases h.symm.trans (stepRunning_of_faulted it hstep)
    exact ⟨rfl, by rintro output ⟨⟩⟩
  · cases h.symm.trans (stepRunning_of_executed it hstep)
    exact hcloses.elim

/-- A call that closes the session leaves it over, and has handed out what the program wrote. -/
theorem over_of_closes (h : it.step source = (o, it')) (hcloses : o.Closes) :
    it'.session = .over ∧ ∀ output, o = .done output → it'.machine.output = output := by
  rcases call_cases it source with
    ⟨f, _, hf, hstep⟩ | ⟨p, _, _, hstep⟩ | ⟨p, _, hstep⟩ | ⟨hs, hstep⟩
  · cases h.symm.trans hstep
    exact absurd (Program.category_of_parse_error hf) hcloses
  · exact over_of_stepRunning (hstep.symm.trans h) hcloses
  · exact over_of_stepRunning (hstep.symm.trans h) hcloses
  · cases h.symm.trans hstep
    exact ⟨hs, by rintro output ⟨⟩; rfl⟩

/-- When the session is over, every call says so and changes nothing. -/
theorem calls_of_over (hover : it.session = .over) (sources : List String) :
    it.calls sources = sources.map fun _ => (.done it.machine.output, it) := by
  induction sources with
  | nil => rfl
  | cons source rest ih =>
    have hstep : it.step source = (.done it.machine.output, it) := by simp only [step, hover]
    rw [calls, hstep, ih, List.map_cons]

theorem session_execute (it : Interpreter) (source : String) :
    (it.execute source).2.session = .notStarted := by
  unfold execute
  split <;> rfl

theorem config_execute (it : Interpreter) (source : String) :
    (it.execute source).2.config = it.config := by
  unfold execute
  split <;> rfl

/-! ## The protocol -/

/-- **The protocol of a session.**  Take any interpreter without a session and any list of sources,
and call `step` once for each of them.

* Every call comes to something, and after a reset or an execution, behind whatever call, the calls
  are again those of the interpreter at the beginning.
* A source that does not parse, and has none before it that does, fails with its own fault.  It
  leaves a reset interpreter, and no program is running on it.
* From the first source on that parses, the calls come to what repeated calls with this source come
  to on a new interpreter, and leave the same, whatever the later sources are.
* Behind a call that has found the program over or an instruction that cannot be executed, every
  call says that the program is over, with the output written up to there, and changes nothing. -/
theorem calls_protocol (it : Interpreter) (hidle : it.session = .notStarted)
    (sources : List String) :
    ((it.calls sources).length = sources.length ∧
      ∀ (i : Nat) (o : Outcome) (it' : Interpreter), (it.calls sources)[i]? = some (o, it') →
        ∀ later, it'.reset.calls later = it.calls later ∧
          ∀ source, (it'.execute source).2.calls later = it.calls later) ∧
    (∀ (k : Nat) source f, Program.NoneParses (sources.take k) → sources[k]? = some source →
      Program.parse source = .error f →
        (it.calls sources)[k]? = some (.failed f, it.reset) ∧ it.reset = fresh it.config ∧
          it.reset.program? = none) ∧
    (∀ (k : Nat) source p, Program.NoneParses (sources.take k) → sources[k]? = some source →
      Program.parse source = .ok p → ∀ i, k + i < sources.length →
        (it.calls sources)[k + i]? =
          some (((fresh it.config).afterSteps source i).step source)) ∧
    ∀ (i : Nat) (o : Outcome) (it' : Interpreter), (it.calls sources)[i]? = some (o, it') →
      o.Closes →
      (∀ output, o = .done output → it'.machine.output = output) ∧
        ∀ n, i + 1 + n < sources.length →
          (it.calls sources)[i + 1 + n]? = some (.done it'.machine.output, it') := by
  refine ⟨⟨length_calls sources it, ?_⟩, ?_, ?_, ?_⟩
  · intro i o it' h later
    obtain ⟨before, given, hbefore, hstep⟩ := exists_step_of_calls h
    have hconfig : it'.config = it.config := by
      rw [← hbefore, ← config_step before given, hstep]
    have hreset : it'.reset = it.reset := by rw [reset, reset, hconfig]
    rw [calls_of_notStarted hidle, hreset]
    refine ⟨rfl, fun source => ?_⟩
    rw [calls_of_notStarted (session_execute it' source), reset, config_execute, hconfig, reset]
  · intro k source f hnone hk hf
    obtain ⟨hlt, hget⟩ := List.getElem?_eq_some_iff.mp hk
    have hcall := getElem?_calls_of_noneParses hidle (Nat.le_of_lt hlt) hnone 0
    rw [List.drop_eq_getElem_cons hlt, hget, calls, List.getElem?_cons_zero,
      step_of_parse_error rfl hf] at hcall
    exact ⟨hcall, rfl, rfl⟩
  · intro k source p hnone hk hp i hi
    obtain ⟨hlt, hget⟩ := List.getElem?_eq_some_iff.mp hk
    have hlen : i < (sources.drop k).length := by
      rw [List.length_drop]
      omega
    rw [getElem?_calls_of_noneParses hidle (Nat.le_of_lt hlt) hnone i]
    rw [List.drop_eq_getElem_cons hlt, hget] at hlen ⊢
    exact getElem?_calls_of_parse_ok hp hlen
  · intro i o it' h hcloses
    obtain ⟨before, given, _, hstep⟩ := exists_step_of_calls h
    obtain ⟨hover, houtput⟩ := over_of_closes hstep hcloses
    refine ⟨houtput, fun n hn => ?_⟩
    have hlen : n < (sources.drop (i + 1)).length := by
      rw [List.length_drop]
      omega
    rw [getElem?_calls_add h n, calls_of_over hover, List.getElem?_map,
      List.getElem?_eq_getElem hlen, Option.map_some]

/-- The second source begins a session that fails behind its output, and the sources after it are
no programs. -/
theorem calls_protocol_failing :
    ∃ last, ((fresh { memorySize := 1 }).calls ["]", "+.>-", "]", "x", "[", "."])[0]? =
        some (.failed (.unmatched .closing 0), fresh { memorySize := 1 }) ∧
      ((fresh { memorySize := 1 }).calls ["]", "+.>-", "]", "x", "[", "."])[3]? =
        some (.failed (.overflow 2 0), last) ∧
      ((fresh { memorySize := 1 }).calls ["]", "+.>-", "]", "x", "[", "."])[5]? =
        some (.done #[1], last) := by
  obtain ⟨_, hrefused, _, hclosed⟩ := calls_protocol (fresh { memorySize := 1 }) rfl
    ["]", "+.>-", "]", "x", "[", "."]
  obtain ⟨last, hfailed, hwritten⟩ : ∃ last,
      ((fresh { memorySize := 1 }).calls ["]", "+.>-", "]", "x", "[", "."])[3]? =
        some (.failed (.overflow 2 0), last) ∧ last.machine.output = #[1] := ⟨_, rfl, rfl⟩
  have hcloses : (Outcome.failed (.overflow 2 0)).Closes := by simp [Outcome.Closes, Fault.category]
  have hdone := (hclosed 3 _ last hfailed hcloses).2 1 (by decide)
  rw [hwritten] at hdone
  exact ⟨last, (hrefused 0 "]" _ (by simp [Program.NoneParses]) rfl rfl).1, hfailed, hdone⟩

end Interpreter

end TapeTutor
