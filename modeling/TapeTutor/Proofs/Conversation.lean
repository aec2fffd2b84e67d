import TapeTutor.Proofs.Reachable

/-!
# What a debugger shows

A debugger executes one instruction, shows what it found, and waits for a line.  Some lines lead
to the next instruction, some do not, and some end the run; so what is shown depends on the lines,
and what the lines do depends on the program.

`Debugger.turns` takes a run apart: it lists its turns, the first step and then one turn for every
line that is answered.  The text of a run is what its turns say, one after the other
(`run_eq_turns`), so that a step is shown where a turn says so (`Turn.displays`).  What a turn can
say is written out here, apart from the debugger: `stepText` is the two lines of a step, and
`Turn.Remarks` is everything else.  No turn says anything but these (`remarks_of_mem_turns`).

The debugger of a parsed source stands on a path of the machine at every prompt
(`Debugger.along`).  `Debugger.Talks` is the protocol of a conversation that begins there.  There
are three kinds of turns:

* one that changes nothing and shows no step;
* one that shows the next step of the path, for the command to do so;
* one that ends the run and shows no step.

Every run follows the protocol (`talks_turns`), and everything else is read off it, by induction:
which steps are shown, what they count, where a user who leaves has come to, and that nothing is
shown behind a skip.
-/

namespace TapeTutor

namespace Debugger

open Interpreter Machine

/-! ## Turns -/

/-- A turn, and what comes behind it if it does not end the run. -/
def Turn.andThen (t : Turn) (rest : Debugger → List Turn) : List Turn :=
  match t.ending with
  | some _ => [t]
  | none => t :: rest t.debugger

/-- The turns that answer the lines of the user, from a prompt on. -/
def follow : List Reply → Debugger → List Turn
  | [], _ => []
  | reply :: rest, d => (d.answer reply).andThen (follow rest)

/-- The turns of a run: the first step, and one for every line that is answered. -/
def turns (d : Debugger) (replies : List Reply) : List Turn :=
  d.proceed.andThen (follow replies)

theorem andThen_of_some {t : Turn} {e : DebugEnd} (h : t.ending = some e)
    (rest : Debugger → List Turn) : t.andThen rest = [t] := by
  simp only [Turn.andThen, h]

theorem andThen_of_none {t : Turn} (h : t.ending = none) (rest : Debugger → List Turn) :
    t.andThen rest = t :: rest t.debugger := by
  simp only [Turn.andThen, h]

/-- What is written behind the last turn: a user who leaves without a word ends the line. -/
def farewell (t : Turn) : String := if t.ending = none then "\n" else ""

/-- A conversation says what its turns say, and it ends as the last of them does. -/
theorem converse_eq_turns (said : String) (t : Turn) (replies : List Reply) :
    ∃ last, (t.andThen (follow replies)).getLast? = some last ∧
      converse said t replies =
        ⟨last.ending.getD .quit,
          said ++ String.join ((t.andThen (follow replies)).map Turn.text) ++ farewell last,
          last.debugger⟩ := by
  induction replies generalizing said t with
  | nil =>
    obtain ⟨text, ending, d⟩ := t
    refine ⟨⟨text, ending, d⟩, ?_, ?_⟩
    · cases ending <;> rfl
    · cases ending with
      | none => simp [andThen_of_none, follow, farewell]
      | some e => simp [andThen_of_some, farewell]
  | cons reply rest ih =>
    obtain ⟨text, ending, d⟩ := t
    cases ending with
    | some e =>
      refine ⟨⟨text, some e, d⟩, rfl, ?_⟩
      rw [converse_ended]
      simp [andThen_of_some, farewell]
    | none =>
      obtain ⟨last, hlast, hconverse⟩ := ih (said ++ text) (d.answer reply)
      refine ⟨last, ?_, ?_⟩
      · rw [andThen_of_none rfl, follow, List.getLast?_cons, hlast, Option.getD_some]
      · rw [converse_cons, andThen_of_none rfl, List.map_cons, String.join_cons,
          ← String.append_assoc]
        exact hconverse

/-- **A run says what its turns say.** -/
theorem run_eq_turns (d : Debugger) (replies : List Reply) :
    ∃ last, (d.turns replies).getLast? = some last ∧
      d.run replies =
        ⟨last.ending.getD .quit,
          greeting ++ String.join ((d.turns replies).map Turn.text) ++ farewell last,
          last.debugger⟩ :=
  converse_eq_turns greeting d.proceed replies

/-! ## Shown steps -/

/-- The turn shows a step: what it says begins that way. -/
def Turn.displays (t : Turn) : Bool := "Step ".toList.isPrefixOf t.text.toList

theorem displays_shownStep (n : Nat) (r : Record) (ending : Option DebugEnd) (d : Debugger) :
    Turn.displays ⟨shownStep n r ++ prompt, ending, d⟩ = true := by
  unfold shownStep
  simp [Turn.displays]

theorem displays_eq_false {t : Turn} (h : t.text.toList.head? ≠ some 'S') :
    t.displays = false := by
  have hword : "Step ".toList = ['S', 't', 'e', 'p', ' '] := by simp
  rw [Turn.displays, hword]
  cases htext : t.text.toList with
  | nil => rfl
  | cons c rest =>
    rw [htext] at h
    have hne : ('S' == c) = false := by simpa using fun heq => h (congrArg some heq.symm)
    rw [List.isPrefixOf, hne, Bool.false_and]

/-- The two lines that show step number `n`, what its record holds, and the prompt. -/
def stepText (n : Nat) (r : Record) : String :=
  "Step " ++ toString n ++ ": " ++ String.singleton r.instruction.toChar ++ " at position " ++
    toString r.ip ++
    "\nMemory[" ++ toString r.pointer ++ "] = " ++ toString r.value.toNat ++ "\n" ++ "> "

theorem shownStep_append_prompt (n : Nat) (r : Record) :
    shownStep n r ++ prompt = stepText n r := rfl

/-! ## Commands -/

/-- The command that a line stands for, if it stands for one. -/
def commandOf? (reply : Reply) : Option Command := reply.bind Command.parse?

theorem commandOf?_some (line : String) : commandOf? (some line) = Command.parse? line :=
  Option.bind_some line _

/-- Whether a line is one of the words, with any blanks around it. -/
def isOneOf (words : List String) : Reply → Bool
  | none => false
  | some line => words.contains (Text.trim line)

/-- The words for a command. -/
def Command.words : Command → List String
  | next => ["", "n", "next"]
  | memory => ["m", "memory"]
  | skip => ["s", "skip"]
  | quit => ["q", "quit"]

theorem commandOf?_eq_some_iff {reply : Reply} {c : Command} :
    commandOf? reply = some c ↔ isOneOf c.words reply = true := by
  cases reply with
  | none => simp [commandOf?, isOneOf]
  | some line =>
    simp only [commandOf?, Option.bind_some, Command.parse?, isOneOf]
    generalize Text.trim line = word
    unfold Command.ofTrimmed?
    cases c <;> grind [Command.words]

/-! ## Remarks -/

/-- What a turn says that shows no step, by how it leaves the run: the leading cells or a line that
was not understood at the prompt, and otherwise the reason for which the run ends. -/
def Turn.Remarks (t : Turn) : Prop :=
  match t.ending with
  | none =>
      t.text = "Memory snapshot:\n" ++ Text.listBytes (t.debugger.interpreter.snapshot 0 30) ++
        "\n> " ∨
      ∃ word, t.text = "Unknown command '" ++ word ++ "'. Use n, m, s or q\n> "
  | some .quit => t.text = "Debugging stopped\n"
  | some .unreadable => t.text = ""
  | some (.finished output) =>
      t.text = "Program finished\nOutput: " ++ Text.showBytes output ++ "\n"
  | some (.failed fault) =>
      let output := t.debugger.interpreter.machine.output
      t.text = "Error: " ++ fault.message ++ "\n" ++
        if output.isEmpty then "" else "Partial output: " ++ Text.showBytes output ++ "\n"

/-- No remark begins as a step does. -/
theorem Turn.Remarks.displays_eq_false {t : Turn} (h : t.Remarks) : t.displays = false := by
  apply Debugger.displays_eq_false
  unfold Turn.Remarks at h
  split at h
  · rcases h with h | ⟨word, h⟩
    · rw [h]
      generalize Text.listBytes _ = cells
      simp
    · rw [h]
      simp
  · rw [h]
    simp
  · rw [h]
    simp
  · rw [h]
    generalize Text.showBytes _ = written
    simp
  · rw [h]
    simp

theorem remarks_fail (d : Debugger) (f : Fault) : (d.fail f).Remarks := rfl

theorem remarks_finish (d : Debugger) (output : Array UInt8) : (d.finish output).Remarks := rfl

/-- Everything that the next step can be answered with: a failure, the end of the program, or the
step that is shown. -/
theorem proceed_cases (d : Debugger) :
    (∃ d' f, d.proceed = fail d' f) ∨ (∃ d' output, d.proceed = finish d' output) ∨
      ∃ d' r, d.proceed = ⟨shownStep d.steps r ++ prompt, none, d'⟩ := by
  unfold proceed
  split
  · exact Or.inl ⟨d, _, rfl⟩
  · split
    · exact Or.inr (Or.inr ⟨_, _, rfl⟩)
    · exact Or.inr (Or.inl ⟨_, _, rfl⟩)
    · exact Or.inl ⟨_, _, rfl⟩

/-- Skipping comes to a failure or to the end of the program. -/
theorem skipLoop_cases (fuel : Nat) (d : Debugger) :
    (∃ d' f, skipLoop fuel d = fail d' f) ∨ ∃ d' output, skipLoop fuel d = finish d' output := by
  induction fuel generalizing d with
  | zero => exact Or.inl ⟨d, _, rfl⟩
  | succ fuel ih =>
    rw [skipLoop]
    split
    · exact Or.inl ⟨d, _, rfl⟩
    · split
      · exact ih _
      · exact Or.inr ⟨_, _, rfl⟩
      · exact Or.inl ⟨_, _, rfl⟩

theorem remarks_skip (d : Debugger) : d.skip.Remarks := by
  rcases skipLoop_cases d.interpreter.config.maxIterations d with ⟨d', f, h⟩ | ⟨d', output, h⟩
  · rw [skip, h]
    exact remarks_fail d' f
  · rw [skip, h]
    exact remarks_finish d' output

/-- Only the command for the next step shows one; every other line is answered by a remark. -/
theorem remarks_answer (d : Debugger) {reply : Reply} (h : commandOf? reply ≠ some .next) :
    (d.answer reply).Remarks := by
  cases reply with
  | none => rfl
  | some line =>
    simp only [answer]
    split
    · next hparse => exact absurd ((commandOf?_some line).trans hparse) h
    · refine Or.inl ?_
      simp [prompt, memoryCells, String.append_assoc]
    · exact remarks_skip d
    · rfl
    · refine Or.inr ⟨Text.trim line, ?_⟩
      simp [prompt, String.append_assoc]

theorem answer_of_next (d : Debugger) {reply : Reply} (h : commandOf? reply = some .next) :
    d.answer reply = d.proceed := by
  cases reply with
  | none => contradiction
  | some line =>
    rw [commandOf?_some] at h
    simp only [answer, h]

theorem mem_andThen {t t' : Turn} {rest : Debugger → List Turn} (h : t' ∈ t.andThen rest) :
    t' = t ∨ t' ∈ rest t.debugger := by
  cases hending : t.ending with
  | some e =>
    rw [andThen_of_some hending] at h
    exact Or.inl (List.mem_singleton.mp h)
  | none =>
    rw [andThen_of_none hending] at h
    exact List.mem_cons.mp h

/-- The turns behind the first are answers. -/
theorem mem_follow {replies : List Reply} {d : Debugger} {t : Turn} (ht : t ∈ follow replies d) :
    ∃ d' reply, t = answer d' reply := by
  induction replies generalizing d with
  | nil => contradiction
  | cons reply rest ih =>
    rcases mem_andThen ht with rfl | ht
    · exact ⟨d, reply, rfl⟩
    · exact ih ht

/-- **A run says nothing else**: every turn that shows no step is one of the remarks. -/
theorem remarks_of_mem_turns {d : Debugger} {replies : List Reply} {t : Turn}
    (ht : t ∈ d.turns replies) (hquiet : t.displays = false) : t.Remarks := by
  have hproceed : ∀ d : Debugger, d.proceed.displays = false → d.proceed.Remarks := by
    intro d hquiet
    rcases proceed_cases d with ⟨d', f, h⟩ | ⟨d', output, h⟩ | ⟨d', r, h⟩
    · exact h ▸ remarks_fail d' f
    · exact h ▸ remarks_finish d' output
    · rw [h, displays_shownStep] at hquiet
      contradiction
  rcases mem_andThen ht with rfl | ht
  · exact hproceed d hquiet
  · obtain ⟨d', reply, rfl⟩ := mem_follow ht
    by_cases hnext : commandOf? reply = some .next
    · rw [answer_of_next d' hnext] at hquiet ⊢
      exact hproceed d' hquiet
    · exact remarks_answer d' hnext

/-! ## Skipping without counting

The number of instructions that `skip` may execute is never felt: the ceiling stops it first. -/

/-- Any number of instructions that covers what the ceiling leaves is enough. -/
theorem skipLoop_eq_skipLoop {d : Debugger} (hs : d.interpreter.session ≠ .notStarted)
    {fuel fuel' : Nat}
    (h : d.interpreter.config.maxIterations ≤ d.interpreter.machine.iterations + fuel)
    (h' : d.interpreter.config.maxIterations ≤ d.interpreter.machine.iterations + fuel') :
    skipLoop fuel d = skipLoop fuel' d := by
  induction fuel generalizing d fuel' with
  | zero =>
    have hspent : d.spent = true := spent_eq_true (by omega)
    cases fuel' with
    | zero => rfl
    | succ fuel' => rw [skipLoop, skipLoop, hspent, if_pos rfl]
  | succ fuel ih =>
    by_cases hlt : d.interpreter.machine.iterations < d.interpreter.config.maxIterations
    · obtain ⟨fuel', rfl⟩ : ∃ n, fuel' = n + 1 := ⟨fuel' - 1, by omega⟩
      have hconfig := config_step d.interpreter d.code
      rw [skipLoop, skipLoop]
      rcases hstep : d.interpreter.step d.code with ⟨⟨r, out⟩ | ⟨out⟩ | ⟨f⟩, it⟩
      · obtain ⟨hbegun, hcount⟩ := begun_of_stepped hstep
        rw [sessionCount, if_neg hs] at hcount
        rw [hstep] at hconfig
        have hlimit : it.config.maxIterations = d.interpreter.config.maxIterations :=
          congrArg Config.maxIterations hconfig
        rw [step_of_stepped hstep]
        dsimp only
        rw [@ih ⟨it, d.code, d.steps + 1⟩ hbegun fuel' (by dsimp only; omega)
          (by dsimp only; omega)]
      · rw [step_of_done hstep]
      · rw [step_of_failed hstep]
    · have hspent : d.spent = true := spent_eq_true (by omega)
      cases fuel' with
      | zero => rw [skipLoop, skipLoop, hspent, if_pos rfl]
      | succ fuel' => rw [skipLoop, skipLoop, hspent, if_pos rfl, if_pos rfl]

/-- **Skipping is a loop under the ceiling**, and nothing else ends it. -/
theorem skip_eq (d : Debugger) :
    d.skip =
      if d.spent then d.fail d.ceiling
      else
        match d.step with
        | (.stepped _ _, d) => d.skip
        | (.done output, d) => d.finish output
        | (.failed fault, d) => d.fail fault := by
  by_cases hlt : d.interpreter.machine.iterations < d.interpreter.config.maxIterations
  · obtain ⟨fuel, hfuel⟩ : ∃ n, d.interpreter.config.maxIterations = n + 1 :=
      ⟨d.interpreter.config.maxIterations - 1, by omega⟩
    have hconfig := config_step d.interpreter d.code
    rw [skip, hfuel, skipLoop]
    rcases hstep : d.interpreter.step d.code with ⟨⟨r, out⟩ | ⟨out⟩ | ⟨f⟩, it⟩
    · obtain ⟨hbegun, hcount⟩ := begun_of_stepped hstep
      rw [hstep] at hconfig
      have hlimit : it.config.maxIterations = d.interpreter.config.maxIterations :=
        congrArg Config.maxIterations hconfig
      rw [step_of_stepped hstep]
      dsimp only
      rw [skip, @skipLoop_eq_skipLoop ⟨it, d.code, d.steps + 1⟩ hbegun fuel
        it.config.maxIterations (by dsimp only; omega) (by dsimp only; omega)]
    · rw [step_of_done hstep]
    · rw [step_of_failed hstep]
  · have hspent : d.spent = true := spent_eq_true (by omega)
    rw [skip, hspent, if_pos rfl]
    cases d.interpreter.config.maxIterations with
    | zero => rfl
    | succ fuel => rw [skipLoop, hspent, if_pos rfl]

/-! ## The protocol -/

section Protocol

variable (it : Interpreter) (source : String) (p : Program)

/-- The machine is at the end of the path of the records, and the ceiling covers them. -/
structure OnPath (rs : List Record) (m : Machine) : Prop where
  path : Path p it.config.input (.fresh it.config.memorySize) rs m
  le : rs.length ≤ it.config.maxIterations

/-- The debugger of a session that has executed the instructions of the records. -/
def along (rs : List Record) (m : Machine) : Debugger :=
  ⟨{ it.begun p with machine := m }, source, rs.length⟩

/-- The turn ends the run behind the records, without showing a step. -/
structure Turn.Closes (t : Turn) (e : DebugEnd) (rs : List Record) : Prop where
  ending : t.ending = some e
  quiet : t.displays = false
  onPath : OnPath it p rs t.debugger.interpreter.machine
  steps : t.debugger.steps = rs.length

/-- The conversations that begin at the prompt behind the records: the commands that are answered,
and the turns that answer them. -/
inductive Talks : List Record → Machine → List (Option Command) → List Turn → Prop
  /-- The user has nothing left to say. -/
  | nil {rs : List Record} {m : Machine} : Talks rs m [] []
  /-- Nothing happens, and no step is shown. -/
  | stay {rs : List Record} {m : Machine} {c : Option Command} {text : String}
      {cs : List (Option Command)} {ts : List Turn} :
      c ≠ some .next → c ≠ some .skip → Turn.displays ⟨text, none, along it source p rs m⟩ = false →
      Talks rs m cs ts → Talks rs m (c :: cs) (⟨text, none, along it source p rs m⟩ :: ts)
  /-- The next step is executed and shown. -/
  | advance {rs : List Record} {m m' : Machine} {r : Record} {cs : List (Option Command)}
      {ts : List Turn} :
      m.step p it.config.input = (.executed r, m') → rs.length < it.config.maxIterations →
      Talks (rs ++ [r]) m' cs ts →
      Talks rs m (some .next :: cs)
        (⟨shownStep rs.length r ++ prompt, none, along it source p (rs ++ [r]) m'⟩ :: ts)
  /-- The run ends; a user who leaves has executed nothing more. -/
  | close {rs rs' : List Record} {m : Machine} {c : Option Command} {t : Turn} {e : DebugEnd} :
      t.Closes it p e rs' → (e = .quit → c ≠ some .next ∧ rs' = rs) → Talks rs m [c] [t]

variable {it p} {rs : List Record} {m m' : Machine} {r : Record}

theorem OnPath.iterations_eq (h : OnPath it p rs m) : m.iterations = rs.length :=
  h.path.iterations_of_fresh

theorem OnPath.snoc (h : OnPath it p rs m) (hstep : m.step p it.config.input = (.executed r, m'))
    (hlt : rs.length < it.config.maxIterations) : OnPath it p (rs ++ [r]) m' := by
  refine ⟨h.path.append (.single hstep), ?_⟩
  rw [List.length_append, List.length_singleton]
  exact hlt

/-! ### Every run follows the protocol -/

/-- Everything that the next step can come to, behind a path: the ceiling is reached, or the
program is over, or the instruction fails, or it is executed. -/
theorem step_along (h : OnPath it p rs m) :
    (along it source p rs m).spent = true ∨
    (along it source p rs m).spent = false ∧ rs.length < it.config.maxIterations ∧
      ((∃ out d, (along it source p rs m).step = (.done out, d) ∧ d.steps = rs.length ∧
          d.interpreter.machine = m) ∨
        (∃ f d, (along it source p rs m).step = (.failed f, d) ∧ d.steps = rs.length ∧
          d.interpreter.machine = m) ∨
        ∃ r m' out, m.step p it.config.input = (.executed r, m') ∧
          (along it source p rs m).step = (.stepped r out, along it source p (rs ++ [r]) m')) := by
  have hcount := h.iterations_eq
  have hcall : (along it source p rs m).interpreter.step (along it source p rs m).code =
      { it.begun p with machine := m }.stepRunning p := step_of_running source rfl
  by_cases hlt : rs.length < it.config.maxIterations
  · refine Or.inr ⟨spent_eq_false (hcount ▸ hlt), hlt, ?_⟩
    rcases step_cases p it.config.input m with ⟨hend, _⟩ | ⟨_, f, _, _, hs⟩ | ⟨i, _, _, hs⟩
    · rw [stepRunning_of_halted { it.begun p with machine := m } hend] at hcall
      exact Or.inl ⟨_, _, step_of_done hcall, rfl, rfl⟩
    · rw [stepRunning_of_faulted { it.begun p with machine := m } hs] at hcall
      exact Or.inr (Or.inl ⟨_, _, step_of_failed hcall, rfl, rfl⟩)
    · rw [stepRunning_of_executed { it.begun p with machine := m } hs] at hcall
      refine Or.inr (Or.inr ⟨_, _, m.output, hs, ?_⟩)
      rw [step_of_stepped hcall]
      simp only [along, List.length_append, List.length_singleton]
  · have hspent : (along it source p rs m).interpreter.config.maxIterations ≤
        (along it source p rs m).interpreter.machine.iterations := by
      show it.config.maxIterations ≤ m.iterations
      omega
    exact Or.inl (spent_eq_true hspent)

theorem closes_fail {d : Debugger} {f : Fault} (h : OnPath it p rs m) (hsteps : d.steps = rs.length)
    (hmachine : d.interpreter.machine = m) : (d.fail f).Closes it p (.failed f) rs :=
  ⟨rfl, (remarks_fail d f).displays_eq_false, hmachine ▸ h, hsteps⟩

theorem closes_finish {d : Debugger} {out : Array UInt8} (h : OnPath it p rs m)
    (hsteps : d.steps = rs.length) (hmachine : d.interpreter.machine = m) :
    (d.finish out).Closes it p (.finished out) rs :=
  ⟨rfl, (remarks_finish d out).displays_eq_false, hmachine ▸ h, hsteps⟩

/-- Skipping ends the run, further along the path. -/
theorem closes_skipLoop (fuel : Nat) (h : OnPath it p rs m) :
    ∃ e rs', (skipLoop fuel (along it source p rs m)).Closes it p e rs' ∧ e ≠ .quit := by
  induction fuel generalizing rs m with
  | zero => exact ⟨_, rs, closes_fail h rfl rfl, by simp⟩
  | succ fuel ih =>
    rw [skipLoop]
    rcases step_along source h with hspent | ⟨hspent, hlt,
      ⟨out, d, hstep, hsteps, hm⟩ | ⟨f, d, hstep, hsteps, hm⟩ | ⟨r, m', out, hs, hstep⟩⟩
    · rw [hspent, if_pos rfl]
      exact ⟨_, rs, closes_fail h rfl rfl, by simp⟩
    · rw [hspent, if_neg (by simp), hstep]
      exact ⟨_, rs, closes_finish h hsteps hm, by simp⟩
    · rw [hspent, if_neg (by simp), hstep]
      exact ⟨_, rs, closes_fail h hsteps hm, by simp⟩
    · rw [hspent, if_neg (by simp), hstep]
      exact ih (h.snoc hs hlt)

/-- A step at the prompt goes on as the protocol says, if what follows does. -/
theorem talks_proceed (h : OnPath it p rs m) {replies : List Reply}
    (hrest : ∀ {rs m}, OnPath it p rs m →
      Talks it source p rs m
        ((replies.take (follow replies (along it source p rs m)).length).map commandOf?)
        (follow replies (along it source p rs m))) :
    Talks it source p rs m
      (some .next ::
        (replies.take (((along it source p rs m).proceed.andThen (follow replies)).length - 1)).map
          commandOf?)
      ((along it source p rs m).proceed.andThen (follow replies)) := by
  have hclosed : ∀ {t : Turn} {e : DebugEnd}, t.Closes it p e rs → e ≠ .quit →
      Talks it source p rs m
        (some .next :: (replies.take ((t.andThen (follow replies)).length - 1)).map commandOf?)
        (t.andThen (follow replies)) := by
    intro t e hcloses hne
    rw [andThen_of_some hcloses.ending]
    exact .close hcloses fun heq => absurd heq hne
  rw [proceed]
  rcases step_along source h with hspent | ⟨hspent, hlt,
    ⟨out, d, hstep, hsteps, hm⟩ | ⟨f, d, hstep, hsteps, hm⟩ | ⟨r, m', out, hs, hstep⟩⟩
  · rw [hspent, if_pos rfl]
    exact hclosed (closes_fail h rfl rfl) (by simp)
  · rw [hspent, if_neg (by simp), hstep]
    exact hclosed (closes_finish h hsteps hm) (by simp)
  · rw [hspent, if_neg (by simp), hstep]
    exact hclosed (closes_fail h hsteps hm) (by simp)
  · rw [hspent, if_neg (by simp), hstep]
    exact .advance hs hlt (hrest (h.snoc hs hlt))

/-- The commands of the lines that are answered, the first of them in front. -/
theorem map_take_andThen (reply : Reply) (rest : List Reply) (t : Turn)
    (f : Debugger → List Turn) :
    ((reply :: rest).take (t.andThen f).length).map commandOf? =
      commandOf? reply :: (rest.take ((t.andThen f).length - 1)).map commandOf? := by
  obtain ⟨n, hn⟩ : ∃ n, (t.andThen f).length = n + 1 := by
    unfold Turn.andThen
    split
    · exact ⟨0, rfl⟩
    · exact ⟨_, List.length_cons⟩
  rw [hn, List.take_succ_cons, List.map_cons, Nat.add_sub_cancel]

/-- **Every conversation follows the protocol**, from any prompt on. -/
theorem talks_follow (replies : List Reply) (h : OnPath it p rs m) :
    Talks it source p rs m
      ((replies.take (follow replies (along it source p rs m)).length).map commandOf?)
      (follow replies (along it source p rs m)) := by
  induction replies generalizing rs m with
  | nil => exact .nil
  | cons reply rest ih =>
    rw [follow, map_take_andThen]
    have hstay : ∀ {text : String}, commandOf? reply ≠ some .next →
        commandOf? reply ≠ some .skip →
        (along it source p rs m).answer reply = ⟨text, none, along it source p rs m⟩ →
        Talks it source p rs m
          (commandOf? reply :: (rest.take
            ((((along it source p rs m).answer reply).andThen (follow rest)).length - 1)).map
              commandOf?)
          (((along it source p rs m).answer reply).andThen (follow rest)) := by
      intro text hnext hskip hanswer
      have hremarks := remarks_answer (along it source p rs m) hnext
      rw [hanswer] at hremarks ⊢
      rw [andThen_of_none rfl]
      exact .stay hnext hskip hremarks.displays_eq_false (ih h)
    cases reply with
    | none =>
      exact .close ⟨rfl, Turn.Remarks.displays_eq_false rfl, h, rfl⟩ (by simp)
    | some line =>
      have hcommand := commandOf?_some line
      cases hparse : Command.parse? line with
      | none =>
        rw [hparse] at hcommand
        exact hstay (by rw [hcommand]; simp) (by rw [hcommand]; simp)
          (by simp only [answer, hparse]; rfl)
      | some command =>
        rw [hparse] at hcommand
        cases command with
        | next =>
          rw [answer_of_next _ hcommand, hcommand]
          exact talks_proceed source h ih
        | memory =>
          exact hstay (by rw [hcommand]; simp) (by rw [hcommand]; simp)
            (by simp only [answer, hparse]; rfl)
        | skip =>
          have hanswer : (along it source p rs m).answer (some line) =
              skipLoop it.config.maxIterations (along it source p rs m) := by
            simp only [answer, hparse]
            rfl
          obtain ⟨e, rs', hcloses, hne⟩ := closes_skipLoop source it.config.maxIterations h
          rw [hanswer, andThen_of_some hcloses.ending]
          exact .close hcloses fun heq => absurd heq hne
        | quit =>
          have hanswer : (along it source p rs m).answer (some line) =
              ⟨"Debugging stopped\n", some .quit, along it source p rs m⟩ := by
            simp only [answer, hparse]
          rw [hanswer, andThen_of_some rfl, hcommand]
          exact .close ⟨rfl, Turn.Remarks.displays_eq_false rfl, h, rfl⟩ fun _ => ⟨by simp, rfl⟩

/-- A debugger that has just been started stands at the beginning of the path. -/
theorem proceed_start (hp : Program.parse source = .ok p) (hpos : 1 ≤ it.config.maxIterations) :
    (start it source).proceed =
      (along it source p [] (.fresh it.config.memorySize)).proceed := by
  have hfirst : it.reset.step source = (it.begun p).step source := step_afterSteps_reset it hp 0
  have hspent : (start it source).spent = false := spent_eq_false hpos
  have hspent' : (along it source p [] (.fresh it.config.memorySize)).spent = false :=
    spent_eq_false hpos
  have hstep : (start it source).step =
      (along it source p [] (.fresh it.config.memorySize)).step := by
    simp only [start, along, step, hfirst]
    rfl
  rw [proceed, proceed, hspent, hspent', hstep]
  rfl

/-- **Every run follows the protocol.**  The first step is taken without being asked for. -/
theorem talks_turns (hp : Program.parse source = .ok p) (hpos : 1 ≤ it.config.maxIterations)
    (replies : List Reply) :
    Talks it source p [] (.fresh it.config.memorySize)
      (some .next ::
        (replies.take (((start it source).turns replies).length - 1)).map commandOf?)
      ((start it source).turns replies) := by
  have hstart : OnPath it p [] (.fresh it.config.memorySize) := ⟨.nil _, Nat.zero_le _⟩
  rw [turns, proceed_start source hp hpos]
  exact talks_proceed source hstart fun h => talks_follow source replies h

/-! ### What the protocol says -/

variable {source} {cs : List (Option Command)} {ts : List Turn}

theorem Talks.length_eq (h : Talks it source p rs m cs ts) : cs.length = ts.length := by
  induction h with
  | nil => rfl
  | stay _ _ _ _ ih => rw [List.length_cons, List.length_cons, ih]
  | advance _ _ _ ih => rw [List.length_cons, List.length_cons, ih]
  | close _ _ => rfl

/-- The steps shown are the next ones of the session, in order. -/
theorem Talks.shown (h : Talks it source p rs m cs ts) (hon : OnPath it p rs m)
    (hp : Program.parse source = .ok p) {n : Nat} {t : Turn}
    (ht : (ts.filter Turn.displays)[n]? = some t) :
    ∃ r out, it.reset.outcomeAfter source (rs.length + n) = .stepped r out ∧
      t.text = stepText (rs.length + n) r := by
  induction h generalizing n with
  | nil => simp at ht
  | stay _ _ hquiet _ ih =>
    rw [List.filter_cons_of_neg (by rw [hquiet]; simp)] at ht
    exact ih hon ht
  | @advance rs m m' r cs ts hs hlt _ ih =>
    rw [List.filter_cons_of_pos (displays_shownStep _ _ _ _)] at ht
    cases n with
    | zero =>
      have hcall := step_afterSteps_of_path it hp hon.path
      rw [stepRunning_of_executed { it.begun p with machine := m } hs] at hcall
      cases ht
      exact ⟨r, m.output, congrArg Prod.fst hcall, shownStep_append_prompt _ r⟩
    | succ n =>
      have hrest := ih (hon.snoc hs hlt) ht
      rwa [List.length_append, List.length_singleton, Nat.add_assoc, Nat.add_comm 1] at hrest
  | close hcloses _ =>
    rw [List.filter_cons_of_neg (by rw [hcloses.quiet]; simp)] at ht
    simp at ht

/-- The debugger counts what the machine counts, and no more than the ceiling allows. -/
theorem Talks.steps_eq (h : Talks it source p rs m cs ts) (hon : OnPath it p rs m) {t : Turn}
    (ht : t ∈ ts) :
    t.debugger.steps = t.debugger.interpreter.machine.iterations ∧
      t.debugger.interpreter.machine.iterations ≤ it.config.maxIterations := by
  have hcounted : ∀ {rs : List Record} {t : Turn},
      OnPath it p rs t.debugger.interpreter.machine → t.debugger.steps = rs.length →
      t.debugger.steps = t.debugger.interpreter.machine.iterations ∧
        t.debugger.interpreter.machine.iterations ≤ it.config.maxIterations := by
    intro rs t hon hsteps
    rw [hsteps, hon.iterations_eq]
    exact ⟨rfl, hon.le⟩
  induction h with
  | nil => contradiction
  | stay _ _ _ _ ih =>
    rcases List.mem_cons.mp ht with rfl | hmem
    · exact hcounted hon rfl
    · exact ih hon hmem
  | advance hs hlt _ ih =>
    rcases List.mem_cons.mp ht with rfl | hmem
    · exact hcounted (hon.snoc hs hlt) rfl
    · exact ih (hon.snoc hs hlt) hmem
  | close hcloses _ =>
    rw [List.mem_singleton.mp ht]
    exact hcounted hcloses.onPath hcloses.steps

/-- A user who leaves has asked for as many steps as were shown, and has come as far. -/
theorem Talks.left (h : Talks it source p rs m cs ts) (hon : OnPath it p rs m) {t : Turn}
    (ht : t.debugger.interpreter.machine = m)
    (hleft : (ts.getLast?.getD t).ending = none ∨ (ts.getLast?.getD t).ending = some .quit) :
    cs.countP (· = some .next) = (ts.filter Turn.displays).length ∧
      ∃ rs', OnPath it p rs' (ts.getLast?.getD t).debugger.interpreter.machine ∧
        rs'.length = rs.length + (ts.filter Turn.displays).length := by
  induction h generalizing t with
  | nil => exact ⟨rfl, _, ht ▸ hon, rfl⟩
  | stay hnext _ hquiet _ ih =>
    rw [List.getLast?_cons, Option.getD_some] at hleft ⊢
    rw [List.filter_cons_of_neg (by rw [hquiet]; simp),
      List.countP_cons_of_neg (by simpa using hnext)]
    exact ih hon rfl hleft
  | advance hs hlt _ ih =>
    rw [List.getLast?_cons, Option.getD_some] at hleft ⊢
    rw [List.filter_cons_of_pos (displays_shownStep _ _ _ _), List.countP_cons_of_pos (by simp),
      List.length_cons]
    obtain ⟨hcount, rs', hon', hlen⟩ := ih (hon.snoc hs hlt) rfl hleft
    refine ⟨by rw [hcount], rs', hon', ?_⟩
    rw [hlen, List.length_append, List.length_singleton]
    omega
  | close hcloses hquit =>
    rw [List.getLast?_singleton, Option.getD_some, hcloses.ending] at hleft
    obtain ⟨hnext, rfl⟩ := hquit (by simpa using hleft)
    rw [List.filter_cons_of_neg (by rw [hcloses.quiet]; simp),
      List.countP_cons_of_neg (by simpa using hnext)]
    exact ⟨rfl, _, hcloses.onPath, rfl⟩

/-- Behind a skip no step is shown. -/
theorem Talks.quiet_of_skip (h : Talks it source p rs m cs ts) {k : Nat}
    (hk : cs[k]? = some (some .skip)) {t : Turn} (ht : t ∈ ts.drop k) : t.displays = false := by
  induction h generalizing k with
  | nil => simp at hk
  | stay _ hskip _ _ ih =>
    cases k with
    | zero => exact absurd (Option.some.inj hk) hskip
    | succ k => exact ih hk ht
  | advance _ _ _ ih =>
    cases k with
    | zero => simp at hk
    | succ k => exact ih hk ht
  | close hcloses _ =>
    rw [List.mem_singleton.mp (List.mem_of_mem_drop ht)]
    exact hcloses.quiet

end Protocol

/-! ## Runs -/

/-- **A debugger shows the run of the machine.**  Take any interpreter with a configuration that
can be used, a source that parses, and any lines of a user.

* The text of the run is what its turns say behind the greeting, and the run ends as the last turn
  does.
* The steps shown are numbered from zero on, without a gap, and step `n` is what call `n` of the
  step session of the source executes, on a fresh tape.  Its two lines give the number, the
  instruction with its position, and the cell under the head with the value found in it.
* Every other turn makes one of the remarks.
* The debugger counts what the machine counts: at every prompt and at the end.
* If the user has left, then as many instructions have been executed as steps were shown, the
  machine is the one behind that many calls, and the user has asked for all of these steps but the
  first.
* Behind a skip no step is shown.
* The run ends: it answers no more lines than there are, it executes no more instructions than the
  ceiling allows, and this is what ends a skip. -/
theorem run_shows_session (it : Interpreter) (hvalid : it.config.Valid) {source : String}
    {p : Program} (hp : Program.parse source = .ok p) (replies : List Reply) :
    let talk := (start it source).run replies
    let turns := (start it source).turns replies
    let answered := replies.take (turns.length - 1)
    let shown := turns.filter Turn.displays
    (∃ last, turns.getLast? = some last ∧
      talk = ⟨last.ending.getD .quit,
        "Starting debugger... Use commands: n (next), m (memory), s (skip to end), q (quit)\n" ++
          String.join (turns.map Turn.text) ++ farewell last, last.debugger⟩) ∧
    (∀ n t, shown[n]? = some t → ∃ r out, it.reset.outcomeAfter source n = .stepped r out ∧
      t.text = stepText n r) ∧
    (∀ t ∈ turns, t.displays = false → t.Remarks) ∧
    (∀ t ∈ turns, t.debugger.steps = t.debugger.interpreter.machine.iterations) ∧
    (talk.ending = .quit →
      talk.debugger.interpreter.machine.iterations = shown.length ∧
      talk.debugger.interpreter.machine = (it.reset.afterSteps source shown.length).machine ∧
      answered.countP (isOneOf ["", "n", "next"]) + 1 = shown.length) ∧
    (∀ k reply, answered[k]? = some reply → isOneOf ["s", "skip"] reply = true →
      ∀ t ∈ turns.drop (k + 1), t.displays = false) ∧
    turns.length ≤ replies.length + 1 ∧
    talk.debugger.interpreter.machine.iterations ≤ it.config.maxIterations ∧
    ∀ d : Debugger, d.skip =
      if d.spent then d.fail d.ceiling
      else
        match d.step with
        | (.stepped _ _, d) => d.skip
        | (.done output, d) => d.finish output
        | (.failed fault, d) => d.fail fault := by
  intro talk turns answered shown
  have hstart : OnPath it p [] (.fresh it.config.memorySize) := ⟨.nil _, Nat.zero_le _⟩
  have htalks := talks_turns source hp hvalid.2 replies
  obtain ⟨last, hlast, hrun⟩ := run_eq_turns (start it source) replies
  rw [greeting] at hrun
  have hending : talk.ending = last.ending.getD .quit := congrArg Talk.ending hrun
  have hdebugger : talk.debugger = last.debugger := congrArg Talk.debugger hrun
  refine ⟨⟨last, hlast, hrun⟩, ?_, fun t => remarks_of_mem_turns, ?_, ?_, ?_, ?_, ?_, skip_eq⟩
  · intro n t ht
    have hshown := htalks.shown hstart hp ht
    rwa [List.length_nil, Nat.zero_add] at hshown
  · intro t ht
    exact (htalks.steps_eq hstart ht).1
  · intro hquit
    rw [hending] at hquit
    have hleft : last.ending = none ∨ last.ending = some .quit := by
      cases he : last.ending with
      | none => exact Or.inl rfl
      | some e =>
        rw [he] at hquit
        exact Or.inr (congrArg some hquit)
    obtain ⟨hcount, rs, hon, hlen⟩ :=
      htalks.left hstart (t := ⟨"", none, along it source p [] _⟩) rfl
        (by rw [hlast]; exact hleft)
    rw [hlast, Option.getD_some] at hon
    rw [List.length_nil, Nat.zero_add] at hlen
    rw [List.countP_cons_of_pos (by simp), List.countP_map] at hcount
    have hasked : answered.countP (isOneOf ["", "n", "next"]) =
        answered.countP (commandOf? · = some .next) :=
      List.countP_congr fun reply _ => by
        rw [decide_eq_true_iff, commandOf?_eq_some_iff, Command.words]
    refine ⟨?_, ?_, hasked ▸ hcount⟩
    · rw [hdebugger, hon.iterations_eq, hlen]
    · rw [hdebugger, ← machine_afterSteps_of_path it hp hon.path, hlen]
  · intro k reply hk hskip t ht
    refine htalks.quiet_of_skip (k := k + 1) ?_ ht
    rw [List.getElem?_cons_succ, List.getElem?_map, hk, Option.map_some,
      (commandOf?_eq_some_iff (c := .skip)).mpr hskip]
  · have hlen := htalks.length_eq
    rw [List.length_cons, List.length_map, List.length_take] at hlen
    show ((start it source).turns replies).length ≤ replies.length + 1
    omega
  · rw [hdebugger]
    exact (htalks.steps_eq hstart (List.mem_of_getLast? hlast)).2

/-- A user who looks at the cells once and leaves behind the second step. -/
theorem run_shows_session_left :
    ({ memorySize := 1, maxIterations := 5 } : Config).Valid ∧
      (∃ p, Program.parse "+.-" = .ok p) ∧
      ((start (fresh { memorySize := 1, maxIterations := 5 }) "+.-").run
        [some "m\n", some "n\n", some "quit\n", some "n\n"]).ending = .quit ∧
      ((start (fresh { memorySize := 1, maxIterations := 5 }) "+.-").run
        [some "m\n", some "n\n", some "quit\n", some "n\n"]).debugger.interpreter.machine =
          ((fresh { memorySize := 1, maxIterations := 5 }).afterSteps "+.-" 2).machine := by
  have hvalid : ({ memorySize := 1, maxIterations := 5 } : Config).Valid := by decide
  obtain ⟨p, hp⟩ : ∃ p, Program.parse "+.-" = .ok p := ⟨_, rfl⟩
  have hquit : ((start (fresh { memorySize := 1, maxIterations := 5 }) "+.-").run
      [some "m\n", some "n\n", some "quit\n", some "n\n"]).ending = .quit := by decide +kernel
  have hshown : (((start (fresh { memorySize := 1, maxIterations := 5 }) "+.-").turns
      [some "m\n", some "n\n", some "quit\n", some "n\n"]).filter Turn.displays).length = 2 := by
    decide +kernel
  obtain ⟨_, _, _, _, hleft, _⟩ := run_shows_session
    (fresh { memorySize := 1, maxIterations := 5 }) hvalid hp
    [some "m\n", some "n\n", some "quit\n", some "n\n"]
  obtain ⟨_, hmachine, _⟩ := hleft hquit
  rw [hshown] at hmachine
  exact ⟨hvalid, ⟨p, hp⟩, hquit, hmachine⟩

end Debugger

end TapeTutor
