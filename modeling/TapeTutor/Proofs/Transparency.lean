import TapeTutor.Proofs.Conversation

/-!
# Looking and leaving make no difference

A user of the debugger can look at the cells, mistype a command, leave, and come back with another
run of the same debugger.  None of this should be felt by the program: the steps that are shown, the
way it ends and the interpreter that is left depend only on the lines that ask for steps.

What is shown is read off the text that is written.  `Debugger.stepLines` is the list of those of
its lines that show a step, each without the prompt that may stand in front of it.  A text is cut
into lines where a line ends (`stepLines_append_line`), so one can add up what the turns show as
long as each of them is written at a prompt (`AtPrompt.settled`).

From a prompt on, a conversation depends on the debugger and on what has been written
(`converseFrom`), and both statements are inductions over the lines that are still to come.

* A line that only looks (`inert`) is answered by a turn that shows no step and brings the same
  debugger back to the prompt (`answer_of_inert`).  So it can be left out
  (`continues_converseFrom`).
* A user who leaves does so at a prompt (`exists_said_of_quit`).  The next run begins with a step,
  as the command for the next step would have it, and only the greeting is said once more
  (`continues_run_of_quit`).
-/

namespace TapeTutor

namespace Debugger

open Interpreter

/-! ## The lines that show a step -/

/-- The line without a prompt in front of it. -/
def unprompted : List Char → List Char
  | '>' :: ' ' :: line => line
  | line => line

/-- Whether the line is one of the two that show a step. -/
def showsStep (line : List Char) : Bool :=
  "Step ".toList.isPrefixOf line || "Memory[".toList.isPrefixOf line

/-- The lines of a text that show a step, in order. -/
def stepLines (text : String) : List (List Char) :=
  ((text.toList.splitOn '\n').map unprompted).filter showsStep

theorem showsStep_eq_false {line : List Char} (hs : line.head? ≠ some 'S')
    (hm : line.head? ≠ some 'M') : showsStep line = false := by
  have hwords : "Step ".toList = ['S', 't', 'e', 'p', ' '] ∧
      "Memory[".toList = ['M', 'e', 'm', 'o', 'r', 'y', '['] := by simp
  rw [showsStep, hwords.1, hwords.2]
  cases line with
  | nil => rfl
  | cons c rest =>
    have hs' : ('S' == c) = false := by simpa using fun heq => hs (congrArg some heq.symm)
    have hm' : ('M' == c) = false := by simpa using fun heq => hm (congrArg some heq.symm)
    rw [List.isPrefixOf, List.isPrefixOf, hs', hm']
    rfl

/-- **A text is cut into lines.** -/
theorem stepLines_append_line (a b : String) :
    stepLines (a ++ "\n" ++ b) = stepLines a ++ stepLines b := by
  have hchars : (a ++ "\n" ++ b).toList = a.toList ++ '\n' :: b.toList := by simp
  rw [stepLines, hchars, List.splitOn_append_cons_self, List.map_append, List.filter_append]
  rfl

/-- A single line that begins with another letter shows nothing. -/
theorem stepLines_eq_nil {text : String} (hline : '\n' ∉ text.toList)
    (hs : (unprompted text.toList).head? ≠ some 'S')
    (hm : (unprompted text.toList).head? ≠ some 'M') : stepLines text = [] := by
  rw [stepLines, List.splitOn_eq_singleton hline, List.map_singleton,
    List.filter_cons_of_neg (by rw [showsStep_eq_false hs hm]; simp), List.filter_nil]

theorem unprompted_of_head? {line : List Char} (h : line.head? ≠ some '>') :
    unprompted line = line := by
  unfold unprompted
  split
  · simp at h
  · rfl

/-- A prompt in front of a line is not counted. -/
theorem stepLines_prompt_append {text : String} (h : text.toList.head? ≠ some '>') :
    stepLines (prompt ++ text) = stepLines text := by
  have hchars : (prompt ++ text).toList = '>' :: ' ' :: text.toList := by simp [prompt]
  have hfirst : ∀ line : List Char, '\n' ∉ line → line.head? ≠ some '>' →
      (('>' :: ' ' :: line).splitOn '\n').map unprompted =
        (line.splitOn '\n').map unprompted := by
    intro line hline hhead
    rw [List.splitOn_eq_singleton hline, List.splitOn_eq_singleton (by simpa using hline),
      List.map_singleton, List.map_singleton, unprompted_of_head? hhead]
    rfl
  rw [stepLines, stepLines, hchars]
  by_cases hmem : '\n' ∈ text.toList
  · obtain ⟨line, rest, htext, hline⟩ := List.eq_append_cons_of_mem hmem
    have hhead : line.head? ≠ some '>' := by
      cases line with
      | nil => simp
      | cons c cs =>
        rw [htext] at h
        exact h
    rw [htext, List.splitOn_append_cons_self, ← List.cons_append, ← List.cons_append,
      List.splitOn_append_cons_self, List.map_append, List.map_append, hfirst line hline hhead]
  · rw [hfirst text.toList hmem h]

/-- What is written behind the text begins a line of its own, a prompt not counted. -/
def Settled (said : String) : Prop :=
  ∀ text : String, text.toList.head? ≠ some '>' →
    stepLines (said ++ text) = stepLines said ++ stepLines text

/-- The text ends with a prompt on a line of its own. -/
def AtPrompt (text : String) : Prop := ∃ body, text = body ++ "\n" ++ prompt

theorem AtPrompt.append {text : String} (h : AtPrompt text) (said : String) :
    AtPrompt (said ++ text) := by
  obtain ⟨body, rfl⟩ := h
  exact ⟨said ++ body, by simp only [String.append_assoc]⟩

theorem stepLines_prompt : stepLines prompt = [] := by decide +kernel

theorem AtPrompt.settled {said : String} (h : AtPrompt said) : Settled said := by
  obtain ⟨body, rfl⟩ := h
  intro text htext
  rw [String.append_assoc, stepLines_append_line, stepLines_append_line,
    stepLines_prompt_append htext, stepLines_prompt, List.append_nil]

/-- The greeting is a line and shows no step. -/
theorem settled_greeting : Settled greeting ∧ stepLines greeting = [] := by
  have hshown : stepLines greeting = [] := by decide +kernel
  refine ⟨fun text _ => ?_, hshown⟩
  obtain ⟨line, hline⟩ : ∃ line, greeting = line ++ "\n" :=
    ⟨"Starting debugger... Use commands: n (next), m (memory), s (skip to end), q (quit)", by
      simp [greeting]⟩
  have hempty : stepLines "" = [] := by decide +kernel
  have hgreeting := stepLines_append_line line ""
  rw [String.append_empty, ← hline, hshown, hempty, List.append_nil] at hgreeting
  rw [hshown, hline, stepLines_append_line, ← hgreeting]

/-! ## What the turns write -/

/-- The turn does not begin as a prompt does, and if it does not end the run, it comes to one. -/
structure Turn.Proper (t : Turn) : Prop where
  begins : t.text.toList.head? ≠ some '>'
  prompts : t.ending = none → AtPrompt t.text

theorem proper_fail (d : Debugger) (f : Fault) : (d.fail f).Proper :=
  ⟨by simp [fail], nofun⟩

theorem proper_finish (d : Debugger) (output : Array UInt8) : (d.finish output).Proper := by
  refine ⟨?_, nofun⟩
  show ("Program finished\nOutput: " ++ Text.showBytes output ++ "\n").toList.head? ≠ some '>'
  generalize Text.showBytes output = written
  simp

theorem proper_proceed (d : Debugger) : d.proceed.Proper := by
  rcases proceed_cases d with ⟨d', f, h⟩ | ⟨d', output, h⟩ | ⟨d', r, h⟩
  · rw [h]
    exact proper_fail d' f
  · rw [h]
    exact proper_finish d' output
  · rw [h]
    obtain ⟨rest, hrest⟩ : ∃ rest, shownStep d.steps r = "Step " ++ rest := by
      unfold shownStep
      simp only [String.append_assoc]
      exact ⟨_, rfl⟩
    refine ⟨?_, fun _ => ⟨_, rfl⟩⟩
    dsimp only
    rw [hrest]
    simp

theorem proper_skip (d : Debugger) : d.skip.Proper := by
  rcases skipLoop_cases d.interpreter.config.maxIterations d with ⟨d', f, h⟩ | ⟨d', output, h⟩
  · rw [skip, h]
    exact proper_fail d' f
  · rw [skip, h]
    exact proper_finish d' output

theorem proper_answer (d : Debugger) (reply : Reply) : (d.answer reply).Proper := by
  cases reply with
  | none => exact ⟨by simp [answer], by simp [answer]⟩
  | some line =>
    simp only [answer]
    split
    · exact proper_proceed d
    · refine ⟨?_, fun _ => ⟨_, rfl⟩⟩
      generalize Text.listBytes _ = cells
      simp
    · exact proper_skip d
    · exact ⟨by simp, by simp⟩
    · refine ⟨?_, fun _ => ⟨"Unknown command '" ++ Text.trim line ++ "'. Use n, m, s or q", ?_⟩⟩
      · generalize Text.trim line = word
        simp
      · simp [String.append_assoc]

/-! ## Lines that only look -/

/-- Whether a line only looks: it is the command to show the cells, or one line that is no command
at all. -/
def inert : Reply → Bool
  | none => false
  | some line =>
      match Command.parse? line with
      | some .memory => true
      | some _ => false
      | none => !(Text.trim line).toList.contains '\n'

/-- A list of bytes is written on one line. -/
theorem newline_notMem_listBytes (bytes : Array UInt8) : '\n' ∉ (Text.listBytes bytes).toList := by
  have hdigits : ∀ n : Nat, '\n' ∉ (toString n).toList := by
    intro n hn
    have hdigit := Nat.isDigit_of_mem_toDigits (by decide) (by decide) (Nat.toList_repr ▸ hn)
    contradiction
  have hcells : '\n' ∉ ", ".toList.intercalate
      ((bytes.toList.map fun b => toString b.toNat).map String.toList) := by
    refine Text.notMem_intercalate (by simp) fun part hpart => ?_
    obtain ⟨text, htext, rfl⟩ := List.mem_map.mp hpart
    obtain ⟨b, _, rfl⟩ := List.mem_map.mp htext
    exact hdigits b.toNat
  rw [Text.listBytes, String.toList_append, String.toList_append, String.toList_intercalate,
    List.mem_append, List.mem_append, not_or, not_or]
  exact ⟨⟨by simp, hcells⟩, by simp⟩

/-- A look brings the same debugger back to the prompt, and shows no step. -/
theorem answer_of_inert (d : Debugger) {reply : Reply} (h : inert reply = true) :
    ∃ text, d.answer reply = ⟨text, none, d⟩ ∧ stepLines text = [] := by
  cases reply with
  | none => contradiction
  | some line =>
    cases hparse : Command.parse? line with
    | none =>
      have hword : '\n' ∉ (Text.trim line).toList := by simpa [inert, hparse] using h
      refine ⟨_, by simp only [answer, hparse]; rfl, ?_⟩
      have hlast : ("'. Use n, m, s or q\n" : String) = "'. Use n, m, s or q" ++ "\n" := by simp
      rw [hlast, ← String.append_assoc, stepLines_append_line, stepLines_prompt, List.append_nil]
      generalize Text.trim line = word at hword
      apply stepLines_eq_nil
      · simpa using hword
      · simp [unprompted]
      · simp [unprompted]
    | some command =>
      cases command with
      | memory =>
        refine ⟨_, by simp only [answer, hparse]; rfl, ?_⟩
        have hcells := newline_notMem_listBytes (d.interpreter.snapshot 0 memoryCells)
        have hfirst : ("Memory snapshot:\n" : String) = "Memory snapshot:" ++ "\n" := by simp
        have htitle : stepLines "Memory snapshot:" = [] := by decide +kernel
        rw [stepLines_append_line, stepLines_prompt, List.append_nil, hfirst,
          stepLines_append_line, htitle, List.nil_append]
        apply stepLines_eq_nil hcells
        · simp [Text.listBytes, unprompted]
        · simp [Text.listBytes, unprompted]
      | _ => simp [inert, hparse] at h

/-! ## From a prompt on -/

/-- The conversation of a debugger that waits at the prompt, when `said` has been written. -/
def converseFrom (said : String) (d : Debugger) (replies : List Reply) : Talk :=
  converse said ⟨"", none, d⟩ replies

theorem converseFrom_nil (said : String) (d : Debugger) :
    converseFrom said d [] = ⟨.quit, said ++ "\n", d⟩ := by
  rw [converseFrom, converse_nil, String.append_empty]

theorem converseFrom_cons (said : String) (d : Debugger) (reply : Reply) (rest : List Reply) :
    converseFrom said d (reply :: rest) = converse said (d.answer reply) rest := by
  rw [converseFrom, converse_cons, String.append_empty]

theorem converse_of_none {t : Turn} (h : t.ending = none) (said : String)
    (replies : List Reply) :
    converse said t replies = converseFrom (said ++ t.text) t.debugger replies := by
  obtain ⟨text, _, d⟩ := t
  cases h
  cases replies with
  | nil => rw [converseFrom_nil, converse_nil]
  | cons reply rest => rw [converseFrom_cons, converse_cons]

/-- The first conversation shows some lines, and then what the second one shows.  They end alike
and leave the same debugger. -/
structure Talk.Continues (before : List (List Char)) (a b : Talk) : Prop where
  ending : a.ending = b.ending
  shown : stepLines a.text = before ++ stepLines b.text
  debugger : a.debugger = b.debugger

theorem Talk.Continues.trans_symm {before : List (List Char)} {a b c : Talk}
    (h : a.Continues before b) (h' : c.Continues [] b) : a.Continues before c :=
  ⟨h.ending.trans h'.ending.symm, by rw [h.shown, h'.shown, List.nil_append],
    h.debugger.trans h'.debugger.symm⟩

/-- The same turn behind two texts, if the conversations go on alike from the prompts behind it. -/
theorem continues_turn {said said' : String} {before : List (List Char)} (hsaid : Settled said)
    (hsaid' : Settled said') (hshown : stepLines said = before ++ stepLines said') {t : Turn}
    (ht : t.Proper) {replies replies' : List Reply}
    (hrest : ∀ {said said' : String}, AtPrompt said → AtPrompt said' →
      stepLines said = before ++ stepLines said' →
        (converseFrom said t.debugger replies).Continues before
          (converseFrom said' t.debugger replies')) :
    (converse said t replies).Continues before (converse said' t replies') := by
  have hboth : stepLines (said ++ t.text) = before ++ stepLines (said' ++ t.text) := by
    rw [hsaid _ ht.begins, hsaid' _ ht.begins, hshown, List.append_assoc]
  cases hending : t.ending with
  | some e =>
    rw [converse_of_ending hending, converse_of_ending hending]
    exact ⟨rfl, hboth, rfl⟩
  | none =>
    rw [converse_of_none hending, converse_of_none hending]
    exact hrest ((ht.prompts hending).append said) ((ht.prompts hending).append said') hboth

/-- **Looks can be left out**, from any prompt on. -/
theorem continues_converseFrom {said said' : String} {before : List (List Char)}
    (hsaid : AtPrompt said) (hsaid' : AtPrompt said')
    (hshown : stepLines said = before ++ stepLines said') (d : Debugger)
    (replies : List Reply) :
    (converseFrom said d replies).Continues before
      (converseFrom said' d (replies.filter fun reply => !inert reply)) := by
  induction replies generalizing said said' d with
  | nil =>
    rw [List.filter_nil, converseFrom_nil, converseFrom_nil]
    refine ⟨rfl, ?_, rfl⟩
    rw [hsaid.settled "\n" (by simp), hsaid'.settled "\n" (by simp), hshown, List.append_assoc]
  | cons reply rest ih =>
    have hproper := proper_answer d reply
    rw [converseFrom_cons]
    cases hinert : inert reply with
    | true =>
      obtain ⟨text, hanswer, hquiet⟩ := answer_of_inert d hinert
      rw [hanswer] at hproper ⊢
      rw [List.filter_cons_of_neg (by simp [hinert]), converse_of_none rfl]
      refine ih ((hproper.prompts rfl).append said) hsaid' ?_ d
      rw [hsaid.settled text hproper.begins, hquiet, List.append_nil, hshown]
    | false =>
      rw [List.filter_cons_of_pos (by simp [hinert]), converseFrom_cons]
      exact continues_turn hsaid.settled hsaid'.settled hshown hproper
        fun hsaid hsaid' hshown => ih hsaid hsaid' hshown _

/-- Looks can be left out behind any turn. -/
theorem continues_converse {said said' : String} {before : List (List Char)} (hsaid : Settled said)
    (hsaid' : Settled said') (hshown : stepLines said = before ++ stepLines said') {t : Turn}
    (ht : t.Proper) (replies : List Reply) :
    (converse said t replies).Continues before
      (converse said' t (replies.filter fun reply => !inert reply)) :=
  continues_turn hsaid hsaid' hshown ht fun hsaid hsaid' hshown =>
    continues_converseFrom hsaid hsaid' hshown _ replies

theorem continues_run_filter (d : Debugger) (replies : List Reply) :
    (d.run replies).Continues [] (d.run (replies.filter fun reply => !inert reply)) :=
  continues_converse settled_greeting.1 settled_greeting.1 (by rw [List.nil_append])
    (proper_proceed d) replies

/-! ## Leaving and coming back -/

/-- The lines before the first one that leaves. -/
def untilQuit (replies : List Reply) : List Reply :=
  replies.takeWhile fun reply => commandOf? reply ≠ some .quit

theorem ending_proceed_ne_quit (d : Debugger) : d.proceed.ending ≠ some .quit := by
  rcases proceed_cases d with ⟨d', f, h⟩ | ⟨d', output, h⟩ | ⟨d', r, h⟩
  all_goals
    rw [h]
    rintro ⟨⟩

theorem ending_skip_ne_quit (d : Debugger) : d.skip.ending ≠ some .quit := by
  rcases skipLoop_cases d.interpreter.config.maxIterations d with ⟨d', f, h⟩ | ⟨d', output, h⟩
  all_goals
    rw [skip, h]
    rintro ⟨⟩

/-- Only one command leaves. -/
theorem answer_of_quit {d : Debugger} {reply : Reply}
    (h : commandOf? reply = some .quit ∨ (d.answer reply).ending = some .quit) :
    commandOf? reply = some .quit ∧
      d.answer reply = ⟨"Debugging stopped\n", some .quit, d⟩ := by
  cases reply with
  | none => simp [commandOf?, answer] at h
  | some line =>
    have hcommand : commandOf? (some line) = Command.parse? line := Option.bind_some line _
    rw [hcommand] at h ⊢
    simp only [answer] at h ⊢
    cases hparse : Command.parse? line with
    | none => simp [hparse] at h
    | some command =>
      rw [hparse] at h
      cases command with
      | quit => exact ⟨rfl, rfl⟩
      | next => exact absurd (h.resolve_left (by simp)) (ending_proceed_ne_quit d)
      | memory => simp at h
      | skip => exact absurd (h.resolve_left (by simp)) (ending_skip_ne_quit d)

/-- A user who leaves is at a prompt, and the command for the next step would go on from there. -/
theorem exists_said_of_quit {said : String} {d : Debugger} {script : List Reply}
    (hsaid : AtPrompt said) (hquit : (converseFrom said d script).ending = .quit) {next : Reply}
    (hnext : commandOf? next = some .next) :
    ∃ said', AtPrompt said' ∧ stepLines said' = stepLines (converseFrom said d script).text ∧
      ∀ rest, converseFrom said d (untilQuit script ++ next :: rest) =
        converse said' (converseFrom said d script).debugger.proceed rest := by
  have hproceed : ∀ d : Debugger, d.answer next = d.proceed := fun d => answer_of_next d hnext
  induction script generalizing said d with
  | nil =>
    refine ⟨said, hsaid, ?_, fun rest => ?_⟩
    · have hempty : stepLines "\n" = [] := by decide +kernel
      rw [converseFrom_nil, hsaid.settled "\n" (by simp), hempty, List.append_nil]
    · rw [untilQuit, List.takeWhile_nil, List.nil_append, converseFrom_cons, hproceed,
        converseFrom_nil]
  | cons reply script ih =>
    rw [converseFrom_cons] at hquit ⊢
    by_cases hleaves : commandOf? reply = some .quit
    · obtain ⟨_, hanswer⟩ := answer_of_quit (d := d) (Or.inl hleaves)
      refine ⟨said, hsaid, ?_, fun rest => ?_⟩
      · have hstopped : stepLines "Debugging stopped\n" = [] := by decide +kernel
        rw [hanswer, converse_ended, hsaid.settled _ (by simp), hstopped, List.append_nil]
      · rw [untilQuit, List.takeWhile_cons_of_neg (by simpa using hleaves), List.nil_append,
          converseFrom_cons, hproceed, hanswer, converse_ended]
    · have hproper := proper_answer d reply
      cases hending : (d.answer reply).ending with
      | some e =>
        rw [converse_of_ending hending] at hquit
        rw [show e = .quit from hquit] at hending
        exact absurd (answer_of_quit (Or.inr hending)).1 hleaves
      | none =>
        rw [converse_of_none hending] at hquit ⊢
        obtain ⟨said', hsaid', hshown, hrest⟩ :=
          ih ((hproper.prompts hending).append said) hquit
        refine ⟨said', hsaid', hshown, fun rest => ?_⟩
        rw [untilQuit, List.takeWhile_cons_of_pos (by simpa using hleaves), List.cons_append,
          converseFrom_cons, converse_of_none hending]
        exact hrest rest

/-- **Two runs are one.**  Behind a run that was left, another run goes on as the command for the
next step would. -/
theorem continues_run_of_quit {d : Debugger} {script : List Reply}
    (hquit : (d.run script).ending = .quit) {next : Reply} (hnext : commandOf? next = some .next)
    (rest : List Reply) :
    (d.run (untilQuit script ++ next :: rest)).Continues (stepLines (d.run script).text)
      ((d.run script).debugger.run rest) := by
  have hproper := proper_proceed d
  unfold run at hquit ⊢
  cases hending : d.proceed.ending with
  | some e =>
    rw [converse_of_ending hending] at hquit
    rw [show e = .quit from hquit] at hending
    exact absurd hending (ending_proceed_ne_quit d)
  | none =>
    rw [converse_of_none hending] at hquit ⊢
    obtain ⟨said, hsaid, hshown, hrest⟩ :=
      exists_said_of_quit ((hproper.prompts hending).append greeting) hquit hnext
    rw [converse_of_none hending, hrest rest, ← hshown]
    -- both go on with the same turn; only what was said before is different
    have hgoes := continues_converse hsaid.settled settled_greeting.1
      (by rw [settled_greeting.2, List.append_nil])
      (proper_proceed (converseFrom (greeting ++ d.proceed.text) d.proceed.debugger
        script).debugger) rest
    exact hgoes.trans_symm (continues_run_filter _ rest)

/-- The lines of one run that stands for several: each time the user leaves, the next step is asked
for instead. -/
def joined (next : Reply) (last : List Reply) : List (List Reply) → List Reply
  | [] => last
  | script :: rest => untilQuit script ++ next :: joined next last rest

/-- **Any number of runs is one**, if the user has left all of them but the last. -/
theorem runs_eq_run_joined {next : Reply} (hnext : commandOf? next = some .next)
    (last : List Reply) (scripts : List (List Reply)) (d : Debugger)
    (hquit : ∀ talk ∈ (d.runs scripts).1, talk.ending = .quit) :
    (d.runs (scripts ++ [last])).1.getLast?.map Talk.ending =
        some (d.run (joined next last scripts)).ending ∧
      ((d.runs (scripts ++ [last])).1.flatMap fun talk => stepLines talk.text) =
        stepLines (d.run (joined next last scripts)).text ∧
      (d.runs (scripts ++ [last])).2 = (d.run (joined next last scripts)).debugger := by
  induction scripts generalizing d with
  | nil => exact ⟨rfl, List.append_nil _, rfl⟩
  | cons script rest ih =>
    have hleft : (d.run script).ending = .quit := hquit _ (List.mem_cons_self ..)
    obtain ⟨hending, hshown, hdebugger⟩ := ih (d.run script).debugger
      fun talk htalk => hquit talk (List.mem_cons_of_mem _ htalk)
    have hgoes := continues_run_of_quit hleft hnext (joined next last rest)
    rw [List.cons_append, runs, joined]
    refine ⟨?_, ?_, ?_⟩
    · obtain ⟨final, hfinal, hsame⟩ := Option.map_eq_some_iff.mp hending
      rw [List.getLast?_cons, hfinal, Option.getD_some, Option.map_some, hsame, hgoes.ending]
    · rw [List.flatMap_cons, hshown, hgoes.shown]
    · rw [hdebugger, hgoes.debugger]

/-- **Looking and leaving are transparent.**  Take any debugger, whatever its source, its
interpreter and its count are.

* Two scripts that have the same lines, apart from commands to show the cells and from lines that
  are no command, end alike, show the same steps and leave the same debugger.
* If the user has left all of several runs but the last, then these runs together show the steps of
  one single run, with the numbers going on.  The last of them ends as the single run does and
  leaves the same debugger.  The lines of the single run are those up to where the user has left,
  with the next step asked for instead of leaving. -/
theorem run_transparent (d : Debugger) :
    (∀ replies replies' : List Reply,
      (replies.filter fun reply => !inert reply) = (replies'.filter fun reply => !inert reply) →
        (d.run replies).ending = (d.run replies').ending ∧
          stepLines (d.run replies).text = stepLines (d.run replies').text ∧
          (d.run replies).debugger = (d.run replies').debugger) ∧
    ∀ (scripts : List (List Reply)) (last : List Reply) (next : Reply),
      commandOf? next = some .next → (∀ talk ∈ (d.runs scripts).1, talk.ending = .quit) →
        let parts := d.runs (scripts ++ [last])
        let whole := d.run (joined next last scripts)
        parts.1.getLast?.map Talk.ending = some whole.ending ∧
          (parts.1.flatMap fun talk => stepLines talk.text) = stepLines whole.text ∧
          parts.2 = whole.debugger := by
  refine ⟨?_, ?_⟩
  · intro replies replies' hsame
    have hleft := continues_run_filter d replies
    rw [hsame] at hleft
    have hboth := hleft.trans_symm (continues_run_filter d replies')
    exact ⟨hboth.ending, hboth.shown, hboth.debugger⟩
  · intro scripts last next hnext hquit
    exact runs_eq_run_joined hnext last scripts d hquit

/-- A user who looks at the cells and leaves, comes back, mistypes and leaves without a word, and
comes back for the rest. -/
theorem run_transparent_thrice :
    (∀ talk ∈ ((start (fresh { memorySize := 1, maxIterations := 9 }) "+.-").runs
        [[some "m\n", some "q\n", some "s\n"], [some "what\n"]]).1, talk.ending = .quit) ∧
      (((start (fresh { memorySize := 1, maxIterations := 9 }) "+.-").runs
        [[some "m\n", some "q\n", some "s\n"], [some "what\n"],
          [some "n\n"]]).1.flatMap fun talk => stepLines talk.text) =
        stepLines ((start (fresh { memorySize := 1, maxIterations := 9 }) "+.-").run
          [some "n\n", some "n\n", some "n\n"]).text ∧
      ((start (fresh { memorySize := 1, maxIterations := 9 }) "+.-").runs
        [[some "m\n", some "q\n", some "s\n"], [some "what\n"], [some "n\n"]]).2.steps = 3 := by
  obtain ⟨hlooks, hleaves⟩ :=
    run_transparent (start (fresh { memorySize := 1, maxIterations := 9 }) "+.-")
  have hquit : ∀ talk ∈ ((start (fresh { memorySize := 1, maxIterations := 9 }) "+.-").runs
      [[some "m\n", some "q\n", some "s\n"], [some "what\n"]]).1, talk.ending = .quit := by
    decide +kernel
  obtain ⟨_, hshown, hleft⟩ := hleaves [[some "m\n", some "q\n", some "s\n"], [some "what\n"]]
    [some "n\n"] (some "n\n") (by decide +kernel) hquit
  obtain ⟨_, hshown', hleft'⟩ := hlooks
    (joined (some "n\n") [some "n\n"] [[some "m\n", some "q\n", some "s\n"], [some "what\n"]])
    [some "n\n", some "n\n", some "n\n"] (by decide +kernel)
  refine ⟨hquit, hshown.trans hshown', ?_⟩
  calc _ = _ := congrArg steps (hleft.trans hleft')
    _ = 3 := by decide +kernel

end Debugger

end TapeTutor
