import TapeTutor.Grading
import TapeTutor.Proofs.Calls

/-!
# Comments never matter

A source is read by many: an execution, the calls of a session, the debugger, an animation, the two
graders.  Some strip its comments before they parse it and some do not, and the debugger keeps the
text as it was given.  All of them see the same program, because a parser never looks at a comment.

What it means that two sources differ in their comments only can be said in two ways.  One is that
they have the same stripped text.  The other is that both come from one text by putting in characters
that are no instructions, anywhere (`Annotates`).  The two are the same (`strip_eq_strip_iff`).

* Such sources parse alike, errors and their positions included (`Program.parse_eq_of_strip`), and
  nobody looks at a source except by parsing it (`Interpreter.execute_eq_of_strip`,
  `Interpreter.step_eq_of_strip`).
* A debugger holds the text, so two debuggers are never equal.  They are `Debugger.Alike`: everything
  but the comments agrees.  A step keeps them alike, hence every turn does, and every conversation.
-/

namespace TapeTutor

/-! ## Two sources with the same instructions -/

/-- The text is the bare one with comment characters put in. -/
inductive Annotates : (bare text : List Char) → Prop
  | nil : Annotates [] []
  | keep (c : Char) {bare text : List Char} :
      Annotates bare text → Annotates (c :: bare) (c :: text)
  | comment {c : Char} {bare text : List Char} :
      Instruction.ofChar? c = none → Annotates bare text → Annotates bare (c :: text)

/-- Comments put in are comments left out. -/
theorem Annotates.filterMap_eq {bare text : List Char} (h : Annotates bare text) :
    text.filterMap Instruction.ofChar? = bare.filterMap Instruction.ofChar? := by
  induction h with
  | nil => rfl
  | keep c _ ih => rw [List.filterMap_cons, List.filterMap_cons, ih]
  | comment hc _ ih => rw [List.filterMap_cons_none hc, ih]

/-- Every text comes from its instructions. -/
theorem annotates_filterMap (text : List Char) :
    Annotates ((text.filterMap Instruction.ofChar?).map Instruction.toChar) text := by
  induction text with
  | nil => exact .nil
  | cons c text ih =>
    cases hc : Instruction.ofChar? c with
    | none =>
      rw [List.filterMap_cons_none hc]
      exact .comment hc ih
    | some i =>
      rw [List.filterMap_cons_some hc, List.map_cons, Instruction.toChar_of_ofChar? hc]
      exact .keep c ih

/-- A stripped text tells the instructions. -/
theorem strip_eq_strip_iff_clean {source source' : String} :
    strip source = strip source' ↔ clean source = clean source' := by
  constructor
  · intro h
    have hread := congrArg clean h
    rwa [strip, clean_spell, strip, clean_spell] at hread
  · intro h
    rw [strip, h, strip]

/-- **Two sources have the same stripped text if and only if they are one text with different
comments.** -/
theorem strip_eq_strip_iff {source source' : String} :
    strip source = strip source' ↔
      ∃ bare, Annotates bare source.toList ∧ Annotates bare source'.toList := by
  rw [strip_eq_strip_iff_clean]
  constructor
  · intro h
    refine ⟨(clean source).map Instruction.toChar, annotates_filterMap source.toList, ?_⟩
    rw [h]
    exact annotates_filterMap source'.toList
  · rintro ⟨bare, h, h'⟩
    exact h.filterMap_eq.trans h'.filterMap_eq.symm

variable {source source' : String}

theorem Program.parse_eq_of_strip (h : strip source = strip source') :
    parse source = parse source' := by
  rw [← parse_strip source, h, parse_strip]

/-! ## Interpreters -/

namespace Interpreter

theorem execute_eq_of_strip (h : strip source = strip source') (it : Interpreter) :
    it.execute source = it.execute source' := by
  simp only [execute, Program.parse_eq_of_strip h]

theorem step_eq_of_strip (h : strip source = strip source') (it : Interpreter) :
    it.step source = it.step source' := by
  simp only [step, Program.parse_eq_of_strip h]

/-- Consecutive calls, each with a source of its own. -/
theorem calls_eq_of_strip {sources sources' : List String}
    (h : sources.map strip = sources'.map strip) (it : Interpreter) :
    it.calls sources = it.calls sources' := by
  induction sources generalizing sources' it with
  | nil => rw [List.map_eq_nil_iff.mp h.symm]
  | cons source rest ih =>
    obtain ⟨source', rest', rfl, hfirst, hrest⟩ := List.map_eq_cons_iff.mp h.symm
    rw [calls, calls, step_eq_of_strip hfirst.symm, ih hrest.symm]

end Interpreter

/-! ## Animations -/

namespace Viewer

open Interpreter

theorem animateLoop_eq_of_strip (h : strip source = strip source') (v : Viewer) (draw : Bool)
    (fuel : Nat) (stop : Option Nat) (it : Interpreter) (drawn : List String) :
    v.animateLoop draw source fuel stop it drawn = v.animateLoop draw source' fuel stop it drawn := by
  induction fuel generalizing stop it drawn with
  | zero => rfl
  | succ fuel ih => simp only [animateLoop, step_eq_of_strip h, ih]

theorem animate_eq_of_strip (h : strip source = strip source') (v : Viewer) (draw : Bool)
    (stop : Option Nat) (it : Interpreter) :
    v.animate draw source stop it = v.animate draw source' stop it :=
  animateLoop_eq_of_strip h v draw _ stop it []

end Viewer

/-! ## Debuggers -/

namespace Debugger

open Interpreter

/-- Two debuggers that differ at most in the comments of their source. -/
structure Alike (d d' : Debugger) : Prop where
  interpreter : d.interpreter = d'.interpreter
  code : strip d.code = strip d'.code
  steps : d.steps = d'.steps

/-- The same is said, and what is left differs at most in comments. -/
structure Turn.Alike (t t' : Turn) : Prop where
  text : t.text = t'.text
  ending : t.ending = t'.ending
  debugger : t.debugger.Alike t'.debugger

/-- Two runs that say the same, end alike and leave debuggers that differ at most in comments. -/
structure Talk.Alike (a b : Talk) : Prop where
  ending : a.ending = b.ending
  text : a.text = b.text
  debugger : a.debugger.Alike b.debugger

variable {d d' : Debugger}

/-- **One step** comes to the same and keeps debuggers alike. -/
theorem Alike.step (h : d.Alike d') :
    ∃ outcome e e', d.step = (outcome, e) ∧ d'.step = (outcome, e') ∧ e.Alike e' := by
  obtain ⟨it, code, steps⟩ := d
  obtain ⟨_, code', _⟩ := d'
  obtain ⟨rfl, hcode, rfl⟩ := h
  have hcall := step_eq_of_strip hcode it
  rcases hstep : it.step code' with ⟨⟨r, out⟩ | ⟨out⟩ | ⟨f⟩, it'⟩
  all_goals rw [hstep] at hcall
  · exact ⟨_, _, _, step_of_stepped hcall, step_of_stepped hstep, rfl, hcode, rfl⟩
  · exact ⟨_, _, _, step_of_done hcall, step_of_done hstep, rfl, hcode, rfl⟩
  · exact ⟨_, _, _, step_of_failed hcall, step_of_failed hstep, rfl, hcode, rfl⟩

theorem Alike.fail (h : d.Alike d') (fault : Fault) : (d.fail fault).Alike (d'.fail fault) where
  text := by rw [Debugger.fail, Debugger.fail, h.interpreter]
  ending := rfl
  debugger := h

theorem Alike.finish (h : d.Alike d') (output : Array UInt8) :
    (d.finish output).Alike (d'.finish output) where
  text := rfl
  ending := rfl
  debugger := h

theorem Alike.spent_eq (h : d.Alike d') : d.spent = d'.spent := by
  rw [spent, spent, h.interpreter]

theorem Alike.ceiling_eq (h : d.Alike d') : d.ceiling = d'.ceiling := by
  rw [ceiling, ceiling, h.interpreter]

theorem Alike.proceed (h : d.Alike d') : d.proceed.Alike d'.proceed := by
  obtain ⟨outcome, e, e', hstep, hstep', hnext⟩ := h.step
  rw [Debugger.proceed, Debugger.proceed, h.spent_eq, h.ceiling_eq, h.steps, hstep, hstep']
  split
  · exact h.fail _
  · cases outcome with
    | stepped record output => exact ⟨rfl, rfl, hnext⟩
    | done output => exact hnext.finish output
    | failed fault => exact hnext.fail fault

theorem Alike.skipLoop (fuel : Nat) (h : d.Alike d') :
    (skipLoop fuel d).Alike (skipLoop fuel d') := by
  induction fuel generalizing d d' with
  | zero =>
    rw [Debugger.skipLoop, Debugger.skipLoop, h.ceiling_eq]
    exact h.fail _
  | succ fuel ih =>
    obtain ⟨outcome, e, e', hstep, hstep', hnext⟩ := h.step
    rw [Debugger.skipLoop, Debugger.skipLoop, h.spent_eq, h.ceiling_eq, hstep, hstep']
    split
    · exact h.fail _
    · cases outcome with
      | stepped record output => exact ih hnext
      | done output => exact hnext.finish output
      | failed fault => exact hnext.fail fault

/-- **One turn** says the same and keeps debuggers alike. -/
theorem Alike.answer (h : d.Alike d') (reply : Reply) : (d.answer reply).Alike (d'.answer reply) := by
  cases reply with
  | none => exact ⟨rfl, rfl, h⟩
  | some line =>
    simp only [Debugger.answer]
    split
    · exact h.proceed
    · refine ⟨?_, rfl, h⟩
      rw [h.interpreter]
    · rw [skip, skip, h.interpreter]
      exact h.skipLoop _
    · exact ⟨rfl, rfl, h⟩
    · exact ⟨rfl, rfl, h⟩

/-- **A whole conversation** says the same. -/
theorem Turn.Alike.converse {t t' : Turn} (h : t.Alike t') (said : String) (replies : List Reply) :
    (converse said t replies).Alike (converse said t' replies) := by
  -- along the script, and for any turn in front of it: whether one ends the talk is the same in both
  induction replies generalizing said t t' with
  | nil =>
    rw [Debugger.converse, Debugger.converse, h.ending, h.text]
    split
    · exact ⟨rfl, rfl, h.debugger⟩
    · exact ⟨rfl, rfl, h.debugger⟩
  | cons reply rest ih =>
    rw [Debugger.converse, Debugger.converse, h.ending, h.text]
    split
    · exact ⟨rfl, rfl, h.debugger⟩
    · exact ih (h.debugger.answer reply) _

theorem Alike.run (h : d.Alike d') (replies : List Reply) : (d.run replies).Alike (d'.run replies) :=
  h.proceed.converse greeting replies

end Debugger

/-! ## Graders -/

theorem grade_eq_of_strip (h : strip source = strip source') (tests : List TestCase)
    (config : Config) : grade source tests config = grade source' tests config := by
  have hcase : TestCase.fault? source config = TestCase.fault? source' config := by
    funext t
    rw [TestCase.fault?, TestCase.fault?, Interpreter.execute_eq_of_strip h]
  rw [grade, grade, hcase]

theorem judge_eq_of_strip {attempt attempt' : String} (hattempt : strip attempt = strip attempt')
    (hreference : strip source = strip source') (config : Config) :
    Verdict.judge attempt source config = Verdict.judge attempt' source' config := by
  simp only [Verdict.judge, Trial.run, hattempt, hreference]

/-- **Comments never matter.**

* Two sources have the same stripped text if and only if they come from one text by putting in
  characters that are no instructions, of whatever kind and anywhere.
* Such sources parse to the same program, or fail with the same fault at the same position.  An
  execution of any interpreter has the same result and leaves the same interpreter, and so has an
  animation, with the same frames, whatever the delay and the stop are.  Two debuggers that have
  nothing but their source different write the same text on every script, end alike and leave the
  same interpreter and the same count.  A grader finds the same fault.
* Consecutive calls may each have a source of its own, and a comparison has two.
* A parsed program is written as its stripped source, and that text is read back as the same program
  with the same jumps. -/
theorem comments_never_matter :
    (∀ source source' : String, strip source = strip source' ↔
      ∃ bare, Annotates bare source.toList ∧ Annotates bare source'.toList) ∧
    (∀ source source' : String, strip source = strip source' →
      Program.parse source = Program.parse source' ∧
      (∀ it : Interpreter, it.execute source = it.execute source') ∧
      (∀ (v : Viewer) (draw : Bool) (stop : Option Nat) (it : Interpreter),
        v.animate draw source stop it = v.animate draw source' stop it) ∧
      (∀ (it : Interpreter) (steps : Nat) (replies : List Debugger.Reply),
        (Debugger.run ⟨it, source, steps⟩ replies).Alike
          (Debugger.run ⟨it, source', steps⟩ replies)) ∧
      ∀ (tests : List TestCase) (config : Config),
        grade source tests config = grade source' tests config) ∧
    (∀ sources sources' : List String, sources.map strip = sources'.map strip →
      ∀ it : Interpreter, it.calls sources = it.calls sources') ∧
    (∀ attempt attempt' reference reference' : String, strip attempt = strip attempt' →
      strip reference = strip reference' → ∀ config : Config,
        Verdict.judge attempt reference config = Verdict.judge attempt' reference' config) ∧
    ∀ (source : String) (p : Program), Program.parse source = .ok p →
      p.text = strip source ∧ Program.parse p.text = .ok p := by
  refine ⟨fun _ _ => strip_eq_strip_iff, ?_, ?_, ?_, ?_⟩
  · intro source source' h
    refine ⟨Program.parse_eq_of_strip h, Interpreter.execute_eq_of_strip h,
      Viewer.animate_eq_of_strip h, ?_, grade_eq_of_strip h⟩
    intro it steps replies
    have halike : Debugger.Alike ⟨it, source, steps⟩ ⟨it, source', steps⟩ := ⟨rfl, h, rfl⟩
    exact halike.run replies
  · intro sources sources' h it
    exact Interpreter.calls_eq_of_strip h it
  · intro attempt attempt' reference reference' hattempt hreference config
    exact judge_eq_of_strip hattempt hreference config
  · intro source p hp
    have htext := Program.text_of_parse hp
    refine ⟨htext, ?_⟩
    rw [htext, Program.parse_strip, hp]

/-- Comments in and between the lines, of a program that runs off the tape behind some output. -/
theorem comments_never_matter_overflow :
    strip "é +\n. → >" = strip "+.>" ∧
      ((Interpreter.fresh { memorySize := 1, maxIterations := 9 }).execute "é +\n. → >").1 =
        .error ⟨.overflow 2 0, #[1], 2⟩ ∧
      grade "é +\n. → >" [.printing [] "!"] { memorySize := 1, maxIterations := 9 } =
        some (.execution ⟨.overflow 2 0, #[1], 2⟩) ∧
      (Debugger.run ⟨.fresh { memorySize := 1, maxIterations := 9 }, "é +\n. → >", 0⟩
        [some "s\n"]).Alike
        (Debugger.run ⟨.fresh { memorySize := 1, maxIterations := 9 }, "+.>", 0⟩
          [some "s\n"]) := by
  have hstrip : strip "é +\n. → >" = strip "+.>" := by decide +kernel
  obtain ⟨_, hsame, _⟩ := comments_never_matter
  obtain ⟨_, hexecute, _, hdebug, hgrade⟩ := hsame _ _ hstrip
  refine ⟨hstrip, ?_, ?_, hdebug _ _ _⟩
  · rw [hexecute]
    rfl
  · rw [hgrade]
    rfl

end TapeTutor
