import TapeTutor.Proofs.Afresh

/-!
# Interrupting an animation and going on

An animation that is asked to stop leaves its interpreter where it is, and the next animation takes
it from there.  What the two have drawn should be what one animation would have drawn, whenever the
stop comes: before the session has begun, in the middle, behind the last instruction, or where the
ceiling is reached and nobody has noticed.

`Viewer.Course` is the whole way of an animation that nobody stops: one turn for every instruction,
with its frame, and then the end.  It is made of calls of `step` only, so it knows nothing of stops
and of the fuel of the loop.  Everything is read off it.

* Every new interpreter has a course (`exists_course`), and it is as long as the execution
  (`Course.length_eq`).
* A course can be cut at every turn, and what is behind the cut is the course of the interpreter
  that as many calls leave (`Course.drop`).
* An animation with a stop on its course ends there (`animate_stopped`); any other animation follows
  the course to its end (`animate_unstopped`).

So however often an animation is interrupted, it stands at a turn of one and the same course, and
the frames drawn are those up to this turn (`Interrupted.position`).
-/

namespace TapeTutor

/-- The animation, with frames that were drawn before it. -/
def Animation.behind (frames : List String) (a : Animation) : Animation :=
  { a with frames := frames ++ a.frames }

namespace Viewer

open Interpreter

variable (v : Viewer) (draw : Bool) (code : String)

/-! ## The course of an animation -/

/-- The way of an animation of `code` that nobody stops: the frames there are to draw, the end it
comes to, and the interpreter it leaves.  Every turn is counted. -/
inductive Course : Interpreter → List String → AnimationEnd → Interpreter → Prop
  /-- The ceiling is reached. -/
  | ceiling {it : Interpreter} : it.config.maxIterations ≤ it.machine.iterations →
      Course it [] (.failed (.ceiling it.config.maxIterations) it.machine.output) it
  /-- The program is over. -/
  | done {it it' : Interpreter} {output : Array UInt8} :
      it.machine.iterations < it.config.maxIterations → it.step code = (.done output, it') →
      it'.machine.iterations = it.machine.iterations → Course it [] (.completed output) it'
  /-- The source does not parse, or the next instruction cannot be executed. -/
  | failed {it it' : Interpreter} {fault : Fault} :
      it.machine.iterations < it.config.maxIterations → it.step code = (.failed fault, it') →
      it'.machine.iterations = it.machine.iterations →
      Course it [] (.failed fault it'.machine.output) it'
  /-- An instruction is executed. -/
  | turn {it it' last : Interpreter} {r : Record} {output : Array UInt8} {frames : List String}
      {ending : AnimationEnd} :
      it.machine.iterations < it.config.maxIterations → it.step code = (.stepped r output, it') →
      it'.machine.iterations = it.machine.iterations + 1 → Course it' frames ending last →
      Course it (v.frame it' r :: frames) ending last

/-- There is a course wherever the count of the machine is that of the session. -/
theorem exists_course {it : Interpreter} (hcount : it.sessionCount = it.machine.iterations) :
    ∃ frames ending last, v.Course code it frames ending last := by
  induction hleft : it.config.maxIterations - it.machine.iterations generalizing it with
  | zero => exact ⟨_, _, _, .ceiling (by omega)⟩
  | succ left ih =>
    have hlt : it.machine.iterations < it.config.maxIterations := by omega
    have hcall := iterations_step it code
    have hconfig := config_step it code
    rcases hstep : it.step code with ⟨⟨r, output⟩ | ⟨output⟩ | ⟨fault⟩, it'⟩
    · obtain ⟨hbegun, hturn⟩ := begun_of_stepped hstep
      rw [hcount] at hturn
      rw [hstep] at hconfig
      have hlimit : it'.config.maxIterations = it.config.maxIterations :=
        congrArg Config.maxIterations hconfig
      obtain ⟨frames, ending, last, hrest⟩ := @ih it' (if_neg hbegun) (by omega)
      exact ⟨_, _, _, .turn hlt hstep hturn hrest⟩
    · rw [hstep, hcount] at hcall
      exact ⟨_, _, _, .done hlt hstep hcall⟩
    · rw [hstep, hcount] at hcall
      exact ⟨_, _, _, .failed hlt hstep hcall⟩

namespace Course

variable {v draw code} {it last : Interpreter} {frames : List String} {ending : AnimationEnd}
  {k : Nat}

theorem not_interrupted (h : v.Course code it frames ending last) (output : Array UInt8) :
    ending ≠ .interrupted output := by
  induction h with
  | turn _ _ _ _ ih => exact ih
  | _ => exact nofun

/-- As many instructions are executed as there are frames to draw. -/
theorem iterations_eq (h : v.Course code it frames ending last) :
    last.machine.iterations = it.machine.iterations + frames.length := by
  induction h with
  | ceiling _ => rfl
  | done _ _ hsame => exact hsame
  | failed _ _ hsame => exact hsame
  | turn _ _ hcount _ ih =>
    rw [ih, hcount, List.length_cons]
    omega

/-- Behind the first turns, the rest of the course is to come. -/
theorem drop (h : v.Course code it frames ending last) (hk : k ≤ frames.length) :
    v.Course code (it.afterSteps code k) (frames.drop k) ending last := by
  induction h generalizing k with
  | ceiling hspent =>
    cases Nat.le_zero.mp hk
    exact .ceiling hspent
  | done hlt hstep hsame =>
    cases Nat.le_zero.mp hk
    exact .done hlt hstep hsame
  | failed hlt hstep hsame =>
    cases Nat.le_zero.mp hk
    exact .failed hlt hstep hsame
  | turn hlt hstep hcount hrest ih =>
    cases k with
    | zero => exact .turn hlt hstep hcount hrest
    | succ k =>
      rw [afterSteps, hstep, List.drop_succ_cons]
      exact ih (Nat.le_of_succ_le_succ hk)

theorem iterations_afterSteps (h : v.Course code it frames ending last) (hk : k ≤ frames.length) :
    (it.afterSteps code k).machine.iterations = it.machine.iterations + k := by
  have hwhole := h.iterations_eq
  have hrest := (h.drop hk).iterations_eq
  rw [List.length_drop] at hrest
  omega

/-- Each turn is a call that executes an instruction. -/
theorem outcomeAfter (h : v.Course code it frames ending last) (hk : k < frames.length) :
    ∃ r output, it.outcomeAfter code k = .stepped r output := by
  have hrest := h.drop (Nat.le_of_lt hk)
  rw [List.drop_eq_getElem_cons hk] at hrest
  generalize frames[k] = frame at hrest
  cases hrest with
  | turn _ hstep _ _ => exact ⟨_, _, congrArg Prod.fst hstep⟩

end Course

/-! ## Animations along a course -/

section Along

variable {v draw code} {it last : Interpreter} {frames : List String} {ending : AnimationEnd}
  {k : Nat}

/-- One turn of the loop. -/
theorem animateLoop_of_stepped {it' : Interpreter} {r : Record} {output : Array UInt8}
    {stop : Option Nat} (hstop : stop ≠ some 0)
    (hlt : it.machine.iterations < it.config.maxIterations)
    (hstep : it.step code = (.stepped r output, it')) (fuel : Nat) (drawn : List String) :
    v.animateLoop draw code (fuel + 1) stop it drawn =
      v.animateLoop draw code fuel (stop.map (· - 1)) it'
        (if draw then v.frame it' r :: drawn else drawn) := by
  rw [animateLoop, if_neg hstop, if_neg (Nat.not_le.mpr hlt), hstep]

/-- What a turn and the rest of a course draw. -/
theorem reverse_drawn_append (draw : Bool) (frame : String) (drawn rest : List String) :
    (if draw then frame :: drawn else drawn).reverse ++ (if draw then rest else []) =
      drawn.reverse ++ (if draw then frame :: rest else []) := by
  cases draw with
  | false => rfl
  | true => simp

/-- What the ceiling still allows is fuel for a turn, and behind it for the rest. -/
theorem exists_fuel {it' : Interpreter} {outcome : Outcome} {fuel : Nat}
    (hfuel : it.config.maxIterations ≤ it.machine.iterations + fuel)
    (hlt : it.machine.iterations < it.config.maxIterations)
    (hstep : it.step code = (outcome, it')) :
    ∃ n, fuel = n + 1 ∧ (it'.machine.iterations = it.machine.iterations + 1 →
      it'.config.maxIterations ≤ it'.machine.iterations + n) := by
  have hconfig := config_step it code
  rw [hstep] at hconfig
  have hlimit : it'.config.maxIterations = it.config.maxIterations :=
    congrArg Config.maxIterations hconfig
  exact ⟨fuel - 1, by omega, fun hcount => by omega⟩

/-- The loop follows a course to a stop on it. -/
theorem animateLoop_stopped (h : v.Course code it frames ending last) (hk : k ≤ frames.length)
    {fuel : Nat} (hfuel : it.config.maxIterations ≤ it.machine.iterations + fuel)
    (drawn : List String) :
    v.animateLoop draw code fuel (some k) it drawn =
      ⟨.interrupted (it.afterSteps code k).machine.output,
        drawn.reverse ++ (if draw then frames.take k else []), it.afterSteps code k⟩ := by
  induction k generalizing it frames fuel drawn with
  | zero =>
    rw [animateLoop_of_stopped, List.take_zero, ite_self, List.append_nil]
    rfl
  | succ k ih =>
    cases h with
    | turn hlt hstep hcount hrest =>
      obtain ⟨fuel, rfl, hleft⟩ := exists_fuel hfuel hlt hstep
      rw [animateLoop_of_stepped (by simp) hlt hstep, Option.map_some, Nat.add_sub_cancel,
        ih hrest (Nat.le_of_succ_le_succ hk) (hleft hcount), reverse_drawn_append,
        List.take_succ_cons, afterSteps, hstep]
    | _ => contradiction

/-- Without a stop on it, the loop follows a course to its end. -/
theorem animateLoop_unstopped (h : v.Course code it frames ending last) {stop : Option Nat}
    (hstop : ∀ k, stop = some k → frames.length < k) {fuel : Nat}
    (hfuel : it.config.maxIterations ≤ it.machine.iterations + fuel) (drawn : List String) :
    v.animateLoop draw code fuel stop it drawn =
      ⟨ending, drawn.reverse ++ (if draw then frames else []), last⟩ := by
  have hne : stop ≠ some 0 := fun hzero => Nat.not_lt_zero _ (hstop 0 hzero)
  induction h generalizing stop fuel drawn with
  | ceiling hspent =>
    rw [animateLoop_of_spent v draw code fuel hne hspent, ite_self, List.append_nil]
  | done hlt hstep _ =>
    obtain ⟨fuel, rfl, _⟩ := exists_fuel hfuel hlt hstep
    rw [animateLoop, if_neg hne, if_neg (Nat.not_le.mpr hlt), hstep, ite_self, List.append_nil]
  | failed hlt hstep _ =>
    obtain ⟨fuel, rfl, _⟩ := exists_fuel hfuel hlt hstep
    rw [animateLoop, if_neg hne, if_neg (Nat.not_le.mpr hlt), hstep, ite_self, List.append_nil]
  | @turn it it' last r output frames ending hlt hstep hcount _ ih =>
    obtain ⟨fuel, rfl, hleft⟩ := exists_fuel hfuel hlt hstep
    have hlater : ∀ k, stop.map (· - 1) = some k → frames.length < k := by
      intro k hk
      obtain ⟨n, hn, rfl⟩ := Option.map_eq_some_iff.mp hk
      have hlong := hstop n hn
      rw [List.length_cons] at hlong
      omega
    rw [animateLoop_of_stepped hne hlt hstep, ih hlater (hleft hcount), reverse_drawn_append]
    exact fun hzero => Nat.not_lt_zero _ (hlater 0 hzero)

theorem animate_stopped (h : v.Course code it frames ending last) (hk : k ≤ frames.length) :
    v.animate draw code (some k) it =
      ⟨.interrupted (it.afterSteps code k).machine.output, if draw then frames.take k else [],
        it.afterSteps code k⟩ :=
  animateLoop_stopped h hk (Nat.le_add_left _ _) []

theorem animate_unstopped (h : v.Course code it frames ending last) {stop : Option Nat}
    (hstop : ∀ k, stop = some k → frames.length < k) :
    v.animate draw code stop it = ⟨ending, if draw then frames else [], last⟩ :=
  animateLoop_unstopped h hstop (Nat.le_add_left _ _) []

/-- The course of a new interpreter has a turn for every instruction of the execution. -/
theorem Course.length_eq {config : Config} (h : v.Course code (fresh config) frames ending last)
    (hvalid : config.Valid) :
    frames.length = ((fresh config).execute code).2.machine.iterations := by
  have hmachine := (v.animate_reset (fresh config) code hvalid.2).2
  rw [show (fresh config).reset = fresh config from rfl, animate_unstopped h (by simp)] at hmachine
  have hcount := h.iterations_eq
  rw [show last.machine = _ from hmachine] at hcount
  rw [hcount]
  exact (Nat.zero_add _).symm

end Along

/-! ## Interruptions -/

/-- Animations of `code` that are interrupted, one after the other: each takes the interpreter that
the last one has left, `start` at first.  The frames are all those drawn so far. -/
inductive Interrupted (start : Interpreter) : List String → Interpreter → Prop
  | none : Interrupted start [] start
  | again {frames : List String} {it : Interpreter} {k : Nat} {output : Array UInt8} :
      Interrupted start frames it →
      (v.animate draw code (some k) it).ending = .interrupted output →
      Interrupted start (frames ++ (v.animate draw code (some k) it).frames)
        (v.animate draw code (some k) it).interpreter

variable {v draw code}

/-- However often it is interrupted, an animation stands at a turn of its course. -/
theorem Interrupted.position {start it last : Interpreter} {all frames : List String}
    {ending : AnimationEnd} (hcourse : v.Course code start all ending last)
    (h : v.Interrupted draw code start frames it) :
    ∃ n ≤ all.length, it = start.afterSteps code n ∧ frames = if draw then all.take n else [] := by
  induction h with
  | none => exact ⟨0, Nat.zero_le _, rfl, by simp⟩
  | @again frames it k output _ hending ih =>
    obtain ⟨n, hn, rfl, rfl⟩ := ih
    have hrest := hcourse.drop hn
    by_cases hk : k ≤ (all.drop n).length
    · rw [animate_stopped hrest hk]
      refine ⟨n + k, ?_, (afterSteps_add code n k start).symm, ?_⟩
      · rw [List.length_drop] at hk
        omega
      · cases draw with
        | false => rfl
        | true => exact List.take_add.symm
    · -- a stop that comes too late is no interruption
      have hlate : ∀ n', some k = some n' → (all.drop n).length < n' := by
        rintro n' ⟨⟩
        exact Nat.lt_of_not_le hk
      rw [animate_unstopped hrest hlate] at hending
      exact absurd hending (hrest.not_interrupted output)

/-- **Interrupting loses nothing and repeats nothing.**  Animate a new interpreter, be interrupted
any number of times, go on each time; let the interpreter have executed `j` instructions by now, of
the `total` that an execution comes to.

* It stands where `j` calls of `step` lead, all of which execute an instruction, and as many frames
  have been drawn, if any are.
* A stop that is first seen behind `k` more instructions, where `j + k ≤ total`, is obeyed: the
  animation is interrupted where `j + k` calls lead, with the output written there, and with `k`
  frames.
* A stop that comes later is never seen.  Then, or if there is no stop, the animation ends as the
  one does that nobody ever stopped, and leaves the same interpreter; and the frames drawn before and
  the frames drawn now are those of that animation. -/
theorem animate_resumes {config : Config} {start it : Interpreter} {frames : List String}
    (hnew : Interpreter.new config = .ok start) (h : v.Interrupted draw code start frames it) :
    (it.machine.iterations ≤ (start.execute code).2.machine.iterations ∧
      start.Stands code it.machine.iterations it.machine ∧
      frames.length = if draw then it.machine.iterations else 0) ∧
    (∀ k, it.machine.iterations + k ≤ (start.execute code).2.machine.iterations →
      (v.animate draw code (some k) it).ending =
          .interrupted (v.animate draw code (some k) it).interpreter.machine.output ∧
        (v.animate draw code (some k) it).interpreter.machine.iterations =
          it.machine.iterations + k ∧
        start.Stands code (it.machine.iterations + k)
          (v.animate draw code (some k) it).interpreter.machine ∧
        (v.animate draw code (some k) it).frames.length = if draw then k else 0) ∧
    (∀ stop, (∀ k, stop = some k →
        (start.execute code).2.machine.iterations < it.machine.iterations + k) →
      (v.animate draw code stop it).behind frames = v.animate draw code none start) ∧
    ∀ output, (v.animate draw code none start).ending ≠ .interrupted output := by
  obtain ⟨hvalid, rfl⟩ := valid_of_new hnew
  obtain ⟨all, ending, last, hcourse⟩ := @exists_course v code (fresh config) rfl
  obtain ⟨n, hn, rfl, rfl⟩ := h.position hcourse
  have hrest := hcourse.drop hn
  have hlength : (all.drop n).length = all.length - n := List.length_drop
  have hcount : ∀ k ≤ all.length, ((fresh config).afterSteps code k).machine.iterations = k := by
    intro k hk
    rw [hcourse.iterations_afterSteps hk]
    exact Nat.zero_add k
  have hstands : ∀ k ≤ all.length,
      (fresh config).Stands code k ((fresh config).afterSteps code k).machine := by
    intro k hk
    exact ⟨fun i hi => hcourse.outcomeAfter (Nat.lt_of_lt_of_le hi hk), rfl⟩
  rw [← hcourse.length_eq hvalid, hcount n hn]
  refine ⟨⟨hn, hstands n hn, ?_⟩, ?_, ?_, ?_⟩
  · cases draw with
    | false => rfl
    | true => exact List.length_take_of_le hn
  · intro k hk
    rw [animate_stopped hrest (by omega), ← afterSteps_add]
    refine ⟨rfl, hcount _ hk, hstands _ hk, ?_⟩
    cases draw with
    | false => rfl
    | true => exact List.length_take_of_le (by omega)
  · intro stop hstop
    have hlate : ∀ k, stop = some k → (all.drop n).length < k := by
      intro k hk
      have hbeyond := hstop k hk
      omega
    rw [animate_unstopped hrest hlate, animate_unstopped hcourse (by simp), Animation.behind]
    cases draw with
    | false => rfl
    | true => exact congrArg (Animation.mk ending · last) (List.take_append_drop n all)
  · intro output
    rw [animate_unstopped hcourse (by simp)]
    exact hcourse.not_interrupted output

/-- Two interruptions, one before anything has happened and one behind the last instruction. -/
theorem animate_resumes_twice :
    ∃ start frames it, Interpreter.new { memorySize := 2, maxIterations := 9 } = .ok start ∧
      Interrupted {} true "+[->.<]" start frames it ∧
      it.machine.iterations = 7 ∧ frames.length = 7 ∧
      (Viewer.animate {} true "+[->.<]" none it).behind frames =
        Viewer.animate {} true "+[->.<]" none start := by
  have hnew : Interpreter.new { memorySize := 2, maxIterations := 9 } =
      .ok (fresh { memorySize := 2, maxIterations := 9 }) := rfl
  have hfirst : Interrupted {} true "+[->.<]" (fresh { memorySize := 2, maxIterations := 9 }) _ _ :=
    .again (k := 0) .none rfl
  have hsecond := hfirst.again (k := 7) rfl
  obtain ⟨⟨_, _, hframes⟩, _, hwhole, _⟩ := animate_resumes hnew hsecond
  exact ⟨_, _, _, hnew, hsecond, rfl, hframes, hwhole none (by simp)⟩

end Viewer

end TapeTutor
