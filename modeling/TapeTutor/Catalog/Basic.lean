import TapeTutor.Grading

/-!
# What the catalog holds

Three kinds of entries: examples to run, exercises to solve and practice tasks of the
lessons.  An exercise is graded by test cases, after its setup; a practice task is graded by
comparing with its solution.
-/

namespace TapeTutor

/-- How hard an entry is. -/
inductive Level where
  | beginner
  | intermediate
  | advanced
deriving DecidableEq, Repr

namespace Level

/-- All levels, the easiest first. -/
def all : List Level := [beginner, intermediate, advanced]

/-- The name of a level. -/
def name : Level → String
  | beginner => "beginner"
  | intermediate => "intermediate"
  | advanced => "advanced"

/-- The level of that name. -/
def ofName? (s : String) : Option Level := all.find? fun l => l.name = s

end Level

/-- A program to run and look at. -/
structure Example where
  name : String
  level : Level
  description : String
  code : String
  /-- The input used when none is given. -/
  sampleInput : String
deriving DecidableEq, Repr

/-- A task that is graded by test cases. -/
structure Exercise where
  title : String
  description : String
  /-- Code that runs before the solution. -/
  setup : String
  tests : List TestCase
  hint : String
  /-- A solution, without the setup. -/
  solution : String
deriving DecidableEq, Repr

/-- The setup followed by a solution, as it is graded. -/
def Exercise.full (e : Exercise) (solution : String) : String := e.setup ++ solution

/-- A task of a lesson that is graded by comparing with its solution. -/
structure Practice where
  lesson : String
  task : String
  solution : String
  hint : String
  /-- The input given to both programs. -/
  input : String
deriving DecidableEq, Repr

namespace Catalog

/-- Entry `number` of a list, counted from one. -/
def numbered {α : Type} (entries : List α) (number : Nat) : Option α :=
  match number with
  | 0 => none
  | i + 1 => entries[i]?

end Catalog

end TapeTutor
