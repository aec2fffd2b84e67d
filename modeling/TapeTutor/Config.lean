import TapeTutor.Text.Bytes

/-!
# Configuration of a run

Tape length, instruction ceiling, whether to keep the records of a run, and the input.  A
tape needs a cell and a run needs an instruction: `Config.check` refuses a zero in either
place, the tape first.
-/

namespace TapeTutor

/-- Everything a run can be configured with. -/
structure Config where
  /-- The number of cells. -/
  memorySize : Nat := 30000
  /-- The largest number of instructions a run may execute. -/
  maxIterations : Nat := 1000000
  /-- Whether to keep a record of every instruction and the final cells. -/
  capture : Bool := false
  /-- The bytes `,` reads; afterwards it reads zero. -/
  input : Array UInt8 := #[]
deriving DecidableEq, Repr

/-- Why a configuration, or the settings it comes from, cannot be used. -/
inductive ConfigFault where
  /-- The tape would have no cell. -/
  | zeroMemory
  /-- No instruction could be executed. -/
  | zeroIterations
  /-- A known key has a value that does not fit it; the value as it was stored. -/
  | invalidValue (key value : String)
  /-- The settings file is there but cannot be read. -/
  | unreadable (path cause : String)
deriving DecidableEq, Repr

/-- The wording of a configuration fault. -/
def ConfigFault.message : ConfigFault → String
  | zeroMemory => "memory size must be at least 1 cell"
  | zeroIterations => "maximum iterations must be at least 1"
  | invalidValue key value => "invalid value for " ++ key ++ ": '" ++ value ++ "'"
  | unreadable path cause => "failed to read config file " ++ path ++ ": " ++ cause

namespace Config

/-- What is wrong with a configuration, if anything is. -/
def fault? (c : Config) : Option ConfigFault :=
  if c.memorySize = 0 then some .zeroMemory
  else if c.maxIterations = 0 then some .zeroIterations
  else none

/-- A configuration that can be used. -/
def Valid (c : Config) : Prop := 1 ≤ c.memorySize ∧ 1 ≤ c.maxIterations

instance (c : Config) : Decidable c.Valid := inferInstanceAs (Decidable (_ ∧ _))

/-- The same configuration with the input given as text. -/
def withText (c : Config) (text : String) : Config :=
  { c with input := Text.encodeInput text }

/-- Nothing is wrong with exactly the valid configurations. -/
theorem fault?_eq_none_iff {c : Config} : c.fault? = none ↔ c.Valid := by
  unfold fault? Valid
  split
  · simp_all
  · split
    · simp_all
    · simp
      omega

end Config

end TapeTutor
