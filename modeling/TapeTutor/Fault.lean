/-!
# Why a run stops early

A `Fault` is the cause of a failed run.  None of them is ever retried.  A fault carries
exactly the data its report needs: the position of the culprit in the *cleaned* program
(comments do not count), and for an overflow also the cell the head stood on.

The wording lives in one place, `Fault.message`; the coarse family of a fault, which
decides how a report introduces it, is `Fault.category`.
-/

namespace TapeTutor

/-- Which side of a loop has no partner. -/
inductive Bracket where
  | opening
  | closing
deriving DecidableEq, Repr

/-- The bracket as it is written in a program. -/
def Bracket.text : Bracket → String
  | .opening => "["
  | .closing => "]"

/-- The cause of a failed run. -/
inductive Fault where
  /-- The loops are not balanced; the bracket at `position` has no partner. -/
  | unmatched (bracket : Bracket) (position : Nat)
  /-- The `>` at `ip` would take the head past the last cell; it stands on `pointer`. -/
  | overflow (ip pointer : Nat)
  /-- The `<` at `ip` would take the head left of the first cell. -/
  | underflow (ip : Nat)
  /-- The run needs more than `limit` instructions. -/
  | ceiling (limit : Nat)
  /-- The bracket at `ip` has no jump target; a parsed program has none of these. -/
  | brokenJump (ip : Nat)
deriving DecidableEq, Repr

/-- The family a fault belongs to. -/
inductive Fault.Category where
  | syntactic
  | bounds
  | resource
  | inner
deriving DecidableEq, Repr

namespace Fault

/-- The wording of a fault. -/
def message : Fault → String
  | unmatched bracket position =>
      "Unmatched " ++ bracket.text ++ " at position " ++ toString position
  | overflow _ _ => "Memory overflow"
  | underflow _ => "Memory underflow"
  | ceiling limit => "Maximum iterations (" ++ toString limit ++ ") exceeded"
  | brokenJump ip =>
      "Malformed jump table: no match for bracket at position " ++ toString ip

/-- The family of a fault. -/
def category : Fault → Category
  | unmatched _ _ => .syntactic
  | overflow _ _ => .bounds
  | underflow _ => .bounds
  | ceiling _ => .resource
  | brokenJump _ => .inner

/-- The index into the cleaned program that a fault points at, if it points at one. -/
def position? : Fault → Option Nat
  | unmatched _ position => some position
  | overflow ip _ => some ip
  | underflow ip => some ip
  | ceiling _ => none
  | brokenJump ip => some ip

end Fault

end TapeTutor
