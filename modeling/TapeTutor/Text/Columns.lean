/-!
# Columns

Padding a text with spaces to a least width.  A text that is wider already stays as it is.
-/

namespace TapeTutor.Text

/-- `n` copies of a text, one after the other. -/
def repeated (n : Nat) (s : String) : String :=
  String.join (List.replicate n s)

/-- A text made at least `width` characters wide by spaces in front. -/
def alignRight (width : Nat) (s : String) : String :=
  repeated (width - s.length) " " ++ s

/-- A text made at least `width` characters wide by spaces behind. -/
def alignLeft (width : Nat) (s : String) : String :=
  s ++ repeated (width - s.length) " "

@[simp]
theorem repeated_zero (s : String) : repeated 0 s = "" := rfl

@[simp]
theorem repeated_succ (n : Nat) (s : String) : repeated (n + 1) s = s ++ repeated n s := by
  simp [repeated, List.replicate_succ]

@[simp]
theorem length_repeated (n : Nat) (s : String) : (repeated n s).length = n * s.length := by
  simp [repeated]

theorem toList_repeated (n : Nat) (s : String) :
    (repeated n s).toList = (List.replicate n s.toList).flatten := by
  simp [repeated, List.flatMap_replicate]

/-- A text is aligned to the width or to its own length, whichever is larger. -/
@[simp]
theorem length_alignRight (width : Nat) (s : String) :
    (alignRight width s).length = max width s.length := by
  have blank : " ".length = 1 := rfl
  simp only [alignRight, String.length_append, length_repeated, blank, Nat.mul_one]
  omega

end TapeTutor.Text
