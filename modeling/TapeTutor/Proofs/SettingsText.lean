import Mathlib.Data.List.DropRight
import Mathlib.Data.List.Induction
import TapeTutor.Settings

/-!
# What a settings text says

`Settings.assignments` makes a list of values with full names of a settings text, and
`Settings.deciding?` takes the last value of a name.  A full name is a heading and a key, glued
together by a dot, so neither the list nor its names show where an assignment has stood.

Here the same is said of the lines themselves.

* `Heads` and `Assigns`: what a line says, in terms of its characters.
* `Under`: the heading that holds behind some lines, the last one among them.
* `Decides`: a line assigns to a key under a heading, and no later line does.

A glued name can be taken apart in one way only, if there is no dot in its parts
(`fullName_eq_iff`), and so the value that is found under a glued name is the one that decides
(`lastValue?_eq_some_iff`).  Both sides are followed line by line, the last line first, because the
last line wins.
-/

namespace TapeTutor

/-! ## Trimming -/

namespace Text

/-- There is nothing but white space. -/
def Blank (cs : List Char) : Prop := ∀ c ∈ cs, isBlank c = true

variable {cs xs ys pre post : List Char} {c : Char}

theorem blank_nil : Blank [] := List.forall_mem_nil _

theorem dropBlanks_eq_nil_iff : dropBlanks cs = [] ↔ Blank cs := List.dropWhile_eq_nil_iff

theorem Blank.reverse (h : Blank cs) : Blank cs.reverse :=
  fun c hc => h c (List.mem_reverse.mp hc)

theorem dropBlanks_blank_append (h : Blank pre) (cs : List Char) :
    dropBlanks (pre ++ cs) = dropBlanks cs :=
  List.dropWhile_append_of_pos h

/-- Blanks behind are dropped in front only if there is nothing else. -/
theorem dropBlanks_append (xs ys : List Char) :
    dropBlanks (xs ++ ys) = if dropBlanks xs = [] then dropBlanks ys else dropBlanks xs ++ ys := by
  rw [dropBlanks, List.dropWhile_append]
  simp only [List.isEmpty_iff]
  rfl

theorem dropBlanks_append_cons (hc : isBlank c = false) (xs ys : List Char) :
    dropBlanks (xs ++ c :: ys) = dropBlanks xs ++ c :: ys := by
  rw [dropBlanks_append]
  split
  · next h => rw [h, dropBlanks, List.dropWhile_cons_of_neg (by simp [hc]), List.nil_append]
  · rfl

theorem dropBlanksEnd_append_blank (h : Blank post) (cs : List Char) :
    dropBlanksEnd (cs ++ post) = dropBlanksEnd cs := by
  rw [dropBlanksEnd, List.reverse_append, dropBlanks_blank_append h.reverse, dropBlanksEnd]

theorem dropBlanksEnd_append_cons (hc : isBlank c = false) (xs ys : List Char) :
    dropBlanksEnd (xs ++ c :: ys) = xs ++ c :: dropBlanksEnd ys := by
  rw [dropBlanksEnd, List.reverse_append, List.reverse_cons, List.append_assoc,
    List.singleton_append, dropBlanks_append_cons hc, List.reverse_append, List.reverse_cons,
    List.reverse_reverse, List.append_assoc, List.singleton_append, dropBlanksEnd]

theorem dropBlanks_dropBlanks (cs : List Char) : dropBlanks (dropBlanks cs) = dropBlanks cs :=
  List.dropWhile_idempotent _ _

/-- Blanks around do not matter. -/
theorem trimChars_padded (hpre : Blank pre) (hpost : Blank post) (cs : List Char) :
    trimChars (pre ++ cs ++ post) = trimChars cs := by
  rw [trimChars, List.append_assoc, dropBlanks_blank_append hpre, dropBlanks_append]
  split
  · next h =>
    rw [dropBlanks_eq_nil_iff.mpr hpost, trimChars, h]
  · rw [dropBlanksEnd_append_blank hpost, trimChars]

/-- A text is trimmed on either side of a character that is not blank. -/
theorem trimChars_append_cons (hc : isBlank c = false) (xs ys : List Char) :
    trimChars (xs ++ c :: ys) = dropBlanks xs ++ c :: dropBlanksEnd ys := by
  rw [trimChars, dropBlanks_append_cons hc, dropBlanksEnd_append_cons hc]

theorem trimChars_dropBlanks (cs : List Char) : trimChars (dropBlanks cs) = trimChars cs := by
  rw [trimChars, dropBlanks_dropBlanks, trimChars]

/-- The characters without the blanks behind, and those blanks. -/
theorem exists_blank_append_eq (cs : List Char) :
    ∃ post, Blank post ∧ dropBlanksEnd cs ++ post = cs := by
  refine ⟨(cs.reverse.takeWhile isBlank).reverse, ?_, ?_⟩
  · exact Blank.reverse fun c hc => List.mem_takeWhile_imp hc
  · rw [dropBlanksEnd, ← List.reverse_append, dropBlanks, List.takeWhile_append_dropWhile,
      List.reverse_reverse]

theorem trimChars_dropBlanksEnd (cs : List Char) : trimChars (dropBlanksEnd cs) = trimChars cs := by
  obtain ⟨post, hpost, heq⟩ := exists_blank_append_eq cs
  conv_rhs => rw [← heq]
  exact (trimChars_padded blank_nil hpost _).symm

end Text

namespace Settings

open Text (Blank trimChars dropBlanks dropBlanksEnd)

/-! ## Lines -/

variable {cs line key value name left right inner : List Char}

/-- The line is a heading: between square brackets stands a name. -/
def Heads (line name : List Char) : Prop :=
  ∃ inner, trimChars line = '[' :: inner ++ [']'] ∧ name = trimChars inner

/-- The second text is the first one without one pair of double quotes around it. -/
def Unquoted (cs value : List Char) : Prop :=
  cs = '"' :: value ++ ['"'] ∨ (∀ inner, cs ≠ '"' :: inner ++ ['"']) ∧ value = cs

/-- The line is an assignment: it is neither a comment nor a heading, and has an `=`.  The key is
what stands before the first one, the value what stands behind it. -/
def Assigns (line key value : List Char) : Prop :=
  (trimChars line).head? ≠ some '#' ∧ (∀ name, ¬ Heads line name) ∧
    ∃ left right, trimChars line = left ++ '=' :: right ∧ '=' ∉ left ∧ key = trimChars left ∧
      Unquoted (trimChars right) value

/-- The line says nothing: it is blank, a comment, or neither a heading nor an assignment. -/
def Silent (line : List Char) : Prop :=
  trimChars line = [] ∨ (trimChars line).head? = some '#' ∨
    (∀ name, ¬ Heads line name) ∧ '=' ∉ trimChars line

theorem between?_eq_some_iff {first last : Char} :
    between? first last cs = some inner ↔ cs = first :: inner ++ [last] := by
  cases cs with
  | nil => simp [between?]
  | cons c rest =>
    simp only [between?, List.cons_append, List.cons.injEq]
    constructor
    · intro h
      split at h
      · next hends =>
        obtain ⟨mid, rfl⟩ := List.getLast?_eq_some_iff.mp hends.2
        rw [List.dropLast_concat] at h
        cases h
        exact ⟨hends.1, rfl⟩
      · contradiction
    · rintro ⟨hc, rfl⟩
      rw [if_pos ⟨hc, List.getLast?_concat⟩, List.dropLast_concat]

theorem unquote_eq_iff : unquote cs = value ↔ Unquoted cs value := by
  unfold unquote Unquoted
  cases h : between? '"' '"' cs with
  | some inner =>
    rw [between?_eq_some_iff] at h
    subst h
    constructor
    · rintro rfl
      exact Or.inl rfl
    · rintro (heq | ⟨hnot, _⟩)
      · rw [List.cons_append, List.cons_append, List.cons.injEq, List.append_cancel_right_eq] at heq
        exact heq.2
      · exact absurd rfl (hnot inner)
  | none =>
    have hnot : ∀ inner, cs ≠ '"' :: inner ++ ['"'] := by
      intro inner heq
      rw [between?_eq_some_iff.mpr heq] at h
      contradiction
    constructor
    · rintro rfl
      exact Or.inr ⟨hnot, rfl⟩
    · rintro (heq | ⟨_, rfl⟩)
      · exact absurd heq (hnot value)
      · rfl

/-- A text is cut at its first `=` in one way only. -/
theorem takeWhile_dropWhile_of_notMem (h : '=' ∉ left) (right : List Char) :
    (left ++ '=' :: right).takeWhile (· ≠ '=') = left ∧
      (left ++ '=' :: right).dropWhile (· ≠ '=') = '=' :: right := by
  have hne : ∀ c ∈ left, (fun c : Char => decide (c ≠ '=')) c = true := by
    intro c hc
    exact decide_eq_true fun heq => h (heq ▸ hc)
  constructor
  · rw [List.takeWhile_append_of_pos hne]
    simp
  · rw [List.dropWhile_append_of_pos hne]
    simp

theorem exists_cut_of_mem (h : '=' ∈ cs) :
    ∃ left right, cs = left ++ '=' :: right ∧ '=' ∉ left := by
  induction cs with
  | nil => simp at h
  | cons c rest ih =>
    by_cases hc : c = '='
    · exact ⟨[], rest, by rw [hc, List.nil_append], by simp⟩
    · obtain ⟨left, right, rfl, hleft⟩ := ih ((List.mem_cons.mp h).resolve_left (Ne.symm hc))
      exact ⟨c :: left, right, rfl, by simp [hleft, Ne.symm hc]⟩

theorem ofLine_of_heads (h : Heads line name) : Entry.ofLine line = .heading name := by
  obtain ⟨inner, hline, rfl⟩ := h
  have hbetween : between? '[' ']' (trimChars line) = some inner :=
    between?_eq_some_iff.mpr hline
  have hhash : (trimChars line).head? ≠ some '#' := by
    rw [hline]
    simp
  simp only [Entry.ofLine, Entry.ofTrimmed, if_neg hhash, hbetween]

theorem between?_of_not_heads (h : ∀ name, ¬ Heads line name) :
    between? '[' ']' (trimChars line) = none := by
  rw [Option.eq_none_iff_forall_ne_some]
  intro inner hinner
  exact h _ ⟨inner, between?_eq_some_iff.mp hinner, rfl⟩

theorem ofLine_of_assigns (h : Assigns line key value) : Entry.ofLine line = .assign key value := by
  obtain ⟨hhash, hheads, left, right, hline, hleft, rfl, hvalue⟩ := h
  obtain ⟨htake, hdrop⟩ := takeWhile_dropWhile_of_notMem hleft right
  rw [← hline] at htake hdrop
  simp only [Entry.ofLine, Entry.ofTrimmed, if_neg hhash, between?_of_not_heads hheads, hdrop,
    htake, unquote_eq_iff.mpr hvalue]

theorem ofLine_of_silent (h : Silent line) : Entry.ofLine line = .nothing := by
  by_cases hhash : (trimChars line).head? = some '#'
  · simp only [Entry.ofLine, Entry.ofTrimmed, if_pos hhash]
  · rcases h with hnil | hcomment | ⟨hheads, hequals⟩
    · simp [Entry.ofLine, Entry.ofTrimmed, hnil, between?]
    · exact absurd hcomment hhash
    · have hdrop : (trimChars line).dropWhile (· ≠ '=') = [] := by
        rw [List.dropWhile_eq_nil_iff]
        intro c hc
        exact decide_eq_true fun heq => hequals (heq ▸ hc)
      simp only [Entry.ofLine, Entry.ofTrimmed, if_neg hhash, between?_of_not_heads hheads, hdrop]

/-- **A line says one thing**: it is a heading, or an assignment, or says nothing. -/
theorem line_cases (line : List Char) :
    (∃ name, Heads line name) ∨ (∃ key value, Assigns line key value) ∨ Silent line := by
  by_cases hheads : ∃ name, Heads line name
  · exact Or.inl hheads
  · have hnone : ∀ name, ¬ Heads line name := fun name h => hheads ⟨name, h⟩
    by_cases hhash : (trimChars line).head? = some '#'
    · exact Or.inr (Or.inr (Or.inr (Or.inl hhash)))
    · by_cases hequals : '=' ∈ trimChars line
      · obtain ⟨left, right, hline, hleft⟩ := exists_cut_of_mem hequals
        exact Or.inr (Or.inl ⟨_, _, hhash, hnone, left, right, hline, hleft, rfl,
          unquote_eq_iff.mp rfl⟩)
      · exact Or.inr (Or.inr (Or.inr (Or.inr ⟨hnone, hequals⟩)))

/-! ## Places -/

variable {lines : List (List Char)}

/-- Behind the lines the heading holds: it is the last one among them. -/
def Under (lines : List (List Char)) (name : List Char) : Prop :=
  ∃ (i : Nat) (line : List Char), lines[i]? = some line ∧ Heads line name ∧
    ∀ (j : Nat) (other : List Char), i < j → lines[j]? = some other → ∀ name', ¬ Heads other name'

/-- The line at a place assigns a value to the key, under the heading. -/
def AssignedAt (lines : List (List Char)) (name key : List Char) (place : Nat)
    (value : List Char) : Prop :=
  ∃ line, lines[place]? = some line ∧ Assigns line key value ∧ Under (lines.take place) name

/-- The value decides the key under the heading: it is assigned, and nothing is later. -/
def Decides (lines : List (List Char)) (name key value : List Char) : Prop :=
  ∃ place, AssignedAt lines name key place value ∧
    ∀ later value', place < later → ¬ AssignedAt lines name key later value'

theorem not_under_nil : ¬ Under [] name := by
  rintro ⟨i, line, hline, _⟩
  simp at hline

theorem not_decides_nil : ¬ Decides [] name key value := by
  rintro ⟨place, ⟨line, hline, _⟩, _⟩
  simp at hline

/-- The last line decides which heading holds, if it is one. -/
theorem under_concat : Under (lines ++ [line]) name ↔
    Heads line name ∨ (∀ other, ¬ Heads line other) ∧ Under lines name := by
  constructor
  · rintro ⟨i, found, hfound, hheads, hlast⟩
    rcases Nat.lt_or_ge i lines.length with hlt | hge
    · rw [List.getElem?_append_left hlt] at hfound
      refine Or.inr ⟨hlast lines.length line hlt List.getElem?_concat_length, i, found, hfound,
        hheads, fun j other hj hother => hlast j other hj ?_⟩
      rw [List.getElem?_append_left (List.getElem?_eq_some_iff.mp hother).1]
      exact hother
    · rw [List.getElem?_append_right hge, List.getElem?_singleton] at hfound
      split at hfound
      · cases hfound
        exact Or.inl hheads
      · contradiction
  · rintro (hheads | ⟨hnone, i, found, hfound, hheads, hlast⟩)
    · refine ⟨lines.length, line, List.getElem?_concat_length, hheads, fun j other hj hother => ?_⟩
      rw [List.getElem?_eq_none (by simp; omega)] at hother
      contradiction
    · have hlt : i < lines.length := (List.getElem?_eq_some_iff.mp hfound).1
      refine ⟨i, found, by rw [List.getElem?_append_left hlt]; exact hfound, hheads, ?_⟩
      intro j other hj hother
      rcases Nat.lt_or_ge j lines.length with hjlt | hjge
      · rw [List.getElem?_append_left hjlt] at hother
        exact hlast j other hj hother
      · rw [List.getElem?_append_right hjge, List.getElem?_singleton] at hother
        split at hother
        · cases hother
          exact hnone
        · contradiction

theorem assignedAt_concat_of_lt {place : Nat} (hlt : place < lines.length) :
    AssignedAt (lines ++ [line]) name key place value ↔ AssignedAt lines name key place value := by
  unfold AssignedAt
  rw [List.getElem?_append_left hlt, List.take_append_of_le_length (Nat.le_of_lt hlt)]

theorem assignedAt_concat_length :
    AssignedAt (lines ++ [line]) name key lines.length value ↔
      Assigns line key value ∧ Under lines name := by
  unfold AssignedAt
  rw [List.getElem?_concat_length, List.take_left]
  constructor
  · rintro ⟨found, hfound, h⟩
    cases hfound
    exact h
  · exact fun h => ⟨line, rfl, h⟩

theorem AssignedAt.lt_length {place : Nat} (h : AssignedAt lines name key place value) :
    place < lines.length := by
  obtain ⟨line, hline, _⟩ := h
  exact (List.getElem?_eq_some_iff.mp hline).1

/-- The last line decides, if it assigns to the key under the heading, and else the lines before
do. -/
theorem decides_concat : Decides (lines ++ [line]) name key value ↔
    Assigns line key value ∧ Under lines name ∨
      (Under lines name → ∀ other, ¬ Assigns line key other) ∧ Decides lines name key value := by
  constructor
  · rintro ⟨place, hplace, hlast⟩
    have hle : place < lines.length + 1 := by
      simpa using hplace.lt_length
    rcases Nat.lt_or_ge place lines.length with hlt | hge
    · refine Or.inr ⟨fun hunder other hother => ?_, place,
        (assignedAt_concat_of_lt hlt).mp hplace, fun later value' hlater hassigned => ?_⟩
      · exact hlast lines.length other hlt (assignedAt_concat_length.mpr ⟨hother, hunder⟩)
      · exact hlast later value' hlater
          ((assignedAt_concat_of_lt hassigned.lt_length).mpr hassigned)
    · obtain rfl : place = lines.length := by omega
      exact Or.inl (assignedAt_concat_length.mp hplace)
  · rintro (hline | ⟨hnone, place, hplace, hlast⟩)
    · refine ⟨lines.length, assignedAt_concat_length.mpr hline, fun later value' hlater h => ?_⟩
      have hlt := h.lt_length
      simp at hlt
      omega
    · have hlt := hplace.lt_length
      refine ⟨place, (assignedAt_concat_of_lt hlt).mpr hplace, fun later value' hlater h => ?_⟩
      have hle : later < lines.length + 1 := by
        simpa using h.lt_length
      rcases Nat.lt_or_ge later lines.length with hllt | hlge
      · exact hlast later value' hlater ((assignedAt_concat_of_lt hllt).mp h)
      · obtain rfl : later = lines.length := by omega
        obtain ⟨hassigns, hunder⟩ := assignedAt_concat_length.mp h
        exact hnone hunder value' hassigns

/-! ## Glued names -/

/-- The heading that is open behind some entries. -/
def openHeading (current : List Char) : List Entry → List Char
  | [] => current
  | .heading name :: rest => openHeading name rest
  | .nothing :: rest => openHeading current rest
  | .assign _ _ :: rest => openHeading current rest

/-- A heading and a key as one name. -/
def fullName (name key : List Char) : String := String.ofList (name ++ '.' :: key)

theorem openHeading_append (current : List Char) (front back : List Entry) :
    openHeading current (front ++ back) = openHeading (openHeading current front) back := by
  fun_induction openHeading current front with
  | case1 => rfl
  | case2 current name rest ih => rw [← ih, List.cons_append, openHeading]
  | case3 current rest ih => rw [← ih, List.cons_append, openHeading]
  | case4 current key value rest ih => rw [← ih, List.cons_append, openHeading]

theorem assignmentsOf_append (current : List Char) (front back : List Entry) :
    assignmentsOf current (front ++ back) =
      assignmentsOf current front ++ assignmentsOf (openHeading current front) back := by
  fun_induction openHeading current front with
  | case1 => rfl
  | case2 current name rest ih => rw [List.cons_append, assignmentsOf, ih, assignmentsOf]
  | case3 current rest ih => rw [List.cons_append, assignmentsOf, ih, assignmentsOf]
  | case4 current key value rest ih =>
    rw [List.cons_append, assignmentsOf, ih, assignmentsOf, List.cons_append]

/-- **The last one wins**: what comes later is looked at first. -/
theorem deciding?_append (front back : List (String × String)) (name : String) :
    deciding? (front ++ back) name = (deciding? back name).or (deciding? front name) := by
  simp only [deciding?, List.reverse_append, List.find?_append]
  cases back.reverse.find? fun entry => entry.1 = name <;> rfl

theorem deciding?_singleton (name other value : String) :
    deciding? [(other, value)] name = if other = name then some value else none := by
  by_cases h : other = name
  · simp [deciding?, h]
  · simp [deciding?, h]

/-- One assignment gives its value to its own name only. -/
theorem deciding?_assign (current key value : List Char) (name : String) :
    deciding? (assignmentsOf current [.assign key value]) name =
      if fullName current key = name then some (String.ofList value) else none :=
  deciding?_singleton _ _ _

/-- A glued name can be taken apart in one way only, if there is no dot in its parts. -/
theorem fullName_eq_iff {other otherKey : List Char} (hname : '.' ∉ name) (hkey : '.' ∉ key) :
    fullName other otherKey = fullName name key ↔ other = name ∧ otherKey = key := by
  rw [fullName, fullName, String.ofList_inj, eq_comm,
    List.append_cons_inj_of_notMem hname hkey]
  constructor
  · rintro ⟨rfl, _, rfl⟩
    exact ⟨rfl, rfl⟩
  · rintro ⟨rfl, rfl⟩
    exact ⟨rfl, rfl, rfl⟩

theorem openHeading_concat (lines : List (List Char)) (line : List Char) :
    openHeading [] ((lines ++ [line]).map Entry.ofLine) =
      openHeading (openHeading [] (lines.map Entry.ofLine)) [Entry.ofLine line] := by
  rw [List.map_append, openHeading_append]
  rfl

theorem Assigns.not_heads (h : Assigns line key value) (name : List Char) : ¬ Heads line name :=
  h.2.1 name

theorem Silent.not_heads (h : Silent line) (name : List Char) : ¬ Heads line name := by
  intro hheads
  have heq := (ofLine_of_silent h).symm.trans (ofLine_of_heads hheads)
  contradiction

/-- The heading that holds is open. -/
theorem Under.openHeading_eq (h : Under lines name) :
    openHeading [] (lines.map Entry.ofLine) = name := by
  induction lines using List.reverseRecOn with
  | nil => exact absurd h not_under_nil
  | append_singleton lines line ih =>
    rw [openHeading_concat]
    rcases under_concat.mp h with hheads | ⟨hnone, hunder⟩
    · rw [ofLine_of_heads hheads]
      rfl
    · rcases line_cases line with ⟨other, hother⟩ | ⟨_, _, hassigns⟩ | hsilent
      · exact absurd hother (hnone other)
      · rw [ofLine_of_assigns hassigns]
        exact ih hunder
      · rw [ofLine_of_silent hsilent]
        exact ih hunder

/-- What is open holds, unless it is empty: then there may have been no heading at all. -/
theorem under_openHeading (hne : openHeading [] (lines.map Entry.ofLine) ≠ []) :
    Under lines (openHeading [] (lines.map Entry.ofLine)) := by
  induction lines using List.reverseRecOn with
  | nil => exact absurd rfl hne
  | append_singleton lines line ih =>
    rw [openHeading_concat] at hne ⊢
    rw [under_concat]
    rcases line_cases line with ⟨other, hother⟩ | ⟨_, _, hassigns⟩ | hsilent
    · rw [ofLine_of_heads hother]
      exact Or.inl hother
    · rw [ofLine_of_assigns hassigns] at hne ⊢
      exact Or.inr ⟨hassigns.not_heads, ih hne⟩
    · rw [ofLine_of_silent hsilent] at hne ⊢
      exact Or.inr ⟨hsilent.not_heads, ih hne⟩

theorem openHeading_eq_iff (hne : name ≠ []) :
    openHeading [] (lines.map Entry.ofLine) = name ↔ Under lines name := by
  refine ⟨?_, Under.openHeading_eq⟩
  rintro rfl
  exact under_openHeading hne

theorem assignmentsOf_concat (lines : List (List Char)) (line : List Char) :
    assignmentsOf [] ((lines ++ [line]).map Entry.ofLine) =
      assignmentsOf [] (lines.map Entry.ofLine) ++
        assignmentsOf (openHeading [] (lines.map Entry.ofLine)) [Entry.ofLine line] := by
  rw [List.map_append, assignmentsOf_append]
  rfl

/-- The value under a full name. -/
def lastValue? (lines : List (List Char)) (name key : List Char) : Option String :=
  deciding? (assignmentsOf [] (lines.map Entry.ofLine)) (fullName name key)

/-- A line that does not assign to the key leaves its value alone. -/
theorem lastValue?_concat_of_not_assigns (h : ∀ other, ¬ Assigns line key other)
    (hname : '.' ∉ name) (hkey : '.' ∉ key) :
    lastValue? (lines ++ [line]) name key = lastValue? lines name key := by
  rw [lastValue?, assignmentsOf_concat, deciding?_append]
  rcases line_cases line with ⟨_, hheads⟩ | ⟨otherKey, other, hassigns⟩ | hsilent
  · rw [ofLine_of_heads hheads]
    rfl
  · rw [ofLine_of_assigns hassigns, deciding?_assign, if_neg]
    · rfl
    · intro heq
      obtain ⟨_, rfl⟩ := (fullName_eq_iff hname hkey).mp heq
      exact h other hassigns
  · rw [ofLine_of_silent hsilent]
    rfl

/-- A line that assigns to the key sets its value under the open heading only. -/
theorem lastValue?_concat_of_assigns (h : Assigns line key value) (hne : name ≠ [])
    (hname : '.' ∉ name) (hkey : '.' ∉ key) [Decidable (Under lines name)] :
    lastValue? (lines ++ [line]) name key =
      if Under lines name then some (String.ofList value) else lastValue? lines name key := by
  rw [lastValue?, assignmentsOf_concat, deciding?_append, ofLine_of_assigns h, deciding?_assign]
  by_cases hunder : Under lines name
  · rw [if_pos hunder, (openHeading_eq_iff hne).mpr hunder, if_pos rfl]
    rfl
  · rw [if_neg hunder, if_neg]
    · rfl
    · intro heq
      exact hunder ((openHeading_eq_iff hne).mp ((fullName_eq_iff hname hkey).mp heq).1)

open Classical in
/-- **The value found is the value that decides.**  No line has to be looked up by a glued name. -/
theorem lastValue?_eq_some_iff (hne : name ≠ []) (hname : '.' ∉ name) (hkey : '.' ∉ key) :
    lastValue? lines name key = some (String.ofList value) ↔ Decides lines name key value := by
  induction lines using List.reverseRecOn with
  | nil => exact ⟨fun h => by simp [lastValue?, assignmentsOf, deciding?] at h,
      fun h => absurd h not_decides_nil⟩
  | append_singleton lines line ih =>
    rw [decides_concat]
    by_cases hassigns : ∃ other, Assigns line key other
    · obtain ⟨other, hother⟩ := hassigns
      rw [lastValue?_concat_of_assigns hother hne hname hkey]
      split
      · next hunder =>
        rw [Option.some_inj, String.ofList_inj]
        constructor
        · rintro rfl
          exact Or.inl ⟨hother, hunder⟩
        · rintro (⟨hvalue, _⟩ | ⟨hnone, _⟩)
          · have heq := (ofLine_of_assigns hother).symm.trans (ofLine_of_assigns hvalue)
            cases heq
            rfl
          · exact absurd hother (hnone hunder other)
      · next hunder =>
        exact ih.trans ⟨fun h => Or.inr ⟨fun h' => absurd h' hunder, h⟩,
          fun h => (h.resolve_left fun h' => hunder h'.2).2⟩
    · have hnone : ∀ other, ¬ Assigns line key other := fun other h => hassigns ⟨other, h⟩
      rw [lastValue?_concat_of_not_assigns hnone hname hkey]
      exact ih.trans ⟨fun h => Or.inr ⟨fun _ => hnone, h⟩,
        fun h => (h.resolve_left fun h' => hnone value h'.1).2⟩

end Settings

end TapeTutor
