import TapeTutor.Proofs.SettingsText

/-!
# Edits of a settings text that change nothing

Only the values that decide known keys count, so there is much in a settings text that can be taken
out, put in or written otherwise.

* `Respaced`: blanks around a line, inside the brackets of a heading and around the first `=` of an
  assignment.  They leave all that is read from a line as it was (`Respaced.ofLine_eq`).  A carriage
  return at the end of a line is a blank like any other, so line feeds may be written with one
  (`map_ofLine_splitLines_withReturns`).
* `Harmless`: a line that says nothing, an assignment to a key that is not known, an assignment that
  a later one overwrites, and blanks.  None of them changes the value of a known key
  (`Harmless.lastValue?_eq`).

A text is the same as its lines: `splitLines` cuts it at its line feeds, and putting the lines
together again gives the text back (`splitLines_unlines`, `unlines_splitLines`).
-/

namespace TapeTutor

namespace Settings

open Text (Blank trimChars dropBlanks dropBlanksEnd)

variable {cs line key value name left right inner : List Char} {lines : List (List Char)}

/-! ## Blanks -/

/-- The second line has more blanks than the first: around it, inside the brackets of a heading, or
around the first `=` of an assignment. -/
inductive Respaced : List Char → List Char → Prop
  | around {pre post : List Char} (line : List Char) :
      Blank pre → Blank post → Respaced line (pre ++ line ++ post)
  | heading {pre post : List Char} (inner : List Char) :
      Blank pre → Blank post →
      Respaced ('[' :: inner ++ [']']) ('[' :: (pre ++ inner ++ post) ++ [']'])
  | assignment {left right pre post : List Char} :
      '=' ∉ left → (∀ name, ¬ Heads (left ++ '=' :: right) name) → Blank pre → Blank post →
      Respaced (left ++ '=' :: right) (left ++ pre ++ '=' :: (post ++ right))

/-- A line is a heading if it begins and ends like one. -/
theorem exists_heads_iff : (∃ name, Heads line name) ↔
    (trimChars line).head? = some '[' ∧ (trimChars line).getLast? = some ']' := by
  constructor
  · rintro ⟨_, inner, hline, _⟩
    rw [hline]
    exact ⟨rfl, List.getLast?_concat⟩
  · rintro ⟨hhead, hlast⟩
    obtain ⟨rest, hrest⟩ : ∃ rest, trimChars line = '[' :: rest := List.head?_eq_some_iff.mp hhead
    obtain ⟨front, hfront⟩ := List.getLast?_eq_some_iff.mp hlast
    cases front with
    | nil =>
      rw [hrest] at hfront
      cases hfront
    | cons c inner =>
      have hc : c = '[' := by
        rw [hrest] at hfront
        exact (List.cons.inj hfront).1.symm
      exact ⟨_, inner, by rw [hfront, hc], rfl⟩

theorem head?_dropBlanks_append (h : Blank cs) (left : List Char) :
    (dropBlanks (left ++ cs)).head? = (dropBlanks left).head? := by
  rw [Text.dropBlanks_append]
  split
  · next hleft => rw [hleft, Text.dropBlanks_eq_nil_iff.mpr h]
  · next hleft => rw [List.head?_append_of_ne_nil _ hleft]

theorem getLast?_dropBlanksEnd_append (h : Blank cs) (right : List Char) :
    (dropBlanksEnd (cs ++ right)).getLast? = (dropBlanksEnd right).getLast? := by
  rw [dropBlanksEnd, dropBlanksEnd, List.getLast?_reverse, List.getLast?_reverse,
    List.reverse_append, head?_dropBlanks_append h.reverse]

theorem isBlank_equals : Text.isBlank '=' = false := by decide

/-- Where a line with an `=` begins and ends. -/
theorem ends_of_cut (left right : List Char) :
    (trimChars (left ++ '=' :: right)).head? = (dropBlanks left).head?.or (some '=') ∧
      (trimChars (left ++ '=' :: right)).getLast? =
        (dropBlanksEnd right).getLast?.or (some '=') := by
  rw [Text.trimChars_append_cons isBlank_equals]
  constructor
  · rw [List.head?_append]
    rfl
  · rw [List.getLast?_append, List.getLast?_cons]
    cases (dropBlanksEnd right).getLast? <;> rfl

/-- What a line with an `=` says, if it is no heading. -/
theorem ofLine_of_cut (hleft : '=' ∉ left) (hheads : ∀ name, ¬ Heads (left ++ '=' :: right) name) :
    Entry.ofLine (left ++ '=' :: right) =
      if (dropBlanks left).head? = some '#' then .nothing
      else .assign (trimChars left) (unquote (trimChars right)) := by
  have hhead := (ends_of_cut left right).1
  split
  · next hhash =>
    rw [hhash] at hhead
    exact ofLine_of_silent (Or.inr (Or.inl hhead))
  · next hhash =>
    refine ofLine_of_assigns ⟨?_, hheads, dropBlanks left, dropBlanksEnd right,
      Text.trimChars_append_cons isBlank_equals left right, ?_, ?_, ?_⟩
    · rw [hhead]
      cases hc : (dropBlanks left).head? with
      | none => simp
      | some c =>
        rw [hc] at hhash
        exact hhash
    · exact fun hmem => hleft ((List.dropWhile_suffix _).mem hmem)
    · exact (Text.trimChars_dropBlanks left).symm
    · rw [Text.trimChars_dropBlanksEnd]
      exact unquote_eq_iff.mp rfl

theorem heads_bracketed (inner : List Char) : Heads ('[' :: inner ++ [']']) (trimChars inner) := by
  refine ⟨inner, ?_, rfl⟩
  have hopen : Text.isBlank '[' = false := by decide
  have hclose : Text.isBlank ']' = false := by decide
  have htrim := Text.trimChars_append_cons hopen [] (inner ++ [']'])
  rw [Text.dropBlanksEnd_append_cons hclose] at htrim
  exact htrim

/-- Blanks do not change what a line says. -/
theorem Respaced.ofLine_eq {line' : List Char} (h : Respaced line line') :
    Entry.ofLine line' = Entry.ofLine line := by
  cases h with
  | around _ hpre hpost => rw [Entry.ofLine, Text.trimChars_padded hpre hpost, Entry.ofLine]
  | heading inner hpre hpost =>
    rw [ofLine_of_heads (heads_bracketed inner), ofLine_of_heads (heads_bracketed _),
      Text.trimChars_padded hpre hpost]
  | @assignment left right pre post hleft hheads hpre hpost =>
    have hleft' : '=' ∉ left ++ pre := by
      rw [List.mem_append]
      rintro (hmem | hmem)
      · exact hleft hmem
      · have hblank := hpre _ hmem
        rw [isBlank_equals] at hblank
        contradiction
    have hheads' : ∀ name, ¬ Heads (left ++ pre ++ '=' :: (post ++ right)) name := by
      intro name hname
      have hends := exists_heads_iff.mp ⟨name, hname⟩
      rw [(ends_of_cut _ _).1, (ends_of_cut _ _).2, head?_dropBlanks_append hpre,
        getLast?_dropBlanksEnd_append hpost, ← (ends_of_cut left right).1,
        ← (ends_of_cut left right).2] at hends
      obtain ⟨other, hother⟩ := exists_heads_iff.mpr hends
      exact hheads other hother
    have hkey := Text.trimChars_padded Text.blank_nil hpre left
    have hvalue := Text.trimChars_padded hpost Text.blank_nil right
    rw [List.nil_append] at hkey
    rw [List.append_nil] at hvalue
    rw [ofLine_of_cut hleft hheads, ofLine_of_cut hleft' hheads', head?_dropBlanks_append hpre,
      hkey, hvalue]

/-! ## Texts and lines -/

/-- The text made of some lines. -/
def unlines (lines : List (List Char)) : String := String.ofList (['\n'].intercalate lines)

theorem splitLines_of_notMem (h : '\n' ∉ cs) : splitLines cs = [cs] := by
  induction cs with
  | nil => rfl
  | cons c rest ih =>
    rw [List.mem_cons, not_or] at h
    rw [splitLines, if_neg (Ne.symm h.1), ih h.2]

theorem splitLines_append (h : '\n' ∉ cs) (rest : List Char) :
    splitLines (cs ++ '\n' :: rest) = cs :: splitLines rest := by
  induction cs with
  | nil => rw [List.nil_append, splitLines, if_pos rfl]
  | cons c front ih =>
    rw [List.mem_cons, not_or] at h
    rw [List.cons_append, splitLines, if_neg (Ne.symm h.1), ih h.2]

/-- Lines without a line feed are found again. -/
theorem splitLines_unlines (hne : lines ≠ []) (h : ∀ line ∈ lines, '\n' ∉ line) :
    splitLines (unlines lines).toList = lines := by
  rw [unlines, String.toList_ofList]
  induction lines with
  | nil => exact absurd rfl hne
  | cons line rest ih =>
    have hline : '\n' ∉ line := h line List.mem_cons_self
    cases rest with
    | nil => rw [List.intercalate_singleton, splitLines_of_notMem hline]
    | cons next rest =>
      rw [List.intercalate_cons_cons, List.append_assoc, List.singleton_append,
        splitLines_append hline,
        ih (List.cons_ne_nil _ _) fun l hl => h l (List.mem_cons_of_mem _ hl)]

/-- A text consists of its lines, and they have no line feed in them. -/
theorem unlines_splitLines (cs : List Char) :
    (unlines (splitLines cs)).toList = cs ∧ splitLines cs ≠ [] ∧
      ∀ line ∈ splitLines cs, '\n' ∉ line := by
  rw [unlines, String.toList_ofList]
  induction cs with
  | nil => simp [splitLines]
  | cons c rest ih =>
    obtain ⟨htext, hne, hlines⟩ := ih
    rw [splitLines]
    obtain ⟨first, others, hsplit⟩ := List.exists_cons_of_ne_nil hne
    rw [hsplit] at htext hlines ⊢
    split
    · next hc =>
      refine ⟨?_, List.cons_ne_nil _ _, ?_⟩
      · rw [List.intercalate_cons_cons, htext, hc]
        rfl
      · simpa using hlines
    · next hc =>
      refine ⟨?_, List.cons_ne_nil _ _, ?_⟩
      · cases others with
        | nil =>
          rw [List.intercalate_singleton] at htext ⊢
          rw [htext]
        | cons next others =>
          rw [List.intercalate_cons_cons] at htext ⊢
          rw [← htext]
          rfl
      · intro line hline
        rcases List.mem_cons.mp hline with rfl | hline
        · rw [List.mem_cons, not_or]
          exact ⟨Ne.symm hc, hlines first List.mem_cons_self⟩
        · exact hlines line (List.mem_cons_of_mem _ hline)

/-- A line feed ends a line, whatever the text in front of it. -/
theorem splitLines_append_lineFeed (cs rest : List Char) :
    splitLines (cs ++ '\n' :: rest) = splitLines cs ++ splitLines rest := by
  induction cs with
  | nil => exact splitLines_append List.not_mem_nil rest
  | cons c cs ih =>
    by_cases hc : c = '\n'
    · rw [List.cons_append, splitLines, if_pos hc, ih, splitLines, if_pos hc, List.cons_append]
    · obtain ⟨first, others, hcs⟩ := List.exists_cons_of_ne_nil (unlines_splitLines cs).2.1
      rw [List.cons_append, splitLines, if_neg hc, ih, splitLines, if_neg hc, hcs]
      rfl

/-- The text with a carriage return in front of every line feed. -/
def withReturns (cs : List Char) : List Char :=
  cs.flatMap fun c => if c = '\n' then ['\r', '\n'] else [c]

/-- Carriage returns only come at the ends of lines. -/
theorem forall₂_splitLines_withReturns (cs : List Char) :
    List.Forall₂ (fun line line' => line' = line ∨ line' = line ++ ['\r'])
      (splitLines cs) (splitLines (withReturns cs)) := by
  induction cs with
  | nil => exact .cons (Or.inl rfl) .nil
  | cons c rest ih =>
    rw [withReturns, List.flatMap_cons, ← withReturns, splitLines]
    split
    · next hc =>
      rw [List.cons_append, List.singleton_append, splitLines, if_neg (by decide), splitLines,
        if_pos rfl]
      exact .cons (Or.inr rfl) ih
    · next hc =>
      rw [List.singleton_append, splitLines, if_neg hc]
      generalize splitLines rest = first, splitLines (withReturns rest) = second at ih ⊢
      cases ih with
      | nil => exact .cons (Or.inl rfl) .nil
      | cons hfirst hothers =>
        refine .cons ?_ hothers
        rcases hfirst with rfl | rfl
        · exact Or.inl rfl
        · exact Or.inr rfl

theorem ofLine_return (line : List Char) : Entry.ofLine (line ++ ['\r']) = Entry.ofLine line := by
  have hreturn : Blank ['\r'] := by
    intro c hc
    rw [List.mem_singleton.mp hc]
    decide
  exact (Respaced.around line Text.blank_nil hreturn).ofLine_eq

theorem map_ofLine_of_returns {lines' : List (List Char)}
    (h : List.Forall₂ (fun line line' => line' = line ∨ line' = line ++ ['\r']) lines lines') :
    lines'.map Entry.ofLine = lines.map Entry.ofLine := by
  induction h with
  | nil => rfl
  | cons hline _ ih =>
    rw [List.map_cons, List.map_cons, ih]
    rcases hline with rfl | rfl
    · rfl
    · rw [ofLine_return]

/-- Line feeds may be written with a carriage return. -/
theorem map_ofLine_splitLines_withReturns (cs : List Char) :
    (splitLines (withReturns cs)).map Entry.ofLine = (splitLines cs).map Entry.ofLine :=
  map_ofLine_of_returns (forall₂_splitLines_withReturns cs)

/-! ## Edits -/

/-- The second list of lines comes from the first by taking out a line that does not count, or by
adding blanks. -/
inductive Harmless (Known : List Char → List Char → Prop) :
    List (List Char) → List (List Char) → Prop
  /-- A line that says nothing. -/
  | silent {line : List Char} (before after : List (List Char)) :
      Silent line → Harmless Known (before ++ line :: after) (before ++ after)
  /-- An assignment to a key that is not known under the heading that holds. -/
  | unknown {line key value : List Char} (before after : List (List Char)) :
      Assigns line key value → (∀ name, Under before name → ¬ Known name key) →
      Harmless Known (before ++ line :: after) (before ++ after)
  /-- An assignment that a later one, to the same key and under the same heading, overwrites. -/
  | overwritten {line line' name key value value' : List Char}
      (before between after : List (List Char)) :
      Assigns line key value → Under before name →
      Assigns line' key value' → Under (before ++ line :: between) name →
      Harmless Known (before ++ line :: (between ++ line' :: after))
        (before ++ (between ++ line' :: after))
  | respaced {line line' : List Char} (before after : List (List Char)) :
      Respaced line line' → Harmless Known (before ++ line :: after) (before ++ line' :: after)

theorem lastValue?_append (before rest : List (List Char)) (name key : List Char) :
    lastValue? (before ++ rest) name key =
      (deciding? (assignmentsOf (openHeading [] (before.map Entry.ofLine)) (rest.map Entry.ofLine))
        (fullName name key)).or (lastValue? before name key) := by
  rw [lastValue?, List.map_append, assignmentsOf_append, deciding?_append]
  rfl

/-- An assignment counts if nothing behind it gives a value to the same name. -/
theorem deciding?_assign_cons (current key value : List Char) (rest : List Entry) (name : String) :
    deciding? (assignmentsOf current (.assign key value :: rest)) name =
      (deciding? (assignmentsOf current rest) name).or
        (if fullName current key = name then some (String.ofList value) else none) := by
  rw [← deciding?_assign, ← deciding?_append]
  rfl

/-- **Harmless edits leave the values of known keys alone.** -/
theorem Harmless.lastValue?_eq {Known : List Char → List Char → Prop}
    {lines' : List (List Char)} (h : Harmless Known lines lines') (hknown : Known name key)
    (hne : name ≠ []) (hname : '.' ∉ name) (hkey : '.' ∉ key) :
    lastValue? lines name key = lastValue? lines' name key := by
  cases h with
  | silent before after hsilent =>
    rw [lastValue?_append, lastValue?_append, List.map_cons, ofLine_of_silent hsilent,
      assignmentsOf]
  | unknown before after hassigns hunknown =>
    rw [lastValue?_append, lastValue?_append, List.map_cons, ofLine_of_assigns hassigns,
      deciding?_assign_cons, if_neg, Option.or_none]
    intro heq
    obtain ⟨hopen, rfl⟩ := (fullName_eq_iff hname hkey).mp heq
    exact hunknown name ((openHeading_eq_iff hne).mp hopen) hknown
  | overwritten before between after hassigns hunder hassigns' hunder' =>
    have hopen := hunder'.openHeading_eq
    rw [List.map_append, openHeading_append, hunder.openHeading_eq, List.map_cons,
      ofLine_of_assigns hassigns, openHeading] at hopen
    rw [lastValue?_append, lastValue?_append, List.map_cons, ofLine_of_assigns hassigns,
      deciding?_assign_cons, hunder.openHeading_eq, List.map_append, assignmentsOf_append, hopen,
      List.map_cons, ofLine_of_assigns hassigns', deciding?_append, deciding?_assign_cons]
    -- if the line has the name that is looked up, then so has the later one
    split
    · simp only [Option.or_assoc, Option.some_or]
    · rw [Option.or_none]
  | respaced before after hrespaced =>
    rw [lastValue?_append, lastValue?_append, List.map_cons, List.map_cons, hrespaced.ofLine_eq]

end Settings

end TapeTutor
