import Mathlib.Data.List.Nodup
import TapeTutor.Proofs.Resolution

/-!
# Colours in hexadecimal digits

A colour of a settings text may be written as a `#` and six hexadecimal digits, two for each
channel.  Here this is said without a reader: `HexDigits` are six characters out of `0-9`, `a-f` and
`A-F`, and `Spells` says which colour they are.

`Settings.hexColor?` reads more than that.  It takes the six characters in pairs and reads each pair
as a number, and a number may begin with a sign.  So a `+` does for the first digit of a pair, as if
there were a `0` (`unsigned`).  A text is read if it is hexadecimal after this exchange, and the
colour is that of the digits then (`hexColor?_eq_some_iff`).

The texts that should have been refused are those which the exchange changes (`Signed`), and for
every other text behind a `#` the settings are as they should be (`hex_color_contract_iff`).
-/

namespace TapeTutor

namespace Settings

open Text (trimChars)

variable {cs : List Char} {c : Char} {color : Color}

/-! ## Digits -/

/-- The character is the hexadecimal digit of that value, in lower or upper case. -/
def IsDigit (c : Char) (v : Nat) : Prop :=
  "0123456789abcdef".toList[v]? = some c ∨ "0123456789ABCDEF".toList[v]? = some c

/-- Six hexadecimal digits and nothing else. -/
def HexDigits (cs : List Char) : Prop :=
  cs.length = 6 ∧ ∀ c ∈ cs, c ∈ "0123456789abcdefABCDEF".toList

instance : Decidable (HexDigits cs) :=
  @instDecidableAnd _ _ _ (List.decidableBAll _ cs)

/-- Two digits are the value of a channel. -/
def IsPair (high low : Char) (v : UInt8) : Prop :=
  ∃ h l, IsDigit high h ∧ IsDigit low l ∧ v.toNat = 16 * h + l

/-- Six digits are a colour, two for each channel. -/
def Spells (cs : List Char) (color : Color) : Prop :=
  ∃ r r' g g' b b' red green blue, cs = [r, r', g, g', b, b'] ∧
    IsPair r r' red ∧ IsPair g g' green ∧ IsPair b b' blue ∧ color = .rgb red green blue

instance {v : Nat} : Decidable (IsDigit c v) := inferInstanceAs (Decidable (_ ∨ _))

theorem IsDigit.lt {v : Nat} (h : IsDigit c v) : v < 16 := by
  rcases h with h | h
  · exact (List.getElem?_eq_some_iff.mp h).1
  · exact (List.getElem?_eq_some_iff.mp h).1

/-- What is read as a digit is an ASCII character, so there are finitely many of them. -/
theorem lt_of_hexDigit? {v : Nat} (h : hexDigit? c = some v) : c.toNat < 128 := by
  unfold hexDigit? at h
  split_ifs at h with hdigit hlower hupper
  · exact Nat.lt_of_le_of_lt hdigit.2 (by decide)
  · exact Nat.lt_of_le_of_lt hlower.2 (by decide)
  · exact Nat.lt_of_le_of_lt hupper.2 (by decide)

theorem isDigit_of_hexDigit? :
    ∀ n < 128, ∀ v ∈ hexDigit? (Char.ofNat n), IsDigit (Char.ofNat n) v := by
  decide

theorem hexDigit?_digits : ∀ digits ∈ ["0123456789abcdef".toList, "0123456789ABCDEF".toList],
    ∀ v < 16, digits[v]?.bind hexDigit? = some v := by
  decide

/-- The ranges of characters are the digits. -/
theorem hexDigit?_eq_some_iff {v : Nat} : hexDigit? c = some v ↔ IsDigit c v := by
  constructor
  · intro h
    have hdigit := isDigit_of_hexDigit? c.toNat (lt_of_hexDigit? h) v
    rw [Char.ofNat_toNat] at hdigit
    exact hdigit h
  · intro h
    have hlt := h.lt
    rcases h with h | h
    · have hread := hexDigit?_digits _ List.mem_cons_self v hlt
      rwa [h, Option.bind_some] at hread
    · have hread := hexDigit?_digits _ (List.mem_cons_of_mem _ List.mem_cons_self) v hlt
      rwa [h, Option.bind_some] at hread

theorem exists_isDigit_iff : (∃ v, IsDigit c v) ↔ c ∈ "0123456789abcdefABCDEF".toList := by
  constructor
  · have hlower : "0123456789abcdef".toList ⊆ "0123456789abcdefABCDEF".toList := by decide
    have hupper : "0123456789ABCDEF".toList ⊆ "0123456789abcdefABCDEF".toList := by decide
    rintro ⟨v, h | h⟩
    · exact hlower (List.mem_of_getElem? h)
    · exact hupper (List.mem_of_getElem? h)
  · have hsplit : "0123456789abcdefABCDEF".toList =
        "0123456789abcdef".toList ++ "ABCDEF".toList := by
      decide
    have hupper : "ABCDEF".toList ⊆ "0123456789ABCDEF".toList := by decide
    intro h
    rw [hsplit, List.mem_append] at h
    rcases h with h | h
    · obtain ⟨v, hv⟩ := List.mem_iff_getElem?.mp h
      exact ⟨v, Or.inl hv⟩
    · obtain ⟨v, hv⟩ := List.mem_iff_getElem?.mp (hupper h)
      exact ⟨v, Or.inr hv⟩

/-! ## Pairs and signs -/

/-- A sign in the place of a digit counts as a zero. -/
def plain (c : Char) : Char := if c = '+' then '0' else c

/-- The characters with a zero for every sign in the first place of a pair. -/
def unsigned : List Char → List Char
  | high :: low :: rest => plain high :: low :: unsigned rest
  | cs => cs

theorem length_unsigned (cs : List Char) : (unsigned cs).length = cs.length := by
  fun_induction unsigned cs with
  | case1 high low rest ih => simp [ih]
  | case2 => rfl

theorem channel?_plain (high low : Char) : channel? (plain high) low = channel? high low := by
  by_cases h : high = '+'
  · subst h
    have hzero : hexDigit? '0' = some 0 := by decide
    have hne : ¬ '0' = '+' := by decide
    rw [plain, if_pos rfl, channel?, channel?]
    simp [hzero, hne]
  · rw [plain, if_neg h]

theorem plain_ne_plus (c : Char) : plain c ≠ '+' := by
  unfold plain
  split
  · decide
  · assumption

/-- Without a sign, the value of a channel is that of its two digits. -/
theorem channel?_eq_some_iff {high low : Char} {v : UInt8} (hsign : high ≠ '+') :
    channel? high low = some v ↔ IsPair high low v := by
  constructor
  · intro h
    unfold channel? at h
    cases hlow : hexDigit? low with
    | none =>
      rw [hlow] at h
      contradiction
    | some l =>
      simp only [hlow, if_neg hsign, Option.map_eq_some_iff] at h
      obtain ⟨k, hhigh, rfl⟩ := h
      have hk := (hexDigit?_eq_some_iff.mp hhigh).lt
      have hl := (hexDigit?_eq_some_iff.mp hlow).lt
      refine ⟨k, l, hexDigit?_eq_some_iff.mp hhigh, hexDigit?_eq_some_iff.mp hlow, ?_⟩
      exact UInt8.toNat_ofNat_of_lt (by rw [UInt8.size]; omega)
  · rintro ⟨k, l, hhigh, hlow, hv⟩
    rw [channel?, hexDigit?_eq_some_iff.mpr hlow]
    simp only [if_neg hsign, hexDigit?_eq_some_iff.mpr hhigh, Option.map_some, Option.some_inj]
    rw [← hv]
    exact UInt8.ofNat_toNat

theorem exists_eq_of_length (h : cs.length = 6) : ∃ r r' g g' b b', cs = [r, r', g, g', b, b'] :=
  match cs, h with
  | [r, r', g, g', b, b'], _ => ⟨r, r', g, g', b, b', rfl⟩

theorem length_of_hexColor? (h : hexColor? cs = some color) : cs.length = 6 := by
  unfold hexColor? at h
  split at h
  · rfl
  · contradiction

theorem Spells.length_eq (h : Spells cs color) : cs.length = 6 := by
  obtain ⟨r, r', g, g', b, b', _, _, _, rfl, _⟩ := h
  rfl

/-- Three pairs are read one by one. -/
theorem hexColor?_pairs {r r' g g' b b' : Char} :
    hexColor? [r, r', g, g', b, b'] = some color ↔
      ∃ red green blue, channel? r r' = some red ∧ channel? g g' = some green ∧
        channel? b b' = some blue ∧ color = .rgb red green blue := by
  rw [hexColor?]
  constructor
  · intro h
    split at h
    · next red green blue hred hgreen hblue =>
      cases h
      exact ⟨red, green, blue, hred, hgreen, hblue, rfl⟩
    · contradiction
  · rintro ⟨red, green, blue, hred, hgreen, hblue, rfl⟩
    rw [hred, hgreen, hblue]

/-- **What is read**: six digits, after a zero has been put in for every sign. -/
theorem hexColor?_eq_some_iff : hexColor? cs = some color ↔ Spells (unsigned cs) color := by
  by_cases hlength : cs.length = 6
  · obtain ⟨r, r', g, g', b, b', rfl⟩ := exists_eq_of_length hlength
    rw [hexColor?_pairs]
    simp only [← channel?_plain r, ← channel?_plain g, ← channel?_plain b,
      channel?_eq_some_iff (plain_ne_plus _)]
    constructor
    · rintro ⟨red, green, blue, h⟩
      exact ⟨_, _, _, _, _, _, red, green, blue, rfl, h⟩
    · rintro ⟨_, _, _, _, _, _, red, green, blue, heq, h⟩
      cases heq
      exact ⟨red, green, blue, h⟩
  · refine iff_of_false (fun h => hlength (length_of_hexColor? h)) fun h => hlength ?_
    rw [← length_unsigned]
    exact h.length_eq

theorem exists_isPair {high low : Char} (hhigh : high ∈ "0123456789abcdefABCDEF".toList)
    (hlow : low ∈ "0123456789abcdefABCDEF".toList) : ∃ v, IsPair high low v := by
  obtain ⟨k, hk⟩ := exists_isDigit_iff.mpr hhigh
  obtain ⟨l, hl⟩ := exists_isDigit_iff.mpr hlow
  have hklt := hk.lt
  have hllt := hl.lt
  exact ⟨(16 * k + l).toUInt8, k, l, hk, hl, UInt8.toNat_ofNat_of_lt (by rw [UInt8.size]; omega)⟩

theorem IsPair.mem_digits {high low : Char} {v : UInt8} (h : IsPair high low v) :
    high ∈ "0123456789abcdefABCDEF".toList ∧ low ∈ "0123456789abcdefABCDEF".toList := by
  obtain ⟨k, l, hk, hl, _⟩ := h
  exact ⟨exists_isDigit_iff.mp ⟨k, hk⟩, exists_isDigit_iff.mp ⟨l, hl⟩⟩

/-- Six digits are always some colour. -/
theorem exists_spells_iff : (∃ color, Spells cs color) ↔ HexDigits cs := by
  constructor
  · rintro ⟨color, r, r', g, g', b, b', red, green, blue, rfl, hred, hgreen, hblue, _⟩
    refine ⟨rfl, ?_⟩
    simp only [List.forall_mem_cons]
    exact ⟨hred.mem_digits.1, hred.mem_digits.2, hgreen.mem_digits.1, hgreen.mem_digits.2,
      hblue.mem_digits.1, hblue.mem_digits.2, List.forall_mem_nil _⟩
  · rintro ⟨hlength, hdigits⟩
    obtain ⟨r, r', g, g', b, b', rfl⟩ := exists_eq_of_length hlength
    simp only [List.forall_mem_cons] at hdigits
    obtain ⟨hr, hr', hg, hg', hb, hb', _⟩ := hdigits
    obtain ⟨red, hred⟩ := exists_isPair hr hr'
    obtain ⟨green, hgreen⟩ := exists_isPair hg hg'
    obtain ⟨blue, hblue⟩ := exists_isPair hb hb'
    exact ⟨_, r, r', g, g', b, b', red, green, blue, rfl, hred, hgreen, hblue, rfl⟩

/-! ## One field in doubt -/

section

variable {content text : String} {f : Field}

/-- No two fields have one name. -/
theorem eq_of_name_eq {g : Field} (hf : f ∈ fields) (hg : g ∈ fields) (h : f.name = g.name) :
    f = g := by
  have hnodup : (fields.map Field.name).Nodup := by decide +kernel
  exact List.inj_on_of_nodup_map hnodup hf hg h

/-- One text at most decides a field. -/
theorem Field.Decided.unique {other : String} (h : f.Decided content text)
    (hother : f.Decided content other) : other = text := by
  rw [← deciding?_name_eq_some_iff] at h hother
  exact Option.some_inj.mp (hother.symm.trans h)

/-- If nothing else is at fault, then a field whose text can be read gets what it says. -/
theorem exists_ofText_of_accepts (hf : f ∈ fields) (hdecided : f.Decided content text)
    (hothers : ∀ g ∈ fields, g ≠ f → ∀ other, g.Decided content other → g.Accepts other)
    (haccepts : f.Accepts text) :
    ∃ s, ofText content = .ok s ∧ f.read text = some (f.get s) := by
  have hall : ∀ g ∈ fields, ∀ other, g.Decided content other → g.Accepts other := by
    intro g hg other hother
    by_cases heq : g = f
    · subst heq
      rw [hdecided.unique hother]
      exact haccepts
    · exact hothers g hg heq other hother
  obtain ⟨s, hs⟩ := exists_ofText_eq_ok_iff.mpr hall
  exact ⟨s, hs, (ofText_eq_ok_iff.mp hs f hf).1 text hdecided⟩

/-- If nothing else is at fault, then a field whose text cannot be read is reported. -/
theorem ofText_of_not_accepts (hf : f ∈ fields) (hdecided : f.Decided content text)
    (hothers : ∀ g ∈ fields, g ≠ f → ∀ other, g.Decided content other → g.Accepts other)
    (hrefuses : ¬ f.Accepts text) : ofText content = .error (.invalidValue f.name text) := by
  obtain ⟨before, after, hsplit, hfirst⟩ := List.eq_append_cons_of_mem hf
  refine ofText_eq_error_iff.mpr ⟨before, f, after, text, hsplit, ?_, hdecided, hrefuses, rfl⟩
  intro g hg other hother
  have hmem : g ∈ fields := by
    rw [hsplit]
    exact List.mem_append_left _ hg
  exact hothers g hmem (fun heq => hfirst (heq ▸ hg)) other hother

end

/-! ## The contract -/

/-- Signs stand for first digits of pairs, and there is one at least. -/
def Signed (cs : List Char) : Prop := HexDigits (unsigned cs) ∧ unsigned cs ≠ cs

/-- There is no sign among digits. -/
theorem HexDigits.unsigned_eq (h : HexDigits cs) : unsigned cs = cs := by
  have hplus : ∀ c ∈ cs, plain c = c := by
    intro c hc
    refine if_neg ?_
    rintro rfl
    exact absurd (h.2 _ hc) (by decide)
  clear h
  fun_induction unsigned cs with
  | case1 high low rest ih =>
    simp only [List.forall_mem_cons] at hplus
    rw [hplus.1, ih hplus.2.2]
  | case2 => rfl

theorem not_hexDigits_of_signed (h : Signed cs) : ¬ HexDigits cs :=
  fun hdigits => h.2 hdigits.unsigned_eq

/-- The texts that are read are the hexadecimal and the signed ones. -/
theorem isSome_hexColor?_iff : (hexColor? cs).isSome = true ↔ HexDigits cs ∨ Signed cs := by
  rw [Option.isSome_iff_exists]
  simp only [hexColor?_eq_some_iff, exists_spells_iff]
  constructor
  · intro h
    by_cases heq : unsigned cs = cs
    · exact Or.inl (heq ▸ h)
    · exact Or.inr ⟨h, heq⟩
  · rintro (h | h)
    · rw [h.unsigned_eq]
      exact h
    · exact h.1

theorem color?_of_trim {text : String} (h : trimChars text.toList = '#' :: cs) :
    color? text = hexColor? cs := by
  simp only [color?, h]

/-- **The colour behind a `#` is as it is spelled, or refused, unless there are signs.**  A text
decides a field of the palette, and nothing else in the settings text is at fault.  The field gets
the colour of the six digits, if there are six digits; if not, the field is reported with its text.
This fails for signed texts and for no other. -/
theorem hex_color_contract_iff (content text : String) (digits : List Char) (k : ColorKey)
    (hk : k ∈ colorKeys) (hdecided : (Field.ofColor k).Decided content text)
    (hhash : trimChars text.toList = '#' :: digits)
    (hothers : ∀ g ∈ fields, g ≠ .ofColor k →
      ∀ other, g.Decided content other → g.Accepts other) :
    ((HexDigits digits → ∃ s, ofText content = .ok s ∧ Spells digits (k.get s.palette)) ∧
      (¬ HexDigits digits →
        ofText content = .error (.invalidValue (Field.ofColor k).name text))) ↔
      ¬ Signed digits := by
  have hmem : Field.ofColor k ∈ fields :=
    List.mem_append_right _ (List.mem_map_of_mem hk)
  have haccepts : (Field.ofColor k).Accepts text ↔ HexDigits digits ∨ Signed digits := by
    rw [← isSome_hexColor?_iff, ← color?_of_trim hhash]
    rfl
  constructor
  · rintro ⟨_, hrefused⟩ hsigned
    obtain ⟨s, hs, _⟩ := exists_ofText_of_accepts hmem hdecided hothers
      (haccepts.mpr (Or.inr hsigned))
    have herror := hrefused (not_hexDigits_of_signed hsigned)
    rw [hs] at herror
    contradiction
  · intro hsigned
    constructor
    · intro hdigits
      obtain ⟨s, hs, hread⟩ := exists_ofText_of_accepts hmem hdecided hothers
        (haccepts.mpr (Or.inl hdigits))
      have hcolor : hexColor? digits = some (k.get s.palette) := by
        rw [← color?_of_trim hhash]
        exact hread
      rw [hexColor?_eq_some_iff, hdigits.unsigned_eq] at hcolor
      exact ⟨s, hs, hcolor⟩
    · intro hdigits
      refine ofText_of_not_accepts hmem hdecided hothers fun h => ?_
      exact (haccepts.mp h).elim hdigits hsigned

/-- A text with six digits, of both cases. -/
theorem hex_color_contract_iff_digits :
    ∃ s, ofText "[colors]\npointer = \"#fF8000\"\n" = .ok s ∧
      Spells "fF8000".toList s.palette.pointer := by
  have hmem : Field.ofColor colorKeys[4] ∈ fields := by
    exact List.mem_append_right _ (List.mem_map_of_mem (List.getElem_mem _))
  have hone : assignments "[colors]\npointer = \"#fF8000\"\n" =
      [((Field.ofColor colorKeys[4]).name, "#fF8000")] := by
    decide +kernel
  have hdecided : (Field.ofColor colorKeys[4]).Decided "[colors]\npointer = \"#fF8000\"\n"
      "#fF8000" := by
    rw [← deciding?_name_eq_some_iff, hone, deciding?_singleton, if_pos rfl]
  have hothers : ∀ g ∈ fields, g ≠ .ofColor colorKeys[4] →
      ∀ other, g.Decided "[colors]\npointer = \"#fF8000\"\n" other → g.Accepts other := by
    intro g hg hne other hother
    rw [← deciding?_name_eq_some_iff, hone, deciding?_singleton] at hother
    have hname : (Field.ofColor colorKeys[4]).name = g.name := by
      by_contra h
      rw [if_neg h] at hother
      contradiction
    exact absurd (eq_of_name_eq hg hmem hname.symm) hne
  have hdigits : HexDigits "fF8000".toList := by decide
  refine ((hex_color_contract_iff _ _ _ _ (List.getElem_mem _) hdecided (by decide +kernel)
    hothers).mpr fun h => ?_).1 hdigits
  exact not_hexDigits_of_signed h hdigits

/-- Signs are taken for digits. -/
theorem hex_color_takes_signs :
    (Field.ofColor colorKeys[4]).Decided "[colors]\npointer = \"#+1+2+3\"\n" "#+1+2+3" ∧
      trimChars "#+1+2+3".toList = '#' :: "+1+2+3".toList ∧ ¬ HexDigits "+1+2+3".toList ∧
      ofText "[colors]\npointer = \"#+1+2+3\"\n" =
        .ok { palette := { pointer := .rgb 1 2 3 } } := by
  refine ⟨(deciding?_name_eq_some_iff _).mp ?_, ?_, ?_, ?_⟩
  all_goals decide +kernel

end Settings

end TapeTutor
