/-!
# Bytes as text

A cell is a byte, and a program writes bytes.  They are shown one character per byte: the
byte `n` is the character with code point `n`.  Input travels the other way and tries to be
inverse to that, so a character up to U+00FF is one byte.  A wider character has no single
byte; it is passed as the bytes of its UTF-8 form.

Files and command lines hold UTF-8 proper, which `decodeUtf8?` checks.
-/

namespace TapeTutor.Text

/-- The character that shows a byte. -/
def charOfByte (b : UInt8) : Char := Char.ofNat b.toNat

/-- Bytes shown as text, one character each. -/
def showBytes (bytes : Array UInt8) : String :=
  String.ofList (bytes.toList.map charOfByte)

/-- The bytes of one character of input: itself up to U+00FF, its UTF-8 form beyond. -/
def bytesOfChar (c : Char) : List UInt8 :=
  if c.toNat < 256 then [c.toNat.toUInt8] else (String.utf8EncodeChar c)

/-- The input bytes a text stands for. -/
def encodeInput (text : String) : Array UInt8 :=
  (text.toList.flatMap bytesOfChar).toArray

/-- The UTF-8 bytes of a text. -/
def utf8Bytes (text : String) : List UInt8 := text.toUTF8.toList

/-- The text a list of bytes holds in UTF-8, if they are well formed. -/
def decodeUtf8? (bytes : List UInt8) : Option String :=
  String.fromUTF8? ⟨bytes.toArray⟩

/-- Bytes as a bracketed list of numbers. -/
def listBytes (bytes : Array UInt8) : String :=
  "[" ++ ", ".intercalate (bytes.toList.map fun b => toString b.toNat) ++ "]"

@[simp]
theorem charOfByte_toNat (b : UInt8) : (charOfByte b).toNat = b.toNat := by
  have h : b.toNat < 256 := b.toNat_lt
  have hv : b.toNat.isValidChar := Or.inl (by omega)
  rw [charOfByte, Char.ofNat, dif_pos hv]
  rfl

/-- Reading a shown byte as input gives the byte back. -/
@[simp]
theorem bytesOfChar_charOfByte (b : UInt8) : bytesOfChar (charOfByte b) = [b] := by
  have h : b.toNat < 256 := b.toNat_lt
  simp [bytesOfChar, h]

/-- Input text is encoded character by character. -/
theorem encodeInput_append (s t : String) :
    encodeInput (s ++ t) = encodeInput s ++ encodeInput t := by
  simp [encodeInput]

/-- What is neither in the parts nor put between them is not in the whole. -/
theorem notMem_intercalate {c : Char} {between : List Char} {parts : List (List Char)}
    (hbetween : c ∉ between) (hparts : ∀ part ∈ parts, c ∉ part) :
    c ∉ between.intercalate parts := by
  induction parts with
  | nil => simp
  | cons part rest ih =>
    cases rest with
    | nil => simpa using hparts
    | cons next rest =>
      rw [List.intercalate_cons_cons, List.mem_append, List.mem_append, not_or, not_or]
      refine ⟨⟨hparts part (by simp), hbetween⟩, ih ?_⟩
      intro other hother
      exact hparts other (List.mem_cons_of_mem part hother)

end TapeTutor.Text
