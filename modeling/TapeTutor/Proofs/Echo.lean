import TapeTutor.Proofs.Generation
import TapeTutor.Proofs.Price
import Mathlib.Data.List.TakeWhile

/-!
# The echo program

`,[.,]` reads a byte, and while the byte is not zero it prints it and reads the next one.  Since a
program that has used up its input reads zeros, it echoes its input up to the first zero, whether
that is there or not.

* A store from which the next byte has just been read is `⟨l.headD 0 :: _, 0, l.tail, _, _⟩`, where
  `l` is the input from that byte on.  This is the invariant of the loop, and it covers the end of
  the input as well; the induction is on `l` (`repeats_echo`).
* A round takes three instructions, and two more are taken before the first round.  So the price is
  known for every input, and with it what happens under every ceiling.

Text as input is a separate matter.  A character beyond U+00FF is passed in several bytes, and none
of them is zero (`zero_notMem_bytesOfChar`), so only the character U+0000 ends the echo of a text.
-/

namespace TapeTutor

/-! ## The bytes of a text -/

namespace Text

/-- Only the character U+0000 has a zero among its bytes. -/
theorem zero_notMem_bytesOfChar {c : Char} (h : c ≠ '\x00') : 0 ∉ bytesOfChar c := by
  have hpos : 0 < c.toNat := by
    refine Nat.pos_of_ne_zero fun hzero => h ?_
    rw [← Char.ofNat_toNat c, hzero]
  have hbyte : ∀ n, 0 < n → n < 256 → (0 : UInt8) ≠ UInt8.ofNat n := by
    intro n hn hlt
    obtain ⟨k, rfl⟩ := Nat.exists_eq_add_of_le' hn
    exact (Block.ofNat_succ_ne_zero hlt).symm
  unfold bytesOfChar
  split
  · next hnarrow =>
    rw [List.mem_singleton]
    exact hbyte _ hpos hnarrow
  · next hwide =>
    -- every byte of the longer forms has its highest bit set
    rw [String.utf8EncodeChar, if_neg (by change ¬ c.toNat ≤ 127; omega)]
    split
    · simp only [List.mem_cons, List.not_mem_nil, or_false, not_or]
      refine ⟨hbyte _ ?_ ?_, hbyte _ ?_ ?_⟩ <;> omega
    · split
      · simp only [List.mem_cons, List.not_mem_nil, or_false, not_or]
        refine ⟨hbyte _ ?_ ?_, hbyte _ ?_ ?_, hbyte _ ?_ ?_⟩ <;> omega
      · simp only [List.mem_cons, List.not_mem_nil, or_false, not_or]
        refine ⟨hbyte _ ?_ ?_, hbyte _ ?_ ?_, hbyte _ ?_ ?_, hbyte _ ?_ ?_⟩ <;> omega

theorem zero_notMem_encodeInput {text : String} (h : '\x00' ∉ text.toList) :
    0 ∉ (encodeInput text).toList := by
  intro hzero
  obtain ⟨c, hc, hbyte⟩ := List.mem_flatMap.mp hzero
  refine zero_notMem_bytesOfChar ?_ hbyte
  rintro rfl
  exact h hc

/-- A character up to U+00FF shows as itself when it is passed as input. -/
theorem map_charOfByte_bytesOfChar {c : Char} (h : c.toNat < 256) :
    (bytesOfChar c).map charOfByte = [c] := by
  have hbyte : c.toNat.toUInt8.toNat = c.toNat := UInt8.toNat_ofNat_of_lt' h
  rw [bytesOfChar, if_pos h, List.map_singleton, charOfByte, hbyte, Char.ofNat_toNat]

theorem showBytes_encodeInput {text : String} (h : ∀ c ∈ text.toList, c.toNat < 256) :
    showBytes (encodeInput text) = text := by
  rw [showBytes, encodeInput, ← String.toList_inj, String.toList_ofList, List.map_flatMap,
    List.flatMap_def, List.map_congr_left fun c hc => map_charOfByte_bytesOfChar (h c hc),
    ← List.flatMap_def, List.flatMap_singleton']

end Text

/-! ## The loop -/

namespace Block

open Store

/-- The tree of `,[.,]`. -/
def echo : Block := act .input (loop (act .output (act .input done)) done)

variable {rest o : List UInt8} {n : Nat}

/-- Reading takes the first byte of the input, or a zero where there is none. -/
theorem perform_input (x : UInt8) (l : List UInt8) (position : Nat) :
    perform position ⟨x :: rest, 0, l, o, n⟩ .input = .ok ⟨l.headD 0 :: rest, 0, l.tail, o, n⟩ := by
  cases l <;> rfl

/-- The loop prints what comes before the first zero and reads one byte more. -/
theorem repeats_echo (l : List UInt8) (hn : 0 < n) :
    (act .output (act .input done)).Repeats ⟨l.headD 0 :: rest, 0, l.tail, o, n⟩
      ⟨0 :: rest, 0, (l.dropWhile (· ≠ 0)).tail, o ++ l.takeWhile (· ≠ 0),
        n + 3 * (l.takeWhile (· ≠ 0)).length⟩ := by
  induction l generalizing o n with
  | nil =>
    rw [List.takeWhile_nil, List.append_nil]
    exact Repeats.stop rfl
  | cons x l ih =>
    by_cases hx : x = 0
    · subst hx
      rw [List.takeWhile_cons_of_neg (by simp), List.dropWhile_cons_of_neg (by simp),
        List.append_nil]
      exact Repeats.stop rfl
    · have hround : (act .output (act .input done)).Brings ⟨x :: rest, 0, l, o, n⟩
          ⟨l.headD 0 :: rest, 0, l.tail, o ++ [x], n + 2⟩ :=
        Brings.act (fun _ => rfl) (Brings.act (perform_input x l) (Brings.refl _))
      rw [List.takeWhile_cons_of_pos (by simpa using hx),
        List.dropWhile_cons_of_pos (by simpa using hx), List.length_cons,
        show o ++ x :: l.takeWhile (· ≠ 0) = (o ++ [x]) ++ l.takeWhile (· ≠ 0) by simp,
        show n + 3 * ((l.takeWhile (· ≠ 0)).length + 1) =
          n + 2 + 1 + 3 * (l.takeWhile (· ≠ 0)).length by omega]
      exact Repeats.round hn hx hround (ih (by omega))

theorem brings_echo (input : List UInt8) {size : Nat} (hsize : 1 ≤ size) :
    ∃ t, echo.Brings (.fresh size input) t ∧ t.output = input.takeWhile (· ≠ 0) ∧
      t.spent = 3 * (input.takeWhile (· ≠ 0)).length + 2 := by
  obtain ⟨m, rfl⟩ := Nat.exists_eq_add_of_le' hsize
  refine ⟨_, Brings.act (perform_input 0 input) (Brings.loop (repeats_echo input ?_)
    (Brings.refl _)), ?_, ?_⟩
  · exact Nat.succ_pos _
  · exact List.nil_append _
  · show 0 + 1 + 1 + _ = _
    omega

end Block

namespace Interpreter

variable (it : Interpreter)

theorem code_echo : Block.echo.code = clean ",[.,]" := rfl

/-- Under which ceilings an input is echoed, and how far under the others. -/
theorem execute_echo (hcells : 1 ≤ it.config.memorySize) {bytes : List UInt8}
    (hbytes : it.config.input.toList.takeWhile (· ≠ 0) = bytes) :
    ((∃ done, (it.execute ",[.,]").1 = .ok done) ↔ 3 * bytes.length + 2 ≤ it.config.maxIterations) ∧
    (∀ done, (it.execute ",[.,]").1 = .ok done →
      done.iterations = 3 * bytes.length + 2 ∧ done.output = bytes.toArray) ∧
    (it.config.maxIterations < 3 * bytes.length + 2 →
      ∃ e, (it.execute ",[.,]").1 = .error e ∧ e.fault = .ceiling it.config.maxIterations ∧
        e.output.toList <+: bytes) := by
  obtain ⟨t, hbrings, houtput, hspent⟩ := Block.brings_echo it.config.input.toList hcells
  rw [hbytes] at houtput hspent
  have hiff := it.execute_ok_iff_of_brings code_echo hbrings
  rw [← hspent, ← houtput]
  refine ⟨hiff, fun done hdone => ?_, it.execute_cut_of_brings code_echo hbrings⟩
  obtain ⟨done', hdone', hwritten, htaken, _⟩ :=
    it.execute_of_brings code_echo hbrings (hiff.mp ⟨done, hdone⟩)
  cases hdone.symm.trans hdone'
  exact ⟨htaken, Array.toList_inj.mp hwritten⟩

/-- **The echo program echoes its input up to the first zero.**

* It succeeds if and only if the ceiling allows three instructions for each byte before the first
  zero and two more.  It then takes exactly that many, and prints exactly these bytes.
* Under a lower ceiling it is the ceiling that stops it, and what it has printed is the beginning of
  these bytes.
* A text without U+0000 is echoed whole, as the bytes that it is passed in show.  If all of its
  characters are up to U+00FF, this is the text.
* The bytes of two texts in a row are the bytes of one and those of the other. -/
theorem execute_echoes (hcells : 1 ≤ it.config.memorySize) :
    let bytes := it.config.input.toList.takeWhile (· ≠ 0)
    ((∃ done, (it.execute ",[.,]").1 = .ok done) ↔
      3 * bytes.length + 2 ≤ it.config.maxIterations) ∧
    (∀ done, (it.execute ",[.,]").1 = .ok done →
      done.iterations = 3 * bytes.length + 2 ∧ done.output = bytes.toArray ∧
        Text.showBytes done.output = String.ofList (bytes.map fun b => Char.ofNat b.toNat)) ∧
    (it.config.maxIterations < 3 * bytes.length + 2 →
      ∃ e, (it.execute ",[.,]").1 = .error e ∧ e.fault = .ceiling it.config.maxIterations ∧
        e.output.toList <+: bytes) ∧
    (∀ (config : Config) (text : String), it.config = config.withText text →
      '\x00' ∉ text.toList →
      ((∃ done, (it.execute ",[.,]").1 = .ok done) ↔
        3 * (Text.encodeInput text).size + 2 ≤ it.config.maxIterations) ∧
      ∀ done, (it.execute ",[.,]").1 = .ok done →
        Text.showBytes done.output = Text.showBytes (Text.encodeInput text) ∧
          ((∀ c ∈ text.toList, c.toNat ≤ 0xFF) → Text.showBytes done.output = text)) ∧
    Text.encodeInput "" = #[] ∧
    ∀ s t, Text.encodeInput (s ++ t) = Text.encodeInput s ++ Text.encodeInput t := by
  intro bytes
  obtain ⟨hiff, hdone, hcut⟩ := it.execute_echo hcells rfl
  refine ⟨hiff, fun done h => ?_, hcut, ?_, rfl, Text.encodeInput_append⟩
  · obtain ⟨htaken, hwritten⟩ := hdone done h
    refine ⟨htaken, hwritten, ?_⟩
    rw [hwritten]
    rfl
  · intro config text hconfig hzero
    -- there is no zero in the way, so all of the input is heard
    have hall : it.config.input.toList.takeWhile (· ≠ 0) = (Text.encodeInput text).toList := by
      rw [hconfig]
      refine List.takeWhile_eq_self_iff.mpr fun b hb => decide_eq_true ?_
      rintro rfl
      exact Text.zero_notMem_encodeInput hzero hb
    obtain ⟨hiff', hdone', _⟩ := it.execute_echo hcells hall
    refine ⟨hiff', fun done h => ?_⟩
    rw [(hdone' done h).2, Array.toArray_toList]
    exact ⟨rfl, fun hnarrow =>
      Text.showBytes_encodeInput fun c hc => Nat.lt_succ_of_le (hnarrow c hc)⟩

/-- Eight instructions are just enough for two characters, and seven are not. -/
theorem execute_echoes_two :
    (∃ done, ((fresh (Config.withText { memorySize := 1, maxIterations := 8 } "éÿ")).execute
        ",[.,]").1 = .ok done ∧ done.iterations = 8 ∧ Text.showBytes done.output = "éÿ") ∧
      ∃ e, ((fresh (Config.withText { memorySize := 1, maxIterations := 7 } "éÿ")).execute
        ",[.,]").1 = .error e ∧ e.fault = .ceiling 7 ∧ e.output.toList <+: [0xE9, 0xFF] := by
  obtain ⟨_, hcount, _, htext, _⟩ :=
    execute_echoes (fresh (Config.withText { memorySize := 1, maxIterations := 8 } "éÿ"))
      (by decide)
  obtain ⟨hiff, hshown⟩ := htext { memorySize := 1, maxIterations := 8 } "éÿ" rfl (by decide)
  obtain ⟨done, hdone⟩ := hiff.mpr (by decide)
  obtain ⟨_, _, hcut, _⟩ :=
    execute_echoes (fresh (Config.withText { memorySize := 1, maxIterations := 7 } "éÿ"))
      (by decide)
  exact ⟨⟨done, hdone, (hcount done hdone).1, (hshown done hdone).2 (by simp)⟩,
    hcut (by decide)⟩

end Interpreter

end TapeTutor
