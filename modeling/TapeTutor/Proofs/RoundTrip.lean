import TapeTutor.CommandLine.Response
import TapeTutor.Proofs.Generation

/-!
# From a text to code, and back

`generate` turns a text into code, and `exec` runs the code and shows what it prints.  In between
there are three translations: the text becomes bytes, the bytes become code that prints them, and
the printed bytes are shown as text again.

The one in the middle is exact: code that is generated for some bytes prints these bytes, unless the
ceiling stops it (`execute_generated`).  The outer two do not fit together.  A text is passed in
UTF-8, and bytes are shown one character each, so a character beyond U+007F comes back as the two or
more characters that show its UTF-8 form (`Text.showBytes_utf8Bytes_eq_iff`).  The input of a
program is not treated that way: there a character up to U+00FF is one byte, and shows as itself.
-/

namespace TapeTutor

/-! ## Texts and their bytes -/

namespace Text

theorem toList_loop_eq (bytes : ByteArray) (i : Nat) (r : List UInt8) :
    ByteArray.toList.loop bytes i r = r.reverse ++ bytes.data.toList.drop i := by
  fun_induction ByteArray.toList.loop bytes i r with
  | case1 i r hlt ih =>
    have hlist : i < bytes.data.toList.length := hlt
    have hget : bytes.get! i = bytes.data.toList[i] := by
      show bytes.data[i]! = _
      rw [getElem!_pos bytes.data i hlt, Array.getElem_toList]
    rw [ih, List.reverse_cons, List.append_assoc, List.singleton_append, hget,
      ← List.drop_eq_getElem_cons hlist]
  | case2 i r hge => rw [List.drop_eq_nil_of_le (Nat.le_of_not_lt hge), List.append_nil]

/-- A text is encoded character by character. -/
theorem utf8Bytes_eq (text : String) :
    utf8Bytes text = text.toList.flatMap String.utf8EncodeChar := by
  rw [utf8Bytes, String.toUTF8_eq_toByteArray, ← String.utf8Encode_toList, List.utf8Encode,
    ByteArray.toList, toList_loop_eq, List.toList_data_toByteArray]
  rfl

/-- How the bytes of one character are shown. -/
def showChar (c : Char) : List Char := (String.utf8EncodeChar c).map charOfByte

theorem length_showChar (c : Char) : (showChar c).length = c.utf8Size := by
  rw [showChar, List.length_map, String.length_utf8EncodeChar]

theorem utf8Size_eq_one_iff_lt (c : Char) : c.utf8Size = 1 ↔ c.toNat < 128 := by
  rw [Char.utf8Size_eq_one_iff]
  exact Nat.lt_succ_iff.symm

/-- An ASCII character is shown as itself. -/
theorem showChar_of_lt {c : Char} (h : c.toNat < 128) : showChar c = [c] := by
  have hbyte : c.val.toUInt8.toNat = c.toNat := by
    rw [UInt32.toNat_toUInt8]
    exact Nat.mod_eq_of_lt (Nat.lt_trans h (by decide))
  rw [showChar, String.utf8EncodeChar_eq_singleton ((utf8Size_eq_one_iff_lt c).mpr h),
    List.map_singleton, charOfByte, hbyte, Char.ofNat_toNat]

/-- No character is shown as nothing. -/
theorem length_le_flatMap_showChar (cs : List Char) :
    cs.length ≤ (cs.flatMap showChar).length := by
  induction cs with
  | nil => exact Nat.le_refl _
  | cons c cs ih =>
    have hpos := c.utf8Size_pos
    rw [List.flatMap_cons, List.length_append, List.length_cons, length_showChar]
    omega

theorem flatMap_showChar_eq_iff (cs : List Char) :
    cs.flatMap showChar = cs ↔ ∀ c ∈ cs, c.toNat < 128 := by
  induction cs with
  | nil => simp
  | cons c cs ih =>
    rw [List.flatMap_cons, List.forall_mem_cons]
    by_cases hc : c.toNat < 128
    · rw [showChar_of_lt hc, List.singleton_append, List.cons_inj_right, ih]
      exact (and_iff_right hc).symm
    · -- the shown form of this character is too long, and the rest cannot make up for it
      refine iff_of_false (fun heq => ?_) fun hall => hc hall.1
      have hlength := congrArg List.length heq
      have hrest := length_le_flatMap_showChar cs
      have hpos := c.utf8Size_pos
      have hwide := mt (utf8Size_eq_one_iff_lt c).mp hc
      rw [List.length_append, List.length_cons, length_showChar] at hlength
      omega

/-- **The bytes of a text show as the text if and only if it is ASCII.** -/
theorem showBytes_utf8Bytes_eq_iff (text : String) :
    showBytes (utf8Bytes text).toArray = text ↔ ∀ c ∈ text.toList, c.toNat < 128 := by
  have hshown :
      showBytes (utf8Bytes text).toArray = String.ofList (text.toList.flatMap showChar) := by
    rw [showBytes, utf8Bytes_eq, List.map_flatMap]
    rfl
  rw [hshown, ← String.toList_inj, String.toList_ofList]
  exact flatMap_showChar_eq_iff text.toList

end Text

/-! ## Generated code under any ceiling -/

/-- On two cells or more, generated code is a tree that prints its bytes. -/
theorem Generator.exists_brings_fresh (o : GeneratorOptions) (bytes input : List UInt8) {size : Nat}
    (hsize : 2 ≤ size) :
    ∃ b : Block, b.code = clean (spell (generate o bytes)) ∧
      ∃ t, b.Brings (.fresh size input) t ∧ t.output = bytes ∧ t.spent ≤ 4000 * bytes.length := by
  obtain ⟨n, rfl⟩ : ∃ n, size = n + 2 := ⟨size - 2, by omega⟩
  obtain ⟨b, hb, k, hk, hbrings⟩ := exists_brings_print o 0 bytes
    (fun _ => ⟨List.replicate n (0 : UInt8), rfl⟩)
  refine ⟨b, ?_, _, hbrings input [] 0, rfl, ?_⟩
  · rw [clean_spell]
    exact hb
  · show 0 + k ≤ _
    omega

namespace Interpreter

variable {config : Config} (o : GeneratorOptions) (bytes : List UInt8)

/-- **Generated code prints its bytes** on a tape of two cells or more, unless the ceiling stops
it. -/
theorem execute_generated (hsize : 2 ≤ config.memorySize)
    (hwithin : WithinCeiling ((fresh config).execute (spell (generate o bytes))).1) :
    ∃ done, ((fresh config).execute (spell (generate o bytes))).1 = .ok done ∧
      done.output = bytes.toArray := by
  obtain ⟨b, hb, t, hbrings, houtput, _⟩ :=
    Generator.exists_brings_fresh o bytes config.input.toList hsize
  -- a ceiling that is high enough for the tree changes nothing
  have hraised := congrArg Prod.fst
    (execute_raise (fresh config) (Nat.le_add_right config.maxIterations t.spent) hwithin)
  have hagrees : Agrees
      ((fresh { config with maxIterations := config.maxIterations + t.spent }).execute
        (spell (generate o bytes)))
      (b.run (config.maxIterations + t.spent) 0 (.fresh config.memorySize config.input.toList)) :=
    execute_agrees_run _ hb
  rw [hbrings.run_eq _ 0 (Nat.le_add_left _ _)] at hagrees
  obtain ⟨done, hdone, hprinted, _⟩ := hagrees
  exact ⟨done, hraised.symm.trans hdone, Array.toList_inj.mp (hprinted.trans houtput)⟩

/-- A ceiling of 4000 instructions for each byte does not stop it. -/
theorem withinCeiling_generated (hsize : 2 ≤ config.memorySize)
    (hlimit : 4000 * bytes.length ≤ config.maxIterations) :
    WithinCeiling ((fresh config).execute (spell (generate o bytes))).1 := by
  obtain ⟨b, hb, t, hbrings, _, hspent⟩ :=
    Generator.exists_brings_fresh o bytes config.input.toList hsize
  have hagrees : Agrees ((fresh config).execute (spell (generate o bytes)))
      (b.run config.maxIterations 0 (.fresh config.memorySize config.input.toList)) :=
    execute_agrees_run _ hb
  rw [hbrings.run_eq _ 0 (Nat.le_trans hspent hlimit)] at hagrees
  obtain ⟨done, hdone, _⟩ := hagrees
  intro e limit he
  cases hdone.symm.trans he

end Interpreter

namespace CommandLine

open Interpreter

/-! ## Command lines -/

variable {s : Surroundings} {tokens : List String} {c : Context} {command : Command}
  {notes : List Write}

/-- What is written before a command is carried out are notes. -/
theorem exists_notes_of_prepare (h : prepare s tokens = .ready c command notes) :
    ∃ ns, notes = c.notes ns := by
  unfold prepare at h
  split at h
  · contradiction
  · contradiction
  · split at h
    · unfold Request.prepare at h
      dsimp only at h
      split at h
      · contradiction
      · cases h
        exact ⟨_, rfl⟩
    · contradiction

theorem respond_of_prepare (h : prepare s tokens = .ready c command notes) (supplies : Supplies) :
    respond s supplies tokens = some ((c.perform supplies command).after notes) := by
  simp only [respond, h]

/-- Notes do not go to the standard output. -/
theorem stdout_after_notes (t : Transcript) (c : Context) (ns : List Note) :
    (t.after (c.notes ns)).stdout = t.stdout := by
  unfold Transcript.stdout Transcript.after
  dsimp only
  rw [List.filterMap_append, List.filterMap_eq_nil_iff.mpr, List.nil_append]
  intro w hw
  obtain ⟨n, _, rfl⟩ := List.mem_map.mp hw
  rfl

/-- The code that is generated for a text is printed as a line, if only one version is asked for. -/
theorem stdout_generate (c : Context) (supplies : Supplies) (text : String) {rendition : Rendition}
    (hone : rendition ≠ .both) :
    ∃ o, (c.generate supplies (.words text) rendition).stdout =
        spell (TapeTutor.generate o (Text.utf8Bytes text)) ++ "\n" ∧
      (c.generate supplies (.words text) rendition).exit = 0 := by
  have hline : ∀ code ns, (Transcript.after ⟨[outLine code], 0⟩ (c.notes ns)).stdout =
      code ++ "\n" := by
    intro code ns
    rw [stdout_after_notes]
    exact String.empty_append
  cases rendition with
  | both => contradiction
  | simple => exact ⟨.simple, hline _ _, rfl⟩
  | compact => exact ⟨{}, hline _ _, rfl⟩

/-- The configuration that inline code is run with. -/
def Context.runConfig (c : Context) (input : Option String) (o : ReportOptions) : Config :=
  { c.config input with capture := o.capture }

/-- What the run of inline code comes to. -/
def Context.execution (c : Context) (code : String) (input : Option String) (o : ReportOptions) :
    Execution :=
  ((fresh (c.runConfig input o)).execute code).1

/-- The line of a report that shows what a program has printed. -/
def Context.outputWrite (c : Context) (o : ReportOptions) (done : Completion) : Write :=
  if o.json then outLine (Execution.json (.ok done))
  else outLine (c.label "Output:" ++ " " ++ Text.showBytes done.output)

/-- A run that comes to its end is reported with what it has printed. -/
theorem Context.runCode_of_ok (c : Context) {code : String} {input : Option String}
    {o : ReportOptions} {done : Completion} (hvalid : (c.runConfig input o).Valid)
    (hok : c.execution code input o = .ok done) :
    (c.runCode code input o).exit = 0 ∧
      c.outputWrite o done ∈ (c.runCode code input o).writes := by
  have hrun : c.runCode code input o = c.execute code (fresh (c.runConfig input o)) o := by
    show c.withInterpreter (c.runConfig input o) _ = _
    rw [withInterpreter, new_of_valid hvalid]
  rw [hrun, Context.execute]
  dsimp only
  rw [show ((fresh (c.runConfig input o)).execute code).1 = .ok done from hok]
  by_cases hjson : o.json
  · simp [report, outputWrite, Transcript.after, hjson]
  · simp [report, completionReport, outputWrite, Transcript.after, hjson]

/-- **Which texts come back.**  Let `generate` print code for a text, one version of it, and let
`exec` run that code, with any settings that give it two cells and a ceiling which does not stop it.

* `generate` succeeds and prints one line.
* `exec` succeeds and shows what the code has printed: the bytes of the text in UTF-8.
* What it shows is the text if and only if the text is ASCII.  So a text with a character from
  U+0080 to U+00FF, which one byte could show, does not come back. -/
theorem generate_roundtrip_iff {text : String} {rendition : Rendition}
    (hready : prepare s tokens = .ready c (.generate (.words text) rendition) notes)
    (hone : rendition ≠ .both) (supplies : Supplies) :
    ∃ t, respond s supplies tokens = some t ∧ t.exit = 0 ∧ (∃ code, t.stdout = code ++ "\n") ∧
      ∀ code, t.stdout = code ++ "\n" →
        ∀ s' supplies' tokens' c' input o notes',
          prepare s' tokens' = .ready c' (.exec code input o) notes' →
          2 ≤ c'.settings.memorySize → 1 ≤ c'.settings.maxIterations →
          WithinCeiling (c'.execution code input o) →
          ∃ t' done, respond s' supplies' tokens' = some t' ∧ t'.exit = 0 ∧
            c'.execution code input o = .ok done ∧ c'.outputWrite o done ∈ t'.writes ∧
            done.output = (Text.utf8Bytes text).toArray ∧
            (Text.showBytes done.output = text ↔ ∀ ch ∈ text.toList, ch.toNat < 128) := by
  obtain ⟨ns, rfl⟩ := exists_notes_of_prepare hready
  obtain ⟨o, hstdout, hexit⟩ := stdout_generate c supplies text hone
  refine ⟨_, respond_of_prepare hready supplies, hexit, ?_, ?_⟩
  · rw [stdout_after_notes]
    exact ⟨_, hstdout⟩
  · intro code hcode s' supplies' tokens' c' input o' notes' hready' hsize hpos hwithin
    rw [stdout_after_notes] at hcode
    obtain rfl : code = spell (TapeTutor.generate o (Text.utf8Bytes text)) := by
      have hlines := hcode.symm.trans hstdout
      simpa using hlines
    obtain ⟨done, hdone, houtput⟩ :=
      @execute_generated (c'.runConfig input o') o (Text.utf8Bytes text) hsize hwithin
    obtain ⟨hexit', hshown⟩ := c'.runCode_of_ok ⟨Nat.le_of_succ_le hsize, hpos⟩ hdone
    refine ⟨_, done, respond_of_prepare hready' supplies', hexit', hdone, ?_, houtput, ?_⟩
    · exact List.mem_append_right _ hshown
    · rw [houtput]
      exact Text.showBytes_utf8Bytes_eq_iff text

/-- The tool called where there are no settings, no files and no input. -/
def Surroundings.bare : Surroundings where
  name := "bf"
  settingsFile := none
  environment _ := none

/-- Nothing to read. -/
def Supplies.none : Supplies where
  file _ := .error "No such file or directory (os error 2)"
  stdin := []

/-- Two ASCII characters, counted up and down. -/
theorem generate_roundtrip_iff_ascii :
    ∃ t, respond .bare .none ["generate", "--compact", "\n\t"] = some t ∧
      t.stdout = "++++++++++.-.\n" ∧
      ∃ c t' done, respond .bare .none ["--memory-size=2", "exec", "++++++++++.-."] = some t' ∧
        Context.outputWrite c {} done ∈ t'.writes ∧ Text.showBytes done.output = "\n\t" := by
  obtain ⟨t, ht, _, _, hback⟩ :=
    @generate_roundtrip_iff .bare ["generate", "--compact", "\n\t"] _ _ "\n\t" .compact rfl
      (by decide) .none
  have hstdout : t.stdout = "++++++++++.-." ++ "\n" := by
    cases ht
    decide +kernel
  have hwithin : WithinCeiling ((fresh { memorySize := 2 }).execute "++++++++++.-.").1 := by
    rintro e limit ⟨⟩
  obtain ⟨t', done, ht', _, _, hshown, _, hiff⟩ :=
    hback _ hstdout .bare .none ["--memory-size=2", "exec", "++++++++++.-."] _ _ _ _ rfl
      (by decide) (by decide) hwithin
  exact ⟨t, ht, hstdout, _, t', done, ht', hshown, hiff.mpr (by simp)⟩

/-- A text of one character that a byte could show comes back as two characters. -/
theorem generate_splits_accent :
    ∃ code, (respond .bare .none ["generate", "--simple", "é"]).map Transcript.stdout =
        some (code ++ "\n") ∧
      ∃ done, ((fresh { memorySize := 2 }).execute code).1 = .ok done ∧
        Text.showBytes done.output = "Ã©" ∧ Text.showBytes done.output ≠ "é" := by
  have hwithin : WithinCeiling
      ((fresh { memorySize := 2 }).execute (spell (generate .simple [195, 169]))).1 :=
    withinCeiling_generated .simple [195, 169] (Nat.le_refl 2) (by decide)
  obtain ⟨done, hdone, houtput⟩ := execute_generated .simple [195, 169] (Nat.le_refl 2) hwithin
  refine ⟨_, ?_, done, hdone, ?_, ?_⟩
  · decide +kernel
  · rw [houtput]
    decide
  · rw [houtput]
    decide

end CommandLine

end TapeTutor
