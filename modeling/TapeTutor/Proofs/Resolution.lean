import TapeTutor.CommandLine.Response
import TapeTutor.Proofs.SettingsEdits

/-!
# How settings are resolved

Settings have thirteen fields.  Each of them has a heading and a key in a settings text, a way to
read its text and a default (`Settings.Field`, `Settings.fields`).  What a settings text comes to
depends on nothing but the texts that decide these keys (`Field.Decided`).

* All of them can be read: each field holds what its text says, or its default if there is none
  (`ofText_eq_ok_iff`).
* One cannot: the first of them, in the order of the fields, is reported with its text
  (`ofText_eq_error_iff`).

`Settings.apply` goes through a list of keys and stops at the first text that does not fit.  It is
described once, for fields under any names (`apply_keysOf_eq_ok_iff`, `apply_keysOf_eq_error_iff`),
since the environment goes through the same function.

On top of the text come the environment variables and then the options of the command line; they
change three fields and no other (`layered`).
-/

namespace TapeTutor

namespace Settings

/-! ## Fields -/

/-- A field of settings: where its text stands, how the text is read, and which part of settings
it is. -/
structure Field where
  heading : String
  key : String
  /-- What the field holds. -/
  Value : Type
  read : String → Option Value
  get : Settings → Value
  set : Value → Settings → Settings
  heading_ne : heading.toList ≠ [] := by decide
  dot_notMem_heading : '.' ∉ heading.toList := by decide
  dot_notMem_key : '.' ∉ key.toList := by decide
  set_get : ∀ s, set (get s) s = s := by exact fun _ => rfl

namespace Field

/-- The full name of the field in a settings text. -/
def name (f : Field) : String := fullName f.heading.toList f.key.toList

/-- The text can be read. -/
def Accepts (f : Field) (text : String) : Prop := (f.read text).isSome = true

/-- The text decides the field in a settings text. -/
def Decided (f : Field) (content text : String) : Prop :=
  Decides (splitLines content.toList) f.heading.toList f.key.toList text.toList

/-- A key that sets the field, under any name. -/
def toKey (f : Field) (name : String) : Key where
  name := name
  set? text s := (f.read text).map fun v => f.set v s

/-- A field that holds a count. -/
def ofCount (heading key : String) (get : Settings → Nat) (set : Nat → Settings → Settings)
    (hne : heading.toList ≠ [] := by decide) (hheading : '.' ∉ heading.toList := by decide)
    (hkey : '.' ∉ key.toList := by decide)
    (hset : ∀ s, set (get s) s = s := by exact fun _ => rfl) : Field :=
  ⟨heading, key, Nat, count?, get, set, hne, hheading, hkey, hset⟩

def memorySize : Field :=
  ofCount "interpreter" "memory_size" Settings.memorySize fun n s => { s with memorySize := n }

def maxIterations : Field :=
  ofCount "interpreter" "max_iterations" Settings.maxIterations fun n s =>
    { s with maxIterations := n }

def animationMs : Field :=
  ofCount "visualizer" "animation_ms" Settings.animationMs fun n s => { s with animationMs := n }

def visibleCells : Field :=
  ofCount "visualizer" "visible_cells" Settings.visibleCells fun n s => { s with visibleCells := n }

end Field

/-- A field of the palette: its key under the heading of colours, and which part it is. -/
structure ColorKey where
  key : String
  get : Palette → Color
  set : Color → Palette → Palette
  dot_notMem_key : '.' ∉ key.toList := by decide
  set_get : ∀ p, set (get p) p = p := by exact fun _ => rfl

/-- The fields of the palette. -/
def colorKeys : List ColorKey :=
  [{ key := "cell_zero", get := Palette.cellZero, set := fun c p => { p with cellZero := c } },
    { key := "cell_nonzero", get := Palette.cellNonzero,
      set := fun c p => { p with cellNonzero := c } },
    { key := "ascii", get := Palette.ascii, set := fun c p => { p with ascii := c } },
    { key := "index", get := Palette.index, set := fun c p => { p with index := c } },
    { key := "pointer", get := Palette.pointer, set := fun c p => { p with pointer := c } },
    { key := "border", get := Palette.border, set := fun c p => { p with border := c } },
    { key := "success", get := Palette.success, set := fun c p => { p with success := c } },
    { key := "error", get := Palette.error, set := fun c p => { p with error := c } },
    { key := "info", get := Palette.info, set := fun c p => { p with info := c } }]

/-- A field of the palette as a field of settings. -/
def Field.ofColor (k : ColorKey) : Field where
  heading := "colors"
  key := k.key
  Value := Color
  read := color?
  get s := k.get s.palette
  set c s := { s with palette := k.set c s.palette }
  dot_notMem_key := k.dot_notMem_key
  set_get s := by rw [k.set_get]

/-- The fields of settings, in the order in which they are looked up. -/
def fields : List Field :=
  [.memorySize, .maxIterations, .animationMs, .visibleCells] ++ colorKeys.map .ofColor

/-- The fields that environment variables change, with the variables. -/
def variableFields : List (String × Field) :=
  [("BF_MEMORY_SIZE", .memorySize), ("BF_MAX_ITERATIONS", .maxIterations),
    ("BF_ANIMATION_MS", .animationMs)]

/-- The fields with their names in a settings text. -/
def namedFields : List (String × Field) := fields.map fun f => (f.name, f)

/-- Keys that set fields under some names. -/
def keysOf (entries : List (String × Field)) : List Key := entries.map fun e => e.2.toKey e.1

theorem fileKeys_eq : fileKeys = keysOf namedFields := by
  rfl

theorem variableKeys_eq : variableKeys = keysOf variableFields := by
  rfl

/-! ## Going through keys -/

/-- The settings with what a text says of the field, if there is a text that can be read. -/
def Field.change (f : Field) (text? : Option String) (s : Settings) : Settings :=
  f.set ((text?.bind f.read).getD (f.get s)) s

variable {value? : String → Option String} {entries : List (String × Field)} {s s' : Settings}

/-- Every text that a look-up gives for the names can be read. -/
def AllRead (value? : String → Option String) (entries : List (String × Field)) : Prop :=
  ∀ e ∈ entries, ∀ text, value? e.1 = some text → e.2.Accepts text

/-- The settings with all that a look-up gives for the names. -/
def changeAll (value? : String → Option String) (entries : List (String × Field)) (s : Settings) :
    Settings :=
  entries.foldl (fun s e => e.2.change (value? e.1) s) s

theorem allRead_cons {e : String × Field} : AllRead value? (e :: entries) ↔
    (∀ text, value? e.1 = some text → e.2.Accepts text) ∧ AllRead value? entries :=
  List.forall_mem_cons

/-- A text that can be read, or none, changes the settings, and the other keys follow. -/
theorem apply_cons_of_accepts {f : Field} {name : String}
    (h : ∀ text, value? name = some text → f.Accepts text) (keys : List Key) (s : Settings) :
    apply value? (f.toKey name :: keys) s = apply value? keys (f.change (value? name) s) := by
  rw [apply, Field.change, Field.toKey]
  cases htext : value? name with
  | none => simp [f.set_get]
  | some text =>
    obtain ⟨v, hv⟩ := Option.isSome_iff_exists.mp (h text htext)
    simp [hv]

/-- A text that cannot be read is the end. -/
theorem apply_cons_of_not_accepts {f : Field} {name text : String} (htext : value? name = some text)
    (h : ¬ f.Accepts text) (keys : List Key) (s : Settings) :
    apply value? (f.toKey name :: keys) s = .error (.invalidValue name text) := by
  have hnone : f.read text = none := Option.not_isSome_iff_eq_none.mp h
  simp [apply, Field.toKey, htext, hnone]

/-- **Success**: all texts can be read, and all of them have changed the settings. -/
theorem apply_keysOf_eq_ok_iff : apply value? (keysOf entries) s = .ok s' ↔
    AllRead value? entries ∧ s' = changeAll value? entries s := by
  induction entries generalizing s with
  | nil =>
    rw [keysOf, List.map_nil, apply, Except.ok.injEq]
    exact ⟨fun h => ⟨List.forall_mem_nil _, h.symm⟩, fun h => h.2.symm⟩
  | cons e entries ih =>
    rw [allRead_cons, keysOf, List.map_cons]
    by_cases h : ∀ text, value? e.1 = some text → e.2.Accepts text
    · rw [apply_cons_of_accepts h]
      refine ih.trans ⟨fun hok => ⟨⟨h, hok.1⟩, hok.2⟩, fun hok => ⟨hok.1.2, hok.2⟩⟩
    · simp only [not_forall] at h
      obtain ⟨text, htext, hnot⟩ := h
      rw [apply_cons_of_not_accepts htext hnot]
      exact ⟨fun hok => by contradiction, fun hok => absurd (hok.1.1 text htext) hnot⟩

/-- **Failure**: the first text that cannot be read is reported. -/
theorem apply_keysOf_eq_error_iff {fault : ConfigFault} :
    apply value? (keysOf entries) s = .error fault ↔
      ∃ before e after text, entries = before ++ e :: after ∧ AllRead value? before ∧
        value? e.1 = some text ∧ ¬ e.2.Accepts text ∧ fault = .invalidValue e.1 text := by
  induction entries generalizing s with
  | nil => simp [apply, keysOf]
  | cons e entries ih =>
    rw [keysOf, List.map_cons]
    by_cases h : ∀ text, value? e.1 = some text → e.2.Accepts text
    · rw [apply_cons_of_accepts h]
      refine ih.trans ⟨?_, ?_⟩
      · rintro ⟨before, found, after, text, rfl, hbefore, hrest⟩
        exact ⟨e :: before, found, after, text, rfl, allRead_cons.mpr ⟨h, hbefore⟩, hrest⟩
      · rintro ⟨before, found, after, text, heq, hbefore, htext, hnot, rfl⟩
        cases before with
        | nil =>
          cases heq
          exact absurd (h text htext) hnot
        | cons _ before =>
          cases heq
          exact ⟨before, found, after, text, rfl, (allRead_cons.mp hbefore).2, htext, hnot, rfl⟩
    · simp only [not_forall] at h
      obtain ⟨text, htext, hnot⟩ := h
      rw [apply_cons_of_not_accepts htext hnot, Except.error.injEq]
      constructor
      · rintro rfl
        exact ⟨[], e, entries, text, rfl, List.forall_mem_nil _, htext, hnot, rfl⟩
      · rintro ⟨before, found, after, other, heq, hbefore, hother, _, rfl⟩
        cases before with
        | nil =>
          cases heq
          rw [htext] at hother
          cases hother
          rfl
        | cons _ before =>
          cases heq
          exact absurd ((allRead_cons.mp hbefore).1 text htext) hnot

/-- Nothing but what is looked up matters. -/
theorem apply_keysOf_congr {other? : String → Option String}
    (h : ∀ e ∈ entries, value? e.1 = other? e.1) (s : Settings) :
    apply value? (keysOf entries) s = apply other? (keysOf entries) s := by
  induction entries generalizing s with
  | nil => rfl
  | cons e entries ih =>
    obtain ⟨he, hentries⟩ := List.forall_mem_cons.mp h
    have hname : value? (e.2.toKey e.1).name = other? (e.2.toKey e.1).name := he
    rw [keysOf, List.map_cons, apply, apply, hname]
    cases other? (e.2.toKey e.1).name with
    | none => exact ih hentries s
    | some text =>
      dsimp only
      cases (e.2.toKey e.1).set? text s with
      | none => rfl
      | some next => exact ih hentries next

/-- Each field gets what its own text says. -/
theorem get_changeAll_namedFields (value? : String → Option String) :
    ∀ f ∈ fields, f.get (changeAll value? namedFields {}) =
      ((value? f.name).bind f.read).getD (f.get {}) := by
  rw [fields, List.forall_mem_append, List.forall_mem_map]
  simp only [colorKeys, List.forall_mem_cons]
  exact ⟨⟨rfl, rfl, rfl, rfl, List.forall_mem_nil _⟩,
    ⟨rfl, rfl, rfl, rfl, rfl, rfl, rfl, rfl, rfl, List.forall_mem_nil _⟩⟩

/-- Settings are their fields. -/
theorem eq_of_fields (h : ∀ f ∈ fields, f.get s = f.get s') : s = s' := by
  rw [fields, List.forall_mem_append, List.forall_mem_map] at h
  simp only [colorKeys, List.forall_mem_cons] at h
  obtain ⟨⟨h₁, h₂, h₃, h₄, _⟩, h₅, h₆, h₇, h₈, h₉, h₁₀, h₁₁, h₁₂, h₁₃, _⟩ := h
  obtain ⟨_, _, _, _, p⟩ := s
  obtain ⟨_, _, _, _, p'⟩ := s'
  have hpalette : p = p' := by
    cases p
    cases p'
    exact (Palette.mk.injEq ..).mpr ⟨h₅, h₆, h₇, h₈, h₉, h₁₀, h₁₁, h₁₂, h₁₃⟩
  exact (Settings.mk.injEq ..).mpr ⟨h₁, h₂, h₃, h₄, hpalette⟩

/-! ## Settings of a text -/

variable {content : String} {f : Field}

/-- The field holds what its text says, or its default if there is none. -/
def Field.Settled (f : Field) (content : String) (s : Settings) : Prop :=
  (∀ text, f.Decided content text → f.read text = some (f.get s)) ∧
    ((∀ text, ¬ f.Decided content text) → f.get s = f.get {})

/-- What is looked up under the name of a field is what decides it. -/
theorem deciding?_name_eq_some_iff (f : Field) {text : String} :
    deciding? (assignments content) f.name = some text ↔ f.Decided content text := by
  rw [Field.Decided, ← lastValue?_eq_some_iff f.heading_ne f.dot_notMem_heading f.dot_notMem_key,
    String.ofList_toList]
  rfl

theorem allRead_map_name_iff {fs : List Field} :
    AllRead (deciding? (assignments content)) (fs.map fun f => (f.name, f)) ↔
      ∀ f ∈ fs, ∀ text, f.Decided content text → f.Accepts text := by
  rw [AllRead, List.forall_mem_map]
  simp only [deciding?_name_eq_some_iff]

theorem ofText_eq_ok_iff_changeAll : ofText content = .ok s ↔
    (∀ f ∈ fields, ∀ text, f.Decided content text → f.Accepts text) ∧
      s = changeAll (deciding? (assignments content)) namedFields {} := by
  rw [ofText, fileKeys_eq, apply_keysOf_eq_ok_iff, namedFields, allRead_map_name_iff]

theorem exists_ofText_eq_ok_iff : (∃ s, ofText content = .ok s) ↔
    ∀ f ∈ fields, ∀ text, f.Decided content text → f.Accepts text := by
  constructor
  · rintro ⟨s, hs⟩
    exact (ofText_eq_ok_iff_changeAll.mp hs).1
  · intro h
    exact ⟨_, ofText_eq_ok_iff_changeAll.mpr ⟨h, rfl⟩⟩

theorem settled_changeAll (h : ∀ f ∈ fields, ∀ text, f.Decided content text → f.Accepts text)
    (hf : f ∈ fields) :
    f.Settled content (changeAll (deciding? (assignments content)) namedFields {}) := by
  rw [Field.Settled, get_changeAll_namedFields _ f hf]
  constructor
  · intro text htext
    obtain ⟨v, hv⟩ := Option.isSome_iff_exists.mp (h f hf text htext)
    rw [(deciding?_name_eq_some_iff f).mpr htext, Option.bind_some, hv, Option.getD_some]
  · intro hnone
    have heq : deciding? (assignments content) f.name = none := by
      rw [Option.eq_none_iff_forall_ne_some]
      exact fun text htext => hnone text ((deciding?_name_eq_some_iff f).mp htext)
    rw [heq, Option.bind_none, Option.getD_none]

/-- A field can be settled in one way only. -/
theorem Field.Settled.get_eq (h : f.Settled content s) (h' : f.Settled content s') :
    f.get s = f.get s' := by
  by_cases hdecided : ∃ text, f.Decided content text
  · obtain ⟨text, htext⟩ := hdecided
    exact Option.some_inj.mp ((h.1 text htext).symm.trans (h'.1 text htext))
  · have hnone : ∀ text, ¬ f.Decided content text := fun text htext => hdecided ⟨text, htext⟩
    exact (h.2 hnone).trans (h'.2 hnone).symm

/-- **The settings of a text** are those in which every field is settled. -/
theorem ofText_eq_ok_iff : ofText content = .ok s ↔ ∀ f ∈ fields, f.Settled content s := by
  constructor
  · intro hs f hf
    obtain ⟨haccepts, rfl⟩ := ofText_eq_ok_iff_changeAll.mp hs
    exact settled_changeAll haccepts hf
  · intro h
    have haccepts : ∀ f ∈ fields, ∀ text, f.Decided content text → f.Accepts text := by
      intro f hf text htext
      rw [Field.Accepts, (h f hf).1 text htext, Option.isSome_some]
    refine ofText_eq_ok_iff_changeAll.mpr ⟨haccepts, eq_of_fields fun f hf => ?_⟩
    exact (h f hf).get_eq (settled_changeAll haccepts hf)

/-- **A text without settings** has a field with a text that cannot be read; the first one is
reported. -/
theorem ofText_eq_error_iff {fault : ConfigFault} : ofText content = .error fault ↔
    ∃ before f after text, fields = before ++ f :: after ∧
      (∀ g ∈ before, ∀ text, g.Decided content text → g.Accepts text) ∧
      f.Decided content text ∧ ¬ f.Accepts text ∧ fault = .invalidValue f.name text := by
  rw [ofText, fileKeys_eq, apply_keysOf_eq_error_iff]
  constructor
  · rintro ⟨before, e, after, text, heq, hbefore, htext, hnot, rfl⟩
    obtain ⟨front, back, hfields, rfl, hback⟩ := List.map_eq_append_iff.mp heq
    obtain ⟨f, rest, rfl, rfl, _⟩ := List.map_eq_cons_iff.mp hback
    exact ⟨front, f, rest, text, hfields, allRead_map_name_iff.mp hbefore,
      (deciding?_name_eq_some_iff f).mp htext, hnot, rfl⟩
  · rintro ⟨before, f, after, text, hfields, hbefore, htext, hnot, rfl⟩
    have heq : namedFields = before.map (fun g => (g.name, g)) ++
        (f.name, f) :: after.map fun g => (g.name, g) := by
      rw [namedFields, hfields, List.map_append, List.map_cons]
    exact ⟨_, _, _, text, heq, allRead_map_name_iff.mpr hbefore,
      (deciding?_name_eq_some_iff f).mpr htext, hnot, rfl⟩

/-! ## What makes no difference -/

/-- There is a field under the heading and with the key. -/
def Known (heading key : List Char) : Prop :=
  ∃ f ∈ fields, heading = f.heading.toList ∧ key = f.key.toList

/-- Nothing but the values of the fields matters. -/
theorem ofText_congr {content' : String}
    (h : ∀ f ∈ fields, lastValue? (splitLines content.toList) f.heading.toList f.key.toList =
      lastValue? (splitLines content'.toList) f.heading.toList f.key.toList) :
    ofText content = ofText content' := by
  rw [ofText, ofText, fileKeys_eq]
  exact apply_keysOf_congr (List.forall_mem_map.mpr h) {}

/-- Making a text of lines loses nothing; no lines at all make an empty one. -/
theorem lastValue?_splitLines_unlines {lines : List (List Char)}
    (h : ∀ line ∈ lines, '\n' ∉ line) (name key : List Char) :
    lastValue? (splitLines (unlines lines).toList) name key = lastValue? lines name key := by
  by_cases hne : lines = []
  · subst hne
    rfl
  · rw [splitLines_unlines hne h]

theorem Harmless.ofText_eq {lines lines' : List (List Char)} (h : Harmless Known lines lines')
    (hlines : ∀ line ∈ lines, '\n' ∉ line) (hlines' : ∀ line ∈ lines', '\n' ∉ line) :
    ofText (unlines lines) = ofText (unlines lines') := by
  refine ofText_congr fun f hf => ?_
  rw [lastValue?_splitLines_unlines hlines, lastValue?_splitLines_unlines hlines']
  exact h.lastValue?_eq ⟨f, hf, rfl, rfl⟩ f.heading_ne f.dot_notMem_heading f.dot_notMem_key

theorem ofText_withReturns (content : String) :
    ofText (String.ofList (withReturns content.toList)) = ofText content := by
  refine ofText_congr fun f _ => ?_
  rw [String.toList_ofList, lastValue?, map_ofLine_splitLines_withReturns, lastValue?]

end Settings

/-! ## Environment and command line -/

namespace CommandLine

open Settings (AllRead variableFields count? fields ofText splitLines unlines)

/-- The settings with the environment variables and then the options of the command line on
top. -/
def layered (settings : Settings) (environment : String → Option String) (r : Request) : Settings :=
  { settings with
    memorySize :=
      r.memorySize.getD
        (((environment "BF_MEMORY_SIZE").bind count?).getD settings.memorySize)
    maxIterations :=
      r.maxIterations.getD
        (((environment "BF_MAX_ITERATIONS").bind count?).getD settings.maxIterations)
    animationMs := ((environment "BF_ANIMATION_MS").bind count?).getD settings.animationMs }

theorem withVariables_eq_ok {settings : Settings} {environment : String → Option String}
    (h : AllRead environment variableFields) :
    settings.withVariables environment =
      .ok (Settings.changeAll environment variableFields settings) := by
  rw [Settings.withVariables, Settings.variableKeys_eq]
  exact Settings.apply_keysOf_eq_ok_iff.mpr ⟨h, rfl⟩

/-- **Two layers on top of the text**: nothing but three fields can change. -/
theorem prepare_layered {surroundings : Surroundings} {settings : Settings}
    (hfile : (fileSettings surroundings).2 = .ok settings)
    (h : AllRead surroundings.environment variableFields) (r : Request) (command : Command) :
    ∃ c notes, r.prepare surroundings command = .ready c command notes ∧
      c.settings = layered settings surroundings.environment r := by
  obtain ⟨notes, hnotes⟩ : ∃ notes, fileSettings surroundings = (notes, .ok settings) :=
    ⟨_, Prod.ext rfl hfile⟩
  have hload : loadSettings surroundings =
      (notes, .ok (Settings.changeAll surroundings.environment variableFields settings)) := by
    rw [loadSettings, hnotes]
    exact congrArg (Prod.mk notes) (withVariables_eq_ok h)
  rw [Request.prepare, hload]
  exact ⟨_, _, rfl, rfl⟩

/-- The speed of an animation stands in for the pause of the settings. -/
theorem perform_visualize_eq (c : Context) (supplies : Supplies) (code : String)
    (input : Option String) (speed : Option Nat) :
    c.perform supplies (.visualize code input speed) =
      Context.perform
        { c with settings := { c.settings with animationMs := speed.getD c.settings.animationMs } }
        supplies (.visualize code input none) :=
  rfl

/-- **Settings resolution.**  A settings text consists of lines.  It has settings if and only if
every text that decides a field can be read; then each field holds what its text says, or its
default.  Otherwise the first field whose text cannot be read is reported, with that text.  Harmless
edits and carriage returns change nothing.  The environment and the command line then replace the
size of the tape, the ceiling and the pause of animations, and leave the rest. -/
theorem settings_resolution (content : String) :
    (content = unlines (splitLines content.toList) ∧
      ∀ line ∈ splitLines content.toList, '\n' ∉ line) ∧
    ((∃ s, ofText content = .ok s) ↔
      ∀ f ∈ fields, ∀ text, f.Decided content text → f.Accepts text) ∧
    (∀ s, ofText content = .ok s ↔ ∀ f ∈ fields, f.Settled content s) ∧
    (∀ fault, ofText content = .error fault ↔
      ∃ before f after text, fields = before ++ f :: after ∧
        (∀ g ∈ before, ∀ text, g.Decided content text → g.Accepts text) ∧
        f.Decided content text ∧ ¬ f.Accepts text ∧ fault = .invalidValue f.name text) ∧
    (∀ lines lines', (∀ line ∈ lines, '\n' ∉ line) → (∀ line ∈ lines', '\n' ∉ line) →
      Settings.Harmless Settings.Known lines lines' →
      ofText (unlines lines) = ofText (unlines lines')) ∧
    ofText (String.ofList (Settings.withReturns content.toList)) = ofText content ∧
    (∀ surroundings settings tokens r command,
      (fileSettings surroundings).2 = .ok settings →
      AllRead surroundings.environment variableFields →
      Request.parse tokens = .ok r → r.help = false → r.command = some command →
      ∃ c notes, prepare surroundings tokens = .ready c command notes ∧
        c.settings = layered settings surroundings.environment r) ∧
    ∀ (c : Context) supplies code input speed,
      c.perform supplies (.visualize code input speed) =
        Context.perform
          { c with
            settings := { c.settings with animationMs := speed.getD c.settings.animationMs } }
          supplies (.visualize code input none) := by
  obtain ⟨htext, _, hlines⟩ := Settings.unlines_splitLines content.toList
  refine ⟨⟨String.toList_inj.mp htext.symm, hlines⟩, Settings.exists_ofText_eq_ok_iff,
    fun _ => Settings.ofText_eq_ok_iff, fun _ => Settings.ofText_eq_error_iff,
    fun _ _ hlines hlines' h => h.ofText_eq hlines hlines', Settings.ofText_withReturns content,
    ?_, perform_visualize_eq⟩
  intro surroundings settings tokens r command hfile hread hparse hhelp hcommand
  obtain ⟨c, notes, hprepare, hsettings⟩ := prepare_layered hfile hread r command
  refine ⟨c, notes, ?_, hsettings⟩
  rw [prepare, hparse]
  simp only [hhelp, hcommand]
  exact hprepare

/-- A field is settled, a comment goes, and a variable and an option come on top of the defaults. -/
theorem settings_resolution_layers :
    ofText "[interpreter]\nmemory_size = 1_0\n" = .ok { memorySize := 10 } ∧
    Settings.Field.memorySize ∈ fields ∧
    Settings.Field.memorySize.Settled "[interpreter]\nmemory_size = 1_0\n" { memorySize := 10 } ∧
    ofText (unlines ["[colors]".toList, "# info = red".toList]) =
      ofText (unlines ["[colors]".toList]) ∧
    ∃ c notes,
      prepare
        { name := "bf"
          settingsFile := none
          environment := fun name => if name = "BF_MEMORY_SIZE" then some "64" else none }
        ["exec", "+", "--max-iterations", "9"] = .ready c (.exec "+" none {}) notes ∧
      c.settings = { memorySize := 64, maxIterations := 9 } := by
  obtain ⟨_, _, hsettled, _, hharmless, _, hlayers, _⟩ :=
    settings_resolution "[interpreter]\nmemory_size = 1_0\n"
  have hok : ofText "[interpreter]\nmemory_size = 1_0\n" = .ok { memorySize := 10 } := by
    decide +kernel
  have hmem : Settings.Field.memorySize ∈ fields := List.mem_cons_self
  refine ⟨hok, hmem, (hsettled _).mp hok _ hmem, ?_, ?_⟩
  · refine hharmless _ _ (by decide) (by decide) (.silent ["[colors]".toList] [] ?_)
    exact Or.inr (Or.inl (by decide))
  · have hread : AllRead (fun name => if name = "BF_MEMORY_SIZE" then some "64" else none)
        variableFields := by
      simp only [AllRead, variableFields, List.forall_mem_cons, if_pos]
      refine ⟨?_, by simp, by simp, List.forall_mem_nil _⟩
      rintro text ⟨rfl⟩
      show (count? "64").isSome = true
      decide
    have hparse : Request.parse ["exec", "+", "--max-iterations", "9"] =
        .ok ⟨false, false, none, some 9, some (.exec "+" none {})⟩ := by
      decide +kernel
    exact hlayers _ {} _ _ _ rfl hread hparse rfl rfl

end CommandLine

end TapeTutor
