import TapeTutor.Config
import TapeTutor.Style.Theme
import TapeTutor.Text.Blank
import TapeTutor.Text.Decimal

/-!
# Settings

Settings are built in three layers: the defaults, a text of assignments under section
headings, and a few environment variables.  (Options of the command line come on top and
are applied by their owner.)

The text is read in two passes.  The first, `assignments`, knows nothing of what the keys
mean: it lists every assignment with the full name of its key, and can not fail.  The second
looks the known keys up, in a fixed order, and the last assignment to a key decides.  So a
malformed value matters only if it decides a known key, and of several faults the one whose
key comes first in that order is reported.

## The form of the text

Lines are trimmed.  A blank line and a line that begins with `#` say nothing.  A line between
square brackets opens a section.  Any other line with an `=` assigns what stands behind the
first one, trimmed and without one pair of enclosing double quotes, to what stands before it.
-/

namespace TapeTutor

/-- User settings. -/
structure Settings where
  /-- The number of cells of a tape. -/
  memorySize : Nat := 30000
  /-- The largest number of instructions of a run. -/
  maxIterations : Nat := 1000000
  /-- The pause between the frames of an animation, in milliseconds. -/
  animationMs : Nat := 100
  /-- The number of cells a memory view shows. -/
  visibleCells : Nat := 20
  palette : Palette := {}
deriving DecidableEq, Repr

namespace Settings

/-! ## Assignments -/

/-- A line of a settings text, by what it says. -/
inductive Entry where
  /-- Nothing: a blank line, a comment, or a line without an `=`. -/
  | nothing
  /-- Opens the section of that name. -/
  | heading (name : List Char)
  /-- Assigns a value to a key of the open section. -/
  | assign (key value : List Char)
deriving DecidableEq, Repr

/-- What stands between the delimiters, if the characters begin with `first` and end, in
another place, with `last`. -/
def between? (first last : Char) : List Char → Option (List Char)
  | [] => none
  | c :: rest =>
      if c = first ∧ rest.getLast? = some last then some rest.dropLast else none

/-- The characters without one pair of enclosing double quotes. -/
def unquote (cs : List Char) : List Char := (between? '"' '"' cs).getD cs

/-- Reads a trimmed line. -/
def Entry.ofTrimmed (cs : List Char) : Entry :=
  if cs.head? = some '#' then .nothing
  else
    match between? '[' ']' cs with
    | some name => .heading (Text.trimChars name)
    | none =>
        match cs.dropWhile (· ≠ '=') with
        | [] => .nothing
        | _ :: value =>
            .assign (Text.trimChars (cs.takeWhile (· ≠ '='))) (unquote (Text.trimChars value))

/-- Reads a line. -/
def Entry.ofLine (cs : List Char) : Entry := .ofTrimmed (Text.trimChars cs)

/-- The characters up to each line feed, and what follows the last one. -/
def splitLines : List Char → List (List Char)
  | [] => [[]]
  | c :: rest =>
      if c = '\n' then [] :: splitLines rest
      else
        match splitLines rest with
        | [] => [[c]]
        | first :: others => (c :: first) :: others

/-- The assignments of a list of lines under the section `current`, as full names of keys and
values, in order. -/
def assignmentsOf (current : List Char) : List Entry → List (String × String)
  | [] => []
  | .nothing :: rest => assignmentsOf current rest
  | .heading name :: rest => assignmentsOf name rest
  | .assign key value :: rest =>
      (String.ofList (current ++ '.' :: key), String.ofList value) ::
        assignmentsOf current rest

/-- All assignments of a settings text, in order. -/
def assignments (content : String) : List (String × String) :=
  assignmentsOf [] ((splitLines content.toList).map Entry.ofLine)

/-- The text that decides a key: that of its last assignment. -/
def deciding? (entries : List (String × String)) (key : String) : Option String :=
  (entries.reverse.find? fun entry => entry.1 = key).map Prod.snd

/-! ## Values -/

/-- Reads a count; blanks around it and underscores in it are ignored. -/
def count? (value : String) : Option Nat :=
  Text.readCount? ((Text.trimChars value.toList).filter (· ≠ '_'))

/-- The value of a hexadecimal digit of either case. -/
def hexDigit? (c : Char) : Option Nat :=
  if '0' ≤ c ∧ c ≤ '9' then some (c.toNat - '0'.toNat)
  else if 'a' ≤ c ∧ c ≤ 'f' then some (c.toNat - 'a'.toNat + 10)
  else if 'A' ≤ c ∧ c ≤ 'F' then some (c.toNat - 'A'.toNat + 10)
  else none

/-- A channel of a colour from its two characters: two digits, or one digit behind a `+`. -/
def channel? (high low : Char) : Option UInt8 :=
  match hexDigit? low with
  | none => none
  | some l =>
      if high = '+' then some l.toUInt8
      else (hexDigit? high).map fun h => (16 * h + l).toUInt8

/-- A true colour from the six characters behind its `#`. -/
def hexColor? : List Char → Option Color
  | [r, r', g, g', b, b'] =>
      match channel? r r', channel? g g', channel? b b' with
      | some red, some green, some blue => some (.rgb red green blue)
      | _, _, _ => none
  | _ => none

/-- The colours by name, in lower case. -/
def colorNames : List (String × Color) :=
  [("black", .black), ("red", .red), ("green", .green), ("yellow", .yellow),
    ("blue", .blue), ("magenta", .purple), ("purple", .purple), ("cyan", .cyan),
    ("gray", .lightGray), ("grey", .lightGray), ("darkgray", .darkGray),
    ("dark_grey", .darkGray), ("darkgrey", .darkGray), ("dark_gray", .darkGray),
    ("lightred", .lightRed), ("light_red", .lightRed), ("lightgreen", .lightGreen),
    ("light_green", .lightGreen), ("lightblue", .lightBlue), ("light_blue", .lightBlue),
    ("lightmagenta", .lightPurple), ("light_magenta", .lightPurple),
    ("lightcyan", .lightCyan), ("light_cyan", .lightCyan), ("white", .white)]

/-- Reads a colour: six hexadecimal digits behind a `#`, or a name in any case. -/
def color? (value : String) : Option Color :=
  match Text.trimChars value.toList with
  | '#' :: digits => hexColor? digits
  | name => colorNames.lookup (String.ofList (name.map Char.toLower))

/-! ## Known keys -/

/-- A key that settings know, and what its value changes; `none` for a value that does not
fit. -/
structure Key where
  name : String
  set? : String → Settings → Option Settings

/-- A key whose value is a count. -/
def Key.count (name : String) (set : Nat → Settings → Settings) : Key where
  name := name
  set? value s := (count? value).map fun n => set n s

/-- A key whose value is a colour. -/
def Key.color (name : String) (set : Color → Palette → Palette) : Key where
  name := name
  set? value s := (color? value).map fun c => { s with palette := set c s.palette }

/-- The keys of a settings text, in the order in which they are looked up. -/
def fileKeys : List Key :=
  [.count "interpreter.memory_size" fun n s => { s with memorySize := n },
    .count "interpreter.max_iterations" fun n s => { s with maxIterations := n },
    .count "visualizer.animation_ms" fun n s => { s with animationMs := n },
    .count "visualizer.visible_cells" fun n s => { s with visibleCells := n },
    .color "colors.cell_zero" fun c p => { p with cellZero := c },
    .color "colors.cell_nonzero" fun c p => { p with cellNonzero := c },
    .color "colors.ascii" fun c p => { p with ascii := c },
    .color "colors.index" fun c p => { p with index := c },
    .color "colors.pointer" fun c p => { p with pointer := c },
    .color "colors.border" fun c p => { p with border := c },
    .color "colors.success" fun c p => { p with success := c },
    .color "colors.error" fun c p => { p with error := c },
    .color "colors.info" fun c p => { p with info := c }]

/-- The environment variables that change settings, in the order in which they are looked
up. -/
def variableKeys : List Key :=
  [.count "BF_MEMORY_SIZE" fun n s => { s with memorySize := n },
    .count "BF_MAX_ITERATIONS" fun n s => { s with maxIterations := n },
    .count "BF_ANIMATION_MS" fun n s => { s with animationMs := n }]

/-- Applies the values a look-up gives for a list of keys, one key after the other. -/
def apply (value? : String → Option String) : List Key → Settings → Except ConfigFault Settings
  | [], s => .ok s
  | key :: rest, s =>
      match value? key.name with
      | none => apply value? rest s
      | some value =>
          match key.set? value s with
          | some s' => apply value? rest s'
          | none => .error (.invalidValue key.name value)

/-- The settings of a text, on top of the defaults. -/
def ofText (content : String) : Except ConfigFault Settings :=
  apply (deciding? (assignments content)) fileKeys {}

/-- The settings with the environment variables on top. -/
def withVariables (s : Settings) (value? : String → Option String) :
    Except ConfigFault Settings :=
  apply value? variableKeys s

/-- The configuration these settings give a run. -/
def config (s : Settings) : Config where
  memorySize := s.memorySize
  maxIterations := s.maxIterations

end Settings

end TapeTutor
