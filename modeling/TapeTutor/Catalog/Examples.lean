import TapeTutor.Catalog.Basic

/-!
# Examples

Programs to run, from greeting the world to counting down.  They are found by name, and
upper and lower case are the same there.
-/

namespace TapeTutor.Catalog

/-- The examples, in the order in which they are listed. -/
def examples : List Example :=
  [ { name := "hello-world"
      level := .beginner
      description := "Classic Hello World program"
      code :=
        "++++++++++[>+++++++>++++++++++>+++>+<<<<-]>++.>+.+++++++..+++.>++.<<+++++++++++++++.>.++" ++
        "+.------.--------.>+.>."
      sampleInput := "" },
    { name := "cat"
      level := .beginner
      description := "Echoes input until it runs out"
      code := ",[.,]"
      sampleInput := "Hello!" },
    { name := "clear-cell"
      level := .beginner
      description := "Sets a cell to five, then clears it"
      code := "+++++[-]"
      sampleInput := "" },
    { name := "move-right"
      level := .beginner
      description := "Moves a value two cells to the right"
      code := "+++[->>+<<]"
      sampleInput := "" },
    { name := "add-inputs"
      level := .intermediate
      description := "Adds two input bytes and prints the sum"
      code := ",>,<[->+<]>."
      sampleInput := "!!" },
    { name := "copy-value"
      level := .intermediate
      description := "Copies cell 0 to cell 2 through a temporary cell"
      code := "+++++[->>+>+<<<]>>>[-<<<+>>>]"
      sampleInput := "" },
    { name := "find-zero"
      level := .intermediate
      description := "Scans right to the first zero cell"
      code := "+>+>+>>+<<<<[>]"
      sampleInput := "" },
    { name := "uppercase"
      level := .advanced
      description := "Converts lowercase input to uppercase"
      code := ",[--------------------------------.,]"
      sampleInput := "hello" },
    { name := "countdown"
      level := .advanced
      description := "Counts down from 5 to 1"
      code := "+++++++[>+++++++<-]>++++>+++++[<.->-]"
      sampleInput := "" }]

/-- The example of that name, in any case. -/
def example? (name : String) : Option Example :=
  let lower (s : String) : List Char := s.toList.map Char.toLower
  examples.find? fun e => lower e.name = lower name

end TapeTutor.Catalog
