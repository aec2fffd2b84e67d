import TapeTutor.Catalog.Basic

/-!
# Exercises

Five graded exercises a level.  The tests look at the output or at the leading cells, so any
program that does the job is a solution.
-/

namespace TapeTutor.Catalog

/-- The exercises for beginners. -/
def beginner : List Exercise :=
  [ { title := "Set Cell Value"
      description := "Set the current cell to the value 10"
      setup := ""
      tests := [.leaving [10]]
      hint := "Use the + command 10 times"
      solution := "++++++++++" },
    { title := "Clear Cell"
      description := "Clear a cell that contains the value 5"
      setup := "+++++"
      tests := [.leaving [0]]
      hint := "Use a loop with the - command"
      solution := "[-]" },
    { title := "Move Value"
      description := "Move the value 3 from cell 0 to cell 1"
      setup := "+++"
      tests := [.leaving [0, 3]]
      hint := "Decrement source while incrementing destination"
      solution := "[->+<]" },
    { title := "Output Character"
      description := "Output the letter \"A\" (ASCII 65)"
      setup := ""
      tests := [.printing [] "A"]
      hint := "Set cell to 65 then use the . command"
      solution := "++++++++[>++++++++<-]>+." },
    { title := "Simple Loop"
      description := "Output \"AAA\" (three A's)"
      setup := ""
      tests := [.printing [] "AAA"]
      hint := "Set up the ASCII value, then use a counter loop"
      solution := "+++[>++++++++[>++++++++<-]>+.[-]<<-]" }]

/-- The exercises of medium difficulty. -/
def intermediate : List Exercise :=
  [ { title := "Add Two Cells"
      description := "Add cell 0 (value 3) to cell 1 (value 5); the pointer starts on cell 1"
      setup := "+++>+++++"
      tests := [.leaving [0, 8]]
      hint := "Move back and add the first cell to the second"
      solution := "<[->+<]" },
    { title := "Copy Value"
      description := "Copy the value 4 from cell 0 to cell 1 (preserve original)"
      setup := "++++"
      tests := [.leaving [4, 4]]
      hint := "Use a temporary cell to preserve the original"
      solution := "[->+>+<<]>>[-<<+>>]" },
    { title := "Input Echo"
      description := "Read a character and output it twice"
      setup := ""
      tests := [.printing [88] "XX", .printing [122] "zz"]
      hint := "Read, output, output again"
      solution := ",.." },
    { title := "Multiplication"
      description := "Multiply cell 0 (3) by cell 1 (4) into cell 2, leaving cells 0 and 1 empty"
      setup := "+++>++++"
      tests := [.leaving [0, 0, 12]]
      hint := "For each unit of cell 0, add cell 1 to cell 2 and restore cell 1 from a temporary"
      solution := "<[->[->+>+<<]>>[-<<+>>]<<<]>[-]" },
    { title := "Count to Five"
      description := "Output the digits 1 through 5"
      setup := ""
      tests := [.printing [] "12345"]
      hint := "Build ASCII 49 ('1'), then print and increment five times"
      solution := "+++++[>++++++++++<-]>->+++++[<.+>-]" }]

/-- The hard exercises. -/
def advanced : List Exercise :=
  [ { title := "Reverse Input"
      description := "Read three characters and output them in reverse order"
      setup := ""
      tests := [.printing [65, 66, 67] "CBA", .printing [120, 121, 122] "zyx"]
      hint := "Store in different cells, then output backwards"
      solution := ",>,>,.<.<." },
    { title := "Uppercase Converter"
      description := "Convert one lowercase letter to uppercase"
      setup := ""
      tests := [.printing [97] "A", .printing [113] "Q"]
      hint := "Subtract 32 from the ASCII value"
      solution := ",--------------------------------." },
    { title := "Number Comparison"
      description :=
        "Read two bytes and output \">\" if the first is greater, \"=\" if equal, \"<\" if less"
      setup := ""
      tests :=
        [.printing [5, 3] ">",
          .printing [3, 3] "=",
          .printing [2, 5] "<",
          .printing [9, 0] ">"]
      hint := "Decrement both while the second is non-zero; whatever is left over decides"
      solution :=
        ",>,<[->>>+<<[-[->>>+<<<]>>-<<]>>>[-<<<+>>>]<[-<+>]<<<]>>>+<[[-]>->>>++++++[<++++++++++>-" ++
        "]<++.[-]<<<]<[[-]>>->>>++++++[<++++++++++>-]<.[-]<<<<]>>[->>>++++++[<++++++++++>-]<+.[-]" ++
        "<<]" },
    { title := "Fibonacci Sequence"
      description := "Output the first 5 Fibonacci numbers as raw byte values"
      setup := ""
      tests := [.printing [] "\x01\x01\x02\x03\x05"]
      hint := "Each output only needs the difference from the previous one"
      solution := "+..+.+.++." },
    { title := "Division"
      description := "Divide 12 by 3, leaving the quotient in cell 2 and cells 0 and 1 empty"
      setup := "++++++++++++>+++"
      tests := [.leaving [0, 0, 4]]
      hint := "Subtract the divisor from cell 0 repeatedly and count the rounds"
      solution := "<[>[-<->>>+<<]>>[-<<+>>]<+<<]>[-]" }]

/-- The exercises of a level, in order. -/
def exercises : Level → List Exercise
  | .beginner => beginner
  | .intermediate => intermediate
  | .advanced => advanced

/-- Exercise `number` of a level, counted from one. -/
def exercise? (level : Level) (number : Nat) : Option Exercise :=
  numbered (exercises level) number

end TapeTutor.Catalog
