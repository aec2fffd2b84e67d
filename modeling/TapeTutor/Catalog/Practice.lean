import TapeTutor.Catalog.Basic

/-!
# Practice tasks

One task a lesson, in the order of the lessons.
-/

namespace TapeTutor.Catalog

/-- The practice tasks, in order. -/
def practices : List Practice :=
  [ { lesson := "The Eight Commands"
      task := "Write a program that sets the first cell to 5"
      solution := "+++++"
      hint := "Use the + command five times"
      input := "" },
    { lesson := "Memory and Pointer Movement"
      task := "Set the first three cells to 1, 2, 3"
      solution := "+>++>+++"
      hint := "Add values then move right with >"
      input := "" },
    { lesson := "Input and Output"
      task := "Output the letter \"H\" (ASCII 72)"
      solution := "+++++++++[>++++++++<-]>."
      hint := "Try 9*8=72, use a loop for efficiency"
      input := "" },
    { lesson := "Loops"
      task := "Set a cell to 5, clear it with a loop, then add 2"
      solution := "+++++[-]++"
      hint := "[-] keeps decrementing until zero"
      input := "" },
    { lesson := "Your First Real Program: Cat"
      task := "Write the cat program"
      solution := ",[.,]"
      hint := "Read, loop while outputting and reading"
      input := "meow" },
    { lesson := "Moving and Copying Values"
      task := "Set cell 0 to 3, then move it two cells to the right"
      solution := "+++[->>+<<]"
      hint := "Similar to [->+<] but move two cells"
      input := "" },
    { lesson := "Hello World Explained"
      task := "Output \"Hi\" using the loop technique"
      solution := "+++++++++[>++++++++>++++++++++++<<-]>.>---."
      hint := "Set up base values with one loop, then adjust each"
      input := "" },
    { lesson := "Conditional Execution (If-Then)"
      task := "Create an if-not-zero that prints \"1\""
      solution := "+[>+++++++[>+++++++<-]>.[-]<<[-]]"
      hint := "Check if cell is not zero, then output ASCII 49"
      input := "" },
    { lesson := "Advanced Techniques"
      task := "Multiply 4*3 using loops"
      solution := "++++[->+++<]>"
      hint := "Add 3 to next cell, 4 times"
      input := "" }]

/-- Practice task `number`, counted from one. -/
def practice? (number : Nat) : Option Practice := numbered practices number

end TapeTutor.Catalog
