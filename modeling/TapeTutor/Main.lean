import TapeTutor.CommandLine.Response

/-!
# The program

The outer layer: looks at the environment, reads the files a command names, plays transcripts
and holds the debugger's conversation with a user.  What to write is decided elsewhere.
-/

namespace TapeTutor.CommandLine

/-- The name of the tool, as its messages begin. -/
def toolName : String := "bf"

/-- Why a file that is not there cannot be read. -/
def missingFile : String := "No such file or directory (os error 2)"

/-- Why a file cannot be read, in words. -/
def causeOf : IO.Error → String
  | .noFileOrDirectory .. => missingFile
  | .inappropriateType .. => "Is a directory (os error 21)"
  | e => toString e

/-- The bytes of a file, or why it cannot be read. -/
def readBytes (path : String) : IO (Except String (List UInt8)) := do
  try
    return .ok (← IO.FS.readBinFile path).toList
  catch e =>
    return .error (causeOf e)

/-- The path of the settings file, if the environment has a place for it. -/
def settingsPath : IO (Option String) := do
  match ← IO.getEnv "XDG_CONFIG_HOME", ← IO.getEnv "HOME" with
  | some directory, _ => return some (directory ++ "/bf-learn.toml")
  | none, some home => return some (home ++ "/.config/bf-learn.toml")
  | none, none => return none

/-- The settings file with its path, if there is one. -/
def readSettings : IO (Option (String × Except String (List UInt8))) := do
  match ← settingsPath with
  | none => return none
  | some path =>
      let read ← readBytes path
      let missing : Bool := match read with
        | .error cause => cause = missingFile
        | .ok _ => false
      return if missing then none else some (path, read)

/-- The values of the environment variables that matter. -/
def readEnvironment : IO (String → Option String) := do
  let names := "RUST_LOG" :: Settings.variableKeys.map Settings.Key.name
  let values ← names.mapM fun name => do return (name, ← IO.getEnv name)
  return fun name => (values.lookup name).join

/-- Where the tool is called. -/
def readSurroundings : IO Surroundings := do
  let screen ← (← IO.getStdout).isTty
  let plain := (← IO.getEnv "NO_COLOR").isSome
  return {
    name := toolName
    settingsFile := ← readSettings
    environment := ← readEnvironment
    colorOut := screen && !plain
    colorErr := ← (← IO.getStderr).isTty
    screen }

/-- The file a command reads, if it reads one. -/
def Command.file? : Command → Option String
  | .run file _ _ => some file
  | .debug file _ => some file
  | .generate (.file path) _ => some path
  | _ => none

/-- Whether a command reads the standard input to its end. -/
def Command.readsInput : Command → Bool
  | .generate .standardInput _ => true
  | _ => false

/-- What a command may ask for. -/
def readSupplies (command : Command) : IO Supplies := do
  let file ← match command.file? with
    | some path => readBytes path
    | none => pure (.ok [])
  let stdin ←
    if command.readsInput then
      let bytes ← (← IO.getStdin).readBinToEnd
      pure bytes.toList
    else pure []
  return { file := fun _ => file, stdin }

/-- Does one thing of a transcript. -/
def Write.play : Write → IO Unit
  | .out text => do
      let stdout ← IO.getStdout
      stdout.putStr text
      stdout.flush
  | .err text => do
      let stderr ← IO.getStderr
      stderr.putStr text
      stderr.flush
  | .pause milliseconds => IO.sleep milliseconds.toUInt32

/-- Plays a transcript and gives its exit code. -/
def Transcript.play (t : Transcript) : IO UInt32 := do
  t.writes.forM Write.play
  return t.exit.toUInt32

/-- The bytes up to and including the next line feed, or up to the end. -/
partial def readLine (stdin : IO.FS.Stream) (line : ByteArray) : IO ByteArray := do
  let next ← stdin.read 1
  let line := line ++ next
  if next.isEmpty || next.toList = [10] then return line else readLine stdin line

/-- The next line of the user, if the user is still there. -/
def nextReply : IO (Option Debugger.Reply) := do
  let line ← readLine (← IO.getStdin) .empty
  return if line.isEmpty then none else some (Text.decodeUtf8? line.toList)

/-- Goes on with a conversation until it ends. -/
partial def converse (t : Debugger.Turn) : IO Debugger.Talk := do
  (Write.out t.text).play
  match t.ending with
  | some ending => return ⟨ending, "", t.debugger⟩
  | none =>
      match ← nextReply with
      | some reply => converse (t.debugger.answer reply)
      | none =>
          (Write.out "\n").play
          return ⟨.quit, "", t.debugger⟩

/-- Steps through a program file with a user at the prompt. -/
def debugLive (c : Context) (supplies : Supplies) (file : String) (input : Option String) :
    IO UInt32 := do
  match asText (supplies.file file), Interpreter.new (c.config input) with
  | .ok source, .ok it =>
      (Write.out Debugger.greeting).play
      let talk ← converse (Debugger.start it source).proceed
      Transcript.play
        { writes := c.debugNotes talk ++ c.debugClosing talk.ending
          exit := Context.debugExit talk.ending }
  | _, _ => (c.debug supplies file input).play

end TapeTutor.CommandLine

open TapeTutor.CommandLine in
/-- Carries a command line out. -/
def main (tokens : List String) : IO UInt32 := do
  match prepare (← readSurroundings) tokens with
  | .misuse =>
      Transcript.play { writes := [.err (usage toolName)], exit := 2 }
  | .closed transcript => transcript.play
  | .ready context command notes =>
      notes.forM Write.play
      let supplies ← readSupplies command
      match command with
      | .debug file input => debugLive context supplies file input
      | _ => (context.perform supplies command).play
