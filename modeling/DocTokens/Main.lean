import DocTokens.CommandLine.Command
import DocTokens.Identifier

/-! # The program

Takes a picture of the files below a directory, runs a command on it, and writes what the command
gives.
-/

namespace DocTokens.Program

open CommandLine

/-- A file of a picture, or why it cannot be read. -/
structure Shot where
  path : String
  content : Except String Bytes

/-- What stands at an absolute path and below it; directories end in a slash. -/
partial def shots (path : String) : IO (List Shot) := do
  let place ← IO.FS.realPath path
  if ← place.isDir then
    let entries := (← place.readDir).toList.map fun e => e.fileName
    let below ← entries.mapM fun name => shots (Path.join path name)
    return ⟨path ++ "/", .ok []⟩ :: below.flatten
  else
    try
      return [⟨path, .ok (← IO.FS.readBinFile path).toList⟩]
    catch e => return [⟨path, .error (toString e)⟩]

/-- A picture of the files below a directory. -/
def picture (directory : String) : IO FileSystem := do
  let taken ← try shots directory catch _ => pure []
  let files := taken.map fun s =>
    FileSystem.File.mk (s.path.drop 1).toString (s.content.toOption.getD [])
  let fs := FileSystem.rooted "/" directory files
  return { fs with read := fun path =>
    match taken.find? fun s => s.path == Path.join directory path with
    | some ⟨_, .error reason⟩ => .error reason
    | _ => fs.read path }

/-- Whether the output is a terminal that shows colors. -/
def showsColors : IO Bool := do
  let plain := ((← IO.getEnv "NO_COLOR").getD "") != "" || (← IO.getEnv "TERM") == some "dumb"
  return !plain && (← (← IO.getStdout).isTty)

/-- What a command knows when it is called with the given arguments. -/
def environment (arguments : List String) : IO Environment := do
  let home := toString (← IO.currentDir)
  let directory := match tokensCommand.read arguments with
    | .ok (some a) => Path.absolute home ((a.text? "dir").getD ".")
    | _ => home
  let fs ← picture directory
  let seed ← IO.rand 0 Identifier.greatest
  return ⟨fun _ => fs, ← showsColors, Identifier.ofSeed seed⟩

/-- Writes what a command gives. -/
def finish (result : CommandResult) : IO UInt32 := do
  let out ← IO.getStdout
  out.write ⟨result.output.toArray⟩
  out.flush
  match result.error with
  | none => return 0
  | some e =>
    IO.eprintln ("Error: " ++ e.message)
    return 1

/-- Runs the command that the first argument names. -/
def run (arguments : List String) : IO UInt32 := do
  match arguments with
  | "legend" :: rest => finish (legend rest)
  | "tokens" :: rest => finish (tokens (← environment rest) rest)
  | _ =>
    IO.eprintln "Usage:\n  tokens [patterns...] [flags]\n  legend [flags]"
    return 1

end DocTokens.Program

/-- The commands are `tokens` and `legend`. -/
def main (arguments : List String) : IO UInt32 :=
  DocTokens.Program.run arguments
