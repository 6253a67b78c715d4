import Stencil.CommandLine.Basic

/-!
# Main

The program.  All it does itself is to fetch the file that a run names, to take lines from standard
input, and to print and write what the run says.
-/

namespace Stencil.Main

open CommandLine

/-- The folder that a path leads to. -/
def folder (path : String) : String :=
  match (path.toList.reverse.dropWhile (· != '/')).reverse with
  | [] => "."
  | cs => String.ofList cs

/-- Is there a folder of this name? -/
def isFolder (name : String) : IO Bool := do
  try
    let path ← IO.FS.realPath name
    path.isDir
  catch _ => return false

/-- Arguments are text here, standard output takes UTF-8, and the stack is that of the program when
nothing but a job is being done. -/
def surroundings : Surroundings := ⟨.none, Text.StandIns.none.utf8, 997⟩

/-- What a job needs to see of the file system. -/
def look (job : Job) : IO Directory := do
  let files ←
    try
      let bytes ← IO.FS.readBinFile job.source
      pure [(job.source, bytes.toList)]
    catch _ => pure []
  let out := job.out.getD ""
  let denial? : Option Denial ←
    if ← isFolder out then pure (some .isDirectory)
    else if ← isFolder (folder out) then pure none
    else pure (some .notFound)
  return ⟨files, fun access _ => if access = .writing then denial? else none, fun _ => none⟩

/-- The shell on standard input. -/
partial def converse (shell : Shell) : IO UInt32 := do
  let stdout ← IO.getStdout
  stdout.putStr shell.prompt
  stdout.flush
  let line ← (← IO.getStdin).getLine
  let event : Shell.Event :=
    if line.isEmpty then .endOfInput
    else .line (String.ofList (line.toList.filter (· != '\n')))
  let (printed, next) := shell.step event
  stdout.putStr printed
  match next with
  | .go shell' => converse shell'
  | .stop => return 0
  | .crash failure =>
    IO.eprintln failure.message
    return 1

/-- Prints and writes what a run says. -/
def carryOut (before : Directory) (report : Report) : IO UInt32 := do
  for (name, bytes) in before.changes report.directory do
    IO.FS.writeBinFile name (ByteArray.mk bytes.toArray)
  match report.output with
  | .text printed => IO.print printed
  | .dialogue _ => pure ()
  IO.eprint report.complaint
  match report.ending with
  | .exit code => return code.toUInt32
  | .stopped refusal =>
    IO.eprintln refusal.message
    return 1
  | .crash failure =>
    IO.eprintln failure.message
    return 1

end Stencil.Main

open Stencil in
/-- Runs the program on its arguments. -/
def main (arguments : List String) : IO UInt32 := do
  match CommandLine.request arguments with
  | .shell verbose =>
    IO.print Shell.greeting
    Main.converse (Shell.start verbose)
  | .job job =>
    let directory ← Main.look job
    Main.carryOut directory (CommandLine.run Main.surroundings arguments directory [])
  | _ =>
    let directory := CommandLine.Directory.flat []
    Main.carryOut directory (CommandLine.run Main.surroundings arguments directory [])
