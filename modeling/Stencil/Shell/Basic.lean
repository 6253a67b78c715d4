import Stencil.Json.Printer
import Stencil.Node.Json
import Stencil.Shell.Blocks
import Stencil.Template

/-!
# Shell

The interactive shell.  It reads lines until they make a whole entry: a line that ends with a
backslash goes on, and so does an entry that leaves a block open.  A whole entry is parsed, and its
tree or its error is printed; nothing of it is kept but the mode.

The shell is a machine that takes one event at a time and answers with the text it prints.  It stops
on the words `exit` and `quit` at the start of an entry, on an interrupt, and where the input ends.
A number that cannot be read is not reported but stops the shell as a failure.
-/

namespace Stencil

/-- The state between two lines: whether tokens are printed, and the lines of the entry begun. -/
structure Shell where
  verbose : Bool
  entry : List (List Char)

namespace Shell

/-- What comes in where a line is awaited. -/
inductive Event
  | line (text : String)
  | interrupt
  | endOfInput

/-- What comes after a line. -/
inductive Next
  | go (shell : Shell)
  | stop
  | crash (failure : Template.Failure)

/-- The shell before its first line. -/
def start (verbose : Bool) : Shell := ⟨verbose, []⟩

/-- The text printed before the first prompt. -/
def greeting : String := "jinjalite REPL. Type 'exit' or 'quit' to leave.\n"

/-- The text printed where the shell stops. -/
def farewell : String := "Exiting jinjalite REPL.\n"

/-- The text before a line. -/
def prompt (shell : Shell) : String := if shell.entry.isEmpty then ">>> " else "... "

/-- The lines of an entry as one text. -/
def joinLines (lines : List (List Char)) : List Char := ['\n'].intercalate lines

/-- The report of an error: the name of its class and its sentence. -/
def errorReport (name message : String) : String := s!"[error] >>>\n{name}: {message}\n\n"

/-- The name of the class of errors that a structural error belongs to, with where it is
defined. -/
def errorName (e : Parser.Error) : String := "jinjalite.jinjalite_errors." ++ e.cause.name

/-- Parses a whole entry: what is printed, and the failure that stops the shell if there is one. -/
def evaluate (verbose : Bool) (source : String) : String × Option Template.Failure :=
  match Template.tokens source with
  | .error failure => (errorReport "SyntaxError" failure.report, none)
  | .ok tokens =>
    let listing := if verbose then s!"[tokens] >>> {Token.listing tokens}\n" else ""
    match Template.tree tokens with
    | .ok tree => (listing ++ tree.toJson.indented ++ "\n", none)
    | .error failure =>
      match failure with
      | .structural (.malformed e) => (listing ++ errorReport (errorName e) failure.report, none)
      | _ => (listing, some failure)

/-- Takes a whole entry.  A blank one is passed over, and one special word turns the mode. -/
def finish (shell : Shell) (source : List Char) : String × Next :=
  let word := Text.trim Text.isBlank source
  if word.isEmpty then ("", .go (start shell.verbose))
  else if word.map Char.toLower = "verbose-mode".toList then
    let mode := if shell.verbose then "OFF" else "ON"
    (s!"[mode] >>> Verbose mode {mode}\n", .go (start !shell.verbose))
  else
    match evaluate shell.verbose (String.ofList source) with
    | (printed, none) => (printed, .go (start shell.verbose))
    | (printed, some failure) => (printed, .crash failure)

/-- Takes a line. -/
def takeLine (shell : Shell) (line : List Char) : String × Next :=
  let word := Text.trim Text.isBlank line
  if shell.entry.isEmpty ∧ (word = "exit".toList ∨ word = "quit".toList) then (farewell, .stop)
  else if line.getLast? = some '\\' then
    ("", .go { shell with entry := shell.entry ++ [line.dropLast] })
  else
    let lines := shell.entry ++ [line]
    if 0 < openBlocks (joinLines lines) then ("", .go { shell with entry := lines })
    else shell.finish (joinLines lines)

/-- What is printed on an event, and what comes then. -/
def step (shell : Shell) : Event → String × Next
  | .line text => shell.takeLine text.toList
  | .interrupt | .endOfInput => ("\n" ++ farewell, .stop)

/-- A prompt and the text printed up to the next one. -/
structure Turn where
  prompt : String
  printed : String

/-- All turns of a run, and the failure that stopped it if there is one. -/
structure Transcript where
  turns : List Turn
  crash : Option Template.Failure

/-- Runs the shell on events; behind the last of them the input ends. -/
def run (shell : Shell) : List Event → Transcript
  | [] => ⟨[⟨shell.prompt, (shell.step .endOfInput).1⟩], none⟩
  | event :: events =>
    let (printed, next) := shell.step event
    let turn : Turn := ⟨shell.prompt, printed⟩
    match next with
    | .go shell' =>
      let later := shell'.run events
      { later with turns := turn :: later.turns }
    | .stop => ⟨[turn], none⟩
    | .crash failure => ⟨[turn], some failure⟩

end Shell

end Stencil
