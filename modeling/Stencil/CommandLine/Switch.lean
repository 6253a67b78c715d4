import Stencil.Text.Quoted

/-!
# CommandLine — Switch

The switches of the command line, their spellings, and what is said about wrong usage.
-/

namespace Stencil.CommandLine

/-- A switch. -/
inductive Switch
  | help
  /-- The source is the text of a template and not the name of a file. -/
  | string
  /-- The result goes to a file. -/
  | out
  | tokens
  | pretty
  | shell
  | verbose
  deriving DecidableEq

namespace Switch

/-- The spellings in the order in which they are listed to the user. -/
def spellings : List (List Char × Switch) :=
  [("-h".toList, help), ("--help".toList, help), ("-s".toList, string), ("--string".toList, string),
    ("-o".toList, out), ("--out".toList, out), ("--tokens".toList, tokens),
    ("-p".toList, pretty), ("--pretty".toList, pretty), ("--repl".toList, shell),
    ("--verbose".toList, verbose)]

/-- Only the switch for the output has a value. -/
def takesValue : Switch → Bool
  | out => true
  | _ => false

/-- All spellings of a switch, to name it in a message. -/
def name (switch : Switch) : String :=
  "/".intercalate ((spellings.filter (·.2 = switch)).map (String.ofList ·.1))

end Switch

/-- What is wrong with the arguments. -/
inductive UsageError
  | ambiguous (argument : String) (spellings : List String)
  | valueExpected (switch : Switch)
  | valueIgnored (switch : Switch) (value : String)
  | unrecognized (arguments : List String)
  deriving DecidableEq

/-- The sentence for wrong usage. -/
def UsageError.message : UsageError → String
  | ambiguous argument spellings =>
    s!"ambiguous option: {argument} could match " ++ ", ".intercalate spellings
  | valueExpected switch => s!"argument {switch.name}: expected one argument"
  | valueIgnored switch value =>
    s!"argument {switch.name}: ignored explicit argument {Text.quoted value}"
  | unrecognized arguments => "unrecognized arguments: " ++ " ".intercalate arguments

/-- How the program is called. -/
def usage : String :=
  "usage: jinjalite [-h] [-s] [-o OUTFILE] [--tokens] [-p] [--repl] [--verbose]\n" ++
  "                 [source]\n"

/-- How the program is called, and what its arguments mean. -/
def helpText : String :=
  usage ++
  "\n" ++
  "positional arguments:\n" ++
  "  source                Template file or raw text (with -s)\n" ++
  "\n" ++
  "options:\n" ++
  "  -h, --help            show this help message and exit\n" ++
  "  -s, --string          Interpret source as literal template text\n" ++
  "  -o OUTFILE, --out OUTFILE\n" ++
  "                        Output to file\n" ++
  "  --tokens              Dump tokens instead of the AST\n" ++
  "  -p, --pretty          Show indented output with banners\n" ++
  "  --repl                Launch interactive REPL instead of parsing\n" ++
  "  --verbose             Verbose REPL mode (if --repl)\n"

/-- What is printed about wrong usage. -/
def UsageError.report (e : UsageError) : String := s!"{usage}jinjalite: error: {e.message}\n"

end Stencil.CommandLine
