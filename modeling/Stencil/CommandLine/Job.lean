import Stencil.CommandLine.Directory
import Stencil.Json.Printer
import Stencil.Node.Json
import Stencil.Template
import Stencil.Text.Codec
import Stencil.Text.Newline
import Stencil.Text.Quoted

/-!
# CommandLine — Job

Reading one template and writing its tree or its tokens as JSON.  A job is a row of steps, each of
which may be refused: the template is read, the result is made, and then it is printed, or a file is
opened and the result is written to it.  What the steps before a refusal have done stays done.

Nothing has been done before the result is there.  But a file is emptied when it is opened, which is
before the result is turned into bytes; and a text with a character that is none cannot be.
-/

namespace Stencil.CommandLine

/-- What is to be done. -/
structure Job where
  /-- The name of a file, or the text of a template if `literal`. -/
  source : String
  literal : Bool
  /-- The file for the result; without one it is printed. -/
  out : Option String
  tokens : Bool
  pretty : Bool

/-- What a run stands in besides the files. -/
structure Surroundings where
  /-- The characters of the arguments that are none. -/
  standIns : Text.StandIns
  /-- The encoding of standard output. -/
  console : Text.Codec
  /-- How many calls may be open at once while a tree is turned into JSON. -/
  stack : Nat

/-- A text as it is printed on standard error, where every character can be: one that cannot be
encoded is written by its code. -/
def Surroundings.spell (w : Surroundings) (text : String) : String :=
  String.ofList <| text.toList.flatMap fun c =>
    match w.standIns.byte? c with
    | some byte => '\\' :: 'u' :: 'd' :: 'c' :: Text.hexadecimal 2 byte.toNat
    | none => if w.console.encodes c then [c] else Text.Quoted.escapeCode c

/-! ### Refusals -/

/-- Why a job is not done. -/
inductive Refusal
  | notTemplate
  | badName
  | denied (name : String) (denial : Denial)
  | notText (fault : Text.Utf8.Fault)
  | notRead (failure : Template.Failure)
  /-- The tree takes more of the stack than there is. -/
  | tooHigh
  | notEncoded (fault : Text.Codec.Fault)
  /-- The file does not take all of the result. -/
  | noRoom

/-- The endings of the names of template files. -/
def templateEndings : List String := [".jinja", ".jinja2", ".j2", ".tmpl"]

/-- The sentence for a refusal. -/
def Refusal.message : Refusal → String
  | notTemplate =>
    "Only template files are supported (" ++ ", ".intercalate templateEndings ++ ")."
  | badName => "embedded null byte"
  | denied name denial => s!"[Errno {denial.number}] {denial.reason}: {Text.quoted name}"
  | notText fault => fault.message
  | notRead failure => failure.report
  | tooHigh => "maximum recursion depth exceeded"
  | notEncoded fault => fault.message
  | noRoom => "[Errno 28] No space left on device"

/-- The kind of the failure, for a refusal that is not reported but stops the program. -/
def Refusal.stops? : Refusal → Option String
  | denied _ denial => some denial.kind
  | tooHigh => some "RecursionError"
  | noRoom => some "OSError"
  | _ => none

/-! ### Steps -/

/-- What a job has done so far. -/
structure Effects where
  /-- What is printed on standard output. -/
  printed : String
  directory : Directory

/-- Steps that may be refused. -/
abbrev Doing := EStateM Refusal Effects

/-- Prints a text, in whole or not at all. -/
def print (w : Surroundings) (text : String) : Doing Unit :=
  match w.console.fault? text with
  | some fault => throw (.notEncoded fault)
  | none => modify fun e => { e with printed := e.printed ++ text }

/-- Opens a file to write to it.  From then on it is there, and empty. -/
def openFile (name : String) : Doing Unit := do
  if name.toList.contains '\x00' then throw .badName
  match (← get).directory.denial? .writing name with
  | some denial => throw (.denied name denial)
  | none => modify fun e => { e with directory := e.directory.put name [] }

/-- Puts bytes into an open file, as many as there is room for. -/
def fill (name : String) (bytes : List UInt8) : Doing Unit := do
  let put (bytes : List UInt8) : Doing Unit :=
    modify fun e => { e with directory := e.directory.put name bytes }
  match (← get).directory.room? name with
  | some room =>
    put (bytes.take room)
    if room < bytes.length then throw .noRoom
  | none => put bytes

/-- Writes a text to an open file, if UTF-8 can write it. -/
def writeFile (w : Surroundings) (name text : String) : Doing Unit :=
  match w.standIns.utf8.fault? text with
  | some fault => throw (.notEncoded fault)
  | none => fill name (Text.Utf8.encode text)

namespace Job

/-- The text of a template file. -/
def fileText (d : Directory) (name : String) : Except Refusal String := do
  if !templateEndings.any fun ending => ending.toList.isSuffixOf name.toList then
    throw .notTemplate
  if name.toList.contains '\x00' then throw .badName
  let bytes ← (d.read name).mapError (.denied name)
  let cs ← (Text.Utf8.decode bytes).mapError .notText
  return String.ofList (Text.unifyNewlines cs)

/-- The text of the template. -/
def text (job : Job) (d : Directory) : Except Refusal String :=
  if job.literal then .ok job.source else fileText d job.source

/-- The tokens of a template, or its tree where the stack is enough for it. -/
def json (job : Job) (stack : Nat) (source : String) : Except Refusal Json := do
  let ts ← (Template.tokens source).mapError .notRead
  if job.tokens then return .array (ts.map Token.toJson)
  let tree ← (Template.tree ts).mapError .notRead
  if stack < tree.frames then throw .tooHigh
  return tree.toJson

/-- The text of the result. -/
def render (job : Job) (result : Json) : String :=
  if job.pretty then result.indented else result.compact

/-- The line above and below a titled result. -/
def banner : String := String.ofList (List.replicate 20 '=')

/-- The text of the result as it is printed: alone, or under its title between banners. -/
def printed (job : Job) (result : String) : String :=
  if job.pretty then
    let title := if job.tokens then "Tokens" else "AST"
    s!"{banner}\n{title}\n{banner}\n{result}\n{banner}\n\n"
  else result ++ "\n"

/-- The line that says where the result is. -/
def note (name : String) : String := s!"(wrote to {name})\n"

/-- Puts the result where it belongs. -/
def deliver (w : Surroundings) (job : Job) (result : String) : Doing Unit :=
  match job.out with
  | none => print w (job.printed result)
  | some name => do
    openFile name
    writeFile w name result
    if job.pretty then print w (note name)

/-- The text of the result in a directory. -/
def result (w : Surroundings) (job : Job) (d : Directory) : Except Refusal String := do
  let json ← job.json w.stack (← job.text d)
  return job.render json

/-- Does the job. -/
def run (w : Surroundings) (job : Job) : Doing Unit := do
  job.deliver w (← MonadExcept.ofExcept (job.result w (← get).directory))

end Job

end Stencil.CommandLine
