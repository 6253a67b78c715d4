import Stencil.CommandLine.Arguments
import Stencil.CommandLine.Job
import Stencil.Shell.Basic

/-!
# CommandLine

A run of the program from its arguments to what it prints, how it ends and the files it leaves.  The
shell is started where it is asked for and where no source is given.  Wrong usage ends the program
with 2, and an error in the template, or in the choice of it, with 1.  A file that cannot be opened is
not reported, nor is a number that cannot be read in the shell: the program ends with the failure.

However a job ends, the report of it says what its steps have done up to then.
-/

namespace Stencil.CommandLine

/-- What is to be run. -/
inductive Request
  | help
  | wrongUsage (error : UsageError)
  | shell (verbose : Bool)
  | job (job : Job)

/-- The job of settings with a source.  An output file without a name is none. -/
def Settings.job (s : Settings) (source : String) : Job :=
  ⟨source, s.literal, s.out.filter (!·.isEmpty), s.tokens, s.pretty⟩

/-- What the arguments ask for. -/
def request (arguments : List String) : Request :=
  match Settings.ofArguments arguments with
  | .error .help => .help
  | .error (.wrong e) => .wrongUsage e
  | .ok s =>
    match s.shell, s.source with
    | false, some source => .job (s.job source)
    | _, _ => .shell s.verbose

/-- How a run ends. -/
inductive Ending
  | exit (code : Nat)
  /-- A refusal that is not reported stopped the job. -/
  | stopped (refusal : Refusal)
  /-- A failure stopped the shell. -/
  | crash (failure : Template.Failure)

/-- What is printed on standard output. -/
inductive Output
  | text (printed : String)
  | dialogue (transcript : Shell.Transcript)

/-- A whole run. -/
structure Report where
  output : Output
  /-- What is printed on standard error. -/
  complaint : String
  ending : Ending
  directory : Directory

/-- The report of a shell. -/
def reportShell (d : Directory) (transcript : Shell.Transcript) : Report :=
  ⟨.dialogue transcript, "", match transcript.crash with
    | none => .exit 0
    | some failure => .crash failure, d⟩

/-- How a run ends with a refusal. -/
def Refusal.ending (refusal : Refusal) : Ending :=
  if refusal.stops?.isSome then .stopped refusal else .exit 1

/-- What is printed on standard error about a refusal. -/
def Refusal.complaint (w : Surroundings) (refusal : Refusal) : String :=
  if refusal.stops?.isSome then "" else s!"[error] >>> {w.spell refusal.message}\n"

/-- The report of a job. -/
def reportJob (w : Surroundings) (d : Directory) (job : Job) : Report :=
  match (job.run w).run ⟨"", d⟩ with
  | .ok _ e => ⟨.text e.printed, "", .exit 0, e.directory⟩
  | .error refusal e =>
    ⟨.text e.printed, refusal.complaint w, refusal.ending, e.directory⟩

/-- Runs the program on arguments, in a directory, with what comes in on standard input. -/
def run (w : Surroundings) (arguments : List String) (d : Directory) (events : List Shell.Event) :
    Report :=
  match request arguments with
  | .help => ⟨.text helpText, "", .exit 0, d⟩
  | .wrongUsage e => ⟨.text "", w.spell e.report, .exit 2, d⟩
  | .shell verbose => reportShell d ((Shell.start verbose).run events)
  | .job job => reportJob w d job

end Stencil.CommandLine
