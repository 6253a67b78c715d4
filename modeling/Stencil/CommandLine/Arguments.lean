import Stencil.CommandLine.Switch
import Stencil.Text.Digit

/-!
# CommandLine — Arguments

Reads the arguments.  First each argument is taken as a switch or as a plain one, by its spelling
alone; then the arguments are gone through from left to right.

* A switch may be spelled by any beginning of its long spelling that fits no other, and one-letter
  switches may be written together.  A value follows in the same argument, with or without `=`, or
  in the next argument if that is a plain one.
* A lone `-`, a negative number, and an unknown switch with a space in it are plain.
* Behind `--` all arguments are plain.
* The first plain argument is the source; further ones, and unknown switches, are left over, and a
  left-over argument is wrong usage.

`--help` takes effect where it stands, before what is wrong further on is noticed.
-/

namespace Stencil.CommandLine

/-- A switch as it is spelled in an argument. -/
structure Reading where
  switch : Switch
  /-- Is it spelled by one letter? -/
  short : Bool
  /-- The value in the same argument. -/
  value : Option (List Char)

/-- An argument by its spelling. -/
inductive Item
  | plain (text : String)
  /-- The first `--`. -/
  | separator
  | switch (reading : Reading)
  /-- A switch that the program does not know. -/
  | unknown (text : String)

/-- The text before the first `=`, and the text behind it. -/
def cutAtEquals (cs : List Char) : List Char × Option (List Char) :=
  (cs.takeWhile (· != '='), match cs.dropWhile (· != '=') with
    | [] => none
    | _ :: value => some value)

/-- Is a spelling one of a single letter? -/
def isShort : List Char → Bool
  | _ :: c :: _ => c != '-'
  | _ => false

/-- Is the text a minus sign with digits, or with digits and a part?  A newline may follow. -/
def isNegativeNumber : List Char → Bool
  | '-' :: cs =>
    let body := if cs.getLast? = some '\n' then cs.dropLast else cs
    let isDecimal (c : Char) : Bool := (Text.decimalValue? c).isSome
    match body.dropWhile isDecimal with
    | [] => !body.isEmpty
    | '.' :: part => !part.isEmpty && part.all isDecimal
    | _ => false
  | _ => false

/-- The switches that a spelling which is not exact can stand for, with their own spellings. -/
def candidates (cs : List Char) : List (List Char × Reading) :=
  match cs with
  | '-' :: '-' :: _ =>
    let (name, value) := cutAtEquals cs
    (Switch.spellings.filter (name.isPrefixOf ·.1)).map fun (spelling, switch) =>
      (spelling, ⟨switch, isShort spelling, value⟩)
  | _ =>
    match Switch.spellings.lookup (cs.take 2) with
    | some switch => [(cs.take 2, ⟨switch, true, some (cs.drop 2)⟩)]
    | none => []

/-- An argument that is no exact spelling of a switch. -/
def classifyInexact (text : String) : Except UsageError Item :=
  let cs := text.toList
  match candidates cs with
  | [(_, reading)] => .ok (.switch reading)
  | [] =>
    if isNegativeNumber cs ∨ ' ' ∈ cs then .ok (.plain text) else .ok (.unknown text)
  | several => .error (.ambiguous text (several.map (String.ofList ·.1)))

/-- An argument before the first `--`. -/
def classify (text : String) : Except UsageError Item :=
  match text.toList with
  | '-' :: c :: rest =>
    let cs := '-' :: c :: rest
    match Switch.spellings.lookup cs with
    | some switch => .ok (.switch ⟨switch, isShort cs, none⟩)
    | none =>
      let (name, value) := cutAtEquals cs
      match value, Switch.spellings.lookup name with
      | some value, some switch => .ok (.switch ⟨switch, isShort name, some value⟩)
      | _, _ => classifyInexact text
  | _ => .ok (.plain text)

/-- All arguments by their spelling. -/
def items : List String → Except UsageError (List Item)
  | [] => .ok []
  | text :: rest =>
    if text = "--" then .ok (.separator :: rest.map .plain)
    else do
      let item ← classify text
      return item :: (← items rest)

/-! ### Switches in one argument -/

/-- What one argument sets, in order, and the switch that still needs a value. -/
structure Bundle where
  settled : List (Switch × List Char)
  awaiting : Option Switch

/-- A switch without a value in its argument. -/
def Bundle.single (switch : Switch) : Bundle :=
  if switch.takesValue then ⟨[], some switch⟩ else ⟨[(switch, [])], none⟩

/-- A switch by one letter that has no value, with what is written behind it: more letters, the last
of which may have a value. -/
def bundle (switch : Switch) : List Char → Except UsageError Bundle
  | [] => .error (.valueIgnored switch "")
  | c :: rest =>
    match Switch.spellings.lookup ['-', c] with
    | none => .error (.valueIgnored switch (String.ofList (c :: rest)))
    | some next => do
      let later ←
        if rest.isEmpty then pure (Bundle.single next)
        else if next.takesValue then pure ⟨[(next, rest)], none⟩
        else bundle next rest
      return { later with settled := (switch, []) :: later.settled }

/-- What an argument with a switch sets. -/
def Reading.bundle (r : Reading) : Except UsageError Bundle :=
  match r.value with
  | none => .ok (.single r.switch)
  | some value =>
    if r.switch.takesValue then .ok ⟨[(r.switch, value)], none⟩
    else if r.short then CommandLine.bundle r.switch value
    else .error (.valueIgnored r.switch (String.ofList value))

/-! ### All arguments -/

/-- What the arguments set so far. -/
structure Settings where
  source : Option String
  literal : Bool
  out : Option String
  tokens : Bool
  pretty : Bool
  shell : Bool
  verbose : Bool
  leftOver : List String

/-- Nothing is set. -/
def Settings.initial : Settings := ⟨none, false, none, false, false, false, false, []⟩

/-- Why the arguments are not gone through to their end. -/
inductive Halt
  | help
  | wrong (error : UsageError)

/-- Sets a switch.  The value `--` stands for no file. -/
def Settings.set (s : Settings) : Switch × List Char → Except Halt Settings
  | (.help, _) => .error .help
  | (.string, _) => .ok { s with literal := true }
  | (.out, value) =>
    .ok { s with out := if value = ['-', '-'] then none else some (String.ofList value) }
  | (.tokens, _) => .ok { s with tokens := true }
  | (.pretty, _) => .ok { s with pretty := true }
  | (.shell, _) => .ok { s with shell := true }
  | (.verbose, _) => .ok { s with verbose := true }

/-- Sets switches in order. -/
def Settings.setAll (s : Settings) (switches : List (Switch × List Char)) : Except Halt Settings :=
  switches.foldlM Settings.set s

mutual

/-- Goes through the arguments.  The separator belongs to the source if it stands next to it. -/
def settle : List Item → Settings → Except Halt Settings
  | [], s => .ok s
  | .plain text :: .separator :: rest, s =>
    settle rest <|
      if s.source.isNone then { s with source := some text }
      else { s with leftOver := s.leftOver ++ [text, "--"] }
  | .plain text :: rest, s =>
    settle rest <|
      if s.source.isNone then { s with source := some text }
      else { s with leftOver := s.leftOver ++ [text] }
  | .separator :: rest, s =>
    settle rest (if s.source.isNone then s else { s with leftOver := s.leftOver ++ ["--"] })
  | .unknown text :: rest, s => settle rest { s with leftOver := s.leftOver ++ [text] }
  | .switch reading :: rest, s => do
    let bundle ← reading.bundle.mapError .wrong
    match bundle.awaiting with
    | none => settle rest (← s.setAll bundle.settled)
    | some switch => settleValue bundle.settled switch rest s

/-- Goes on behind switches the last of which still needs a value: a plain argument. -/
def settleValue (settled : List (Switch × List Char)) (switch : Switch) :
    List Item → Settings → Except Halt Settings
  | .plain value :: rest, s => do settle rest (← s.setAll (settled ++ [(switch, value.toList)]))
  | _, _ => .error (.wrong (.valueExpected switch))

end

/-- What the arguments set.  An argument left over is wrong usage. -/
def Settings.ofArguments (arguments : List String) : Except Halt Settings := do
  let s ← settle (← (items arguments).mapError .wrong) .initial
  if s.leftOver.isEmpty then return s else throw (.wrong (.unrecognized s.leftOver))

end Stencil.CommandLine
