/-!
The grammar of a command line with long and short options, and its reader. An option takes its value
from behind an equals sign, from the rest of a cluster of short options, or from the next argument.
A value from the next argument is checked only when something else is about to be set, so of two
faults the one that is met first while reading counts.
-/
namespace ViewState.Console

/-- Why a command line is refused, or ends in help. -/
inductive Refusal
  | help
  | version
  | unknownArgument
  | unknownCommand
  /-- An option that stands twice. -/
  | repeated
  /-- An option without its value, or with an empty one where there must be something. -/
  | missingValue
  /-- A value for an option that takes none. -/
  | unneededValue
  /-- A value of the wrong form. -/
  | badValue
  /-- An option that must be there is not. -/
  | missingOption
deriving DecidableEq

inductive Form
  | switch
  | help
  | version
  /-- The option takes a value, which is checked. -/
  | value (check : String → Except Refusal Unit)

structure OptionSpec where
  long : String
  short : Option Char
  form : Form
  /-- Whether the next argument is the value even if it starts with a hyphen. -/
  anyValue : Bool
  required : Bool

structure CommandSpec where
  options : List OptionSpec
  /-- The names of the commands that may follow. -/
  commands : List String

/-- Options by their long names; a switch has the empty text. -/
abbrev Given : Type := List (String × String)

/-- An option whose value is still to be checked and set. -/
structure Pending where
  option : OptionSpec
  value : Option String

structure Reading where
  given : Given
  pending : Option Pending
  /-- Whether only commands and no options can follow. -/
  trailing : Bool

namespace Reading

def start : Reading := ⟨[], none, false⟩

def awaits? (r : Reading) : Option OptionSpec :=
  match r.pending with
  | some ⟨option, none⟩ => some option
  | _ => none

def set (r : Reading) (o : OptionSpec) (value : Option String) : Except Refusal Reading :=
  match o.form, value with
  | .help, _ => .error .help
  | .version, _ => .error .version
  | .switch, _ =>
    if r.given.any (·.1 = o.long) then .error .repeated
    else .ok { r with given := (o.long, "") :: r.given }
  | .value _, none => .error .missingValue
  | .value check, some value =>
    if r.given.any (·.1 = o.long) then .error .repeated
    else (check value).map fun _ => { r with given := (o.long, value) :: r.given }

def settle (r : Reading) : Except Refusal Reading :=
  match r.pending with
  | none => .ok r
  | some p => ({ r with pending := none } : Reading).set p.option p.value

def meet (r : Reading) (o : OptionSpec) (value : Option String) : Except Refusal Reading := do
  let r ← r.settle
  match o.form, value with
  | .value _, none => return { r with pending := some ⟨o, none⟩ }
  | _, value => r.set o value

end Reading

namespace CommandSpec

def long? (spec : CommandSpec) (name : String) : Option OptionSpec :=
  spec.options.find? (·.long = name)

def short? (spec : CommandSpec) (name : Char) : Option OptionSpec :=
  spec.options.find? (·.short = some name)

/-- Reads a long option, whose name and value an equals sign divides. -/
def readLong (spec : CommandSpec) (r : Reading) (text : List Char) : Except Refusal Reading :=
  let name := String.ofList (text.takeWhile (· ≠ '='))
  let value := match text.dropWhile (· ≠ '=') with
    | [] => none
    | _ :: rest => some (String.ofList rest)
  match spec.long? name with
  | none => .error .unknownArgument
  | some o =>
    match o.form, value with
    | .value _, value => r.meet o value
    | _, some _ => .error .unneededValue
    | _, none => r.meet o none

/-- Reads a cluster of short options; one that takes a value has the rest of the cluster for it. -/
def readShort (spec : CommandSpec) (r : Reading) : List Char → Except Refusal Reading
  | [] => .ok r
  | c :: rest =>
    match spec.short? c with
    | none => .error .unknownArgument
    | some o =>
      match o.form, rest with
      | .value _, [] => r.meet o none
      | .value _, '=' :: value => r.meet o (some (String.ofList value))
      | .value _, value => r.meet o (some (String.ofList value))
      | _, rest => do spec.readShort (← r.meet o none) rest

def strayArgument (spec : CommandSpec) (r : Reading) (arg : String) : Refusal :=
  if spec.commands.isEmpty then .unknownArgument
  else if r.trailing ∧ arg ∈ spec.commands then .unknownArgument
  else .unknownCommand

/-- Reads arguments up to the name of a command. Gives the name and the arguments behind it. -/
def read (spec : CommandSpec) (r : Reading) :
    List String → Except Refusal (Reading × Option (String × List String))
  | [] => .ok (r, none)
  | arg :: args =>
    let asValue (o : OptionSpec) := spec.read { r with pending := some ⟨o, some arg⟩ } args
    if r.trailing then .error (spec.strayArgument r arg)
    else
      match r.awaits?, arg.toList with
      | some o, '-' :: '-' :: [] =>
        if o.anyValue then asValue o else spec.read { r with trailing := true } args
      | some o, '-' :: '-' :: text =>
        if o.anyValue then asValue o else do spec.read (← spec.readLong r text) args
      | some o, '-' :: c :: text =>
        if o.anyValue then asValue o else do spec.read (← spec.readShort r (c :: text)) args
      | some o, _ => asValue o
      | none, text =>
        if arg ∈ spec.commands then .ok (r, some (arg, args))
        else
          match text with
          | '-' :: '-' :: [] => spec.read { r with trailing := true } args
          | '-' :: '-' :: text => do spec.read (← spec.readLong r text) args
          | '-' :: c :: text => do spec.read (← spec.readShort r (c :: text)) args
          | _ => .error (spec.strayArgument r arg)

/-- Ends a reading: the pending value is set, and no required option may be missing. -/
def finish (spec : CommandSpec) (r : Reading) : Except Refusal Given := do
  let r ← r.settle
  if spec.options.all fun o => !o.required || r.given.any (·.1 = o.long) then return r.given
  else throw .missingOption

end CommandSpec

end ViewState.Console
