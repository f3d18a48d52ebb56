import ViewState.Console.Grammar
import ViewState.Text.Decimal

/-!
The command line of the program: options that go with every command, and the commands.
-/
namespace ViewState.Console

inductive Command
  | settings
  | views (session : Option String)
  | purge (session : String) (view : Option String)
  | templates (directory : String) (refresh : Option Int) (passes : Nat)
deriving DecidableEq

structure Arguments where
  quiet : Bool
  database : String
  settings : Option String
  json : Bool
  command : Option Command
deriving DecidableEq

namespace Arguments

def anyText (_ : String) : Except Refusal Unit := .ok ()

def path (value : String) : Except Refusal Unit :=
  if value.isEmpty then .error .missingValue else .ok ()

def int64 (value : String) : Except Refusal Unit :=
  if (Text.Decimal.readInt64 value).isSome then .ok () else .error .badValue

def word64 (value : String) : Except Refusal Unit :=
  if (Text.Decimal.readWord64 value).isSome then .ok () else .error .badValue

def switch (long : String) (short : Option Char) : OptionSpec :=
  ⟨long, short, .switch, false, false⟩

def taking (long : String) (short : Char) (check : String → Except Refusal Unit) : OptionSpec :=
  ⟨long, some short, .value check, false, false⟩

def mandatory (o : OptionSpec) : OptionSpec := { o with required := true }

def shared : List OptionSpec :=
  [switch "quiet" (some 'q'), taking "database" 'D' path, taking "config" 'c' path,
    switch "json-mode" none, ⟨"help", some 'h', .help, false, false⟩]

def main : CommandSpec where
  options := shared ++ [⟨"version", some 'V', .version, false, false⟩]
  commands := ["views", "purge", "templates", "config", "help"]

def ownOptions : String → List OptionSpec
  | "views" => [taking "session" 's' anyText]
  | "purge" => [mandatory (taking "session" 's' anyText), taking "view" 'v' anyText]
  | "templates" =>
    [mandatory (taking "dir" 'd' path), { taking "refresh" 'r' int64 with anyValue := true },
      taking "passes" 'p' word64]
  | _ => []

def defaultDatabase : String := "viewkeep.redb"

def defaultPasses : Nat := 2

def database? (a : Arguments) : Option String :=
  match a.command with
  | some (.views _) | some (.purge _ _) => some a.database
  | _ => none

def directory? (a : Arguments) : Option String :=
  match a.command with
  | some (.templates directory _ _) => some directory
  | _ => none

def get? (given : Given) (long : String) : Option String :=
  (given.find? (·.1 = long)).map Prod.snd

def commandOf (name : String) (own : Given) : Command :=
  match name with
  | "views" => .views (get? own "session")
  | "purge" => .purge ((get? own "session").getD "") (get? own "view")
  | "templates" =>
    .templates ((get? own "dir").getD "")
      ((get? own "refresh").bind Text.Decimal.readInt64)
      (((get? own "passes").bind Text.Decimal.readWord64).getD defaultPasses)
  | _ => .settings

def helpOn : List String → Refusal
  | [] => .help
  | [name] => if name ∈ main.commands then .help else .unknownCommand
  | _ => .unknownCommand

/-- Reads a command line. An option that goes with every command counts where it stands last: behind
the name of the command before in front of it. -/
def parse (args : List String) : Except Refusal Arguments := do
  let (reading, command) ← main.read .start args
  let command ← match command with
    | none => pure none
    | some ("help", names) => throw (helpOn names)
    | some (name, rest) =>
      let spec : CommandSpec := ⟨shared ++ ownOptions name, []⟩
      let (own, _) ← spec.read .start rest
      pure (some (name, ← spec.finish own))
  let given ← main.finish reading
  let own := (command.map Prod.snd).getD []
  let both := own ++ given
  return {
    quiet := (get? both "quiet").isSome
    database := (get? both "database").getD defaultDatabase
    settings := get? both "config"
    json := (get? both "json-mode").isSome
    command := command.map fun (name, own) => commandOf name own }

end Arguments

end ViewState.Console
