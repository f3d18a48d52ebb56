import ViewState.Console.Arguments
import ViewState.Console.Report
import ViewState.Settings.Document
import ViewState.Store.Image

/-!
The program behind the command line, as a function of the arguments and of the files: what it
prints, its exit code, and the files as it leaves them.
-/
namespace ViewState.Console

structure Outcome where
  code : UInt32
  output : String
  /-- What is said beside the output. -/
  complaint : String
  files : Files.Tree

namespace Program

def settingsLimit : Nat := 1024 * 1024

def versionText : String := "0.4.2"

def banner : String := unlines ["viewkeep v" ++ versionText, ""]

def usage : String :=
  unlines
    ["Usage: viewkeep [OPTIONS] [COMMAND]",
      "",
      "Commands:",
      "  views      List retained views",
      "  purge      Drop the views of a session, or one view in it",
      "  templates  Walk a template directory through the template cache",
      "  config     Show the effective configuration"]

/-- The settings of a document in a file, or none if there is no such file to read. -/
def loadSettings (files : Files.Tree) : Option String → Except Failure Settings.Record
  | none => .ok .empty
  | some path => do
    let unavailable := Failure.unavailable ∘ Unavailable.settings path
    let size ← (files.sizeOf path).mapError unavailable
    if settingsLimit < size then throw (.tooLarge size settingsLimit)
    let text ← (files.readText path).mapError unavailable
    Settings.Document.parse text

/-- Whether a file can be made at a path: its directory is there, and its name is one. -/
def canCreate (files : Files.Tree) (path : String) : Bool :=
  let names := files.names path
  let directory := files.root.follow [] names.dropLast
  match directory, names.getLast? with
  | .ok (.directory _ _), some name => name ∉ ["", ".", ".."]
  | _, _ => false

/-- The store that a database file holds. A file that is not there is made. -/
def openDatabase (files : Files.Tree) (path : String) : Except Failure TableStore :=
  let failure : Failure := .unavailable (.database path)
  match files.find path with
  | .ok (.file content _) =>
    match TableStore.ofImage? content.data.toList with
    | some store => .ok store
    | none => .error failure
  | .error .notFound => if canCreate files path then .ok .empty else .error failure
  | _ => .error failure

def saveDatabase (files : Files.Tree) (path : String) (now : UInt64) (s : TableStore) :
    Files.Tree :=
  files.put now.toNat path (.file ⟨s.toImage.toArray⟩ now.toNat)

def form (json : Bool) (asLines : List String) (asJson : Json) : String :=
  if json then unlines [asJson.render 0] else unlines asLines

def views (h : Hash) (a : Arguments) (files : Files.Tree) (now : UInt64) (session : Option String) :
    Except Failure (String × Files.Tree) := do
  let store ← openDatabase files a.database
  let files := saveDatabase files a.database now store
  let rows ← (Store.table store).rows h session
  return (form a.json (viewsLines a.database rows) (.array (rows.map rowJson)), files)

def purge (a : Arguments) (files : Files.Tree) (now : UInt64) (session : String)
    (view : Option String) : Except Failure (String × Files.Tree) := do
  let store ← openDatabase files a.database
  let (removed, store) := match view with
    | some view => store.invalidateView session view
    | none => store.invalidateSession session
  let removed ← removed
  return (form a.json [purgeLine session view removed] (purgeJson session view removed),
    saveDatabase files a.database now store)

def templates (a : Arguments) (files : Files.Tree) (now : UInt64) (lookup : Settings.Lookup)
    (directory : String) (refresh : Option Int) (passes : Nat) :
    Except Failure (String × Files.Tree) := do
  let reports ← Template.walk files now lookup directory refresh passes
  return (form a.json (templatesLines directory reports) (.array (reports.map templateJson)), files)

def settings (h : Hash) (a : Arguments) (files : Files.Tree) (lookup : Settings.Lookup) :
    Except Failure (String × Files.Tree) :=
  let report := SettingsReport.ofLookup h lookup
  .ok (form a.json report.toLines report.toJson, files)

/-- Carries out a command. The settings are read first, whatever the command is. -/
def execute (h : Hash) (a : Arguments) (files : Files.Tree) (now : UInt64) :
    Except Failure (String × Files.Tree) := do
  let record ← loadSettings files a.settings
  match a.command with
  | some (.views session) => views h a files now session
  | some (.purge session view) => purge a files now session view
  | some (.templates directory refresh passes) =>
    templates a files now record.lookup directory refresh passes
  | some .settings | none => settings h a files record.lookup

def refusalText : Refusal → String
  | .help | .version => ""
  | .unknownArgument => "unexpected argument"
  | .unknownCommand => "unrecognized subcommand"
  | .repeated => "an argument cannot be used multiple times"
  | .missingValue => "a value is required"
  | .unneededValue => "unexpected value"
  | .badValue => "invalid value"
  | .missingOption => "a required argument was not provided"

def refusalCode : Refusal → UInt32
  | .help | .version => 0
  | _ => 2

def run (h : Hash) (args : List String) (files : Files.Tree) (now : UInt64) : Outcome :=
  match Arguments.parse args with
  | .error .help => ⟨0, usage, "", files⟩
  | .error .version => ⟨0, unlines ["viewkeep " ++ versionText], "", files⟩
  | .error refusal => ⟨refusalCode refusal, "", "error: " ++ refusalText refusal, files⟩
  | .ok a =>
    let banner := if a.quiet || a.json then "" else banner
    match execute h a files now with
    | .ok (output, files) => ⟨0, banner ++ output, "", files⟩
    | .error e => ⟨1, banner, "Error: " ++ e.message, files⟩

end Program

end ViewState.Console
