import ViewState.Console.Json
import ViewState.Identifier.Counter
import ViewState.Persistence
import ViewState.Settings.Record
import ViewState.Template.Walk

/-!
What the program reports, as lines of text and as JSON.
-/
namespace ViewState.Console

def pad (width : Nat) (s : String) : String :=
  s ++ String.ofList (List.replicate (width - s.length) ' ')

def unlines (lines : List String) : String := lines.foldr (fun line rest => line ++ "\n" ++ rest) ""

def number (n : Nat) : String := Text.Decimal.ofNat n

structure SettingsReport where
  mode : Settings.Mode
  windows : Template.Windows
  viewsInSession : Nat
  signed : Bool
  idTableSize : Nat

namespace SettingsReport

def ofLookup (h : Hash) (lookup : Settings.Lookup) : SettingsReport :=
  let retention := Retention.ofSettings h lookup
  { mode := .ofText (lookup Settings.Key.stateSaving.name)
    windows := .ofSettings lookup
    viewsInSession := retention.views
    signed := retention.key.isSome
    idTableSize := (Identifier.Table.ofSettings lookup).size }

def windowText : Template.Window → String
  | .infinite => "never"
  | .disabled => "disabled"
  | .every milliseconds => number (milliseconds.toNat / 1000) ++ "s"

def toLines (r : SettingsReport) : List String :=
  ["viewkeep Configuration",
    "======================",
    "State saving:        " ++ r.mode.name,
    "Views in session:    " ++ number r.viewsInSession,
    "Client state signed: " ++ Settings.Record.boolText r.signed,
    "Component id cache:  " ++ number r.idTableSize,
    "",
    "Refresh windows:",
    "  standard:           " ++ windowText (r.windows .standard),
    "  view-metadata:      " ++ windowText (r.windows .viewMetadata),
    "  composite-metadata: " ++ windowText (r.windows .compositeMetadata)]

def toJson (r : SettingsReport) : Json :=
  .object
    [("mode", .string r.mode.name),
      ("refresh_standard", .string (windowText (r.windows .standard))),
      ("refresh_view_metadata", .string (windowText (r.windows .viewMetadata))),
      ("refresh_composite_metadata", .string (windowText (r.windows .compositeMetadata))),
      ("views_in_session", .number r.viewsInSession),
      ("client_state_signed", .bool r.signed),
      ("component_id_cache_size", .number r.idTableSize)]

end SettingsReport

def rowLine (r : Store.Row) : String :=
  pad 20 r.session ++ " " ++ pad 32 r.view ++ " #" ++ pad 6 (number r.sequence.toNat) ++ " " ++
    r.ticket

def rowJson (r : Store.Row) : Json :=
  .object
    [("session", .string r.session), ("view", .string r.view),
      ("sequence", .number r.sequence.toNat), ("token", .string r.ticket)]

def viewsLines (database : String) (rows : List Store.Row) : List String :=
  ["Retained Views", "==============", "Database: " ++ database, ""] ++
    if rows.isEmpty then ["(none)"] else rows.map rowLine

def purgeLine (session : String) (view : Option String) (removed : Nat) : String :=
  match view with
  | some view =>
    "Removed " ++ number removed ++ " state(s) of " ++ view ++ " in session " ++ session
  | none => "Removed " ++ number removed ++ " state(s) in session " ++ session

def purgeJson (session : String) (view : Option String) (removed : Nat) : Json :=
  .object
    [("session", .string session), ("view", (view.map .string).getD .null),
      ("removed", .number removed)]

def statusText : Template.Status → String
  | .failed => "FAILED"
  | status => status.name

def templateLine (r : Template.Report) : String :=
  "[" ++ number r.pass ++ "] " ++ pad 11 (statusText r.status) ++ " " ++ r.source ++ " (" ++
    (match r.error with
      | some error => error
      | none => number r.summary.bytes ++ " bytes, " ++ number r.summary.lines ++ " lines") ++ ")"

def templatesLines (directory : String) (reports : List Template.Report) : List String :=
  ["Template Cache Walk", "===================", "Directory: " ++ directory, ""] ++
    reports.map templateLine

def templateJson (r : Template.Report) : Json :=
  .object <|
    [("pass", .number r.pass), ("source", .string r.source), ("status", .string r.status.name),
      ("bytes", .number r.summary.bytes), ("lines", .number r.summary.lines)] ++
      (r.error.map fun error => ("error", .string error)).toList

end ViewState.Console
