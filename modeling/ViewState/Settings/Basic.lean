import ViewState.Text.Blank
import ViewState.Text.Decimal

/-!
Settings: texts by key, and the readers that make values of them. A reader falls back to a default
where a key is not set or its text does not spell a value.
-/
namespace ViewState.Settings

abbrev Lookup : Type := String → Option String

inductive Key
  | stateSaving
  | refreshPeriod
  | viewMetadataRefresh
  | compositeMetadataRefresh
  | viewsInSession
  | idTableSize
  | clientSecret
  | buildingViewMetadata
  | refreshingTransientBuild
  | markInitialState
deriving DecidableEq

namespace Key

def all : List Key :=
  [stateSaving, refreshPeriod, viewMetadataRefresh, compositeMetadataRefresh, viewsInSession,
    idTableSize, clientSecret, buildingViewMetadata, refreshingTransientBuild, markInitialState]

def name : Key → String
  | stateSaving => "viewkeep.state_saving_method"
  | refreshPeriod => "viewkeep.refresh_period"
  | viewMetadataRefresh => "viewkeep.refresh_period.view_metadata"
  | compositeMetadataRefresh => "viewkeep.refresh_period.composite_metadata"
  | viewsInSession => "viewkeep.number_of_views_in_session"
  | idTableSize => "viewkeep.component_unique_ids_cache_size"
  | clientSecret => "viewkeep.client_state_secret"
  | buildingViewMetadata => "viewkeep.building_view_metadata"
  | refreshingTransientBuild => "viewkeep.refreshing_transient_build"
  | markInitialState => "viewkeep.mark_initial_state"

def ofName? (name : String) : Option Key := all.find? (·.name = name)

end Key

/-- Equality of texts but for the case of ASCII letters. -/
def sameLetters (s t : String) : Bool := s.toList.map Char.toLower = t.toList.map Char.toLower

def readInt (lookup : Lookup) (key : String) (default : Int) : Int :=
  ((lookup key).bind fun raw => Text.Decimal.readInt64 (Text.trim raw)).getD default

def readSize (lookup : Lookup) (key : String) (default : Nat) : Nat :=
  ((lookup key).bind fun raw => Text.Decimal.readWord64 (Text.trim raw)).getD default

def parseBool (raw : String) : Option Bool :=
  if sameLetters (Text.trim raw) "true" then some true
  else if sameLetters (Text.trim raw) "false" then some false
  else none

def readBool (lookup : Lookup) (key : String) (default : Bool) : Bool :=
  ((lookup key).bind parseBool).getD default

/-- Who keeps the state of a view between two requests. -/
inductive Mode
  | client
  | server
deriving DecidableEq

def Mode.name : Mode → String
  | client => "client"
  | server => "server"

def Mode.parse (raw : String) : Option Mode :=
  [client, server].find? fun mode => sameLetters (Text.trim raw) mode.name

/-- The mode that a setting selects; views are kept on the server unless it says otherwise. -/
def Mode.ofText (raw : Option String) : Mode := (raw.bind Mode.parse).getD .server

/-- Settings that count how often they were asked for a key. -/
structure Provider where
  lookup : Lookup
  reads : Nat

def Provider.ofLookup (lookup : Lookup) : Provider := ⟨lookup, 0⟩

def Provider.ask (p : Provider) (key : Key) : Option String × Provider :=
  (p.lookup key.name, { p with reads := p.reads + 1 })

def Provider.set (p : Provider) (key : String) (value : Option String) : Provider :=
  { p with lookup := fun k => if k = key then value else p.lookup k }

end ViewState.Settings
