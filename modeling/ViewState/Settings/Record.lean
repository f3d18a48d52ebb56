import ViewState.Settings.Basic

/-!
Settings as typed values. A record answers look-ups with the text of the value that it holds.
-/
namespace ViewState.Settings

structure Record where
  stateSaving : Option String
  refreshPeriod : Option Int
  viewMetadataRefresh : Option Int
  compositeMetadataRefresh : Option Int
  viewsInSession : Option Nat
  idTableSize : Option Nat
  clientSecret : Option String
  buildingViewMetadata : Option Bool
  refreshingTransientBuild : Option Bool
  markInitialState : Option Bool
deriving DecidableEq

namespace Record

def empty : Record := ⟨none, none, none, none, none, none, none, none, none, none⟩

def boolText (b : Bool) : String := if b then "true" else "false"

def get (r : Record) : Key → Option String
  | .stateSaving => r.stateSaving
  | .refreshPeriod => r.refreshPeriod.map Text.Decimal.ofInt
  | .viewMetadataRefresh => r.viewMetadataRefresh.map Text.Decimal.ofInt
  | .compositeMetadataRefresh => r.compositeMetadataRefresh.map Text.Decimal.ofInt
  | .viewsInSession => r.viewsInSession.map Text.Decimal.ofNat
  | .idTableSize => r.idTableSize.map Text.Decimal.ofNat
  | .clientSecret => r.clientSecret
  | .buildingViewMetadata => r.buildingViewMetadata.map boolText
  | .refreshingTransientBuild => r.refreshingTransientBuild.map boolText
  | .markInitialState => r.markInitialState.map boolText

def lookup (r : Record) : Lookup := fun name => (Key.ofName? name).bind r.get

end Record

end ViewState.Settings
