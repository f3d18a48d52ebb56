import ViewState.Settings.Basic

/-!
One request: its session, the mode in which it keeps views, and whether a state is being saved. The
mode is read from the settings when it is first needed and stays as it was read.
-/
namespace ViewState

structure Request where
  session : String
  /-- The mode, once it was needed. -/
  settled : Option Settings.Mode
  saving : Bool
deriving DecidableEq

namespace Request

def new (session : String) : Request := ⟨session, none, false⟩

/-- The mode of a request; the settings are asked for it the first time only. -/
def mode (r : Request) (p : Settings.Provider) : Settings.Mode × Request × Settings.Provider :=
  match r.settled with
  | some mode => (mode, r, p)
  | none =>
    let (raw, p) := p.ask .stateSaving
    let mode := Settings.Mode.ofText raw
    (mode, { r with settled := some mode }, p)

def beginSaving (r : Request) : Request := { r with saving := true }

def endSaving (r : Request) : Request := { r with saving := false }

end Request

end ViewState
