import ViewState.Settings.Basic
import ViewState.Word

/-!
Refresh windows: how long a compiled template is used without a look at its source.
-/
namespace ViewState.Template

inductive Namespace
  | standard
  | viewMetadata
  | compositeMetadata
deriving DecidableEq

namespace Namespace

def all : List Namespace := [standard, viewMetadata, compositeMetadata]

def name : Namespace → String
  | standard => "standard"
  | viewMetadata => "view-metadata"
  | compositeMetadata => "composite-metadata"

end Namespace

inductive Window
  /-- A template is used for ever. -/
  | infinite
  /-- A template is compiled each time that it is asked for. -/
  | disabled
  /-- The source is looked at once so many milliseconds have gone by. -/
  | every (milliseconds : UInt64)
deriving DecidableEq

/-- The window of a period in seconds: a negative one never ends, and none at all means that nothing
is kept. -/
def Window.ofSeconds (seconds : Int) : Window :=
  if seconds < 0 then infinite
  else if seconds = 0 then disabled
  else every (Word.clamp (1000 * seconds.toNat))

abbrev Windows : Type := Namespace → Window

namespace Windows

def uniform (w : Window) : Windows := fun _ => w

def defaultSeconds : Int := -1

def standard : Windows := uniform (.ofSeconds defaultSeconds)

/-- One period for all parts, which those for metadata may each replace by their own. -/
def ofSettings (lookup : Settings.Lookup) : Windows :=
  let base := Settings.readInt lookup Settings.Key.refreshPeriod.name defaultSeconds
  fun
    | .standard => .ofSeconds base
    | .viewMetadata =>
      .ofSeconds (Settings.readInt lookup Settings.Key.viewMetadataRefresh.name base)
    | .compositeMetadata =>
      .ofSeconds (Settings.readInt lookup Settings.Key.compositeMetadataRefresh.name base)

end Windows

end ViewState.Template
