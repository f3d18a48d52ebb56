import ViewState.Files.Tree
import ViewState.Template.Cache
import ViewState.Text.Decimal

/-!
Templates that are the files below a directory. A source is a path from that directory, and all
files below it can be listed as sources.
-/
namespace ViewState.Text

/-- How far a count of lines has come: the line ends met, and whether a line is under way. -/
structure LineCount where
  ended : Nat
  underWay : Bool

def LineCount.add (n : LineCount) (c : Char) : LineCount :=
  if c = '\n' then ⟨n.ended + 1, false⟩ else ⟨n.ended, true⟩

def LineCount.total (n : LineCount) : Nat := n.ended + n.underWay.toNat

/-- The number of lines: one for each line end, and one for what follows the last of them. -/
def lineCount (s : String) : Nat := (s.foldl LineCount.add ⟨0, false⟩).total

end ViewState.Text

namespace ViewState.Template

structure Summary where
  bytes : Nat
  lines : Nat
deriving DecidableEq

namespace Directory

def limit : Nat := 10 * 1024 * 1024

/-- The path of a source below a root. Slashes at its front do not count. -/
def pathOf (root source : String) : String :=
  Files.join root (String.ofList (source.toList.dropWhile (· = '/')))

def sourceOf (names : List String) : String := names.foldr (fun name rest => "/" ++ name ++ rest) ""

def summarize (files : Files.Tree) (root source : String) : Except Failure Summary := do
  let path := pathOf root source
  let fail (message : String) : Failure := .construction source message
  let size ← (files.sizeOf path).mapError (fail ∘ Files.Fault.message)
  if limit < size then
    throw <| fail <| Text.Decimal.ofNat size ++ " bytes exceeds maximum allowed " ++
      Text.Decimal.ofNat limit ++ " bytes"
  let text ← (files.readText path).mapError (fail ∘ Files.Fault.message)
  return ⟨text.utf8ByteSize, Text.lineCount text⟩

/-- The time of the last change of a source: 0 if there is nothing of its name, or if it was changed
before the count of time began. -/
def lastModified (files : Files.Tree) (root source : String) : Except Files.Fault UInt64 :=
  match files.find (pathOf root source) with
  | .ok entry => .ok (Word.clamp entry.modified.toNat)
  | .error .notFound => .ok 0
  | .error fault => .error fault

def workshop (files : Files.Tree) (root : String) : Workshop Summary where
  compile _ source := summarize files root source
  lastModified source := (lastModified files root source).mapError Files.Fault.message
  displayName source := pathOf root source

def sources (files : Files.Tree) (root : String) : Except Failure (List String) :=
  match files.list root with
  | .error fault => .error (.unavailable (.directory root fault))
  | .ok paths => .ok (SortedSet.ofList (paths.map sourceOf)).keys

end Directory

end ViewState.Template
