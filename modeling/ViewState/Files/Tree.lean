import ViewState.SortedMap
import ViewState.Text.Utf8

/-!
A tree of directories and files, and what a path leads to in it. Names in a path are divided by
slashes; an empty name and `.` stay in a directory, `..` goes up, and only a directory has anything
behind a slash.
-/
namespace ViewState.Files

/-- What can go wrong with a path or a file. -/
inductive Fault
  | notFound
  | notDirectory
  | isDirectory
  /-- The bytes of the file are no UTF-8 text. -/
  | notText
deriving DecidableEq

def Fault.message : Fault → String
  | notFound => "No such file or directory (os error 2)"
  | notDirectory => "Not a directory (os error 20)"
  | isDirectory => "Is a directory (os error 21)"
  | notText => "stream did not contain valid UTF-8"

inductive Entry
  /-- A file with its bytes and the time of its last change, in milliseconds. -/
  | file (content : ByteArray) (modified : Int)
  /-- A directory with its entries and the time at which one was added or removed last. -/
  | directory (entries : List (String × Entry)) (modified : Int)

namespace Entry

instance : Inhabited Entry := ⟨directory [] 0⟩

def modified : Entry → Int
  | file _ time => time
  | directory _ time => time

/-- What stands at the end of some names, which are walked one after the other. Passed directories
are at hand in `above`, the innermost first; above the outermost there is nothing else. -/
def follow (above : List Entry) (here : Entry) : List String → Except Fault Entry
  | [] => .ok here
  | name :: names =>
    match here with
    | file _ _ => .error .notDirectory
    | directory entries _ =>
      if name = "" ∨ name = "." then follow above here names
      else if name = ".." then
        match above with
        | [] => follow [] here names
        | up :: above => follow above up names
      else
        match Assoc.lookup name entries with
        | none => .error .notFound
        | some next => follow (here :: above) next names

mutual

def filePaths : Entry → List (List String)
  | file _ _ => [[]]
  | directory entries _ => pathsIn entries

def pathsIn : List (String × Entry) → List (List String)
  | [] => []
  | (name, e) :: es => e.filePaths.map (name :: ·) ++ pathsIn es

end

/-- Puts an entry where another may be. A directory that is put where one is keeps what is in it. -/
def merge (new here : Entry) : Entry :=
  match new, here with
  | directory entries modified, directory old _ =>
    directory (entries.foldl (fun old e => Assoc.insert e.1 e.2 old) old) modified
  | new, _ => new

/-- Puts an entry at the end of some names at the time `now`. Directories on the way are made where
there are none. -/
def put (now : Int) (new here : Entry) : List String → Entry
  | [] => merge new here
  | name :: names =>
    let (entries, modified) := match here with
      | file _ _ => ([], now)
      | directory entries modified => (entries, modified)
    match Assoc.lookup name entries with
    | some next => directory (Assoc.insert name (put now new next names) entries) modified
    | none => directory (Assoc.insert name (put now new (directory [] now) names) entries) now

def remove (now : Int) (here : Entry) : List String → Entry
  | [] => here
  | name :: names =>
    match here with
    | file _ _ => here
    | directory entries modified =>
      match names, Assoc.lookup name entries with
      | _, none => here
      | [], some _ => directory (Assoc.erase name entries) now
      | names, some next => directory (Assoc.insert name (remove now next names) entries) modified

end Entry

def splitSlashes : List Char → List (List Char)
  | [] => [[]]
  | c :: cs =>
    if c = '/' then [] :: splitSlashes cs
    else
      match splitSlashes cs with
      | [] => [[c]]
      | piece :: pieces => (c :: piece) :: pieces

def names (path : String) : List String := (splitSlashes path.toList).map String.ofList

def isAbsolute (path : String) : Bool := path.toList.head? = some '/'

/-- A path below a root, with a single slash between the two. -/
def join (root path : String) : String :=
  if root.isEmpty ∨ root.toList.getLast? = some '/' then root ++ path else root ++ "/" ++ path

/-- All directories and files, and the names that lead to the working directory. -/
structure Tree where
  root : Entry
  working : List String

namespace Tree

def empty : Tree := ⟨.directory [("work", .directory [] 0)] 0, ["work"]⟩

def names (path : String) (t : Tree) : List String :=
  if isAbsolute path then Files.names path else t.working ++ Files.names path

def find (t : Tree) (path : String) : Except Fault Entry :=
  if path.isEmpty then .error .notFound else t.root.follow [] (t.names path)

/-- The names of a path without those that stay where they are. -/
def plainNames (t : Tree) (path : String) : List String :=
  (t.names path).filter fun name => name ≠ "" ∧ name ≠ "."

def put (t : Tree) (now : Int) (path : String) (e : Entry) : Tree :=
  { t with root := .put now e t.root (t.plainNames path) }

def remove (t : Tree) (now : Int) (path : String) : Tree :=
  { t with root := t.root.remove now (t.plainNames path) }

def readText (t : Tree) (path : String) : Except Fault String :=
  match t.find path with
  | .error fault => .error fault
  | .ok (.directory _ _) => .error .isDirectory
  | .ok (.file content _) =>
    match String.fromUTF8? content with
    | some text => .ok text
    | none => .error .notText

/-- The number of bytes of what a path leads to; directories count as empty. -/
def sizeOf (t : Tree) (path : String) : Except Fault Nat :=
  (t.find path).map fun
    | .file content _ => content.size
    | .directory _ _ => 0

def list (t : Tree) (path : String) : Except Fault (List (List String)) :=
  match t.find path with
  | .error fault => .error fault
  | .ok (.file _ _) => .error .notDirectory
  | .ok e => .ok e.filePaths

end Tree

end ViewState.Files
