import ViewState.Failure
import ViewState.Settings.Record

/-!
Settings documents: a TOML text of lines that give a value to a setting. A document that uses more
of TOML than this (tables, lists, dates, other numbers) gives some setting a value of a wrong type,
so it is refused as a whole, as is one with an unknown or repeated name.
-/
namespace ViewState.Settings.Document

inductive Value
  | text (s : String)
  | int (n : Int)
  | bool (b : Bool)
deriving DecidableEq

def isSpace (c : Char) : Bool := c = ' ' || c = '\t'

/-- Characters that may stand in comments and strings: all but control characters, and the tab. -/
def isPrintable (c : Char) : Bool := c = '\t' || (0x20 ≤ c.toNat && c.toNat ≠ 0x7f)

def isBareKey (c : Char) : Bool := c.isAlphanum || c = '_' || c = '-'

def digit? (base : Nat) (c : Char) : Option Nat :=
  let value :=
    if c.isDigit then some (c.toNat - '0'.toNat)
    else if 'a' ≤ c.toLower ∧ c.toLower ≤ 'f' then some (c.toLower.toNat - 'a'.toNat + 10)
    else none
  value.filter (· < base)

def lineEnd? : List Char → Option (List Char)
  | '\n' :: rest => some rest
  | '\r' :: '\n' :: rest => some rest
  | _ => none

theorem lineEnd_shorter {cs rest : List Char} (h : lineEnd? cs = some rest) :
    rest.length < cs.length := by
  unfold lineEnd? at h
  split at h
  · cases h; simp
  · cases h
    simp only [List.length_cons]
    omega
  · simp at h

def simpleEscape? : Char → Option Char
  | 'b' => some '\x08'
  | 't' => some '\t'
  | 'n' => some '\n'
  | 'f' => some '\x0c'
  | 'r' => some '\r'
  | 'e' => some '\x1b'
  | '"' => some '"'
  | '\\' => some '\\'
  | _ => none

def codeEscape? (digits : List Char) : Option Char := do
  let values ← digits.mapM (digit? 16)
  let code := values.foldl (fun n d => 16 * n + d) 0
  if code.isValidChar then some (Char.ofNat code) else none

/-- The character of the escape that follows a backslash, and what stands behind. -/
def escape? : List Char → Option (Char × List Char)
  | 'x' :: a :: b :: rest => (codeEscape? [a, b]).map (·, rest)
  | 'u' :: a :: b :: c :: d :: rest => (codeEscape? [a, b, c, d]).map (·, rest)
  | 'U' :: a :: b :: c :: d :: e :: f :: g :: h :: rest =>
    (codeEscape? [a, b, c, d, e, f, g, h]).map (·, rest)
  | c :: rest => (simpleEscape? c).map (·, rest)
  | [] => none

theorem escape_shorter {cs rest : List Char} {c : Char} (h : escape? cs = some (c, rest)) :
    rest.length < cs.length := by
  unfold escape? at h
  split at h
  case h_5 => cases h
  all_goals
    obtain ⟨_, _, hc⟩ := Option.map_eq_some_iff.1 h
    cases hc
    simp only [List.length_cons]
    omega

def skipBlankLines : List Char → List Char
  | '\r' :: '\n' :: rest => skipBlankLines rest
  | c :: rest => if isSpace c || c = '\n' then skipBlankLines rest else c :: rest
  | [] => []

theorem length_skipBlankLines_le (cs : List Char) : (skipBlankLines cs).length ≤ cs.length := by
  fun_induction skipBlankLines cs <;> simp_all <;> omega

/-- What follows the white space that a backslash at the end of a line takes away. -/
def gap? (cs : List Char) : Option (List Char) :=
  (lineEnd? (cs.dropWhile isSpace)).map skipBlankLines

theorem gap_shorter {cs rest : List Char} (h : gap? cs = some rest) : rest.length < cs.length := by
  obtain ⟨after, hafter, rfl⟩ := Option.map_eq_some_iff.1 h
  have h₁ := lineEnd_shorter hafter
  have h₂ := length_skipBlankLines_le after
  have h₃ := (List.dropWhile_sublist isSpace (l := cs)).length_le
  omega

/-- The text of a string on one line, and what follows its closing quote. Read characters are in
`acc`, the last first. -/
def readBasic (acc cs : List Char) : Option (List Char × List Char) :=
  match cs with
  | [] => none
  | '"' :: rest => some (acc.reverse, rest)
  | '\\' :: rest =>
    match _h : escape? rest with
    | none => none
    | some (c, rest) => readBasic (c :: acc) rest
  | c :: rest => if isPrintable c then readBasic (c :: acc) rest else none
termination_by cs.length
decreasing_by
  · have := escape_shorter _h
    simp only [List.length_cons]
    omega
  · simp

/-- What stands behind the closing quotes of a string over several lines: up to two more quotes
belong to the text. -/
def closing (acc : List Char) : List Char → List Char × List Char
  | '"' :: '"' :: rest => (('"' :: '"' :: acc).reverse, rest)
  | '"' :: rest => (('"' :: acc).reverse, rest)
  | rest => (acc.reverse, rest)

def readLines (acc cs : List Char) : Option (List Char × List Char) :=
  match cs with
  | [] => none
  | '"' :: '"' :: '"' :: rest => some (closing acc rest)
  | '\\' :: rest =>
    match _hg : gap? rest, _he : escape? rest with
    | some rest, _ => readLines acc rest
    | none, some (c, rest) => readLines (c :: acc) rest
    | none, none => none
  | '\r' :: '\n' :: rest => readLines ('\n' :: '\r' :: acc) rest
  | c :: rest => if isPrintable c || c = '\n' then readLines (c :: acc) rest else none
termination_by cs.length
decreasing_by
  · have := gap_shorter _hg
    simp only [List.length_cons]
    omega
  · have := escape_shorter _he
    simp only [List.length_cons]
    omega
  · simp only [List.length_cons]
    omega
  · simp

def readLiteral (acc : List Char) : List Char → Option (List Char × List Char)
  | [] => none
  | '\'' :: rest => some (acc.reverse, rest)
  | c :: rest => if isPrintable c then readLiteral (c :: acc) rest else none

/-- What stands behind three closing apostrophes: up to two more belong to the text. -/
def closingLiteral (acc : List Char) : List Char → List Char × List Char
  | '\'' :: '\'' :: rest => (('\'' :: '\'' :: acc).reverse, rest)
  | '\'' :: rest => (('\'' :: acc).reverse, rest)
  | rest => (acc.reverse, rest)

def readLiteralLines (acc : List Char) : List Char → Option (List Char × List Char)
  | [] => none
  | '\'' :: '\'' :: '\'' :: rest => some (closingLiteral acc rest)
  | '\r' :: '\n' :: rest => readLiteralLines ('\n' :: '\r' :: acc) rest
  | c :: rest => if isPrintable c || c = '\n' then readLiteralLines (c :: acc) rest else none

/-- A line end right behind opening quotes does not count. -/
def skipLineEnd (cs : List Char) : List Char := (lineEnd? cs).getD cs

def lineString? : List Char → Option (List Char × List Char)
  | '"' :: rest => readBasic [] rest
  | '\'' :: rest => readLiteral [] rest
  | _ => none

def string? : List Char → Option (List Char × List Char)
  | '"' :: '"' :: '"' :: rest => readLines [] (skipLineEnd rest)
  | '\'' :: '\'' :: '\'' :: rest => readLiteralLines [] (skipLineEnd rest)
  | cs => lineString? cs

/-- The number of digits that single underscores may divide. -/
def readDivided (base acc : Nat) : List Char → Option Nat
  | [] => some acc
  | '_' :: c :: rest => do readDivided base (base * acc + (← digit? base c)) rest
  | c :: rest => do readDivided base (base * acc + (← digit? base c)) rest

/-- The number of one or more digits; underscores stand between digits only. -/
def readNumber (base : Nat) : List Char → Option Nat
  | [] => none
  | c :: rest => do readDivided base (← digit? base c) rest

def readDecimal : List Char → Option Nat
  | ['0'] => some 0
  | '0' :: _ => none
  | cs => readNumber 10 cs

def readInteger : List Char → Option Int
  | '0' :: 'x' :: cs => (readNumber 16 cs).map Int.ofNat
  | '0' :: 'o' :: cs => (readNumber 8 cs).map Int.ofNat
  | '0' :: 'b' :: cs => (readNumber 2 cs).map Int.ofNat
  | '+' :: cs => (readDecimal cs).map Int.ofNat
  | '-' :: cs => (readDecimal cs).map fun n => -(n : Int)
  | cs => (readDecimal cs).map Int.ofNat

def plain? (word : List Char) : Option Value :=
  if word = "true".toList then some (.bool true)
  else if word = "false".toList then some (.bool false)
  else (readInteger word).map .int

def isPlain (c : Char) : Bool := !isSpace c && c ≠ '\n' && c ≠ '\r' && c ≠ '#'

def value? (cs : List Char) : Option (Value × List Char) :=
  match cs with
  | '"' :: _ | '\'' :: _ => (string? cs).map fun (s, rest) => (.text (String.ofList s), rest)
  | _ => (plain? (cs.takeWhile isPlain)).map (·, cs.dropWhile isPlain)

def name? (cs : List Char) : Option (List Char × List Char) :=
  match cs with
  | '"' :: _ | '\'' :: _ => lineString? cs
  | _ =>
    let name := cs.takeWhile isBareKey
    if name.isEmpty then none else some (name, cs.dropWhile isBareKey)

def skipSpaces (cs : List Char) : List Char := cs.dropWhile isSpace

/-- What follows the rest of a line, in which only a comment may stand. -/
def restOfLine? (cs : List Char) : Option (List Char) :=
  let cs := match skipSpaces cs with
    | '#' :: comment => comment.dropWhile isPrintable
    | cs => cs
  if cs.isEmpty then some [] else lineEnd? cs

def assignment? (cs : List Char) : Option ((String × Value) × List Char) := do
  let (name, cs) ← name? cs
  match skipSpaces cs with
  | '=' :: cs =>
    let (value, cs) ← value? (skipSpaces cs)
    return ((String.ofList name, value), ← restOfLine? cs)
  | _ => none

def assignments? : (lines : Nat) → List Char → Option (List (String × Value))
  | _, [] => some []
  | 0, _ => none
  | lines + 1, cs =>
    match restOfLine? cs with
    | some rest => assignments? lines rest
    | none => do
      let (entry, rest) ← assignment? (skipSpaces cs)
      return entry :: (← assignments? lines rest)

def field : Key → String
  | .stateSaving => "state_saving_method"
  | .refreshPeriod => "refresh_period"
  | .viewMetadataRefresh => "view_metadata_refresh_period"
  | .compositeMetadataRefresh => "composite_metadata_refresh_period"
  | .viewsInSession => "number_of_views_in_session"
  | .idTableSize => "component_unique_ids_cache_size"
  | .clientSecret => "client_state_secret"
  | .buildingViewMetadata => "building_view_metadata"
  | .refreshingTransientBuild => "refreshing_transient_build"
  | .markInitialState => "mark_initial_state"

def int64? (n : Int) : Option Int :=
  if -0x8000000000000000 ≤ n ∧ n < 0x8000000000000000 then some n else none

def word64? (n : Int) : Option Nat := if 0 ≤ n ∧ n < UInt64.size then some n.toNat else none

/-- Gives a setting a value, if the value has the type of the setting. -/
def assign (r : Record) : Key → Value → Option Record
  | .stateSaving, .text s => some { r with stateSaving := some s }
  | .refreshPeriod, .int n => (int64? n).map fun n => { r with refreshPeriod := some n }
  | .viewMetadataRefresh, .int n =>
    (int64? n).map fun n => { r with viewMetadataRefresh := some n }
  | .compositeMetadataRefresh, .int n =>
    (int64? n).map fun n => { r with compositeMetadataRefresh := some n }
  | .viewsInSession, .int n => (word64? n).map fun n => { r with viewsInSession := some n }
  | .idTableSize, .int n => (word64? n).map fun n => { r with idTableSize := some n }
  | .clientSecret, .text s => some { r with clientSecret := some s }
  | .buildingViewMetadata, .bool b => some { r with buildingViewMetadata := some b }
  | .refreshingTransientBuild, .bool b => some { r with refreshingTransientBuild := some b }
  | .markInitialState, .bool b => some { r with markInitialState := some b }
  | _, _ => none

def assignNew (r : Record) (line : String × Value) : Option Record := do
  let key ← Key.all.find? (field · = line.1)
  if (r.get key).isSome then none else assign r key line.2

/-- A mark that may stand before the text. -/
def byteOrderMark : Char := '\ufeff'

def parse? (text : String) : Option Record := do
  let cs := match text.toList with
    | c :: cs => if c = byteOrderMark then cs else c :: cs
    | [] => []
  let lines ← assignments? (cs.length + 1) cs
  lines.foldlM assignNew .empty

def parse (text : String) : Except Failure Record :=
  match parse? text with
  | some r => .ok r
  | none => .error (.malformed .settings)

end ViewState.Settings.Document
