import ViewState.SortedMap
import ViewState.Text.Utf8

/-!
The compact byte format: numbers as little-endian groups of seven bits, texts and lists with
their length first, a product as its fields one after the other. A reader takes its value from the
front of the bytes and leaves the rest, so a value may be followed by anything.
-/
namespace ViewState.Wire

/-- Why bytes hold no value of the wanted type. -/
inductive Defect
  | endOfInput
  | unendingVarint
  | invalidText
  | invalidOption
  | unknownVariant
deriving DecidableEq

def Defect.message : Defect → String
  | endOfInput => "Hit the end of buffer, expected more data"
  | unendingVarint =>
    "Found a varint that didn't terminate. Is the usize too big for this platform?"
  | invalidText => "Tried to parse invalid utf-8"
  | invalidOption => "Found an Option discriminant that wasn't 0 or 1"
  | unknownVariant => "Serde Deserialization Error"

/-- Takes a value from the front of some bytes. -/
abbrev Reader (α : Type) : Type := StateT (List UInt8) (Except Defect) α

def Reader.first {α : Type} (r : Reader α) (bytes : List UInt8) : Except Defect α :=
  (r.run bytes).map Prod.fst

/-- Seven bits a byte, the least first; the high bit says that more follow. -/
def varint (n : Nat) : List UInt8 :=
  if n < 128 then [UInt8.ofNat n] else UInt8.ofNat (n % 128 + 128) :: varint (n / 128)

/-- How long a varint may be, and the greatest byte in its last place. -/
structure VarintBound where
  bytes : Nat
  last : UInt8

def word64 : VarintBound := ⟨10, 1⟩

def word32 : VarintBound := ⟨5, 15⟩

/-- Takes a number within a bound. Needlessly long forms are taken too. -/
def readVarintUpTo (last : UInt8) : Nat → Reader Nat
  | 0 => throw .unendingVarint
  | left + 1 => do
    match ← get with
    | [] => throw .endOfInput
    | b :: bytes =>
      set bytes
      if b < 128 then
        if left = 0 ∧ last < b then throw .unendingVarint
        return b.toNat
      else
        let high ← readVarintUpTo last left
        return b.toNat - 128 + 128 * high

def readVarint (bound : VarintBound) : Reader Nat := readVarintUpTo bound.last bound.bytes

def readByte : Reader UInt8 := do
  match ← get with
  | [] => throw .endOfInput
  | b :: bytes =>
    set bytes
    return b

def readExactly (n : Nat) : Reader (List UInt8) := do
  let (front, rest) := (← get).splitAt n
  if front.length = n then
    set rest
    return front
  else throw .endOfInput

/-- Bytes with their number first. -/
def bytes (bs : List UInt8) : List UInt8 := varint bs.length ++ bs

def readBytes : Reader (List UInt8) := do
  readExactly (← readVarint word64)

def text (s : String) : List UInt8 := bytes (Text.Utf8.encode s)

def readText : Reader String := do
  match Text.Utf8.decode (← readBytes) with
  | some s => return s
  | none => throw .invalidText

variable {α : Type}

def list (item : α → List UInt8) (as : List α) : List UInt8 :=
  varint as.length ++ as.flatMap item

def readTimes (item : Reader α) : Nat → Reader (List α)
  | 0 => return []
  | n + 1 => do
    let a ← item
    return a :: (← readTimes item n)

def readList (item : Reader α) : Reader (List α) := do
  readTimes item (← readVarint word64)

def entries (value : α → List UInt8) (m : List (String × α)) : List UInt8 :=
  list (fun e => text e.1 ++ value e.2) m

def readEntry (value : Reader α) : Reader (String × α) := do
  let name ← readText
  return (name, ← value)

/-- Takes a map whose entries may stand in any order; the later of two with one name counts. -/
def readEntries (value : Reader α) : Reader (List (String × α)) := do
  return Assoc.ofList (← readList (readEntry value))

def option (value : α → List UInt8) : Option α → List UInt8
  | none => [0]
  | some a => 1 :: value a

def readOption (value : Reader α) : Reader (Option α) := do
  match ← readByte with
  | 0 => return none
  | 1 => return some (← value)
  | _ => throw .invalidOption

end ViewState.Wire
