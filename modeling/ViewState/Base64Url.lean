import ViewState.Text.Decimal
import ViewState.Text.Utf8

/-!
Base64 with the URL-safe alphabet and without padding. Every three bytes become four symbols; one or
two bytes at the end become two or three symbols whose unused low bits are zero, so bytes have one
spelling. The decoder names the first fault that it meets.
-/
namespace ViewState.Base64Url

/-- Why a text is not the spelling of any bytes. Offsets count bytes from the start. -/
inductive Defect
  | symbol (byte : UInt8) (offset : Nat)
  | length (n : Nat)
  | lastSymbol (byte : UInt8) (offset : Nat)
  | padding
deriving DecidableEq

def Defect.message : Defect → String
  | symbol byte offset =>
    "Invalid symbol " ++ Text.Decimal.ofNat byte.toNat ++ ", offset " ++
      Text.Decimal.ofNat offset ++ "."
  | length n => "Invalid input length: " ++ Text.Decimal.ofNat n
  | lastSymbol byte offset =>
    "Invalid last symbol " ++ Text.Decimal.ofNat byte.toNat ++ ", offset " ++
      Text.Decimal.ofNat offset ++ "."
  | padding => "Invalid padding"

def symbol (n : Nat) : UInt8 :=
  UInt8.ofNat <|
    if n < 26 then 65 + n
    else if n < 52 then 97 + (n - 26)
    else if n < 62 then 48 + (n - 52)
    else if n = 62 then 45
    else 95

def value? (b : UInt8) : Option Nat :=
  let n := b.toNat
  if 65 ≤ n ∧ n ≤ 90 then some (n - 65)
  else if 97 ≤ n ∧ n ≤ 122 then some (n - 97 + 26)
  else if 48 ≤ n ∧ n ≤ 57 then some (n - 48 + 52)
  else if n = 45 then some 62
  else if n = 95 then some 63
  else none

def isSymbol (b : UInt8) : Bool := (value? b).isSome

/-- The sign that other variants write behind the last symbol. -/
def padSign : UInt8 := 61

/-- Cuts bytes into numbers below 64, in reverse order before those in `acc`. -/
def splitBytes (acc : List Nat) : List UInt8 → List Nat
  | a :: b :: c :: rest =>
    let n := a.toNat * 65536 + b.toNat * 256 + c.toNat
    splitBytes (n % 64 :: n / 64 % 64 :: n / 4096 % 64 :: n / 262144 :: acc) rest
  | [a, b] =>
    let n := a.toNat * 1024 + b.toNat * 4
    n % 64 :: n / 64 % 64 :: n / 4096 :: acc
  | [a] =>
    let n := a.toNat * 16
    n % 64 :: n / 64 :: acc
  | [] => acc

/-- Joins numbers below 64 into bytes, in reverse order before those in `acc`, with what is left
of the last number. -/
def joinBytes (acc : List UInt8) : List Nat → List UInt8 × Nat
  | a :: b :: c :: d :: rest =>
    let n := a * 262144 + b * 4096 + c * 64 + d
    joinBytes (UInt8.ofNat n :: UInt8.ofNat (n / 256) :: UInt8.ofNat (n / 65536) :: acc) rest
  | [a, b, c] =>
    let n := a * 4096 + b * 64 + c
    (UInt8.ofNat (n / 4) :: UInt8.ofNat (n / 1024) :: acc, n % 4)
  | [a, b] =>
    let n := a * 64 + b
    (UInt8.ofNat (n / 16) :: acc, n % 16)
  | [_] => (acc, 0)
  | [] => (acc, 0)

def symbols (bytes : List UInt8) : List UInt8 := (splitBytes [] bytes).reverse.map symbol

def encode (bytes : List UInt8) : String :=
  String.ofList ((symbols bytes).map fun b => Char.ofNat b.toNat)

/-- What the last group of a text holds: the numbers of its symbols, and whether pad signs
follow them. -/
structure LastGroup where
  values : List Nat
  padded : Bool

/-- Reads the last group, which starts at `start`: symbols, then pad signs in the third place or
behind it. `firstPad` is the offset of the first pad sign met. -/
def readLastGroup (start place : Nat) (firstPad : Option Nat) :
    List UInt8 → Except Defect LastGroup
  | [] => .ok ⟨[], firstPad.isSome⟩
  | b :: rest =>
    if b = padSign then
      if place < 2 then .error (.symbol b (start + place))
      else readLastGroup start (place + 1) (firstPad.or (some (start + place))) rest
    else
      match firstPad with
      | some offset => .error (.symbol padSign offset)
      | none =>
        match value? b with
        | none => .error (.symbol b (start + place))
        | some v =>
          (readLastGroup start (place + 1) none rest).map fun g =>
            { g with values := v :: g.values }

/-- A single byte behind the last whole group is looked at before all others. -/
def checkLoneByte (input : List UInt8) : Except Defect Unit :=
  match input.length % 4, input.getLast? with
  | 1, some b =>
    if b = padSign ∨ isSymbol b then .ok () else .error (.symbol b (input.length - 1))
  | _, _ => .ok ()

def readGroups (input : List UInt8) : Except Defect (List Nat) :=
  match input.findIdx? fun b => !isSymbol b with
  | some i => .error (.symbol (input.getD i 0) i)
  | none => .ok (input.filterMap value?)

def decodeBytes (input : List UInt8) : Except Defect (List UInt8) := do
  checkLoneByte input
  let start := (input.length - 1) / 4 * 4
  let (groups, last) := input.splitAt start
  let values ← readGroups groups
  let lastGroup ← readLastGroup start 0 none last
  if input ≠ [] ∧ lastGroup.values.length < 2 then
    throw (.length (start + lastGroup.values.length))
  if lastGroup.padded then throw .padding
  let (reversed, left) := joinBytes [] (values ++ lastGroup.values)
  if left ≠ 0 then
    let offset := start + lastGroup.values.length - 1
    throw (.lastSymbol (input.getD offset 0) offset)
  return reversed.reverse

def decode (text : String) : Except Defect (List UInt8) := decodeBytes (Text.Utf8.encode text)

end ViewState.Base64Url
