/-!
Decimal numerals: the shortest one of each number, and a reader of signed numerals. A reader that
takes a numeral for a bounded number refuses what lies outside of the bounds.
-/
namespace ViewState.Text.Decimal

def digitChar (d : Nat) : Char := Char.ofNat ('0'.toNat + d)

def digits (n : Nat) : List Char :=
  if n < 10 then [digitChar n] else digits (n / 10) ++ [digitChar (n % 10)]

def ofNat (n : Nat) : String := String.ofList (digits n)

def ofInt : Int → String
  | .ofNat n => ofNat n
  | .negSucc n => String.ofList ('-' :: digits (n + 1))

def digitValue? (c : Char) : Option Nat :=
  if '0' ≤ c ∧ c ≤ '9' then some (c.toNat - '0'.toNat) else none

/-- The number that digits spell after those that spelled `acc`. -/
def readFrom (acc : Nat) : List Char → Option Nat
  | [] => some acc
  | c :: cs => (digitValue? c).bind fun d => readFrom (10 * acc + d) cs

def readDigits : List Char → Option Nat
  | [] => none
  | cs => readFrom 0 cs

def readSigned : List Char → Option Int
  | '-' :: cs => (readDigits cs).map fun n => -(n : Int)
  | '+' :: cs => (readDigits cs).map Int.ofNat
  | cs => (readDigits cs).map Int.ofNat

def readInt64 (s : String) : Option Int :=
  (readSigned s.toList).filter fun n => -0x8000000000000000 ≤ n ∧ n < 0x8000000000000000

/-- A numeral, with at most a plus sign, for an unsigned word of 64 bits. -/
def readWord64 (s : String) : Option Nat :=
  let unsigned := match s.toList with
    | '+' :: cs => readDigits cs
    | cs => readDigits cs
  unsigned.filter (· < UInt64.size)

end ViewState.Text.Decimal
