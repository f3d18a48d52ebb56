import ViewState.Failure
import ViewState.Hash.Blake3
import ViewState.Text.Blank
import ViewState.Ticket

/-!
Payloads that carry the state of a view to the client and back: a header, the view with its state,
and under a key the keyed digest of both. Under a key nothing is read from a payload before its
digest is found right.
-/
namespace ViewState

structure Header where
  magic : Vector UInt8 4
  version : UInt8
  flags : UInt8
deriving DecidableEq

namespace Header

def magicBytes : Vector UInt8 4 := #v[0x56, 0x4b, 0x53, 0x54]

def new (signed : Bool) : Header := ⟨magicBytes, 1, if signed then 1 else 0⟩

/-- Whether a keyed digest follows the body: the lowest flag. -/
def signed (h : Header) : Bool := h.flags &&& 1 ≠ 0

def toBytes (h : Header) : List UInt8 := h.magic.toList ++ [h.version, h.flags]

def ofBytes : List UInt8 → Except Failure Header
  | a :: b :: c :: d :: version :: flags :: _ => .ok ⟨#v[a, b, c, d], version, flags⟩
  | _ => .error (.malformed .shortHeader)

def validate (h : Header) : Except Failure Unit :=
  if h.magic ≠ magicBytes then .error (.malformed .magic)
  else if h.version ≠ 1 then .error (.malformed (.version h.version))
  else .ok ()

end Header

namespace Envelope

/-- The greatest number of bytes of a payload or a state. -/
def limit : Nat := 16 * 1024 * 1024

def headerLength : Nat := 6

def tagLength : Nat := 32

def keyOf (h : Hash) (secret : String) : Digest :=
  h.deriveKey "viewkeep client state 2026-01 mac key" (Text.Utf8.encode secret)

/-- Header and body of a payload: what the digest covers. -/
def content (signed : Bool) (s : SavedView) : List UInt8 :=
  (Header.new signed).toBytes ++ s.toWire

def payloadBytes (h : Hash) (key : Option Digest) (s : SavedView) : List UInt8 :=
  match key with
  | some key => content true s ++ (h.keyed key (content true s)).toList
  | none => content false s

def pack (h : Hash) (key : Option Digest) (s : SavedView) : Except Failure String :=
  let payload := Base64Url.encode (payloadBytes h key s)
  if limit < payload.utf8ByteSize then .error (.tooLarge payload.utf8ByteSize limit)
  else .ok payload

/-- The bytes of the body, once it is known that they may be read. -/
def body (h : Hash) (key : Option Digest) (view : String) (signed : Bool) (bytes : List UInt8) :
    Except Failure (List UInt8) :=
  let covered := bytes.length - tagLength
  let longEnough := headerLength + tagLength ≤ bytes.length
  match key, signed with
  | some key, true =>
    let (content, tag) := bytes.splitAt covered
    if longEnough ∧ (h.keyed key content).toList = tag then .ok (content.drop headerLength)
    else .error (.tampered view)
  | some _, false => .error (.tampered view)
  | none, true =>
    if longEnough then .ok ((bytes.take covered).drop headerLength)
    else .error (.malformed .truncated)
  | none, false => .ok (bytes.drop headerLength)

/-- The state that a payload holds for a view; nothing if it is the payload of another view. -/
def unpack (h : Hash) (key : Option Digest) (view payload : String) :
    Except Failure (Option (List UInt8)) := do
  if limit < payload.utf8ByteSize then throw (.tooLarge payload.utf8ByteSize limit)
  let bytes ← (Base64Url.decode (Text.trim payload)).mapError (.malformed ∘ .payload)
  let header ← Header.ofBytes bytes
  header.validate
  let body ← body h key view header.signed bytes
  let saved ← (SavedView.read.first body).mapError (.malformed ∘ .payloadBody)
  return if saved.view = view then some saved.state else none

end Envelope

end ViewState
