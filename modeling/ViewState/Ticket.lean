import ViewState.Base64Url
import ViewState.Hash.Blake3
import ViewState.Text.Blank
import ViewState.Wire.Basic

/-!
Views that are saved, and tickets for those that are kept on the server. The text of a ticket
carries its sequence number and a digest of the view, never the view itself, so its length does not
grow with the view.
-/
namespace ViewState

/-- A view together with its state, as it stands in a payload and in the tables of a store. -/
structure SavedView where
  view : String
  state : List UInt8
deriving DecidableEq

namespace SavedView

def toWire (s : SavedView) : List UInt8 := Wire.text s.view ++ Wire.bytes s.state

def read : Wire.Reader SavedView := do
  let view ← Wire.readText
  return ⟨view, ← Wire.readBytes⟩

end SavedView

/-- The sequence number of a saved state, and the view that it is a state of. -/
structure Ticket where
  view : String
  sequence : UInt64
deriving DecidableEq

structure PostedTicket where
  sequence : UInt64
  digest : Digest
deriving DecidableEq

def viewDigest (h : Hash) (view : String) : Digest := h.digest (Text.Utf8.encode view)

namespace PostedTicket

/-- The longest text that is looked at. -/
def longest : Nat := 64

def toWire (p : PostedTicket) : List UInt8 := Wire.varint p.sequence.toNat ++ p.digest.toList

def readDigest : Wire.Reader Digest := do
  let bytes ← Wire.readExactly 32
  if h : bytes.toArray.size = 32 then return ⟨bytes.toArray, h⟩ else throw .endOfInput

def read : Wire.Reader PostedTicket := do
  let sequence ← Wire.readVarint Wire.word64
  return ⟨UInt64.ofNat sequence, ← readDigest⟩

/-- Reads the text of a ticket; white space around it does not count. -/
def parse (raw : String) : Option PostedTicket :=
  let raw := Text.trim raw
  if raw.isEmpty ∨ longest < raw.utf8ByteSize then none
  else do
    let bytes ← (Base64Url.decode raw).toOption
    (read.first bytes).toOption

def forView (h : Hash) (p : PostedTicket) (view : String) : Option Ticket :=
  if p.digest = viewDigest h view then some ⟨view, p.sequence⟩ else none

end PostedTicket

namespace Ticket

def posted (h : Hash) (t : Ticket) : PostedTicket := ⟨t.sequence, viewDigest h t.view⟩

def encode (h : Hash) (t : Ticket) : String := Base64Url.encode (t.posted h).toWire

def label (t : Ticket) : String := t.view ++ "#" ++ Text.Decimal.ofNat t.sequence.toNat

end Ticket

end ViewState
