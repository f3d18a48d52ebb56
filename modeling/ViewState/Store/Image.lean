import ViewState.Store.Table

/-!
The tables of a store as the bytes of a file: a mark, the count of sequence numbers, and the
entries. The mark is no UTF-8, so such a file is never taken for a text.
-/
namespace ViewState.TableStore

def imageMark : List UInt8 := [0x76, 0x73, 0x64, 0x62, 0x1a, 0xa9, 0x0d, 0x0a]

def counterToWire (n : UInt64) : List UInt8 := Wire.varint n.toNat

def readCounter : Wire.Reader UInt64 := do
  return UInt64.ofNat (← Wire.readVarint Wire.word64)

def entryToWire (e : EntryKey × List UInt8) : List UInt8 :=
  Wire.text e.1.session ++ counterToWire e.1.sequence ++ Wire.bytes e.2

def readEntry : Wire.Reader (EntryKey × List UInt8) := do
  let session ← Wire.readText
  let sequence ← readCounter
  return (⟨session, sequence⟩, ← Wire.readBytes)

def toImage (s : TableStore) : List UInt8 :=
  imageMark ++ Wire.option counterToWire s.counter ++ Wire.list entryToWire s.views.entries

def read : Wire.Reader TableStore := do
  let counter ← Wire.readOption readCounter
  let entries ← Wire.readList readEntry
  return ⟨SortedMap.ofList entries, counter⟩

/-- The store that a file holds. An empty file holds an empty store. -/
def ofImage? (bytes : List UInt8) : Option TableStore :=
  if bytes.isEmpty then some empty
  else if bytes.take imageMark.length = imageMark then
    (read.first (bytes.drop imageMark.length)).toOption
  else none

end ViewState.TableStore
