import ViewState.Node
import ViewState.Wire.Basic

/-!
The wire form of nodes: kind, creation id, role, attributes, children and facets, in this order.
-/
namespace ViewState

namespace Role

def toWire : Role → List UInt8
  | component => Wire.varint 0
  | wrapper => Wire.varint 1

def read : Wire.Reader Role := do
  match ← Wire.readVarint Wire.word32 with
  | 0 => return component
  | 1 => return wrapper
  | _ => throw .unknownVariant

end Role

namespace Node

mutual

def toWire : Node → List UInt8
  | ⟨kind, creationId, role, attributes, children, facets⟩ =>
    Wire.text kind ++ Wire.option Wire.text creationId ++ role.toWire ++
      Wire.entries Wire.text attributes ++
      (Wire.varint children.length ++ childrenToWire children) ++
      (Wire.varint facets.length ++ facetsToWire facets)

def childrenToWire : List Node → List UInt8
  | [] => []
  | n :: ns => n.toWire ++ childrenToWire ns

def facetsToWire : List (String × Node) → List UInt8
  | [] => []
  | (name, n) :: fs => Wire.text name ++ n.toWire ++ facetsToWire fs

end

/-- Takes a node whose depth is at most `depth`. -/
def readUpTo : (depth : Nat) → Wire.Reader Node
  | 0 => throw .endOfInput
  | depth + 1 => do
    let kind ← Wire.readText
    let creationId ← Wire.readOption Wire.readText
    let role ← Role.read
    let attributes ← Wire.readEntries Wire.readText
    let children ← Wire.readList (readUpTo depth)
    let facets ← Wire.readEntries (readUpTo depth)
    return ⟨kind, creationId, role, attributes, children, facets⟩

/-- Takes a node. Each level of a tree takes at least one byte, so the number of bytes bounds the
depth. -/
def read : Wire.Reader Node := do
  readUpTo ((← get).length + 1)

end Node

end ViewState
