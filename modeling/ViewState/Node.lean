import ViewState.SortedMap

/-!
Nodes of a view tree: children in order, and facets, which are named places for one node each.
A node that a template instruction made carries a creation id.
-/
namespace ViewState

/-- What a node stands for in its tree. -/
inductive Role
  /-- A node with an identity of its own. -/
  | component
  /-- A node that only groups the children of a facet; their identity counts, not its own. -/
  | wrapper
deriving DecidableEq, Inhabited

structure Node where
  kind : String
  creationId : Option String
  role : Role
  attributes : List (String × String)
  children : List Node
  facets : List (String × Node)

namespace Node

def ofKind (kind : String) : Node := ⟨kind, none, .component, [], [], []⟩

instance : Inhabited Node := ⟨ofKind ""⟩

mutual

/-- Attributes and facets of every node stand in ascending order of their names. -/
def Ordered : Node → Prop
  | ⟨_, _, _, attributes, children, facets⟩ =>
    Assoc.Sorted attributes ∧ Assoc.Sorted facets ∧ AllOrdered children ∧ FacetsOrdered facets

def AllOrdered : List Node → Prop
  | [] => True
  | n :: ns => n.Ordered ∧ AllOrdered ns

def FacetsOrdered : List (String × Node) → Prop
  | [] => True
  | (_, n) :: fs => n.Ordered ∧ FacetsOrdered fs

end

mutual

private def decideEq : (a b : Node) → Decidable (a = b)
  | ⟨k, i, r, as, cs, fs⟩, ⟨k', i', r', as', cs', fs'⟩ =>
    match decEq k k', decEq i i', decEq r r', decEq as as', decideListEq cs cs',
      decideFacetsEq fs fs' with
    | isTrue h₁, isTrue h₂, isTrue h₃, isTrue h₄, isTrue h₅, isTrue h₆ =>
      isTrue (by subst h₁ h₂ h₃ h₄ h₅ h₆; rfl)
    | isFalse h, _, _, _, _, _ => isFalse (by simp [h])
    | _, isFalse h, _, _, _, _ => isFalse (by simp [h])
    | _, _, isFalse h, _, _, _ => isFalse (by simp [h])
    | _, _, _, isFalse h, _, _ => isFalse (by simp [h])
    | _, _, _, _, isFalse h, _ => isFalse (by simp [h])
    | _, _, _, _, _, isFalse h => isFalse (by simp [h])

private def decideListEq : (a b : List Node) → Decidable (a = b)
  | [], [] => isTrue rfl
  | [], _ :: _ => isFalse (by simp)
  | _ :: _, [] => isFalse (by simp)
  | n :: ns, m :: ms =>
    match decideEq n m, decideListEq ns ms with
    | isTrue h₁, isTrue h₂ => isTrue (by rw [h₁, h₂])
    | isFalse h, _ => isFalse (by simp [h])
    | _, isFalse h => isFalse (by simp [h])

private def decideFacetsEq : (a b : List (String × Node)) → Decidable (a = b)
  | [], [] => isTrue rfl
  | [], _ :: _ => isFalse (by simp)
  | _ :: _, [] => isFalse (by simp)
  | (k, n) :: ns, (l, m) :: ms =>
    match decEq k l, decideEq n m, decideFacetsEq ns ms with
    | isTrue h₀, isTrue h₁, isTrue h₂ => isTrue (by rw [h₀, h₁, h₂])
    | isFalse h, _, _ => isFalse (by simp [h])
    | _, isFalse h, _ => isFalse (by simp [h])
    | _, _, isFalse h => isFalse (by simp [h])

end

instance : DecidableEq Node := decideEq

def isWrapper (n : Node) : Bool := n.role = .wrapper

def hasId (id : String) (n : Node) : Bool := n.creationId = some id

def withId (n : Node) (id : String) : Node := { n with creationId := some id }

def withAttribute (n : Node) (name value : String) : Node :=
  { n with attributes := Assoc.insert name value n.attributes }

def withChild (n child : Node) : Node := { n with children := n.children ++ [child] }

def withFacet (n : Node) (name : String) (facet : Node) : Node :=
  { n with facets := Assoc.insert name facet n.facets }

def child? (n : Node) (id : String) : Option Node := n.children.find? (hasId id)

def modifyChild (n : Node) (id : String) (f : Node → Node) : Node :=
  match n.children.findIdx? (hasId id) with
  | some i => { n with children := n.children.modify i f }
  | none => n

mutual

/-- The first node with a creation id: the node itself, then its facets in the order of their
names, then its children. -/
def find? (id : String) : Node → Option Node
  | n@⟨_, creationId, _, _, children, facets⟩ =>
    if creationId = some id then some n
    else (findInFacets? id facets).or (findInList? id children)

def findInList? (id : String) : List Node → Option Node
  | [] => none
  | n :: ns => (n.find? id).or (findInList? id ns)

def findInFacets? (id : String) : List (String × Node) → Option Node
  | [] => none
  | (_, n) :: fs => (n.find? id).or (findInFacets? id fs)

end

mutual

def size : Node → Nat
  | ⟨_, _, _, _, children, facets⟩ => 1 + sizeOfFacets facets + sizeOfList children

def sizeOfList : List Node → Nat
  | [] => 0
  | n :: ns => n.size + sizeOfList ns

def sizeOfFacets : List (String × Node) → Nat
  | [] => 0
  | (_, n) :: fs => n.size + sizeOfFacets fs

end

end Node

end ViewState
