import Cartridge.Noted
import Cartridge.Text.Name

/-!
# Name indexes

The names of one collection of resources, in the order of declaration.  A name stands for the index
of its first declaration.
-/

namespace Cartridge

/-- Whether the name at index `i` has been declared before. -/
def isRepeated (names : List String) (i : Nat) (name : String) : Bool :=
  (names.take i).contains name

structure NameIndex where
  names : List String
deriving Repr

namespace NameIndex

def get? (index : NameIndex) (name : String) : Option Nat :=
  index.names.findIdx? (· == name)

def contains (index : NameIndex) (name : String) : Bool := index.names.contains name

/-- The number of different names. -/
def size (index : NameIndex) : Nat := index.names.eraseDups.length

def isEmpty (index : NameIndex) : Bool := index.names.isEmpty

/-- What is wrong with the name at index `i`. -/
def problems (kind : ResourceKind) (names : List String) (i : Nat) (name : String) : Report :=
  (if Text.isName name then [] else
    [⟨.error, kind, name, .item i, s!"invalid {kind.label} name"⟩]) ++
  (if isRepeated names i name then
    [⟨.error, kind, name, .item i, s!"duplicate {kind.label} name"⟩] else [])

def review (kind : ResourceKind) (names : List String) : Report :=
  names.zipIdx.flatMap fun (name, i) => problems kind names i name

/-- Reports invalid and duplicate names. -/
def build (kind : ResourceKind) (names : List String) : Noted NameIndex := do
  Noted.tell (review kind names)
  return ⟨names⟩

end NameIndex

end Cartridge
