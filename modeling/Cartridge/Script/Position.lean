import Cartridge.Total

/-!
# Positions in a text

A span is a range of byte offsets in the UTF-8 form of a text.  A position names the same place by
line and column, both counted from one; columns count characters.
-/

namespace Cartridge.Script

/-- The bytes from `start` up to, not including, `stop`. -/
structure Span where
  start : Nat
  stop : Nat
deriving DecidableEq, Repr

structure Position where
  line : Nat
  column : Nat
deriving DecidableEq, Repr

namespace Position

def first : Position := ⟨1, 1⟩

/-- The position behind the character `c` at `p`. -/
def next (p : Position) (c : Char) : Position :=
  if c = '\n' then ⟨p.line + 1, 1⟩ else ⟨p.line, p.column + 1⟩

/-- The position `offset` bytes further on, for a text that starts at `p`.  An offset past the end
counts as the end, and one inside a character has no position. -/
def walk? (p : Position) : Nat → List Char → Option Position
  | 0, _ => some p
  | _ + 1, [] => some p
  | n + 1, c :: cs =>
    if c.utf8Size ≤ n + 1 then walk? (p.next c) (n + 1 - c.utf8Size) cs else none

def at? (text : List Char) (offset : Nat) : Option Position :=
  first.walk? offset text

def label (p : Position) : String := s!"{p.line}:{p.column}"

end Position

/-- The number of bytes in the UTF-8 form of the characters. -/
def byteLength (cs : List Char) : Nat := total (cs.map Char.utf8Size)

@[simp] theorem byteLength_nil : byteLength [] = 0 := rfl

@[simp] theorem byteLength_cons (c : Char) (cs : List Char) :
    byteLength (c :: cs) = c.utf8Size + byteLength cs := rfl

theorem byteLength_append (cs ds : List Char) :
    byteLength (cs ++ ds) = byteLength cs + byteLength ds := by
  simp [byteLength]

end Cartridge.Script
