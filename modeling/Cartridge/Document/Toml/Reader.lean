import Cartridge.Document.Toml.Number
import Cartridge.Document.Toml.Text

/-!
# Values and lines of TOML

A document is a list of lines: headers of tables, headers of elements of lists of tables, and keys
with values.  Values are nested and paths are long up to a fixed depth.

A loop over items, pairs or lines takes a bound of its turns, which the length of the text is: every
turn reads at least one character.
-/

namespace Cartridge.Document.Toml

/-- How deep lists and inline tables may be nested, and how many keys a path may have. -/
def maxDepth : Nat := 80

/-- A value, where inline tables still hold the paths of their keys. -/
inductive Term where
  | plain (v : Value)
  | list (items : List Term)
  | table (pairs : List (List String × Term))
deriving Inhabited

/-! ### Values -/

def isPlainPart (c : Char) : Bool :=
  c.isAlphanum || c == '+' || c == '-' || c == '_' || c == '.' || c == ':'

/-- The time behind a date and one space. -/
def timePart (date rest : List Char) : List Char :=
  match rest with
  | ' ' :: c :: cs =>
    if date.length = 10 && c.isDigit then ' ' :: (c :: cs).takeWhile isPlainPart else []
  | _ => []

/-- A value that is no list and no table. -/
def plain : Reader Term
  | '"' :: cs => text ('"' :: cs)
  | '\'' :: cs => text ('\'' :: cs)
  | cs =>
    let part := cs.takeWhile isPlainPart
    let whole := part ++ timePart part (cs.drop part.length)
    (plainValue? whole).map fun v => (.plain v, cs.drop whole.length)
where
  text (cs : List Char) : Option (Term × List Char) :=
    (string cs).map fun (s, rest) => (.plain (.text s), rest)

/-- The items of a list, the latest first in `read`, up to its closing bracket. -/
def items (element : Reader Term) : Nat → List Term → Reader Term
  | 0, _, _ => none
  | turns + 1, read, cs =>
    match gap false cs with
    | none => none
    | some (']' :: rest) => some (.list read.reverse, rest)
    | some start =>
      match element start with
      | none => none
      | some (item, rest) =>
        match gap false rest with
        | some (',' :: more) => items element turns (item :: read) more
        | some (']' :: more) => some (.list (item :: read).reverse, more)
        | _ => none

/-- A path, an equals sign and a value, where `skip` passes over what may stand around the sign. -/
def pair (skip : List Char → Option (List Char)) (element : Reader Term) :
    Reader (List String × Term) := fun cs =>
  match path maxDepth cs with
  | none => none
  | some (names, rest) =>
    match skip rest with
    | some ('=' :: more) =>
      match skip more with
      | none => none
      | some start => (element start).map fun (v, rest) => ((names, v), rest)
    | _ => none

/-- The pairs of an inline table, the latest first in `read`, up to its closing brace. -/
def pairs (element : Reader Term) : Nat → List (List String × Term) → Reader Term
  | 0, _, _ => none
  | turns + 1, read, cs =>
    match gap false cs with
    | none => none
    | some ('\x7d' :: rest) => some (.table read.reverse, rest)
    | some start =>
      match pair (gap false) element start with
      | none => none
      | some (p, rest) =>
        match gap false rest with
        | some (',' :: more) => pairs element turns (p :: read) more
        | some ('\x7d' :: more) => some (.table (p :: read).reverse, more)
        | _ => none

/-- A value in which lists and tables are nested at most `depth` deep. -/
def value (turns : Nat) : Nat → Reader Term
  | 0 => plain
  | depth + 1 => fun cs =>
    match cs with
    | '[' :: rest => items (value turns depth) turns [] rest
    | '\x7b' :: rest => pairs (value turns depth) turns [] rest
    | cs => plain cs

/-! ### Lines -/

inductive Line where
  | header (path : List String)
  | element (path : List String)
  | pair (path : List String) (v : Term)

/-- A header up to its closing brackets. -/
def headerRest (close : List Char) (line : List String → Line) (cs : List Char) :
    Option (Line × List Char) :=
  match path maxDepth (spaces cs) with
  | none => none
  | some (names, rest) =>
    let rest := spaces rest
    if close.isPrefixOf rest then some (line names, rest.drop close.length) else none

/-- One line without its end. -/
def line (turns : Nat) : Reader Line
  | '[' :: '[' :: cs => headerRest [']', ']'] .element cs
  | '[' :: cs => headerRest [']'] .header cs
  | cs =>
    (pair (some ∘ spaces) (value turns maxDepth) cs).map fun ((names, v), rest) =>
      (.pair names v, rest)

/-- The lines of a text of at most `size` characters, in front of which the lines in `read` stand,
the latest first. -/
def linesFrom (size : Nat) : Nat → List Line → List Char → Option (List Line)
  | 0, _, _ => none
  | turns + 1, read, cs =>
    match gap false cs with
    | none => none
    | some [] => some read.reverse
    | some start =>
      match line size start with
      | none => none
      | some (l, rest) => (lineEnd false rest).bind (linesFrom size turns (l :: read))

/-- A byte order mark in front of a text does not belong to it. -/
def dropMark : List Char → List Char
  | '\ufeff' :: cs => cs
  | cs => cs

def lines (cs : List Char) : Option (List Line) :=
  linesFrom (cs.length + 1) (cs.length + 1) [] (dropMark cs)

end Cartridge.Document.Toml
