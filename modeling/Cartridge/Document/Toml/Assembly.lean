import Cartridge.Document.Decode
import Cartridge.Document.Toml.Reader

/-!
# From lines to a document

Every key is given a value once, and every table is defined once.  A table that a header or a dotted
key only passes through may be added to in the same way; inline tables and lists are closed.  The
entries of a table are kept in alphabetical order.
-/

namespace Cartridge.Document.Toml

/-- How a table came to be. -/
inductive Origin where
  /-- A header passes through it. -/
  | implied
  /-- It has a header of its own. -/
  | defined
  /-- A dotted key passes through it. -/
  | dotted
deriving DecidableEq, Repr

/-- A document that is being put together.  The elements of a list of tables stand the latest first. -/
inductive Tree where
  | leaf (v : Value)
  | table (origin : Origin) (entries : List (String × Tree))
  | tables (elements : List (List (String × Tree)))

abbrev Entries := List (String × Tree)

namespace Entries

def entry? (es : Entries) (name : String) : Option Tree :=
  (es.find? fun e => e.1 == name).map Prod.snd

/-- Replaces the entry of a name, or adds it in its place. -/
def put (es : Entries) (name : String) (t : Tree) : Entries :=
  match es with
  | [] => [(name, t)]
  | e :: es =>
    if e.1 = name then (name, t) :: es
    else if name < e.1 then (name, t) :: e :: es
    else e :: put es name t

/-- Changes the table at the path of a header. -/
def under (f : Entries → Option Entries) : List String → Entries → Option Entries
  | [], es => f es
  | name :: names, es =>
    match es.entry? name with
    | none => (under f names []).map fun sub => es.put name (.table .implied sub)
    | some (.table origin sub) =>
      (under f names sub).map fun sub => es.put name (.table origin sub)
    | some (.tables (last :: earlier)) =>
      (under f names last).map fun last => es.put name (.tables (last :: earlier))
    | _ => none

/-- Gives a value to a dotted key.  The table that gets the value is one that only dotted keys made;
none on the way to it has a header of its own. -/
def assign (v : Value) : List String → Entries → Option Entries
  | [], _ => none
  | [name], es =>
    match es.entry? name with
    | none => some (es.put name (.leaf v))
    | some _ => none
  | name :: names, es =>
    match es.entry? name with
    | none => (assign v names []).map fun sub => es.put name (.table .dotted sub)
    | some (.table origin sub) =>
      if origin = .defined ∨ (origin = .implied ∧ names.length = 1) then none
      else (assign v names sub).map fun sub => es.put name (.table origin sub)
    | some (.tables (last :: earlier)) =>
      if names.length = 1 then none
      else (assign v names last).map fun last => es.put name (.tables (last :: earlier))
    | _ => none

/-- Defines a table; a table that headers have only passed through may still be defined. -/
def define (name : String) (es : Entries) : Option Entries :=
  match es.entry? name with
  | none => some (es.put name (.table .defined []))
  | some (.table .implied sub) => some (es.put name (.table .defined sub))
  | _ => none

/-- Adds an empty element to a list of tables. -/
def extend (name : String) (es : Entries) : Option Entries :=
  match es.entry? name with
  | none => some (es.put name (.tables [[]]))
  | some (.tables elements) => some (es.put name (.tables ([] :: elements)))
  | _ => none

/-- Applies a change of one entry to the last name of a path. -/
def atLast (f : String → Entries → Option Entries) (path : List String) (es : Entries) :
    Option Entries :=
  match path.getLast? with
  | none => none
  | some name => under (f name) path.dropLast es

end Entries

mutual

def Tree.toValue : Tree → Value
  | .leaf v => v
  | .table _ es => .table (valuesOf es)
  | .tables elements => .list (elementsOf elements).reverse

def valuesOf : List (String × Tree) → List (String × Value)
  | [] => []
  | (name, t) :: es => (name, t.toValue) :: valuesOf es

def elementsOf : List (List (String × Tree)) → List Value
  | [] => []
  | es :: rest => .table (valuesOf es) :: elementsOf rest

end

mutual

/-- The value of a term whose inline tables have no conflicting keys. -/
def Term.toValue? : Term → Option Value
  | .plain v => some v
  | .list items => (itemsToValues? items).map .list
  | .table pairs => (pairsToEntries? [] pairs).map fun es => .table (valuesOf es)

def itemsToValues? : List Term → Option (List Value)
  | [] => some []
  | t :: ts =>
    match t.toValue? with
    | none => none
    | some v => (itemsToValues? ts).map (v :: ·)

/-- Adds the pairs of an inline table to entries. -/
def pairsToEntries? (es : Entries) : List (List String × Term) → Option Entries
  | [] => some es
  | (names, t) :: rest =>
    match t.toValue? with
    | none => none
    | some v =>
      match es.assign v names with
      | none => none
      | some es => pairsToEntries? es rest

end

/-- A document with the path of the table that pairs are added to. -/
structure Draft where
  root : Entries
  current : List String

namespace Draft

def empty : Draft := ⟨[], []⟩

def add (d : Draft) : Line → Option Draft
  | .header path => (d.root.atLast Entries.define path).map (⟨·, path⟩)
  | .element path => (d.root.atLast Entries.extend path).map (⟨·, path⟩)
  | .pair path t =>
    match t.toValue? with
    | none => none
    | some v => (d.root.under (Entries.assign v path) d.current).map (⟨·, d.current⟩)

end Draft

/-- The document that a text stands for. -/
def read? (text : String) : Option Value :=
  match lines text.toList with
  | none => none
  | some ls => (ls.foldlM Draft.add Draft.empty).map fun d => .table (valuesOf d.root)

/-- A table or a list without content adds nothing to a choice, and surplus items are allowed. -/
def dialect : Dialect where
  isUnit
    | .table [] => true
    | .list [] => true
    | _ => false
  allowsSurplus := true

/-- Decodes a document from its text. -/
def decode {α : Type} (f : Decoder α) (text : String) : Decoded α :=
  match read? text with
  | none => .error .shape
  | some v => (f v).run dialect

end Cartridge.Document.Toml
