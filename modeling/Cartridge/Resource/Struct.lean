import Cartridge.Resource.FieldType
import Cartridge.Resource.NameIndex
import Cartridge.Total

/-!
# Entity structs

A struct lists typed fields and may extend one parent, whose fields come before its own.  Structs are
resolved in passes: a pass resolves every struct whose parent is resolved, and the passes end when
one resolves nothing.  What is left then has a missing or a circular parent.
-/

namespace Cartridge

structure StructField where
  name : String
  type : FieldType
  default : Option String
deriving DecidableEq, Repr

structure EntityStruct where
  name : String
  parent : Option String
  fields : List StructField
deriving DecidableEq, Repr

structure ResolvedField where
  name : String
  type : FieldType
  default : Option Int
deriving DecidableEq, Repr

/-- A struct with the fields of its parent in front of its own. -/
structure ResolvedStruct where
  name : String
  fields : List ResolvedField
deriving DecidableEq, Repr

namespace ResolvedStruct

def field? (s : ResolvedStruct) (name : String) : Option ResolvedField :=
  s.fields.find? fun f => f.name == name

/-- The encoded size in bytes. -/
def size (s : ResolvedStruct) : Nat := total (s.fields.map fun f => f.type.size)

end ResolvedStruct

inductive FieldProblem where
  | invalidName (name : String)
  | inherited (name : String)
  | duplicate (name : String)
  | badDefault (name : String) (cause : ValueError)
deriving DecidableEq, Repr

def FieldProblem.message : FieldProblem → String
  | invalidName name => s!"invalid field name: {name}"
  | inherited name => s!"field {name} is already declared in a parent struct"
  | duplicate name => s!"duplicate field name: {name}"
  | badDefault name cause => s!"default of field {name}: {cause.message}"

namespace StructField

/-- The value of the default; a bad default counts as none. -/
def default? (f : StructField) : Option Int :=
  f.default.bind fun text => (f.type.parse text).toOption

def resolve (f : StructField) : ResolvedField := ⟨f.name, f.type, f.default?⟩

def defaultProblems (f : StructField) : List FieldProblem :=
  match f.default with
  | none => []
  | some text =>
    match f.type.parse text with
    | .ok _ => []
    | .error cause => [.badDefault f.name cause]

end StructField

namespace EntityStruct

def fieldNames (s : EntityStruct) : List String := s.fields.map StructField.name

/-- What is wrong with the field at index `i` in a struct that inherits the names `inherited`.  Of
the default of a field that is left out nothing is said. -/
def fieldProblems (inherited : List String) (s : EntityStruct) (i : Nat) (f : StructField) :
    List FieldProblem :=
  (if Text.isName f.name then [] else [.invalidName f.name]) ++
  if inherited.contains f.name then [.inherited f.name]
  else if isRepeated s.fieldNames i f.name then [.duplicate f.name]
  else f.defaultProblems

/-- Whether the struct gets the field at index `i`. -/
def keeps (inherited : List String) (s : EntityStruct) (i : Nat) (f : StructField) : Bool :=
  !inherited.contains f.name && !isRepeated s.fieldNames i f.name

/-- The fields that a struct adds to those it inherits. -/
def ownFields (inherited : List String) (s : EntityStruct) : List ResolvedField :=
  s.fields.zipIdx.filterMap fun (f, i) =>
    if s.keeps inherited i f then some f.resolve else none

def report (inherited : List String) (s : EntityStruct) : Report :=
  s.fields.zipIdx.flatMap fun (f, i) =>
    (s.fieldProblems inherited i f).map fun p =>
      ⟨.error, .entityStruct, s.name, .item i, p.message⟩

/-- The struct with the fields of its parent. -/
def flatten (s : EntityStruct) (parent : List ResolvedField) : Noted ResolvedStruct := do
  let inherited := parent.map ResolvedField.name
  Noted.tell (s.report inherited)
  return ⟨s.name, parent ++ s.ownFields inherited⟩

end EntityStruct

/-- Resolved structs with different names, the latest first. -/
abbrev StructTable := List ResolvedStruct

namespace StructTable

def get? (table : StructTable) (name : String) : Option ResolvedStruct :=
  table.find? fun s => s.name == name

def contains (table : StructTable) (name : String) : Bool := (get? table name).isSome

/-- The fields of the parent, if the parent is resolved; a root has none. -/
def parentFields? (table : StructTable) (s : EntityStruct) : Option (List ResolvedField) :=
  match s.parent with
  | none => some []
  | some parent => (get? table parent).map ResolvedStruct.fields

/-- Resolves the structs that can be resolved in order and returns the ones that wait. -/
def pass (table : StructTable) : List EntityStruct → Noted (StructTable × List EntityStruct)
  | [] => pure (table, [])
  | s :: rest =>
    match parentFields? table s with
    | some fields => do
      let resolved ← s.flatten fields
      pass (resolved :: table) rest
    | none => do
      let (table, waiting) ← pass table rest
      return (table, s :: waiting)

def passes (table : StructTable) (pending : List EntityStruct) :
    Noted (StructTable × List EntityStruct) := do
  let (table, waiting) ← pass table pending
  if waiting.length < pending.length then passes table waiting else return (table, waiting)
termination_by pending.length

/-- The first declaration of every name. -/
def firstDeclarations (structs : List EntityStruct) : List EntityStruct :=
  structs.zipIdx.filterMap fun (s, i) =>
    if isRepeated (structs.map EntityStruct.name) i s.name then none else some s

/-- Why a struct is not resolved. -/
inductive ParentProblem where
  | circular (parent : String)
  | unknown (parent : String)
deriving DecidableEq, Repr

def ParentProblem.message : ParentProblem → String
  | circular parent => s!"circular parent chain through {parent}"
  | unknown parent => s!"unknown parent struct: {parent}"

/-- A parent that is declared and yet not resolved is taken to be part of a circle. -/
def parentProblem (names : NameIndex) (s : EntityStruct) : ParentProblem :=
  let parent := s.parent.getD ""
  if names.contains parent then .circular parent else .unknown parent

/-- Reports bad names, fields and parents; structs that cannot be resolved are left out. -/
def resolve (structs : List EntityStruct) : Noted StructTable := do
  let names ← NameIndex.build .entityStruct (structs.map EntityStruct.name)
  let (table, waiting) ← passes [] (firstDeclarations structs)
  Noted.tell (waiting.map fun s =>
    ⟨.error, .entityStruct, s.name, .whole, (parentProblem names s).message⟩)
  Noted.debug s!"resolved {table.length} of {structs.length} entity structs"
  return table

end StructTable

end Cartridge
