import Cartridge.Resource.Struct

/-!
# Entities

Entities, projectiles and players have records of one layout:

```text
function table index, frame set index, default palette, display frame: one byte each
the fields of the struct, those of the parent first
```

A frame set has to hold the frames of its export order, and an entry uses a frame set with the export
order of its function table.
-/

namespace Cartridge

/-- The frames that a frame set must have. -/
structure ExportOrder where
  name : String
  frames : List String
deriving DecidableEq, Repr

structure FrameSet where
  name : String
  exportOrder : String
  frames : List String
  paletteCount : UInt8
  data : Bytes
deriving DecidableEq, Repr

structure FunctionTable where
  name : String
  entityStruct : Option String
  exportOrder : String
deriving DecidableEq, Repr

inductive FieldValue where
  | integer (n : Int)
  | text (s : String)
deriving DecidableEq, Repr

structure Entry where
  name : String
  functionTable : String
  frameSet : String
  defaultPalette : UInt8
  displayFrame : String
  fields : List (String × FieldValue)
deriving DecidableEq, Repr

/-- The first item with a name, and its index. -/
def findNamed? {α : Type} (nameOf : α → String) (items : List α) (name : String) :
    Option (α × Nat) :=
  items.zipIdx.find? fun (item, _) => nameOf item == name

namespace FrameSet

def problems (orders : List ExportOrder) (fs : FrameSet) : List String :=
  (if fs.paletteCount = 0 then ["frame set must have at least one palette"] else []) ++
  match findNamed? ExportOrder.name orders fs.exportOrder with
  | none => [s!"unknown export order: {fs.exportOrder}"]
  | some (order, _) =>
    (order.frames.filter fun frame => !fs.frames.contains frame).map fun frame =>
      s!"missing frame {frame} required by export order {fs.exportOrder}"

def review (frameSets : List FrameSet) (orders : List ExportOrder) : Report :=
  frameSets.zipIdx.flatMap fun (fs, i) =>
    (fs.problems orders).map fun message => ⟨.error, .frameSet, fs.name, .item i, message⟩

end FrameSet

namespace FunctionTable

def problems (structs : StructTable) (orders : List ExportOrder) (ft : FunctionTable) :
    List String :=
  (match ft.entityStruct with
  | none => []
  | some s => if structs.contains s then [] else [s!"unknown entity struct: {s}"]) ++
  if (orders.map ExportOrder.name).contains ft.exportOrder then []
  else [s!"unknown export order: {ft.exportOrder}"]

def review (tables : List FunctionTable) (structs : StructTable) (orders : List ExportOrder) :
    Report :=
  tables.zipIdx.flatMap fun (ft, i) =>
    (ft.problems structs orders).map fun message =>
      ⟨.error, .functionTable, ft.name, .item i, message⟩

end FunctionTable

/-- What entries refer to. -/
structure EntryContext where
  structs : StructTable
  functionTables : List FunctionTable
  frameSets : List FrameSet

inductive EntryProblem where
  | unknownFunctionTable (name : String)
  | unknownFrameSet (name : String)
  | wrongExportOrder (frameSet exportOrder : String)
  | palette (index count : UInt8)
  | unknownFrame (name : String)
  | unknownField (name : String)
  | badValue (field : String) (cause : ValueError)
  | missingValue (field : String)
deriving DecidableEq, Repr

def EntryProblem.message : EntryProblem → String
  | unknownFunctionTable name => s!"unknown function table: {name}"
  | unknownFrameSet name => s!"unknown frame set: {name}"
  | wrongExportOrder frameSet exportOrder =>
    s!"frame set {frameSet} does not use export order {exportOrder}"
  | palette index count =>
    s!"default palette {index} is out of range (frame set has {count} palettes)"
  | unknownFrame name => s!"unknown display frame: {name}"
  | unknownField name => s!"unknown field: {name}"
  | badValue field cause => s!"field {field}: {cause.message}"
  | missingValue field => s!"field {field}: missing value (the field has no default)"

namespace Entry

/-- The value that an entry gives to a field, or the default of the field. -/
def fieldValue (e : Entry) (f : ResolvedField) : Except EntryProblem Int :=
  match (e.fields.find? fun v => v.1 == f.name).map Prod.snd with
  | some (.integer n) => (f.type.check n).mapError (.badValue f.name)
  | some (.text s) => (f.type.parse s).mapError (.badValue f.name)
  | none =>
    match f.default with
    | some n => .ok n
    | none => .error (.missingValue f.name)

/-- A field without a value is encoded as zero. -/
def encodeField (e : Entry) (f : ResolvedField) : Bytes :=
  f.type.encode (match e.fieldValue f with
    | .ok n => n
    | .error _ => 0)

def fieldProblems (e : Entry) (f : ResolvedField) : List EntryProblem :=
  match e.fieldValue f with
  | .ok _ => []
  | .error p => [p]

variable (ctx : EntryContext) (e : Entry)

def functionTable? : Option (FunctionTable × Nat) :=
  findNamed? FunctionTable.name ctx.functionTables e.functionTable

def frameSet? : Option (FrameSet × Nat) :=
  findNamed? FrameSet.name ctx.frameSets e.frameSet

/-- The struct of the function table. -/
def schema? : Option ResolvedStruct :=
  (e.functionTable? ctx).bind fun (ft, _) => ft.entityStruct.bind ctx.structs.get?

def displayIndex? : Option Nat :=
  (e.frameSet? ctx).bind fun (fs, _) => fs.frames.findIdx? (· == e.displayFrame)

/-- A reference that cannot be resolved is encoded as zero. -/
def encode : Bytes :=
  [byte (((e.functionTable? ctx).map Prod.snd).getD 0),
    byte (((e.frameSet? ctx).map Prod.snd).getD 0),
    e.defaultPalette,
    byte ((e.displayIndex? ctx).getD 0)] ++
  match e.schema? ctx with
  | none => []
  | some schema => schema.fields.flatMap e.encodeField

def frameProblems (fs : FrameSet) (ft? : Option FunctionTable) : List EntryProblem :=
  (match ft? with
  | none => []
  | some ft =>
    if fs.exportOrder = ft.exportOrder then [] else [.wrongExportOrder fs.name ft.exportOrder]) ++
  (if e.defaultPalette ≥ fs.paletteCount then [.palette e.defaultPalette fs.paletteCount]
    else []) ++
  if fs.frames.contains e.displayFrame then [] else [.unknownFrame e.displayFrame]

/-- Without a function table nothing is said about the fields. -/
def valueProblems : List EntryProblem :=
  match e.functionTable? ctx, e.schema? ctx with
  | none, _ => []
  | some _, none => e.fields.map fun v => .unknownField v.1
  | some _, some schema =>
    ((e.fields.filter fun v => (schema.field? v.1).isNone).map fun v => .unknownField v.1) ++
      schema.fields.flatMap e.fieldProblems

def problems : List EntryProblem :=
  (if (e.functionTable? ctx).isSome then [] else [.unknownFunctionTable e.functionTable]) ++
  (if (e.frameSet? ctx).isSome then [] else [.unknownFrameSet e.frameSet]) ++
  (match e.frameSet? ctx with
  | none => []
  | some (fs, _) => e.frameProblems fs ((e.functionTable? ctx).map Prod.fst)) ++
  e.valueProblems ctx

def report (kind : ResourceKind) (i : Nat) : Report :=
  (e.problems ctx).map fun p => ⟨.error, kind, e.name, .item i, p.message⟩

end Entry

/-- The records of a list of entries, in the order of declaration. -/
def encodeEntries (ctx : EntryContext) (kind : ResourceKind) (entries : List Entry) :
    Noted (List Bytes) := do
  let _ ← NameIndex.build kind (entries.map Entry.name)
  Noted.tell (entries.zipIdx.flatMap fun (e, i) => e.report ctx kind i)
  return entries.map (Entry.encode ctx)

end Cartridge
