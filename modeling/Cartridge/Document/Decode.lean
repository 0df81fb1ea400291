import Cartridge.Document.Value

/-!
# Reading typed data from documents

A decoder gives the data that a document value stands for, or refuses a value of another shape.  A
record is written as a table, whose other entries are passed over, or as the list of its fields in
order.  Of several errors in a record the one in the earliest entry counts, whatever the order of
the fields.
-/

namespace Cartridge.Document

inductive DecodeError where
  /-- A value of the wrong shape. -/
  | shape
  /-- A value of the right shape that its reader refuses, with the reason. -/
  | refused (reason : String)
deriving DecidableEq, Repr

/-- What depends on the notation of a document. -/
structure Dialect where
  /-- Whether a value behind the name of a choice adds nothing to it. -/
  isUnit : Value → Bool
  /-- Whether a list may go on behind the last field of a record; nothing reads what follows. -/
  allowsSurplus : Bool

/-- In JSON only null adds nothing, and a list of fields is no longer than its record. -/
def Dialect.json : Dialect where
  isUnit
    | .null => true
    | _ => false
  allowsSurplus := false

abbrev Decoded := Except DecodeError

abbrev Decoding := ReaderT Dialect Decoded

abbrev Decoder (α : Type) := Value → Decoding α

/-- What a record is read from: its entries, or its fields with their names. -/
abbrev Fields := List (String × Value)

/-- A reader of some fields of a record.  An error comes with the index of its entry; a field that is
missing is missed behind all entries. -/
structure RecordReader (α : Type) where
  names : List String
  read : Dialect → Fields → Except (Nat × DecodeError) α

namespace RecordReader

/-- The error that is met first. -/
def earlier (e f : Nat × DecodeError) : Nat × DecodeError := if f.1 < e.1 then f else e

instance : Applicative RecordReader where
  pure a := ⟨[], fun _ _ => .ok a⟩
  seq f x :=
    let x := x ()
    ⟨f.names ++ x.names, fun d es =>
      match f.read d es, x.read d es with
      | .ok g, .ok a => .ok (g a)
      | .ok _, .error e => .error e
      | .error e, .ok _ => .error e
      | .error e, .error e' => .error (earlier e e')⟩

end RecordReader

namespace Decode

variable {α : Type}

def text : Decoder String
  | .text s => pure s
  | _ => throw .shape

def boolean : Decoder Bool
  | .boolean b => pure b
  | _ => throw .shape

def integer (low high : Int) : Decoder Int
  | .integer n => if low ≤ n ∧ n ≤ high then pure n else throw .shape
  | _ => throw .shape

def natural (high : Nat) (v : Value) : Decoding Nat := do return (← integer 0 high v).toNat

def int64 : Decoder Int := integer (-0x8000000000000000) 0x7FFFFFFFFFFFFFFF

def size : Decoder Nat := natural 0xFFFFFFFFFFFFFFFF

def uint8 (v : Value) : Decoding UInt8 := do return UInt8.ofNat (← natural 0xFF v)

def uint16 (v : Value) : Decoding UInt16 := do return UInt16.ofNat (← natural 0xFFFF v)

def list (f : Decoder α) : Decoder (List α)
  | .list vs => vs.mapM f
  | _ => throw .shape

/-- The entries of a table in order. -/
def entries (f : Decoder α) : Decoder (List (String × α))
  | .table es => es.mapM fun (key, v) => do return (key, ← f v)
  | _ => throw .shape

def optional (f : Decoder α) : Decoder (Option α)
  | .null => pure none
  | v => do return some (← f v)

/-- One of a fixed set of names, or the name as the only key of a table that adds nothing to it. -/
def choice (ofName? : String → Option α) (v : Value) : Decoding α := do
  let d ← read
  let name? :=
    match v with
    | .text name => some name
    | .table [(name, v)] => if d.isUnit v then some name else none
    | _ => none
  match name?.bind ofName? with
  | some a => return a
  | none => throw .shape

/-! ### Records -/

/-- Reads the entry with a name, if there is one. -/
def field? (name : String) (f : Decoder α) (d : Dialect) (es : Fields) :
    Option (Except (Nat × DecodeError) α) :=
  (es.zipIdx.find? fun (e, _) => e.1 == name).map fun (e, i) =>
    ((f e.2).run d).mapError (i, ·)

def required (name : String) (f : Decoder α) : RecordReader α :=
  ⟨[name], fun d es => (field? name f d es).getD (.error (es.length, .shape))⟩

def withDefault (name : String) (default : α) (f : Decoder α) : RecordReader α :=
  ⟨[name], fun d es => (field? name f d es).getD (.ok default)⟩

/-- Passes over the entries with other names, in which every number has to be readable. -/
def others (names : List String) : RecordReader Unit :=
  ⟨[], fun _ es =>
    match es.findIdx? fun e => !names.contains e.1 && !e.2.isReadable with
    | none => .ok ()
    | some i => .error (i, .shape)⟩

/-- The entries of a record with fields of the given names. -/
def recordEntries (names : List String) : Decoder Fields
  | .table es => pure es
  | .list vs => do
    if vs.length ≤ names.length || (← read).allowsSurplus then return names.zip vs
    else throw .shape
  | _ => throw .shape

def record (r : RecordReader α) : Decoder α := fun v => do
  let es ← recordEntries r.names v
  match (r <* others r.names).read (← read) es with
  | .ok a => return a
  | .error (_, e) => throw e

end Decode

end Cartridge.Document
