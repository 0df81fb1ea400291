import Cartridge.Variable.GameState

/-!
# The variables that a room can use

Global variables get indexes from zero upwards and the temporary variables of a room get them from
the top of the index space downwards, so the two never meet.
-/

namespace Cartridge

structure Slot where
  name : String
  index : Nat
  /-- The only room that may use the variable. -/
  owner : Option String
deriving DecidableEq, Repr

inductive LookupError where
  | unknown
  | wrongRoom (owner : String)
deriving DecidableEq, Repr

/-- The slots of one kind; the first slot with a name is the one that counts. -/
abbrev SlotTable := List Slot

namespace SlotTable

def lookup (slots : SlotTable) (room name : String) : Except LookupError Nat :=
  match slots.find? fun s => s.name == name with
  | none => .error .unknown
  | some slot =>
    match slot.owner with
    | none => .ok slot.index
    | some owner => if owner = room then .ok slot.index else .error (.wrongRoom owner)

/-- The number of different names. -/
def size (slots : SlotTable) : Nat := (slots.map Slot.name).eraseDups.length

def globals (vs : List Variable) : SlotTable :=
  vs.zipIdx.map fun (v, i) => ⟨v.name, i, v.room⟩

/-- Whether the temporary variable at index `i` has the name of a global or of an earlier temporary
variable. -/
def clashes (vs : List Variable) (temporaries : List String) (i : Nat) (name : String) : Bool :=
  (vs.map Variable.name).contains name || isRepeated temporaries i name

def locals (kind : VariableKind) (vs : List Variable) (room : String)
    (temporaries : List String) : SlotTable :=
  temporaries.zipIdx.filterMap fun (name, i) =>
    if clashes vs temporaries i name then none else some ⟨name, kind.capacity - 1 - i, some room⟩

def review (kind : VariableKind) (vs : List Variable) (room : String)
    (temporaries : List String) : Report :=
  temporaries.zipIdx.filterMap fun (name, i) =>
    if clashes vs temporaries i name then
      some ⟨.error, .room, room, .item i, s!"temporary {kind.label} {name} is already declared"⟩
    else none

def build (kind : VariableKind) (vs : List Variable) (room : String)
    (temporaries : List String) : Outcome SlotTable := do
  if vs.length + temporaries.length > kind.capacity then
    throw (.tooManyVariables room kind vs.length temporaries.length kind.capacity)
  Noted.tell (review kind vs room temporaries)
  return globals vs ++ locals kind vs room temporaries

end SlotTable

structure Scope where
  room : String
  flags : SlotTable
  words : SlotTable
deriving Repr

namespace Scope

def slots (scope : Scope) : VariableKind → SlotTable
  | .flag => scope.flags
  | .word => scope.words

def lookup (scope : Scope) (kind : VariableKind) (name : String) : Except LookupError Nat :=
  (scope.slots kind).lookup scope.room name

/-- Reports temporary variables that are already declared; to have more variables than a kind has
room for is a failure. -/
def build (state : GameState) (room : String) (temporaryFlags temporaryWords : List String) :
    Outcome Scope := do
  let flags ← SlotTable.build .flag state.flags room temporaryFlags
  let words ← SlotTable.build .word state.words room temporaryWords
  return ⟨room, flags, words⟩

end Scope

end Cartridge
