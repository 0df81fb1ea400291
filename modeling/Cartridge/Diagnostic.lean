/-!
# Diagnostics

A diagnostic is an error or a warning about one named resource, with the place inside the resource
where it was found.  A report is the ordered list of the diagnostics of a run.
-/

namespace Cartridge

inductive Severity where
  | error
  | warning
deriving DecidableEq, Repr

def Severity.label : Severity → String
  | .error => "error"
  | .warning => "warning"

inductive ResourceKind where
  | project
  | instruction
  | flag
  | word
  | entityStruct
  | functionTable
  | exportOrder
  | frameSet
  | entity
  | projectile
  | player
  | palette
  | tileset
  | scene
  | room
  | roomScript
deriving DecidableEq, Repr

namespace ResourceKind

def all : List ResourceKind :=
  [project, instruction, flag, word, entityStruct, functionTable, exportOrder, frameSet, entity,
    projectile, player, palette, tileset, scene, room, roomScript]

def label : ResourceKind → String
  | project => "project"
  | instruction => "instruction"
  | flag => "flag"
  | word => "word"
  | entityStruct => "entity struct"
  | functionTable => "entity function table"
  | exportOrder => "export order"
  | frameSet => "frame set"
  | entity => "entity"
  | projectile => "projectile"
  | player => "player"
  | palette => "palette"
  | tileset => "metatile tileset"
  | scene => "scene"
  | room => "room"
  | roomScript => "room script"

def ofLabel? (label : String) : Option ResourceKind :=
  all.find? fun kind => kind.label == label

theorem mem_all (kind : ResourceKind) : kind ∈ all := by
  cases kind <;> decide

end ResourceKind

/-- Where inside a resource a problem was found: nowhere in particular, at the item with an index
counted from zero, or at a script node with a number counted from one. -/
inductive Place where
  | whole
  | item (index : Nat)
  | line (number : Nat)
deriving DecidableEq, Repr

def Place.label : Place → String
  | whole => ""
  | item index => s!" [{index}]"
  | line number => s!":{number}"

structure Diagnostic where
  severity : Severity
  kind : ResourceKind
  name : String
  place : Place
  message : String
deriving DecidableEq, Repr

namespace Diagnostic

def text (d : Diagnostic) : String :=
  s!"{d.severity.label}: {d.kind.label} {d.name}{d.place.label}: {d.message}"

def isError (d : Diagnostic) : Bool := d.severity == .error

def isWarning (d : Diagnostic) : Bool := d.severity == .warning

end Diagnostic

abbrev Report := List Diagnostic

namespace Report

def errors (r : Report) : Report := r.filter Diagnostic.isError

def warnings (r : Report) : Report := r.filter Diagnostic.isWarning

def hasErrors (r : Report) : Bool := r.any Diagnostic.isError

def errorCount (r : Report) : Nat := r.errors.length

/-- One line for each diagnostic. -/
def text (r : Report) : String := String.join (r.map fun d => d.text ++ "\n")

theorem hasErrors_append (r s : Report) : hasErrors (r ++ s) = (hasErrors r || hasErrors s) :=
  List.any_append

end Report

end Cartridge
