import Cartridge.Variable.Kind

/-!
# Script trees

A script is a list of nodes.  Lines of a script are counted in nodes: a node comes before the nodes
inside it, and comments count.
-/

namespace Cartridge.Script

inductive Comparator where
  | equal
  | notEqual
  | less
  | greaterEqual
  | isSet
  | isClear
deriving DecidableEq, Repr

namespace Comparator

def all : List Comparator := [equal, notEqual, less, greaterEqual, isSet, isClear]

def label : Comparator → String
  | equal => "=="
  | notEqual => "!="
  | less => "<"
  | greaterEqual => ">="
  | isSet => "set"
  | isClear => "clear"

def ofLabel? (label : String) : Option Comparator := all.find? fun c => c.label == label

/-- The kind of variable that the comparator applies to. -/
def kind : Comparator → VariableKind
  | isSet | isClear => .flag
  | equal | notEqual | less | greaterEqual => .word

def accepts (c : Comparator) (kind : VariableKind) : Bool := c.kind == kind

def negate : Comparator → Comparator
  | equal => notEqual
  | notEqual => equal
  | less => greaterEqual
  | greaterEqual => less
  | isSet => isClear
  | isClear => isSet

@[simp] theorem negate_negate (c : Comparator) : c.negate.negate = c := by
  cases c <;> rfl

@[simp] theorem kind_negate (c : Comparator) : c.negate.kind = c.kind := by
  cases c <;> rfl

theorem mem_all (c : Comparator) : c ∈ all := by
  cases c <;> decide

end Comparator

structure Condition where
  kind : VariableKind
  variableName : String
  comparator : Comparator
  /-- The spelling of the number that a word is compared with. -/
  value : Option String
deriving DecidableEq, Repr

/-- An instruction with the spellings of its arguments. -/
structure Statement where
  instruction : String
  arguments : List String
deriving DecidableEq, Repr

inductive Node where
  | statement (s : Statement)
  | choice (condition : Condition) (thenBranch elseBranch : List Node)
  | loop (condition : Condition) (body : List Node)
  | comment (text : String)

mutual

/-- The number of nodes in a tree, itself included. -/
def Node.count : Node → Nat
  | .statement _ => 1
  | .choice _ t e => 1 + Node.countAll t + Node.countAll e
  | .loop _ b => 1 + Node.countAll b
  | .comment _ => 1

def Node.countAll : List Node → Nat
  | [] => 0
  | n :: ns => n.count + Node.countAll ns

end

end Cartridge.Script
