import Cartridge.Script.Node
import Cartridge.Script.Token

/-!
# From tokens to script trees

The parser reads one token at a time.  Its state holds the blocks that are open, the nodes read so
far in the innermost block, and the stage of the node that is being read.  A token that cannot
continue any script is refused where it stands.

```text
node      := name (name | number)* ';' | 'if' arm | 'while' condition block | comment
arm       := condition block ('else' (block | 'if' arm))?
block     := '{' node* '}'
condition := ('flag' | 'word') name (('set' | 'clear') | ('==' | '!=' | '<' | '>=') number)
```
-/

namespace Cartridge.Script

/-- How deep `if` and `while` may be nested in script text; an `else if` counts as one deeper.  The
parser itself works for every limit. -/
def maxParseDepth : Nat := 64

/-- What the parser asks for where it finds something else. -/
inductive Expected where
  | symbol (s : Symbol)
  | name
  | statement
  | variableKind
  | comparator
  | number
deriving DecidableEq, Repr

def Expected.label : Expected → String
  | symbol s => (Token.symbol s).label
  | name => "identifier"
  | statement => "statement"
  | variableKind => "'flag' or 'word'"
  | comparator => "comparator"
  | number => "number"

/-- An `if` or `else if` whose block has been read. -/
structure Arm where
  condition : Condition
  body : List Node

/-- The nodes that a chain of arms stands for, the latest arm first: each arm is the only node in
the else branch of the one before it, and `last` is the else branch of the latest. -/
def chain (arms : List Arm) (last : List Node) : List Node :=
  arms.foldl (fun branch arm => [.choice arm.condition arm.body branch]) last

@[simp] theorem chain_nil (last : List Node) : chain [] last = last := rfl

@[simp] theorem chain_cons (arm : Arm) (arms : List Arm) (last : List Node) :
    chain (arm :: arms) last = chain arms [.choice arm.condition arm.body last] := rfl

/-- What a condition is read for; an arm knows the arms before it, the latest first. -/
inductive Purpose where
  | arm (before : List Arm)
  | loop

def Purpose.depth : Purpose → Nat
  | arm before => before.length
  | loop => 0

/-- A block that has been opened and not closed. -/
inductive Block where
  | guarded (purpose : Purpose) (condition : Condition)
  | otherwise (arms : List Arm)

/-- How many `if` and `while` are open in a block. -/
def Block.depth : Block → Nat
  | guarded purpose _ => purpose.depth + 1
  | otherwise arms => arms.length

/-- An open block with the nodes read before it in the block around it, the latest first. -/
structure Frame where
  block : Block
  outer : List Node

inductive Stage where
  | node
  | arguments (instruction : String) (read : List String)
  | variableKind (purpose : Purpose)
  | variableName (purpose : Purpose) (kind : VariableKind)
  | comparator (purpose : Purpose) (kind : VariableKind) (variableName : String)
  | value (purpose : Purpose) (kind : VariableKind) (variableName : String)
      (comparator : Comparator)
  | openBrace (purpose : Purpose) (condition : Condition)
  | afterThen (arms : List Arm)
  | afterElse (arms : List Arm)

/-- What is asked for at a stage. -/
def Stage.expected : Stage → Expected
  | node => .statement
  | arguments _ _ => .symbol .semicolon
  | variableKind _ => .variableKind
  | variableName _ _ => .name
  | comparator _ _ _ => .comparator
  | value _ _ _ _ => .number
  | openBrace _ _ => .symbol .openBrace
  | afterThen _ => .statement
  | afterElse _ => .symbol .openBrace

/-- The nodes of the innermost block and the arguments of a statement are kept the latest first. -/
structure State where
  frames : List Frame
  nodes : List Node
  stage : Stage

/-- Why a token is refused. -/
inductive Refusal where
  | unexpected (expected : Expected)
  | tooDeep
deriving DecidableEq, Repr

def comparatorOf? : Token → Option Comparator
  | .keyword .setWord => some .isSet
  | .keyword .clearWord => some .isClear
  | .symbol .equal => some .equal
  | .symbol .notEqual => some .notEqual
  | .symbol .less => some .less
  | .symbol .greaterEqual => some .greaterEqual
  | _ => none

namespace State

def start : State := ⟨[], [], .node⟩

def depth (s : State) : Nat := total (s.frames.map fun f => f.block.depth)

/-- Starts to read a condition, one level deeper. -/
def enter (limit : Nat) (s : State) (purpose : Purpose) : Except Refusal State :=
  if s.depth + purpose.depth ≥ limit then .error .tooDeep
  else .ok { s with stage := .variableKind purpose }

def openBlock (s : State) (block : Block) : State :=
  ⟨⟨block, s.nodes⟩ :: s.frames, [], .node⟩

def closeBlock (s : State) : Except Refusal State :=
  match s.frames with
  | [] => .error (.unexpected .statement)
  | ⟨.guarded (.arm before) condition, outer⟩ :: frames =>
    .ok ⟨frames, outer, .afterThen (⟨condition, s.nodes.reverse⟩ :: before)⟩
  | ⟨.guarded .loop condition, outer⟩ :: frames =>
    .ok ⟨frames, .loop condition s.nodes.reverse :: outer, .node⟩
  | ⟨.otherwise arms, outer⟩ :: frames =>
    .ok ⟨frames, chain arms s.nodes.reverse ++ outer, .node⟩

/-- Completes a chain of arms that has no `else` of its own. -/
def settle (s : State) : State :=
  match s.stage with
  | .afterThen arms => ⟨s.frames, chain arms [] ++ s.nodes, .node⟩
  | _ => s

def stepNode (limit : Nat) (s : State) : Token → Except Refusal State
  | .comment text => .ok ⟨s.frames, .comment text :: s.nodes, .node⟩
  | .keyword .ifWord => s.enter limit (.arm [])
  | .keyword .whileWord => s.enter limit .loop
  | .name instruction => .ok { s with stage := .arguments instruction [] }
  | .symbol .closeBrace => s.closeBlock
  | _ => .error (.unexpected .statement)

def step (limit : Nat) (s : State) (t : Token) : Except Refusal State :=
  match s.stage with
  | .node => s.stepNode limit t
  | .arguments instruction read =>
    match t with
    | .name text => .ok { s with stage := .arguments instruction (text :: read) }
    | .number text => .ok { s with stage := .arguments instruction (text :: read) }
    | .symbol .semicolon =>
      .ok ⟨s.frames, .statement ⟨instruction, read.reverse⟩ :: s.nodes, .node⟩
    | _ => .error (.unexpected s.stage.expected)
  | .variableKind purpose =>
    match t with
    | .keyword .flagWord => .ok { s with stage := .variableName purpose .flag }
    | .keyword .wordWord => .ok { s with stage := .variableName purpose .word }
    | _ => .error (.unexpected s.stage.expected)
  | .variableName purpose kind =>
    match t with
    | .name text => .ok { s with stage := .comparator purpose kind text }
    | _ => .error (.unexpected s.stage.expected)
  | .comparator purpose kind variableName =>
    match comparatorOf? t with
    | some comparator =>
      match comparator.kind with
      | .flag =>
        .ok { s with stage := .openBrace purpose ⟨kind, variableName, comparator, none⟩ }
      | .word => .ok { s with stage := .value purpose kind variableName comparator }
    | none => .error (.unexpected s.stage.expected)
  | .value purpose kind variableName comparator =>
    match t with
    | .number text =>
      .ok { s with stage := .openBrace purpose ⟨kind, variableName, comparator, some text⟩ }
    | _ => .error (.unexpected s.stage.expected)
  | .openBrace purpose condition =>
    match t with
    | .symbol .openBrace => .ok (s.openBlock (.guarded purpose condition))
    | _ => .error (.unexpected s.stage.expected)
  | .afterThen arms =>
    match t with
    | .keyword .elseWord => .ok { s with stage := .afterElse arms }
    | _ => s.settle.stepNode limit t
  | .afterElse arms =>
    match t with
    | .keyword .ifWord => s.enter limit (.arm arms)
    | .symbol .openBrace => .ok (s.openBlock (.otherwise arms))
    | _ => .error (.unexpected s.stage.expected)

/-- The nodes read when the text ends here, or what is asked for before it may end. -/
def finish (s : State) : Except Expected (List Node) :=
  let s := s.settle
  match s.stage, s.frames with
  | .node, [] => .ok s.nodes.reverse
  | .node, _ :: _ => .error (.symbol .closeBrace)
  | stage, _ => .error stage.expected

end State

inductive ParseError where
  | unexpectedToken (expected : Expected) (found : Token) (span : Span)
  | unexpectedEnd (expected : Expected) (span : Span)
  | nestingTooDeep (span : Span)
deriving DecidableEq, Repr

namespace ParseError

def span : ParseError → Span
  | unexpectedToken _ _ span => span
  | unexpectedEnd _ span => span
  | nestingTooDeep span => span

/-- The message, with the text that says where the problem is. -/
def messageAt (place : String) : ParseError → String
  | unexpectedToken expected found _ =>
    s!"expected {expected.label}, found {found.label} at {place}"
  | unexpectedEnd expected _ => s!"unexpected end of script, expected {expected.label}"
  | nestingTooDeep _ => s!"blocks nested more than {maxParseDepth} levels deep at {place}"

def message (e : ParseError) : String :=
  e.messageAt s!"{e.span.start}..{e.span.stop}"

end ParseError

/-- Reads one token. -/
def State.read (limit : Nat) (s : State) (t : Located) : Except ParseError State :=
  match s.step limit t.token with
  | .ok next => .ok next
  | .error (.unexpected expected) => .error (.unexpectedToken expected t.token t.span)
  | .error .tooDeep => .error (.nestingTooDeep t.span)

/-- The empty span behind the last token. -/
def endSpan (ts : List Located) : Span :=
  match ts.getLast? with
  | none => ⟨0, 0⟩
  | some t => ⟨t.span.stop, t.span.stop⟩

/-- Reads a whole script that is nested no deeper than `limit`. -/
def parseWithin (limit : Nat) (ts : List Located) : Except ParseError (List Node) :=
  match ts.foldlM (State.read limit) State.start with
  | .error e => .error e
  | .ok s =>
    match s.finish with
    | .ok nodes => .ok nodes
    | .error expected => .error (.unexpectedEnd expected (endSpan ts))

def parse (ts : List Located) : Except ParseError (List Node) := parseWithin maxParseDepth ts

end Cartridge.Script
