import Cartridge.Noted
import Cartridge.Script.Lowering

/-!
# From script trees to bytecode

The code of a script is made of the code of its nodes.  Targets of jumps and branches are offsets
from the start of the script, so the code of a node depends on the offset where it starts, but its
length does not.  Diagnostics name the line of a node and are found apart from the code.
-/

namespace Cartridge.Script

/-- How deep blocks may be nested. -/
def maxNesting : Nat := 8

/-- The largest script that sixteen-bit targets can address. -/
def maxScriptSize : Nat := 0x10000

section Code

variable (ctx : Context)

def jumpTo (target : Nat) : Bytes := byte Opcode.jump :: word16 target

mutual

/-- The code of a node that starts at the offset `origin`. -/
def Node.code (origin : Nat) : Node → Bytes
  | .statement s => s.code ctx
  | .choice c t e =>
    let head := c.code ctx
    let thenStart := origin + head.length + 2
    let thenCode := codeOf thenStart t
    match e with
    | [] => head ++ word16 (thenStart + thenCode.length) ++ thenCode
    | _ :: _ =>
      let elseStart := thenStart + thenCode.length + 3
      let elseCode := codeOf elseStart e
      head ++ word16 elseStart ++ thenCode ++ jumpTo (elseStart + elseCode.length) ++ elseCode
  | .loop c b =>
    let head := c.code ctx
    let bodyStart := origin + head.length + 2
    let body := codeOf bodyStart b
    head ++ word16 (bodyStart + body.length + 3) ++ body ++ jumpTo origin
  | .comment _ => []

def codeOf (origin : Nat) : List Node → Bytes
  | [] => []
  | n :: ns =>
    let code := n.code origin
    code ++ codeOf (origin + code.length) ns

end

/-- The whole code of a script. -/
def bytecode (nodes : List Node) : Bytes := codeOf ctx 0 nodes ++ [byte Opcode.finish]

end Code

section Nesting

mutual

/-- The line of the first block that is nested too deeply, in a node at a line with `depth` blocks
open around it. -/
def Node.tooDeep? (depth line : Nat) : Node → Option Nat
  | .statement _ => none
  | .choice _ t e =>
    if depth ≥ maxNesting then some line
    else tooDeepIn? (depth + 1) (line + 1) t <|>
      tooDeepIn? (depth + 1) (line + 1 + Node.countAll t) e
  | .loop _ b =>
    if depth ≥ maxNesting then some line else tooDeepIn? (depth + 1) (line + 1) b
  | .comment _ => none

def tooDeepIn? (depth line : Nat) : List Node → Option Nat
  | [] => none
  | n :: ns => n.tooDeep? depth line <|> tooDeepIn? depth (line + n.count) ns

end

end Nesting

/-- What can be said about a node. -/
inductive Finding where
  | problem (p : Problem)
  | nestedTooDeep
  | endless
deriving DecidableEq, Repr

namespace Finding

def severity : Finding → Severity
  | problem _ => .error
  | nestedTooDeep => .error
  | endless => .warning

def message : Finding → String
  | problem p => p.message
  | nestedTooDeep => s!"too many nested statements (maximum depth is {maxNesting})"
  | endless => "while loop may infinitely loop: no instruction in its body yields"

end Finding

structure Remark where
  line : Nat
  finding : Finding
deriving DecidableEq, Repr

def Remark.diagnostic (name : String) (r : Remark) : Diagnostic :=
  ⟨r.finding.severity, .roomScript, name, .line r.line, r.finding.message⟩

section Remarks

variable (ctx : Context)

mutual

/-- Whether an instruction in the node yields. -/
def Node.yields : Node → Bool
  | .statement s => s.yields ctx
  | .choice _ t e => anyYields t || anyYields e
  | .loop _ b => anyYields b
  | .comment _ => false

def anyYields : List Node → Bool
  | [] => false
  | n :: ns => n.yields || anyYields ns

end

variable (deep : Option Nat)

def problemRemarks (line : Nat) (ps : List Problem) : List Remark :=
  ps.map fun p => ⟨line, .problem p⟩

/-- The remark on nesting belongs to the line `deep` alone. -/
def nestingRemarks (line : Nat) : List Remark :=
  if deep = some line then [⟨line, .nestedTooDeep⟩] else []

mutual

/-- The remarks on a node at a line and on the nodes inside it, in the order of lines, with the
warning about a loop behind its body. -/
def Node.remarks (line : Nat) : Node → List Remark
  | .statement s => problemRemarks line (s.problems ctx)
  | .choice c t e =>
    problemRemarks line (c.problems ctx) ++ nestingRemarks deep line ++
      remarksOf (line + 1) t ++ remarksOf (line + 1 + Node.countAll t) e
  | .loop c b =>
    problemRemarks line (c.problems ctx) ++ nestingRemarks deep line ++
      remarksOf (line + 1) b ++ (if anyYields ctx b then [] else [⟨line, .endless⟩])
  | .comment _ => []

def remarksOf (line : Nat) : List Node → List Remark
  | [] => []
  | n :: ns => n.remarks line ++ remarksOf (line + n.count) ns

end

/-- The remarks on a whole script, whose first node is line 1. -/
def remarks (nodes : List Node) : List Remark := remarksOf ctx (tooDeepIn? 0 1 nodes) 1 nodes

end Remarks

/-- Only a script that is too large for its targets fails. -/
def compile (ctx : Context) (name : String) (nodes : List Node) : Outcome Bytes := do
  let code := bytecode ctx nodes
  Noted.tell ((remarks ctx nodes).map (Remark.diagnostic name))
  if code.length > maxScriptSize then
    throw (.recordTooLarge .roomScript name code.length maxScriptSize)
  return code

end Cartridge.Script
