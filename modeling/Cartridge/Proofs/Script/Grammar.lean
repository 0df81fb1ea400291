import Cartridge.Script.Parser

/-!
# The grammar of scripts

Which nodes a list of tokens derives, and what is left of the tokens behind them:

```text
node      := name (name | number)* ';' | if-node | 'while' condition block | comment
if-node   := 'if' condition block ('else' (block | if-node))?
block     := '{' node* '}'
condition := ('flag' | 'word') name (('set' | 'clear') | ('==' | '!=' | '<' | '>=') number)
```

The derivations know nothing of the parser, and nothing of how deep blocks may be nested;
`nestingOf` says how deep they are.
-/

namespace Cartridge.Script

/-! ## Derivations -/

def kindToken : VariableKind → Token
  | .flag => .keyword .flagWord
  | .word => .keyword .wordWord

def Comparator.token : Comparator → Token
  | equal => .symbol .equal
  | notEqual => .symbol .notEqual
  | less => .symbol .less
  | greaterEqual => .symbol .greaterEqual
  | isSet => .keyword .setWord
  | isClear => .keyword .clearWord

inductive DerivesArguments : List Token → List String → List Token → Prop
  | none {rest} : DerivesArguments rest [] rest
  | name {text ts args rest} (behind : DerivesArguments ts args rest) :
      DerivesArguments (.name text :: ts) (text :: args) rest
  | number {text ts args rest} (behind : DerivesArguments ts args rest) :
      DerivesArguments (.number text :: ts) (text :: args) rest

/-- A comparator and what it compares with.  Any comparator may follow any kind of variable. -/
inductive DerivesTest : List Token → Comparator → Option String → List Token → Prop
  | flag {c rest} (kind : c.kind = .flag) : DerivesTest (c.token :: rest) c none rest
  | word {c text rest} (kind : c.kind = .word) :
      DerivesTest (c.token :: .number text :: rest) c (some text) rest

inductive DerivesCondition : List Token → Condition → List Token → Prop
  | test {kind name ts c value rest} (test : DerivesTest ts c value rest) :
      DerivesCondition (kindToken kind :: .name name :: ts) ⟨kind, name, c, value⟩ rest

mutual

inductive DerivesNode : List Token → Node → List Token → Prop
  | comment {text rest} : DerivesNode (.comment text :: rest) (.comment text) rest
  | statement {instruction ts args rest}
      (arguments : DerivesArguments ts args (.symbol .semicolon :: rest)) :
      DerivesNode (.name instruction :: ts) (.statement ⟨instruction, args⟩) rest
  | choice {ts c us body vs branch rest} (condition : DerivesCondition ts c us)
      (block : DerivesBlock us body vs) (behind : DerivesElse vs branch rest) :
      DerivesNode (.keyword .ifWord :: ts) (.choice c body branch) rest
  | loop {ts c us body rest} (condition : DerivesCondition ts c us)
      (block : DerivesBlock us body rest) :
      DerivesNode (.keyword .whileWord :: ts) (.loop c body) rest

inductive DerivesElse : List Token → List Node → List Token → Prop
  | absent {rest} : DerivesElse rest [] rest
  | present {ts nodes rest} (branch : DerivesBranch ts nodes rest) :
      DerivesElse (.keyword .elseWord :: ts) nodes rest

/-- What stands behind an `else`: an `else if` is a branch that holds a single node. -/
inductive DerivesBranch : List Token → List Node → List Token → Prop
  | block {ts body rest} (block : DerivesBlock ts body rest) : DerivesBranch ts body rest
  | elseIf {ts n rest} (node : DerivesNode (.keyword .ifWord :: ts) n rest) :
      DerivesBranch (.keyword .ifWord :: ts) [n] rest

inductive DerivesBlock : List Token → List Node → List Token → Prop
  | braces {ts body rest} (nodes : DerivesNodes ts body (.symbol .closeBrace :: rest)) :
      DerivesBlock (.symbol .openBrace :: ts) body rest

inductive DerivesNodes : List Token → List Node → List Token → Prop
  | none {rest} : DerivesNodes rest [] rest
  | more {ts n us ns rest} (first : DerivesNode ts n us) (behind : DerivesNodes us ns rest) :
      DerivesNodes ts (n :: ns) rest

end

/-- The tokens, all of them, are a script of these nodes. -/
def DerivesScript (ts : List Token) (nodes : List Node) : Prop := DerivesNodes ts nodes []

/-! ## Nesting -/

mutual

/-- How deep `if` and `while` are nested in a node, itself included. -/
def Node.nesting : Node → Nat
  | .statement _ => 0
  | .choice _ t e => max (nestingOf t) (nestingOf e) + 1
  | .loop _ b => nestingOf b + 1
  | .comment _ => 0

def nestingOf : List Node → Nat
  | [] => 0
  | n :: ns => max n.nesting (nestingOf ns)

end

@[simp] theorem nestingOf_nil : nestingOf [] = 0 := rfl

@[simp] theorem nestingOf_cons (n : Node) (ns : List Node) :
    nestingOf (n :: ns) = max n.nesting (nestingOf ns) := rfl

@[simp] theorem nesting_statement (s : Statement) : (Node.statement s).nesting = 0 := rfl

@[simp] theorem nesting_choice (c : Condition) (t e : List Node) :
    (Node.choice c t e).nesting = max (nestingOf t) (nestingOf e) + 1 := rfl

@[simp] theorem nesting_loop (c : Condition) (b : List Node) :
    (Node.loop c b).nesting = nestingOf b + 1 := rfl

@[simp] theorem nesting_comment (text : String) : (Node.comment text).nesting = 0 := rfl

/-! ## The tokens of comparators -/

theorem comparatorOf?_token (c : Comparator) : comparatorOf? c.token = some c := by
  cases c <;> rfl

theorem comparatorOf?_eq_some_iff {t : Token} {c : Comparator} :
    comparatorOf? t = some c ↔ t = c.token := by
  constructor
  · intro h
    unfold comparatorOf? at h
    split at h
    case h_7 => exact absurd h (by simp)
    all_goals
      obtain rfl := Option.some.inj h
      rfl
  · rintro rfl
    exact comparatorOf?_token c

end Cartridge.Script
