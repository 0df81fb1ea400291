import Cartridge.Proofs.Script.Parsing
import Cartridge.Proofs.Script.Spelling
import Cartridge.Proofs.Script.Tree

/-!
# Names in scripts

The test that the names of resources have to pass and the pattern of names in the table of tokens
hold of the same texts (`isName_iff_mem_name`).  So the names of texts are those of resources, the
keywords apart.

A script tree has names for instructions, arguments and variables.  Each of them may be any of these
names and nothing else: `exists_ofText?_iff` says which trees are read from texts.  One way to write
a tree is `tokensOf`.

Main statement: `isName_iff_written`.
-/

namespace Cartridge.Script

open Text

/-! ## Names and numerals -/

section Words

/-- `if`, `else`, `while`, `flag`, `word`, `set`, `clear` -/
def keywords : List String := Keyword.all.map Keyword.spelling

/-- A name that can be given to a resource and is not a keyword. -/
def FreeName (s : String) : Prop := isName s = true ∧ s ∉ keywords

/-- The spelling of a number in a script: `-?0x[0-9a-fA-F]+` or `-?[0-9]+`. -/
def IsNumeral (s : String) : Prop :=
  s.toList ∈ Kind.hexadecimal.pattern ∨ s.toList ∈ Kind.decimal.pattern

/-- The text of a comment is within a line and has no blanks at its ends. -/
def IsCommentText (s : String) : Prop := '\n' ∉ s.toList ∧ trim s.toList = s.toList

instance : DecidablePred FreeName := fun _ => inferInstanceAs (Decidable (_ ∧ _))

variable {s : String}

/-- What validation tests character by character is what the table of tokens writes as a pattern. -/
theorem isName_iff_mem_name : isName s = true ↔ s.toList ∈ Kind.name.pattern := by
  rw [isName]
  constructor
  · intro h
    split at h
    next => exact absurd h (by simp)
    next c cs hs =>
      obtain ⟨hc, hcs⟩ := Bool.and_eq_true_iff.mp h
      exact Pattern.mem_name_iff.mpr ⟨c, cs, hs, hc, List.all_eq_true.mp hcs⟩
  · intro h
    obtain ⟨c, cs, hs, hc, hcs⟩ := Pattern.mem_name_iff.mp h
    rw [hs]
    exact Bool.and_eq_true_iff.mpr ⟨hc, List.all_eq_true.mpr hcs⟩

theorem notMem_keywords_iff :
    s ∉ keywords ↔ ∀ k : Keyword, s.toList ∉ (Kind.keyword k).pattern := by
  constructor
  · intro h k hmem
    have hs : s = k.spelling := String.toList_injective hmem
    exact h (hs ▸ List.mem_map_of_mem (Keyword.mem_all k))
  · intro h hmem
    obtain ⟨k, -, rfl⟩ := List.mem_map.mp hmem
    exact h k rfl

theorem freeName_iff_spells : FreeName s ↔ Kind.name.Spells s.toList := by
  rw [FreeName, isName_iff_mem_name, notMem_keywords_iff]
  exact ⟨fun h => ⟨h.1, fun _ => h.2⟩, fun h => ⟨h.mem, h.notKeyword rfl⟩⟩

theorem spellable_name_iff : (Token.name s).Spellable ↔ FreeName s := by
  rw [freeName_iff_spells]
  constructor
  · rintro ⟨kind, hspells, htoken⟩
    cases kind with
    | name => exact hspells
    | keyword | symbol | hexadecimal | decimal | comment => exact nomatch htoken
  · intro h
    exact ⟨.name, h, congrArg Token.name String.ofList_toList⟩

theorem spellable_number_iff : (Token.number s).Spellable ↔ IsNumeral s := by
  constructor
  · rintro ⟨kind, hspells, htoken⟩
    cases kind with
    | hexadecimal => exact .inl hspells.mem
    | decimal => exact .inr hspells.mem
    | keyword | symbol | name | comment => exact nomatch htoken
  · rintro (h | h)
    · exact ⟨.hexadecimal, ⟨h, nofun⟩, congrArg Token.number String.ofList_toList⟩
    · exact ⟨.decimal, ⟨h, nofun⟩, congrArg Token.number String.ofList_toList⟩

theorem spellable_comment_iff : (Token.comment s).Spellable ↔ IsCommentText s := by
  constructor
  · rintro ⟨kind, hspells, htoken⟩
    cases kind with
    | comment =>
      have hline : '\n' ∉ '/' :: '/' :: s.toList := Kind.newline_notMem hspells.mem
      have htext : String.ofList (trim s.toList) = s := Token.comment.inj htoken
      refine ⟨fun h => hline (List.mem_cons_of_mem _ (List.mem_cons_of_mem _ h)), ?_⟩
      calc trim s.toList = (String.ofList (trim s.toList)).toList := String.toList_ofList.symm
        _ = s.toList := congrArg String.toList htext
    | keyword | symbol | hexadecimal | decimal | name => exact nomatch htoken
  · rintro ⟨hline, htrim⟩
    refine ⟨.comment, ⟨mem_comment_iff.mpr ⟨s.toList, rfl, fun c hc => ?_⟩, nofun⟩, ?_⟩
    · exact bne_iff_ne.mpr fun h => hline (h ▸ hc)
    · show Token.comment (String.ofList (trim s.toList)) = .comment s
      rw [htrim, String.ofList_toList]

theorem spellable_keyword (k : Keyword) : (Token.keyword k).Spellable :=
  ⟨.keyword k, ⟨rfl, nofun⟩, rfl⟩

theorem spellable_symbol (s : Symbol) : (Token.symbol s).Spellable :=
  ⟨.symbol s, ⟨rfl, nofun⟩, rfl⟩

/-- No number is spelled like a name. -/
theorem IsNumeral.isName_eq_false (h : IsNumeral s) : isName s = false := by
  by_contra hname
  have hmem := isName_iff_mem_name.mp (Bool.eq_true_of_not_eq_false hname)
  rcases h with h | h
  · exact nomatch Kind.family_eq hmem h
  · exact nomatch Kind.family_eq hmem h

end Words

/-! ## Trees of scripts -/

section Trees

structure Statement.Spellable (s : Statement) : Prop where
  instruction : FreeName s.instruction
  arguments : ∀ a ∈ s.arguments, FreeName a ∨ IsNumeral a

structure Condition.Spellable (c : Condition) : Prop where
  variableName : FreeName c.variableName
  /-- A word is compared with a number, and a flag with nothing. -/
  value : match c.comparator.kind with
    | .flag => c.value = none
    | .word => ∃ number, c.value = some number ∧ IsNumeral number

mutual

/-- The names, numbers and comments of a node can be spelled. -/
def Node.Spellable : Node → Prop
  | .statement s => s.Spellable
  | .choice c t e => c.Spellable ∧ SpellableAll t ∧ SpellableAll e
  | .loop c b => c.Spellable ∧ SpellableAll b
  | .comment text => IsCommentText text

def SpellableAll : List Node → Prop
  | [] => True
  | n :: ns => n.Spellable ∧ SpellableAll ns

end

end Trees

/-! ### Reading

What the grammar derives from tokens that can be spelled can be spelled, rule by rule, and the
tokens behind it can be spelled too. -/

section Read

variable {ts rest : List Token}

theorem spellable_of_derivesArguments {args : List String} (h : DerivesArguments ts args rest)
    (hts : ∀ t ∈ ts, t.Spellable) :
    (∀ a ∈ args, FreeName a ∨ IsNumeral a) ∧ ∀ t ∈ rest, t.Spellable := by
  induction h with
  | none => exact ⟨fun a ha => absurd ha List.not_mem_nil, hts⟩
  | name behind ih =>
    obtain ⟨hname, hts⟩ := List.forall_mem_cons.mp hts
    obtain ⟨hargs, hrest⟩ := ih hts
    exact ⟨List.forall_mem_cons.mpr ⟨.inl (spellable_name_iff.mp hname), hargs⟩, hrest⟩
  | number behind ih =>
    obtain ⟨hnumber, hts⟩ := List.forall_mem_cons.mp hts
    obtain ⟨hargs, hrest⟩ := ih hts
    exact ⟨List.forall_mem_cons.mpr ⟨.inr (spellable_number_iff.mp hnumber), hargs⟩, hrest⟩

theorem spellable_of_derivesCondition {c : Condition} (h : DerivesCondition ts c rest)
    (hts : ∀ t ∈ ts, t.Spellable) : c.Spellable ∧ ∀ t ∈ rest, t.Spellable := by
  cases h with
  | test htest =>
    obtain ⟨-, hts⟩ := List.forall_mem_cons.mp hts
    obtain ⟨hname, hts⟩ := List.forall_mem_cons.mp hts
    have hvariable := spellable_name_iff.mp hname
    cases htest with
    | flag hkind =>
      obtain ⟨-, hrest⟩ := List.forall_mem_cons.mp hts
      exact ⟨⟨hvariable, by simp only [hkind]⟩, hrest⟩
    | word hkind =>
      obtain ⟨-, hts⟩ := List.forall_mem_cons.mp hts
      obtain ⟨hnumber, hrest⟩ := List.forall_mem_cons.mp hts
      refine ⟨⟨hvariable, ?_⟩, hrest⟩
      simp only [hkind]
      exact ⟨_, rfl, spellable_number_iff.mp hnumber⟩

mutual

theorem spellable_of_derivesNode {ts : List Token} {n : Node} {rest : List Token}
    (hts : ∀ t ∈ ts, t.Spellable) : DerivesNode ts n rest → n.Spellable ∧ ∀ t ∈ rest, t.Spellable
  | .comment => by
    obtain ⟨hcomment, hrest⟩ := List.forall_mem_cons.mp hts
    exact ⟨spellable_comment_iff.mp hcomment, hrest⟩
  | .statement arguments => by
    obtain ⟨hname, hts⟩ := List.forall_mem_cons.mp hts
    obtain ⟨hargs, hrest⟩ := spellable_of_derivesArguments arguments hts
    exact ⟨⟨spellable_name_iff.mp hname, hargs⟩, (List.forall_mem_cons.mp hrest).2⟩
  | .choice condition block behind => by
    obtain ⟨-, hts⟩ := List.forall_mem_cons.mp hts
    obtain ⟨hc, hts⟩ := spellable_of_derivesCondition condition hts
    obtain ⟨hbody, hts⟩ := spellable_of_derivesBlock hts block
    obtain ⟨hbranch, hrest⟩ := spellable_of_derivesElse hts behind
    exact ⟨⟨hc, hbody, hbranch⟩, hrest⟩
  | .loop condition block => by
    obtain ⟨-, hts⟩ := List.forall_mem_cons.mp hts
    obtain ⟨hc, hts⟩ := spellable_of_derivesCondition condition hts
    obtain ⟨hbody, hrest⟩ := spellable_of_derivesBlock hts block
    exact ⟨⟨hc, hbody⟩, hrest⟩

theorem spellable_of_derivesElse {ts : List Token} {ns : List Node} {rest : List Token}
    (hts : ∀ t ∈ ts, t.Spellable) :
    DerivesElse ts ns rest → SpellableAll ns ∧ ∀ t ∈ rest, t.Spellable
  | .absent => ⟨trivial, hts⟩
  | .present branch => spellable_of_derivesBranch (List.forall_mem_cons.mp hts).2 branch

theorem spellable_of_derivesBranch {ts : List Token} {ns : List Node} {rest : List Token}
    (hts : ∀ t ∈ ts, t.Spellable) :
    DerivesBranch ts ns rest → SpellableAll ns ∧ ∀ t ∈ rest, t.Spellable
  | .block block => spellable_of_derivesBlock hts block
  | .elseIf node => by
    obtain ⟨hn, hrest⟩ := spellable_of_derivesNode hts node
    exact ⟨⟨hn, trivial⟩, hrest⟩

theorem spellable_of_derivesBlock {ts : List Token} {ns : List Node} {rest : List Token}
    (hts : ∀ t ∈ ts, t.Spellable) :
    DerivesBlock ts ns rest → SpellableAll ns ∧ ∀ t ∈ rest, t.Spellable
  | .braces nodes => by
    obtain ⟨hns, hrest⟩ := spellable_of_derivesNodes (List.forall_mem_cons.mp hts).2 nodes
    exact ⟨hns, (List.forall_mem_cons.mp hrest).2⟩

theorem spellable_of_derivesNodes {ts : List Token} {ns : List Node} {rest : List Token}
    (hts : ∀ t ∈ ts, t.Spellable) :
    DerivesNodes ts ns rest → SpellableAll ns ∧ ∀ t ∈ rest, t.Spellable
  | .none => ⟨trivial, hts⟩
  | .more first behind => by
    obtain ⟨hn, hts⟩ := spellable_of_derivesNode hts first
    obtain ⟨hns, hrest⟩ := spellable_of_derivesNodes hts behind
    exact ⟨⟨hn, hns⟩, hrest⟩

end

end Read

/-! ### Writing

A tree is derived from its tokens (`derives_tokensOf`), and they can be spelled if the tree can
(`spellable_tokensOf`). -/

section Write

/-- A name or a number, as it is spelled. -/
def argumentToken (argument : String) : Token :=
  if isName argument then .name argument else .number argument

def Condition.tokens (c : Condition) : List Token :=
  kindToken c.kind :: .name c.variableName :: c.comparator.token :: c.value.toList.map .number

def Statement.tokens (s : Statement) : List Token :=
  .name s.instruction :: s.arguments.map argumentToken ++ [.symbol .semicolon]

/-- The tokens of a block. -/
def braced (ts : List Token) : List Token :=
  .symbol .openBrace :: ts ++ [.symbol .closeBrace]

mutual

/-- One of the ways to spell a node: every `if` has an `else` with a block. -/
def Node.tokens : Node → List Token
  | .statement s => s.tokens
  | .choice c t e =>
    .keyword .ifWord :: c.tokens ++ braced (tokensOf t) ++
      .keyword .elseWord :: braced (tokensOf e)
  | .loop c b => .keyword .whileWord :: c.tokens ++ braced (tokensOf b)
  | .comment text => [.comment text]

def tokensOf : List Node → List Token
  | [] => []
  | n :: ns => n.tokens ++ tokensOf ns

end

variable {c : Condition} {s : Statement} {n : Node} {ns body : List Node} {ts : List Token}

theorem derivesArguments_map (arguments : List String) (rest : List Token) :
    DerivesArguments (arguments.map argumentToken ++ rest) arguments rest := by
  induction arguments with
  | nil => exact .none
  | cons a arguments ih =>
    rw [List.map_cons, List.cons_append, argumentToken]
    split
    · exact .name ih
    · exact .number ih

theorem Statement.derives_tokens (s : Statement) (rest : List Token) :
    DerivesNode (s.tokens ++ rest) (.statement s) rest := by
  have harguments := derivesArguments_map s.arguments (.symbol .semicolon :: rest)
  rw [tokens, List.append_assoc, List.cons_append]
  exact .statement harguments

theorem Condition.Spellable.derives_tokens (h : c.Spellable) (rest : List Token) :
    DerivesCondition (c.tokens ++ rest) c rest := by
  obtain ⟨kind, name, comparator, value⟩ := c
  have hvalue := h.value
  refine .test ?_
  cases hkind : comparator.kind with
  | flag =>
    simp only [hkind] at hvalue
    rw [hvalue]
    exact .flag hkind
  | word =>
    simp only [hkind] at hvalue
    obtain ⟨number, hnumber, -⟩ := hvalue
    rw [hnumber]
    exact .word hkind

theorem derivesBlock_braced (h : ∀ rest, DerivesNodes (ts ++ rest) body rest) (rest : List Token) :
    DerivesBlock (braced ts ++ rest) body rest := by
  rw [braced, List.append_assoc, List.cons_append]
  exact .braces (h _)

theorem derivesNodes_cons (hn : ∀ rest, DerivesNode (n.tokens ++ rest) n rest)
    (hns : ∀ rest, DerivesNodes (tokensOf ns ++ rest) ns rest) (rest : List Token) :
    DerivesNodes (tokensOf (n :: ns) ++ rest) (n :: ns) rest := by
  rw [tokensOf, List.append_assoc]
  exact .more (hn _) (hns rest)

theorem derives_tokensOf (h : SpellableAll ns) (rest : List Token) :
    DerivesNodes (tokensOf ns ++ rest) ns rest := by
  induction ns using nodes_induction generalizing rest with
  | nil => exact .none
  | statement s ns ih =>
    refine derivesNodes_cons (fun rest => ?_) (ih h.2) rest
    rw [Node.tokens]
    exact s.derives_tokens rest
  | choice c t e ns iht ihe ih =>
    obtain ⟨⟨hc, ht, he⟩, hns⟩ := h
    refine derivesNodes_cons (fun rest => ?_) (ih hns) rest
    simp only [Node.tokens, List.append_assoc, List.cons_append]
    exact .choice (hc.derives_tokens _) (derivesBlock_braced (iht ht) _)
      (.present (.block (derivesBlock_braced (ihe he) rest)))
  | loop c b ns ihb ih =>
    obtain ⟨⟨hc, hb⟩, hns⟩ := h
    refine derivesNodes_cons (fun rest => ?_) (ih hns) rest
    rw [Node.tokens, List.append_assoc, List.cons_append]
    exact .loop (hc.derives_tokens _) (derivesBlock_braced (ihb hb) rest)
  | comment text ns ih =>
    refine derivesNodes_cons (fun rest => ?_) (ih h.2) rest
    rw [Node.tokens]
    exact .comment

theorem spellable_argumentToken {a : String} (h : FreeName a ∨ IsNumeral a) :
    (argumentToken a).Spellable := by
  rw [argumentToken]
  rcases h with h | h
  · rw [if_pos h.1]
    exact spellable_name_iff.mpr h
  · rw [if_neg (Bool.eq_false_iff.mp h.isName_eq_false)]
    exact spellable_number_iff.mpr h

theorem Statement.Spellable.tokens (h : s.Spellable) : ∀ t ∈ s.tokens, t.Spellable := by
  rw [Statement.tokens, List.forall_mem_append, List.forall_mem_cons, List.forall_mem_singleton]
  refine ⟨⟨spellable_name_iff.mpr h.instruction, ?_⟩, spellable_symbol _⟩
  exact List.forall_mem_map.mpr fun a ha => spellable_argumentToken (h.arguments a ha)

theorem Condition.Spellable.tokens (h : c.Spellable) : ∀ t ∈ c.tokens, t.Spellable := by
  have hkind : (kindToken c.kind).Spellable := by
    cases c.kind with
    | flag => exact spellable_keyword _
    | word => exact spellable_keyword _
  have hcomparator : c.comparator.token.Spellable := by
    cases c.comparator with
    | isSet | isClear => exact spellable_keyword _
    | equal | notEqual | less | greaterEqual => exact spellable_symbol _
  have hvalue : ∀ number, c.value = some number → IsNumeral number := by
    intro number hsome
    have hvalue := h.value
    split at hvalue
    · rw [hvalue] at hsome
      exact nomatch hsome
    · obtain ⟨number', hsome', hnumeral⟩ := hvalue
      rw [hsome] at hsome'
      rw [Option.some.inj hsome']
      exact hnumeral
  simp only [Condition.tokens, List.forall_mem_cons, List.forall_mem_map, Option.mem_toList]
  refine ⟨hkind, spellable_name_iff.mpr h.variableName, hcomparator, fun number hmem => ?_⟩
  exact spellable_number_iff.mpr (hvalue number hmem)

theorem spellable_braced (h : ∀ t ∈ ts, t.Spellable) : ∀ t ∈ braced ts, t.Spellable := by
  rw [braced, List.forall_mem_append, List.forall_mem_cons, List.forall_mem_singleton]
  exact ⟨⟨spellable_symbol _, h⟩, spellable_symbol _⟩

theorem spellable_tokensOf (h : SpellableAll ns) : ∀ t ∈ tokensOf ns, t.Spellable := by
  induction ns using nodes_induction with
  | nil => exact fun t ht => absurd ht List.not_mem_nil
  | statement s ns ih =>
    rw [tokensOf, List.forall_mem_append, Node.tokens]
    exact ⟨h.1.tokens, ih h.2⟩
  | choice c t e ns iht ihe ih =>
    obtain ⟨⟨hc, ht, he⟩, hns⟩ := h
    simp only [tokensOf, Node.tokens, List.forall_mem_append, List.forall_mem_cons]
    exact ⟨⟨⟨⟨spellable_keyword _, hc.tokens⟩, spellable_braced (iht ht)⟩, spellable_keyword _,
      spellable_braced (ihe he)⟩, ih hns⟩
  | loop c b ns ihb ih =>
    obtain ⟨⟨hc, hb⟩, hns⟩ := h
    simp only [tokensOf, Node.tokens, List.forall_mem_append, List.forall_mem_cons]
    exact ⟨⟨⟨spellable_keyword _, hc.tokens⟩, spellable_braced (ihb hb)⟩, ih hns⟩
  | comment text ns ih =>
    rw [tokensOf, List.forall_mem_append, Node.tokens, List.forall_mem_singleton]
    exact ⟨spellable_comment_iff.mpr h.1, ih h.2⟩

end Write

/-! ## The trees of texts -/

section Texts

variable {text : List Char} {nodes : List Node}

theorem ofText?_eq_ok_iff : ofText? text = .ok nodes ↔ ∃ located, tokens text = .ok located ∧
    DerivesScript (located.map Located.token) nodes ∧ nestingOf nodes ≤ maxParseDepth := by
  rw [ofText?]
  cases htokens : tokens text with
  | error e => exact ⟨fun h => (nomatch h), fun ⟨_, h, _⟩ => (nomatch h)⟩
  | ok located =>
    simp only [Except.ok.injEq, exists_eq_left']
    rw [← parseWithin_eq_ok_iff]
    cases hparse : parse located with
    | error e => exact ⟨fun h => (nomatch h), fun h => nomatch hparse.symm.trans h⟩
    | ok found => exact ⟨fun h => hparse.trans (congrArg _ (Except.ok.inj h)),
        fun h => congrArg _ (Except.ok.inj (hparse.symm.trans h))⟩

/-- **The trees that are read from texts**: what is written in them can be spelled, and they are
not nested too deeply. -/
theorem exists_ofText?_iff : (∃ text, ofText? text = .ok nodes) ↔
    SpellableAll nodes ∧ nestingOf nodes ≤ maxParseDepth := by
  constructor
  · rintro ⟨text, h⟩
    obtain ⟨located, hlocated, hderives, hle⟩ := ofText?_eq_ok_iff.mp h
    have hspellable : ∀ t ∈ located.map Located.token, t.Spellable :=
      List.forall_mem_map.mpr (spellable_of_tokens hlocated)
    exact ⟨(spellable_of_derivesNodes hspellable hderives).1, hle⟩
  · rintro ⟨hspellable, hle⟩
    obtain ⟨text, located, hlocated, hmap⟩ := exists_tokens_iff.mpr (spellable_tokensOf hspellable)
    refine ⟨text, ofText?_eq_ok_iff.mpr ⟨located, hlocated, ?_, hle⟩⟩
    have hderives := derives_tokensOf hspellable []
    rw [List.append_nil] at hderives
    rw [hmap]
    exact hderives

/-- A text is a single name exactly if it is a name and no keyword. -/
theorem freeName_iff_tokens {s : String} : FreeName s ↔
    tokens s.toList = .ok [⟨.name s, ⟨0, byteLength s.toList⟩⟩] := by
  rw [tokens_eq_singleton_iff, ← spellable_name_iff]
  exact exists_congr fun kind => and_congr_right fun _ => eq_comm

theorem freeName_iff_exists_token {s : String} : FreeName s ↔
    ∃ text located, tokens text = .ok located ∧ ∃ t ∈ located, t.token = .name s := by
  constructor
  · intro h
    exact ⟨s.toList, _, freeName_iff_tokens.mp h, _, List.mem_cons_self, rfl⟩
  · rintro ⟨text, located, htokens, t, ht, hname⟩
    have hspellable := spellable_of_tokens htokens t ht
    rw [hname] at hspellable
    exact spellable_name_iff.mp hspellable

/-- **Resources and scripts have the same names**, the keywords apart.  Such a name, as a text, is
that name from end to end; no text has any other; and scripts may have them wherever they have
names. -/
theorem isName_iff_written :
    (∀ s : String, isName s = true ∧ s ∉ keywords ↔
      tokens s.toList = .ok [⟨.name s, ⟨0, byteLength s.toList⟩⟩]) ∧
    (∀ s : String, isName s = true ∧ s ∉ keywords ↔
      ∃ text located, tokens text = .ok located ∧ ∃ t ∈ located, t.token = .name s) ∧
    ∀ nodes, (∃ text, ofText? text = .ok nodes) ↔
      SpellableAll nodes ∧ nestingOf nodes ≤ maxParseDepth :=
  ⟨fun _ => freeName_iff_tokens, fun _ => freeName_iff_exists_token, fun _ => exists_ofText?_iff⟩

/-- A name may start like a keyword, and has no letters but `a` to `z` and `A` to `Z`. -/
example : FreeName "settings" ∧ ¬ FreeName "set" ∧ ¬ FreeName "sét" ∧ ¬ FreeName " set" := by
  decide

end Texts

end Cartridge.Script
