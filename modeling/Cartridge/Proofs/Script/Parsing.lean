import Cartridge.Proofs.Script.Grammar

/-!
# The parser and its grammar

A state of the parser asks for more: the rest of the node that is being read, nodes behind it, and
what closes the blocks that are open.  `State.Completes` says which tokens complete a state to a
script.  One token at a time, that is exactly what the parser does (`State.completes_cons_iff`), and
where the text ends it is what the parser finishes with (`State.completes_nil_iff`).

Main statement: `parse_derives`, the parser accepts what the grammar derives within the depth limit,
and the grammar derives one script from a list of tokens.
-/

namespace Cartridge.Script

/-! ## What completes a state -/

section Completes

-- `close` is what is asked for behind all the nodes of a block, the latest of them first; at a
-- depth past the limit nothing more may be nested
variable (limit depth : Nat) (close : List Node → List Token → List Node → Prop)

/-- Nodes, and then what closes the block. -/
def NodesComplete (nodes : List Node) (ts : List Token) (script : List Node) : Prop :=
  ∃ ns rest, DerivesNodes ts ns rest ∧ nestingOf ns ≤ limit - depth ∧
    close (ns.reverse ++ nodes) rest script

/-- Behind an `else`. -/
def BranchCompletes (arms : List Arm) (nodes : List Node) (ts : List Token)
    (script : List Node) : Prop :=
  ∃ branch us, DerivesBranch ts branch us ∧ nestingOf branch ≤ limit - (depth + arms.length) ∧
    NodesComplete limit depth close (chain arms branch ++ nodes) us script

/-- Behind the block of an arm. -/
def ElseCompletes (arms : List Arm) (nodes : List Node) (ts : List Token)
    (script : List Node) : Prop :=
  ∃ branch us, DerivesElse ts branch us ∧ nestingOf branch ≤ limit - (depth + arms.length) ∧
    NodesComplete limit depth close (chain arms branch ++ nodes) us script

/-- Behind a block that has been read. -/
def Block.Follows (body nodes : List Node) (ts : List Token) (script : List Node) : Block → Prop
  | .guarded (.arm before) c =>
    ElseCompletes limit depth close (⟨c, body⟩ :: before) nodes ts script
  | .guarded .loop c => NodesComplete limit depth close (.loop c body :: nodes) ts script
  | .otherwise arms => NodesComplete limit depth close (chain arms body ++ nodes) ts script

/-- In front of a block. -/
def Block.Completes (nodes : List Node) (ts : List Token) (script : List Node)
    (block : Block) : Prop :=
  ∃ body us, DerivesBlock ts body us ∧ nestingOf body ≤ limit - (depth + block.depth) ∧
    block.Follows limit depth close body nodes us script

def Stage.Completes (nodes : List Node) (ts : List Token) (script : List Node) : Stage → Prop
  | .node => NodesComplete limit depth close nodes ts script
  | .arguments instruction read =>
    ∃ args us, DerivesArguments ts args (.symbol .semicolon :: us) ∧
      NodesComplete limit depth close
        (.statement ⟨instruction, read.reverse ++ args⟩ :: nodes) us script
  | .variableKind purpose =>
    ∃ c us, DerivesCondition ts c us ∧
      (Block.guarded purpose c).Completes limit depth close nodes us script
  | .variableName purpose kind =>
    ∃ name us c value vs, ts = .name name :: us ∧ DerivesTest us c value vs ∧
      (Block.guarded purpose ⟨kind, name, c, value⟩).Completes limit depth close nodes vs script
  | .comparator purpose kind name =>
    ∃ c value us, DerivesTest ts c value us ∧
      (Block.guarded purpose ⟨kind, name, c, value⟩).Completes limit depth close nodes us script
  | .value purpose kind name c =>
    ∃ text us, ts = .number text :: us ∧
      (Block.guarded purpose ⟨kind, name, c, some text⟩).Completes limit depth close nodes us script
  | .openBrace purpose c =>
    (Block.guarded purpose c).Completes limit depth close nodes ts script
  | .afterThen arms => ElseCompletes limit depth close arms nodes ts script
  | .afterElse arms => BranchCompletes limit depth close arms nodes ts script

end Completes

def depthOf (frames : List Frame) : Nat := total (frames.map fun f => f.block.depth)

/-- What closes the blocks that are open, from the inside out, and ends the script. -/
def Closes (limit : Nat) : List Frame → List Node → List Token → List Node → Prop
  | [], nodes, ts, script => ts = [] ∧ script = nodes.reverse
  | ⟨block, outer⟩ :: frames, nodes, ts, script =>
    ∃ us, ts = .symbol .closeBrace :: us ∧
      block.Follows limit (depthOf frames) (Closes limit frames) nodes.reverse outer us script

/-- The tokens complete the text that has been read to a script of these nodes. -/
def State.Completes (limit : Nat) (s : State) (ts : List Token) (script : List Node) : Prop :=
  s.stage.Completes limit s.depth (Closes limit s.frames) s.nodes ts script

section Nodes

/-- A block starts without nodes. -/
theorem reverse_append_nil_reverse (ns : List Node) : (ns.reverse ++ []).reverse = ns := by
  rw [List.append_nil, List.reverse_reverse]

variable {limit depth : Nat} {close : List Node → List Token → List Node → Prop}
  {nodes script : List Node} {ts : List Token}

/-- A block is closed, or has one more node. -/
theorem nodesComplete_iff : NodesComplete limit depth close nodes ts script ↔
    close nodes ts script ∨ ∃ n us, DerivesNode ts n us ∧ n.nesting ≤ limit - depth ∧
      NodesComplete limit depth close (n :: nodes) us script := by
  constructor
  · rintro ⟨ns, rest, hns, hle, hclose⟩
    cases hns with
    | none => exact Or.inl hclose
    | more hfirst hbehind =>
      rw [nestingOf_cons] at hle
      rw [List.reverse_cons, List.append_assoc] at hclose
      exact Or.inr ⟨_, _, hfirst, by omega, _, _, hbehind, by omega, hclose⟩
  · rintro (hclose | ⟨n, us, hfirst, hn, ns, rest, hbehind, hle, hclose⟩)
    · exact ⟨[], ts, .none, Nat.zero_le _, hclose⟩
    · refine ⟨n :: ns, rest, .more hfirst hbehind, ?_, ?_⟩
      · rw [nestingOf_cons]
        omega
      · rw [List.reverse_cons, List.append_assoc]
        exact hclose

/-- There is no `else`, or one with a branch. -/
theorem elseCompletes_iff {arms : List Arm} : ElseCompletes limit depth close arms nodes ts script ↔
    NodesComplete limit depth close (chain arms [] ++ nodes) ts script ∨
      ∃ us, ts = .keyword .elseWord :: us ∧
        BranchCompletes limit depth close arms nodes us script := by
  constructor
  · rintro ⟨branch, us, helse, hle, hnodes⟩
    cases helse with
    | absent => exact Or.inl hnodes
    | present hbranch => exact Or.inr ⟨_, rfl, branch, us, hbranch, hle, hnodes⟩
  · rintro (hnodes | ⟨us, rfl, branch, vs, hbranch, hle, hnodes⟩)
    · exact ⟨[], ts, .absent, Nat.zero_le _, hnodes⟩
    · exact ⟨branch, vs, .present hbranch, hle, hnodes⟩

end Nodes

/-! ## One token -/

section Step

variable {limit : Nat} {s : State} {t : Token} {ts : List Token} {script : List Node}

namespace State

theorem completes_openBlock_iff {block : Block} :
    (s.openBlock block).Completes limit ts script ↔
      ∃ body us, DerivesNodes ts body (.symbol .closeBrace :: us) ∧
        nestingOf body ≤ limit - (s.depth + block.depth) ∧
        block.Follows limit s.depth (Closes limit s.frames) body s.nodes us script := by
  have hdepth : (s.openBlock block).depth = s.depth + block.depth := Nat.add_comm _ _
  have hnodes (body : List Node) : (body.reverse ++ (s.openBlock block).nodes).reverse = body :=
    reverse_append_nil_reverse body
  constructor
  · rintro ⟨body, rest, hbody, hle, us, rfl, hfollows⟩
    rw [hdepth] at hle
    rw [hnodes] at hfollows
    exact ⟨body, us, hbody, hle, hfollows⟩
  · rintro ⟨body, us, hbody, hle, hfollows⟩
    rw [← hdepth] at hle
    refine ⟨body, _, hbody, hle, us, rfl, ?_⟩
    rw [hnodes]
    exact hfollows

/-- In front of a block, a brace is asked for. -/
theorem block_completes_cons_iff {block : Block} :
    block.Completes limit s.depth (Closes limit s.frames) s.nodes (t :: ts) script ↔
      t = .symbol .openBrace ∧ (s.openBlock block).Completes limit ts script := by
  rw [completes_openBlock_iff]
  constructor
  · rintro ⟨body, us, hblock, hle, hfollows⟩
    cases hblock with
    | braces hbody => exact ⟨rfl, body, us, hbody, hle, hfollows⟩
  · rintro ⟨rfl, body, us, hbody, hle, hfollows⟩
    exact ⟨body, us, .braces hbody, hle, hfollows⟩

theorem closes_cons_iff : Closes limit s.frames s.nodes (t :: ts) script ↔
    t = .symbol .closeBrace ∧ ∃ s', s.closeBlock = .ok s' ∧ s'.Completes limit ts script := by
  obtain ⟨frames, nodes, stage⟩ := s
  cases frames with
  | nil =>
    constructor
    · exact fun h => absurd h.1 (List.cons_ne_nil t ts)
    · rintro ⟨-, s', hs', -⟩
      exact absurd hs' (by simp [closeBlock])
  | cons f frames =>
    obtain ⟨block, outer⟩ := f
    -- a closed block leaves the stage that `Follows` describes, for each kind of block
    have hclose : ∃ s', (⟨⟨block, outer⟩ :: frames, nodes, stage⟩ : State).closeBlock = .ok s' ∧
        ∀ us, s'.Completes limit us script ↔ block.Follows limit (depthOf frames)
          (Closes limit frames) nodes.reverse outer us script := by
      rcases block with ⟨before | _, c⟩ | arms
      · exact ⟨_, rfl, fun _ => Iff.rfl⟩
      · exact ⟨_, rfl, fun _ => Iff.rfl⟩
      · exact ⟨_, rfl, fun _ => Iff.rfl⟩
    obtain ⟨s', hs', hfollows⟩ := hclose
    constructor
    · rintro ⟨us, hts, h⟩
      obtain ⟨rfl, rfl⟩ := List.cons.inj hts
      exact ⟨rfl, s', hs', (hfollows _).mpr h⟩
    · rintro ⟨rfl, s'', hs'', h⟩
      obtain rfl := Except.ok.inj (hs'.symm.trans hs'')
      exact ⟨ts, rfl, (hfollows _).mp h⟩

theorem enter_eq_ok_iff {purpose : Purpose} {s' : State} : s.enter limit purpose = .ok s' ↔
    s.depth + purpose.depth < limit ∧ s' = { s with stage := .variableKind purpose } := by
  unfold enter
  split
  · exact ⟨fun h => absurd h (by simp), fun h => absurd h.1 (by omega)⟩
  · rw [Except.ok.injEq]
    exact ⟨fun h => ⟨by omega, h.symm⟩, fun h => h.2.symm⟩

/-- Behind `if`, the rest of a node is asked for that is the latest arm of a chain.  The node is one
level deeper than the arms before it, which is what the parser checks on the way in. -/
theorem exists_enter_arm_iff {before : List Arm} :
    (∃ s', s.enter limit (.arm before) = .ok s' ∧ s'.Completes limit ts script) ↔
      ∃ n us, DerivesNode (.keyword .ifWord :: ts) n us ∧
        n.nesting ≤ limit - (s.depth + before.length) ∧
        NodesComplete limit s.depth (Closes limit s.frames) (chain before [n] ++ s.nodes) us
          script := by
  simp only [enter_eq_ok_iff]
  constructor
  · rintro ⟨_, ⟨hlt, rfl⟩, c, us, hc, body, vs, hblock, hbody, branch, ws, helse, hbranch, h⟩
    change s.depth + before.length < limit at hlt
    change nestingOf body ≤ limit - (s.depth + (before.length + 1)) at hbody
    change nestingOf branch ≤ limit - (s.depth + (before.length + 1)) at hbranch
    refine ⟨_, ws, .choice hc hblock helse, ?_, h⟩
    rw [nesting_choice]
    omega
  · rintro ⟨n, ws, hn, hle, h⟩
    cases hn with
    | choice hc hblock helse =>
      rw [nesting_choice] at hle
      refine ⟨_, ⟨?_, rfl⟩, _, _, hc, _, _, hblock, ?_, _, _, helse, ?_, h⟩
      · show s.depth + before.length < limit
        omega
      · show _ ≤ limit - (s.depth + (before.length + 1))
        omega
      · show _ ≤ limit - (s.depth + (before.length + 1))
        omega

theorem exists_enter_loop_iff :
    (∃ s', s.enter limit .loop = .ok s' ∧ s'.Completes limit ts script) ↔
      ∃ n us, DerivesNode (.keyword .whileWord :: ts) n us ∧ n.nesting ≤ limit - s.depth ∧
        NodesComplete limit s.depth (Closes limit s.frames) (n :: s.nodes) us script := by
  simp only [enter_eq_ok_iff]
  constructor
  · rintro ⟨_, ⟨hlt, rfl⟩, c, us, hc, body, vs, hblock, hbody, h⟩
    change s.depth + 0 < limit at hlt
    change nestingOf body ≤ limit - (s.depth + (0 + 1)) at hbody
    refine ⟨_, vs, .loop hc hblock, ?_, h⟩
    rw [nesting_loop]
    omega
  · rintro ⟨n, vs, hn, hle, h⟩
    cases hn with
    | loop hc hblock =>
      rw [nesting_loop] at hle
      refine ⟨_, ⟨?_, rfl⟩, _, _, hc, _, _, hblock, ?_, h⟩
      · show s.depth + 0 < limit
        omega
      · show _ ≤ limit - (s.depth + (0 + 1))
        omega

/-- Between two nodes. -/
theorem nodesComplete_cons_iff :
    NodesComplete limit s.depth (Closes limit s.frames) s.nodes (t :: ts) script ↔
      ∃ s', s.stepNode limit t = .ok s' ∧ s'.Completes limit ts script := by
  rw [nodesComplete_iff, closes_cons_iff]
  constructor
  · rintro (⟨rfl, h⟩ | ⟨n, us, hn, hle, h⟩)
    · exact h
    · cases hn with
      | comment => exact ⟨_, rfl, h⟩
      | statement hargs => exact ⟨_, rfl, _, _, hargs, h⟩
      | choice hc hblock helse =>
        exact exists_enter_arm_iff.mpr ⟨_, _, .choice hc hblock helse, hle, h⟩
      | loop hc hblock => exact exists_enter_loop_iff.mpr ⟨_, _, .loop hc hblock, hle, h⟩
  · rintro ⟨s', hs', h⟩
    unfold stepNode at hs'
    split at hs'
    next text =>
      obtain rfl := Except.ok.inj hs'
      exact Or.inr ⟨_, _, .comment, Nat.zero_le _, h⟩
    next => exact Or.inr (exists_enter_arm_iff.mp ⟨s', hs', h⟩)
    next => exact Or.inr (exists_enter_loop_iff.mp ⟨s', hs', h⟩)
    next instruction =>
      obtain rfl := Except.ok.inj hs'
      obtain ⟨args, us, hargs, h⟩ := h
      exact Or.inr ⟨_, _, .statement hargs, Nat.zero_le _, h⟩
    next => exact Or.inl ⟨rfl, s', hs', h⟩
    next => exact absurd hs' (by simp)

/-- In front of the next argument, or of the semicolon. -/
theorem arguments_cons_iff {frames : List Frame} {nodes : List Node} {instruction : String}
    {read : List String} :
    (⟨frames, nodes, .arguments instruction read⟩ : State).Completes limit (t :: ts) script ↔
      ∃ s', (⟨frames, nodes, .arguments instruction read⟩ : State).step limit t = .ok s' ∧
        s'.Completes limit ts script := by
  have hargs : ∀ text args, read.reverse ++ text :: args = (text :: read).reverse ++ args := by
    intro text args
    rw [List.reverse_cons, List.append_assoc]
    rfl
  constructor
  · rintro ⟨args, us, hderives, h⟩
    cases hderives with
    | none =>
      rw [List.append_nil] at h
      exact ⟨_, rfl, h⟩
    | name hbehind =>
      rw [hargs] at h
      exact ⟨_, rfl, _, _, hbehind, h⟩
    | number hbehind =>
      rw [hargs] at h
      exact ⟨_, rfl, _, _, hbehind, h⟩
  · rintro ⟨s', hs', h⟩
    match t with
    | .name text =>
      obtain rfl := Except.ok.inj hs'
      obtain ⟨args, us, hbehind, h⟩ := h
      rw [← hargs] at h
      exact ⟨_, us, .name hbehind, h⟩
    | .number text =>
      obtain rfl := Except.ok.inj hs'
      obtain ⟨args, us, hbehind, h⟩ := h
      rw [← hargs] at h
      exact ⟨_, us, .number hbehind, h⟩
    | .symbol .semicolon =>
      obtain rfl := Except.ok.inj hs'
      refine ⟨[], ts, .none, ?_⟩
      rw [List.append_nil]
      exact h

/-- In front of a comparator. -/
theorem comparator_cons_iff {frames : List Frame} {nodes : List Node} {purpose : Purpose}
    {kind : VariableKind} {name : String} :
    (⟨frames, nodes, .comparator purpose kind name⟩ : State).Completes limit (t :: ts) script ↔
      ∃ s', (⟨frames, nodes, .comparator purpose kind name⟩ : State).step limit t = .ok s' ∧
        s'.Completes limit ts script := by
  constructor
  · rintro ⟨c, value, us, htest, h⟩
    cases htest with
    | flag hkind =>
      refine ⟨⟨frames, nodes, .openBrace purpose ⟨kind, name, c, none⟩⟩, ?_, h⟩
      simp only [step, comparatorOf?_token, hkind]
    | word hkind =>
      refine ⟨⟨frames, nodes, .value purpose kind name c⟩, ?_, _, us, rfl, h⟩
      simp only [step, comparatorOf?_token, hkind]
  · rintro ⟨s', hs', h⟩
    simp only [step] at hs'
    cases hc : comparatorOf? t with
    | none =>
      rw [hc] at hs'
      exact absurd hs' (by simp)
    | some c =>
      obtain rfl := comparatorOf?_eq_some_iff.mp hc
      rw [hc] at hs'
      cases hkind : c.kind with
      | flag =>
        simp only [hkind] at hs'
        obtain rfl := Except.ok.inj hs'
        exact ⟨c, none, ts, .flag hkind, h⟩
      | word =>
        simp only [hkind] at hs'
        obtain rfl := Except.ok.inj hs'
        obtain ⟨text, us, rfl, h⟩ := h
        exact ⟨c, some text, us, .word hkind, h⟩

/-- Behind the block of an arm: any token but `else` is read between two nodes. -/
theorem afterThen_cons_iff {frames : List Frame} {nodes : List Node} {arms : List Arm} :
    (⟨frames, nodes, .afterThen arms⟩ : State).Completes limit (t :: ts) script ↔
      ∃ s', (⟨frames, nodes, .afterThen arms⟩ : State).step limit t = .ok s' ∧
        s'.Completes limit ts script := by
  have hsettled := @nodesComplete_cons_iff limit ⟨frames, chain arms [] ++ nodes, .node⟩ t ts script
  show ElseCompletes limit _ _ arms nodes (t :: ts) script ↔ _
  rw [elseCompletes_iff]
  by_cases helse : t = .keyword .elseWord
  · subst helse
    constructor
    · rintro (h | ⟨us, hus, h⟩)
      · obtain ⟨s', hs', -⟩ := hsettled.mp h
        exact absurd hs' (by simp [stepNode])
      · obtain rfl := (List.cons.inj hus).2
        exact ⟨_, rfl, h⟩
    · rintro ⟨s', hs', h⟩
      obtain rfl := Except.ok.inj hs'
      exact Or.inr ⟨ts, rfl, h⟩
  · have hstep : (⟨frames, nodes, .afterThen arms⟩ : State).step limit t =
        (⟨frames, chain arms [] ++ nodes, .node⟩ : State).stepNode limit t := by
      simp only [step]
      rfl
    rw [hstep, ← hsettled]
    refine ⟨fun h => h.resolve_right ?_, Or.inl⟩
    rintro ⟨us, hus, -⟩
    exact helse (List.cons.inj hus).1

/-- Behind an `else`. -/
theorem afterElse_cons_iff {frames : List Frame} {nodes : List Node} {arms : List Arm} :
    (⟨frames, nodes, .afterElse arms⟩ : State).Completes limit (t :: ts) script ↔
      ∃ s', (⟨frames, nodes, .afterElse arms⟩ : State).step limit t = .ok s' ∧
        s'.Completes limit ts script := by
  have hblock := @block_completes_cons_iff limit ⟨frames, nodes, .afterElse arms⟩ t ts script
    (.otherwise arms)
  have harm := @exists_enter_arm_iff limit ⟨frames, nodes, .afterElse arms⟩ ts script arms
  constructor
  · rintro ⟨branch, us, hbranch, hle, h⟩
    cases hbranch with
    | block hbraces =>
      obtain ⟨rfl, hopen⟩ := hblock.mp ⟨branch, us, hbraces, hle, h⟩
      exact ⟨_, rfl, hopen⟩
    | elseIf hn =>
      rw [nestingOf_cons, nestingOf_nil, Nat.max_zero] at hle
      exact harm.mpr ⟨_, us, hn, hle, h⟩
  · rintro ⟨s', hs', h⟩
    simp only [step] at hs'
    split at hs'
    next =>
      obtain ⟨n, us, hn, hle, h⟩ := harm.mp ⟨s', hs', h⟩
      refine ⟨[n], us, .elseIf hn, ?_, h⟩
      rw [nestingOf_cons, nestingOf_nil, Nat.max_zero]
      exact hle
    next =>
      obtain rfl := Except.ok.inj hs'
      obtain ⟨body, us, hbraces, hle, h⟩ := hblock.mpr ⟨rfl, h⟩
      exact ⟨body, us, .block hbraces, hle, h⟩
    next => exact absurd hs' (by simp)

/-- **What completes a state behind a token** completes the state that the token leads to. -/
theorem completes_cons_iff : s.Completes limit (t :: ts) script ↔
    ∃ s', s.step limit t = .ok s' ∧ s'.Completes limit ts script := by
  obtain ⟨frames, nodes, stage⟩ := s
  cases stage with
  | node => exact nodesComplete_cons_iff
  | arguments instruction read => exact arguments_cons_iff
  | variableKind purpose =>
    constructor
    · rintro ⟨c, us, hc, h⟩
      cases hc with
      | @test kind _ _ _ _ _ htest =>
        refine ⟨⟨frames, nodes, .variableName purpose kind⟩, ?_, _, _, _, _, _, rfl, htest, h⟩
        cases kind with
        | flag => rfl
        | word => rfl
    · rintro ⟨s', hs', h⟩
      match t with
      | .keyword .flagWord =>
        obtain rfl := Except.ok.inj hs'
        obtain ⟨name, us, c, value, vs, rfl, htest, h⟩ := h
        exact ⟨_, vs, @DerivesCondition.test .flag _ _ _ _ _ htest, h⟩
      | .keyword .wordWord =>
        obtain rfl := Except.ok.inj hs'
        obtain ⟨name, us, c, value, vs, rfl, htest, h⟩ := h
        exact ⟨_, vs, @DerivesCondition.test .word _ _ _ _ _ htest, h⟩
  | variableName purpose kind =>
    constructor
    · rintro ⟨name, us, c, value, vs, hts, htest, h⟩
      obtain ⟨rfl, rfl⟩ := List.cons.inj hts
      exact ⟨_, rfl, c, value, vs, htest, h⟩
    · rintro ⟨s', hs', h⟩
      match t with
      | .name name =>
        obtain rfl := Except.ok.inj hs'
        obtain ⟨c, value, vs, htest, h⟩ := h
        exact ⟨name, ts, c, value, vs, rfl, htest, h⟩
  | comparator purpose kind name => exact comparator_cons_iff
  | value purpose kind name c =>
    constructor
    · rintro ⟨text, us, hts, h⟩
      obtain ⟨rfl, rfl⟩ := List.cons.inj hts
      exact ⟨_, rfl, h⟩
    · rintro ⟨s', hs', h⟩
      match t with
      | .number text =>
        obtain rfl := Except.ok.inj hs'
        exact ⟨text, ts, rfl, h⟩
  | openBrace purpose c =>
    refine (block_completes_cons_iff (s := ⟨frames, nodes, .openBrace purpose c⟩)).trans ?_
    constructor
    · rintro ⟨rfl, h⟩
      exact ⟨_, rfl, h⟩
    · rintro ⟨s', hs', h⟩
      match t with
      | .symbol .openBrace =>
        obtain rfl := Except.ok.inj hs'
        exact ⟨rfl, h⟩
  | afterThen arms => exact afterThen_cons_iff
  | afterElse arms => exact afterElse_cons_iff

/-! ## The end of the text -/

theorem nodesComplete_nil_iff {frames : List Frame} {nodes : List Node} :
    NodesComplete limit (depthOf frames) (Closes limit frames) nodes [] script ↔
      (⟨frames, nodes, .node⟩ : State).finish = .ok script := by
  rw [nodesComplete_iff]
  have hnone : ¬ ∃ n us, DerivesNode [] n us ∧ n.nesting ≤ limit - depthOf frames ∧
      NodesComplete limit (depthOf frames) (Closes limit frames) (n :: nodes) us script := by
    rintro ⟨n, us, hn, -⟩
    cases hn
  rw [or_iff_left hnone]
  cases frames with
  | nil => exact ⟨fun h => congrArg Except.ok h.2.symm, fun h => ⟨rfl, (Except.ok.inj h).symm⟩⟩
  | cons f frames =>
    constructor
    · rintro ⟨us, hus, -⟩
      exact absurd hus (by simp)
    · exact fun h => absurd h (by simp [finish, settle])

/-- **Nothing more is needed** exactly where the parser may finish. -/
theorem completes_nil_iff : s.Completes limit [] script ↔ s.finish = .ok script := by
  obtain ⟨frames, nodes, stage⟩ := s
  cases stage with
  | node => exact nodesComplete_nil_iff
  | afterThen arms =>
    refine elseCompletes_iff.trans ?_
    rw [or_iff_left (by rintro ⟨us, hus, -⟩; exact absurd hus (by simp))]
    exact nodesComplete_nil_iff
  | arguments instruction read =>
    exact ⟨fun ⟨_, _, hargs, _⟩ => (nomatch hargs), fun h => (nomatch h)⟩
  | variableKind purpose => exact ⟨fun ⟨_, _, hc, _⟩ => (nomatch hc), fun h => (nomatch h)⟩
  | variableName purpose kind =>
    exact ⟨fun ⟨_, _, _, _, _, hts, _⟩ => (nomatch hts), fun h => (nomatch h)⟩
  | comparator purpose kind name =>
    exact ⟨fun ⟨_, _, _, htest, _⟩ => (nomatch htest), fun h => (nomatch h)⟩
  | value purpose kind name c => exact ⟨fun ⟨_, _, hts, _⟩ => (nomatch hts), fun h => (nomatch h)⟩
  | openBrace purpose c => exact ⟨fun ⟨_, _, hblock, _⟩ => (nomatch hblock), fun h => (nomatch h)⟩
  | afterElse arms =>
    refine ⟨fun ⟨_, _, hbranch, _⟩ => ?_, fun h => (nomatch h)⟩
    cases hbranch with
    | block hblock => exact nomatch hblock

/-! ## Whole texts -/

theorem read_eq_ok_iff {t : Located} {s' : State} :
    s.read limit t = .ok s' ↔ s.step limit t.token = .ok s' := by
  unfold read
  cases hs : s.step limit t.token with
  | ok next => exact ⟨fun h => congrArg _ (Except.ok.inj h), fun h => congrArg _ (Except.ok.inj h)⟩
  | error refusal =>
    cases refusal with
    | unexpected expected => exact ⟨fun h => (nomatch h), fun h => (nomatch h)⟩
    | tooDeep => exact ⟨fun h => (nomatch h), fun h => (nomatch h)⟩

/-- A run completes the state that it starts from, if the parser may finish at its end. -/
theorem completes_iff_run {located : List Located} :
    s.Completes limit (located.map Located.token) script ↔
      ∃ s', located.foldlM (State.read limit) s = .ok s' ∧ s'.finish = .ok script := by
  induction located generalizing s with
  | nil =>
    rw [List.map_nil, completes_nil_iff]
    exact ⟨fun h => ⟨s, rfl, h⟩, fun ⟨s', hs', h⟩ => Except.ok.inj hs' ▸ h⟩
  | cons t located ih =>
    rw [List.map_cons, completes_cons_iff, List.foldlM_cons]
    cases hs : s.read limit t with
    | ok next =>
      have hstep := read_eq_ok_iff.mp hs
      simp only [hstep, Except.ok.injEq, exists_eq_left']
      exact ih
    | error e =>
      constructor
      · rintro ⟨s', hs', -⟩
        rw [read_eq_ok_iff.mpr hs'] at hs
        exact absurd hs (by simp)
      · rintro ⟨s', hs', -⟩
        exact absurd hs' (by simp [bind, Except.bind])

theorem completes_start_iff : start.Completes limit ts script ↔
    DerivesScript ts script ∧ nestingOf script ≤ limit := by
  have hnodes (ns : List Node) : (ns.reverse ++ start.nodes).reverse = ns :=
    reverse_append_nil_reverse ns
  constructor
  · rintro ⟨ns, rest, hns, hle, rfl, rfl⟩
    rw [hnodes]
    exact ⟨hns, hle⟩
  · rintro ⟨hns, hle⟩
    exact ⟨script, [], hns, hle, rfl, (hnodes script).symm⟩

end State

end Step

section Parse

variable {limit : Nat} {ts : List Located} {nodes : List Node}

theorem parseWithin_eq_ok_iff : parseWithin limit ts = .ok nodes ↔
    DerivesScript (ts.map Located.token) nodes ∧ nestingOf nodes ≤ limit := by
  rw [← State.completes_start_iff, State.completes_iff_run, parseWithin]
  cases ts.foldlM (State.read limit) State.start with
  | error e => exact ⟨fun h => (nomatch h), fun ⟨s, hs, _⟩ => (nomatch hs)⟩
  | ok s =>
    simp only [Except.ok.injEq, exists_eq_left']
    cases s.finish with
    | error expected => simp
    | ok found => simp

/-- The grammar is unambiguous: deep enough, the parser finds both scripts. -/
theorem DerivesScript.unique {ts : List Token} {ns ms : List Node} (hns : DerivesScript ts ns)
    (hms : DerivesScript ts ms) : ns = ms := by
  have htokens : (ts.map fun t => (⟨t, ⟨0, 0⟩⟩ : Located)).map Located.token = ts := by
    rw [List.map_map]
    exact List.map_id ts
  rw [← htokens] at hns hms
  have hfirst := parseWithin_eq_ok_iff.mpr ⟨hns, Nat.le_max_left (nestingOf ns) (nestingOf ms)⟩
  have hsecond := parseWithin_eq_ok_iff.mpr ⟨hms, Nat.le_max_right (nestingOf ns) (nestingOf ms)⟩
  exact Except.ok.inj (hfirst.symm.trans hsecond)

/-- **The parser accepts exactly its grammar**, up to the depth limit. -/
theorem parse_derives (ts : List Located) :
    (∀ nodes, parse ts = .ok nodes ↔
      DerivesScript (ts.map Located.token) nodes ∧ nestingOf nodes ≤ maxParseDepth) ∧
    (∀ nodes, DerivesScript (ts.map Located.token) nodes →
      ∀ others, DerivesScript (ts.map Located.token) others → others = nodes) ∧
    ((∃ nodes, parse ts = .ok nodes) ∨ ∃ e, parse ts = .error e ∧
      ∀ nodes, DerivesScript (ts.map Located.token) nodes → maxParseDepth < nestingOf nodes) := by
  have hparse : ∀ nodes, parse ts = .ok nodes ↔
      DerivesScript (ts.map Located.token) nodes ∧ nestingOf nodes ≤ maxParseDepth :=
    fun nodes => parseWithin_eq_ok_iff
  refine ⟨hparse, fun nodes hnodes others hothers => hothers.unique hnodes, ?_⟩
  cases h : parse ts with
  | ok nodes => exact Or.inl ⟨nodes, rfl⟩
  | error e =>
    refine Or.inr ⟨e, rfl, fun nodes hnodes => Nat.lt_of_not_le fun hle => ?_⟩
    have hok := (hparse nodes).mpr ⟨hnodes, hle⟩
    rw [h] at hok
    exact absurd hok (by simp)

section Sample

/-- A chain of arms without an `else`, and a loop behind it. -/
def sampleText : List Located :=
  [.keyword .ifWord, .keyword .flagWord, .name "door", .keyword .setWord, .symbol .openBrace,
    .symbol .closeBrace, .keyword .elseWord, .keyword .ifWord, .keyword .wordWord, .name "coins",
    .symbol .less, .number "10", .symbol .openBrace, .name "sleep_frames", .number "1",
    .symbol .semicolon, .symbol .closeBrace, .keyword .whileWord, .keyword .flagWord, .name "door",
    .keyword .clearWord, .symbol .openBrace, .comment "wait", .symbol .closeBrace].map
      fun t => ⟨t, ⟨0, 0⟩⟩

def sampleScript : List Node :=
  [.choice ⟨.flag, "door", .isSet, none⟩ []
      [.choice ⟨.word, "coins", .less, some "10"⟩ [.statement ⟨"sleep_frames", ["1"]⟩] []],
    .loop ⟨.flag, "door", .isClear, none⟩ [.comment "wait"]]

theorem derives_sampleText : DerivesScript (sampleText.map Located.token) sampleScript ∧
    nestingOf sampleScript ≤ maxParseDepth ∧
    ∀ nodes, DerivesScript (sampleText.map Located.token) nodes → nodes = sampleScript := by
  obtain ⟨hparse, hunique, -⟩ := parse_derives sampleText
  obtain ⟨hderives, hle⟩ := (hparse sampleScript).mp rfl
  exact ⟨hderives, hle, hunique sampleScript hderives⟩

end Sample

end Parse

end Cartridge.Script
