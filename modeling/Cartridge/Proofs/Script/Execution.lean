import Cartridge.Proofs.Script.Reading

/-!
# Running scripts

The runtime belongs to the game, so it is a parameter: `Runtime` says what flags and words are in a
state and what an instruction of the table does to it.  `follow` reads a script tree, one node at a
time: statements in order, a choice on its condition, and a loop by testing its condition before
every turn.  `step` runs the code, one instruction at a time.

Main statement: `compile_preserves`, a script that is compiled without an error does what its tree
says.  The proof is a simulation in both directions.  `Reads` says that the code at an offset does
what remains of the tree, perhaps behind some jumps.
-/

namespace Cartridge.Script

/-! ## Runs -/

section Runs

/-- A run of a machine with the instructions that it executes. -/
inductive Run {Config : Type} (next : Config → Option (List Call × Config)) :
    Config → List Call → Config → Prop where
  | refl (c : Config) : Run next c [] c
  | step {c c' c'' : Config} {calls calls' : List Call} (head : next c = some (calls, c'))
      (tail : Run next c' calls' c'') : Run next c (calls ++ calls') c''

variable {C D : Type} {next : C → Option (List Call × C)} {next' : D → Option (List Call × D)}

theorem Run.single {c c' : C} {calls : List Call} (h : next c = some (calls, c')) :
    Run next c calls c' := by
  have hrun := Run.step h (Run.refl c')
  rw [List.append_nil] at hrun
  exact hrun

theorem Run.append {c c' c'' : C} {calls calls' : List Call} (h : Run next c calls c')
    (h' : Run next c' calls' c'') : Run next c (calls ++ calls') c'' := by
  induction h with
  | refl => exact h'
  | step head _ ih =>
    rw [List.append_assoc]
    exact Run.step head (ih h')

/-- If every step of one machine is matched by a run of another, so is every run. -/
theorem Run.simulate (R : C → D → Prop)
    (hstep : ∀ {c c' d calls}, R c d → next c = some (calls, c') →
      ∃ d', Run next' d calls d' ∧ R c' d')
    {c c' : C} {d : D} {calls : List Call} (hR : R c d) (h : Run next c calls c') :
    ∃ d', Run next' d calls d' ∧ R c' d' := by
  induction h generalizing d with
  | refl => exact ⟨d, Run.refl d, hR⟩
  | step head _ ih =>
    obtain ⟨d', hrun, hR'⟩ := hstep hR head
    obtain ⟨d'', hrun', hR''⟩ := ih hR'
    exact ⟨d'', hrun.append hrun', hR''⟩

end Runs

/-! ## The two machines -/

/-- What the game does with a state: it reads flags and words, and an instruction of the table
changes the state in a way of its own. -/
structure Runtime (State : Type) where
  flag : State → Nat → Bool
  word : State → Nat → UInt16
  effect : Call → State → State

section Machines

variable {State : Type} (rt : Runtime State)

/-- Whether a test holds in a state. -/
def Runtime.holds (σ : State) (test : Test) : Bool :=
  match test.comparator with
  | .isSet => rt.flag σ test.index
  | .isClear => !rt.flag σ test.index
  | .equal => decide ((rt.word σ test.index).toNat = test.value)
  | .notEqual => decide ((rt.word σ test.index).toNat ≠ test.value)
  | .less => decide ((rt.word σ test.index).toNat < test.value)
  | .greaterEqual => decide (test.value ≤ (rt.word σ test.index).toNat)

theorem Runtime.holds_negate (σ : State) (test : Test) :
    rt.holds σ test.negate = !rt.holds σ test := by
  obtain ⟨c, index, value⟩ := test
  cases c with
  | equal => exact decide_not
  | notEqual =>
    rw [holds, holds, ← decide_not]
    exact decide_eq_decide.mpr Decidable.not_not.symm
  | less =>
    rw [holds, holds, ← decide_not]
    exact decide_eq_decide.mpr Nat.not_lt.symm
  | greaterEqual =>
    rw [holds, holds, ← decide_not]
    exact decide_eq_decide.mpr Nat.not_le.symm
  | isSet => rfl
  | isClear => exact (Bool.not_not _).symm

/-- Reads the first node of a tree.  Nothing follows on a tree without nodes, nor on a statement or
a condition that stands for nothing. -/
def follow (ctx : Context) : List Node × State → Option (List Call × (List Node × State))
  | ([], _) => none
  | (.statement s :: ns, σ) => (s.call? ctx).map fun call => ([call], (ns, rt.effect call σ))
  | (.choice c t e :: ns, σ) =>
    (c.test? ctx).map fun test => ([], ((if rt.holds σ test then t else e) ++ ns, σ))
  | (.loop c b :: ns, σ) =>
    (c.test? ctx).map fun test =>
      ([], (if rt.holds σ test then b ++ .loop c b :: ns else ns, σ))
  | (.comment _ :: ns, σ) => some ([], (ns, σ))

/-- What an instruction of the code does; the end of the script does nothing. -/
def execute (op : Op) (pc : Nat) (σ : State) : Option (List Call × (Nat × State)) :=
  match op with
  | .finish => none
  | .jump target => some ([], (target, σ))
  | .branch test target => some ([], (if rt.holds σ test then target else pc + test.size, σ))
  | .call call => some ([call], (pc + (Op.call call).size, rt.effect call σ))

/-- Runs the instruction at an offset of the code. -/
def step (t : InstructionTable) (code : Bytes) (c : Nat × State) :
    Option (List Call × (Nat × State)) :=
  (decode? t (code.drop c.1)).bind fun op => execute rt op c.1 c.2

variable {rt} {t : InstructionTable} {code : Bytes} {pc : Nat} {σ : State}

theorem step_of_decode? {op : Op} (h : decode? t (code.drop pc) = some op) :
    step rt t code (pc, σ) = execute rt op pc σ := by
  rw [step, h, Option.bind_some]

end Machines

/-! ## Instructions in the code -/

section Placed

/-- Instructions stand in the code at an offset. -/
def Placed (t : InstructionTable) (code : Bytes) (pc : Nat) (ops : List Op) : Prop :=
  assemble t ops <+: code.drop pc

variable {t : InstructionTable} {code : Bytes} {pc : Nat} {op : Op} {xs ys : List Op}

theorem placed_append : Placed t code pc (xs ++ ys) ↔
    Placed t code pc xs ∧ Placed t code (pc + extent xs) ys := by
  unfold Placed
  rw [assemble_append, ← List.drop_drop, ← length_assemble t xs]
  constructor
  · rintro ⟨rest, h⟩
    rw [List.append_assoc] at h
    rw [← h]
    exact ⟨List.prefix_append _ _, by rw [List.drop_left]; exact List.prefix_append _ _⟩
  · rintro ⟨⟨rest, h⟩, h'⟩
    rw [← h, List.drop_left] at h'
    rw [← h]
    exact (List.prefix_append_right_inj _).mpr h'

theorem placed_cons : Placed t code pc (op :: xs) ↔
    Placed t code pc [op] ∧ Placed t code (pc + op.size) xs := by
  have h : Placed t code pc ([op] ++ xs) ↔ _ := placed_append
  rw [extent_cons, extent_nil, Nat.add_zero] at h
  exact h

theorem decode?_of_placed (ht : t.LaidOut) (hf : op.Fits t) (h : Placed t code pc (op :: xs)) :
    decode? t (code.drop pc) = some op := by
  obtain ⟨rest, h⟩ := (placed_cons.mp h).1
  rw [assemble_cons, assemble_nil, List.append_nil] at h
  rw [← h]
  exact decode?_encode ht hf rest

theorem Placed.lt_length (h : Placed t code pc [op]) : pc < code.length := by
  have hle := h.length_le
  have hpos := op.size_pos
  rw [length_assemble, extent_cons, extent_nil, List.length_drop] at hle
  omega

theorem Placed.getElem?_finish (h : Placed t code pc [.finish]) :
    code[pc]? = some (byte Opcode.finish) := by
  obtain ⟨rest, h⟩ := h
  rw [← Nat.add_zero pc, ← List.getElem?_drop, ← h]
  rfl

end Placed

/-! ## The simulation -/

section Simulation

/-- What the code at an offset does is what the nodes say.  Between two nodes there may be jumps. -/
inductive Reads (ctx : Context) (code : Bytes) : Nat → List Node → Prop where
  | finish {pc : Nat} (h : Placed ctx.instructions code pc [.finish]) : Reads ctx code pc []
  | node {pc : Nat} {n : Node} {ns : List Node}
      (h : Placed ctx.instructions code pc (n.ops ctx pc))
      (tail : Reads ctx code (pc + n.size ctx.instructions) ns) : Reads ctx code pc (n :: ns)
  | jump {pc target : Nat} {ns : List Node} (h : Placed ctx.instructions code pc [.jump target])
      (tail : Reads ctx code target ns) : Reads ctx code pc ns

variable {ctx : Context} {code : Bytes} {pc : Nat} {n : Node} {xs ns : List Node}

theorem Reads.append (h : Placed ctx.instructions code pc (opsOf ctx pc xs))
    (tail : Reads ctx code (pc + codeSize ctx.instructions xs) ns) :
    Reads ctx code pc (xs ++ ns) := by
  induction xs generalizing pc with
  | nil => exact tail
  | cons x xs ih =>
    rw [opsOf, placed_append, extent_ops] at h
    rw [codeSize, ← Nat.add_assoc] at tail
    exact Reads.node h.1 (ih h.2 tail)

/-- The tree and the code are at the same place, in the same state. -/
structure Agree (ctx : Context) (code : Bytes) {State : Type} (c : List Node × State)
    (d : Nat × State) : Prop where
  state_eq : c.2 = d.2
  reads : Reads ctx code d.1 c.1
  resolved : ResolvedAll ctx c.1

/-- There is always an instruction to run. -/
theorem Reads.lt_length (h : Reads ctx code pc ns) : pc < code.length := by
  induction h with
  | finish h => exact h.lt_length
  | node h tail ih => omega
  | jump h tail ih => exact h.lt_length

theorem reads_bytecode (nodes : List Node) : Reads ctx (bytecode ctx nodes) 0 nodes := by
  have h : Placed ctx.instructions (bytecode ctx nodes) 0 (listing ctx nodes) := by
    rw [bytecode_eq_assemble]
    exact List.prefix_refl _
  rw [listing, placed_append, extent_opsOf] at h
  have hreads := Reads.append h.1 (Reads.finish h.2)
  rw [List.append_nil] at hreads
  exact hreads

variable {State : Type} {rt : Runtime State} {σ : State}

/-- Reading a node and running the instruction in front of its code do the same. -/
def Node.Steps (rt : Runtime State) (ctx : Context) (code : Bytes) (pc : Nat) (n : Node)
    (ns : List Node) (σ : State) : Prop :=
  ∃ calls c d, follow rt ctx (n :: ns, σ) = some (calls, c) ∧
    step rt ctx.instructions code (pc, σ) = some (calls, d) ∧ Agree ctx code c d

variable (rt σ) in
theorem step_eq_none_of_finish (h : code[pc]? = some (byte Opcode.finish)) :
    step rt ctx.instructions code (pc, σ) = none := by
  obtain ⟨hlt, hget⟩ := List.getElem?_eq_some_iff.mp h
  have hdecode : decode? ctx.instructions (code.drop pc) = some .finish := by
    rw [List.drop_eq_getElem_cons hlt, hget]
    exact decode?_finish _
  exact step_of_decode? hdecode

variable (hs : ctx.Sound) (hlen : code.length ≤ maxScriptSize)
include hs hlen

/-- The numbers of a node that other code follows fit into their operands. -/
theorem Reads.fits_of_mem_ops (tail : Reads ctx code (pc + n.size ctx.instructions) ns) {op : Op}
    (h : op ∈ n.ops ctx pc) : op.Fits ctx.instructions := by
  have hlt := tail.lt_length
  have hmax : maxScriptSize = 0x10000 := rfl
  have hsize : pc + codeSize ctx.instructions [n] < 0x10000 := by
    rw [codeSize, codeSize]
    omega
  exact fits_opsOf hs hsize _ (List.mem_append_left _ h)

theorem step_jump {target : Nat} (h : Placed ctx.instructions code pc [.jump target])
    (tail : Reads ctx code target ns) :
    step rt ctx.instructions code (pc, σ) = some ([], (target, σ)) := by
  have hlt := tail.lt_length
  have hmax : maxScriptSize = 0x10000 := rfl
  have hfits : (Op.jump target).Fits ctx.instructions := by
    show target < 0x10000
    omega
  exact step_of_decode? (decode?_of_placed hs.laidOut hfits h)

variable (rt σ) in
/-- The branch that leaves a block goes on into it if the condition holds. -/
theorem step_exit {c : Condition} {test : Test} {target : Nat} {ops : List Op}
    (h : Placed ctx.instructions code pc (n.ops ctx pc))
    (hops : n.ops ctx pc = c.exit ctx target :: ops)
    (tail : Reads ctx code (pc + n.size ctx.instructions) ns)
    (hexit : c.exit ctx target = .branch test.negate target) :
    step rt ctx.instructions code (pc, σ) =
      some ([], (if rt.holds σ test then pc + c.size else target, σ)) := by
  have hmem : c.exit ctx target ∈ n.ops ctx pc := by
    rw [hops]
    exact List.mem_cons_self
  have hfits := Reads.fits_of_mem_ops hs hlen tail hmem
  have hsize : test.negate.size = c.size := by
    rw [← Condition.size_exit c target, hexit, Op.size]
  rw [hops] at h
  rw [step_of_decode? (decode?_of_placed hs.laidOut hfits h), hexit, execute, rt.holds_negate,
    hsize]
  cases rt.holds σ test with
  | true => rfl
  | false => rfl

variable (hn : ctx.Narrow)
include hn

theorem steps_statement {s : Statement}
    (h : Placed ctx.instructions code pc ((Node.statement s).ops ctx pc))
    (tail : Reads ctx code (pc + (Node.statement s).size ctx.instructions) ns)
    (hr : (Node.statement s).Resolved ctx) (hrs : ResolvedAll ctx ns) :
    (Node.statement s).Steps rt ctx code pc ns σ := by
  obtain ⟨call, hcall, hemit⟩ := Statement.exists_call?_of_problems_eq_nil hs hn hr
  have hops : (Node.statement s).ops ctx pc = [.call call] := by
    rw [Node.ops, hemit]
    rfl
  have hsize : extent ((Node.statement s).ops ctx pc) = _ := extent_ops _ pc
  rw [hops, extent_cons, extent_nil, Nat.add_zero] at hsize
  have hfits : (Op.call call).Fits ctx.instructions :=
    Reads.fits_of_mem_ops hs hlen tail (by rw [hops]; exact List.mem_singleton_self _)
  rw [hops] at h
  refine ⟨[call], (ns, rt.effect call σ), (_, rt.effect call σ), ?_,
    step_of_decode? (decode?_of_placed hs.laidOut hfits h), rfl, ?_, hrs⟩
  · rw [follow, hcall, Option.map_some]
  · rw [hsize]
    exact tail

theorem steps_choice {c : Condition} {t e : List Node}
    (h : Placed ctx.instructions code pc ((Node.choice c t e).ops ctx pc))
    (tail : Reads ctx code (pc + (Node.choice c t e).size ctx.instructions) ns)
    (hr : (Node.choice c t e).Resolved ctx) (hrs : ResolvedAll ctx ns) :
    (Node.choice c t e).Steps rt ctx code pc ns σ := by
  obtain ⟨hc, ht, he⟩ := hr
  obtain ⟨test, htest, hexit⟩ := Condition.exists_test?_of_problems_eq_nil hn hc
  have hfollow : follow rt ctx (.choice c t e :: ns, σ) =
      some ([], ((if rt.holds σ test then t else e) ++ ns, σ)) := by
    rw [follow, htest, Option.map_some]
  -- only in front of an else branch stands a jump
  cases e with
  | nil =>
    have hstep := step_exit rt σ hs hlen h rfl tail (hexit _)
    have hstop : pc + (Node.choice c t []).size ctx.instructions =
        pc + c.size + codeSize ctx.instructions t := by
      rw [Node.size]
      omega
    rw [hstop] at tail
    rw [Node.ops, placed_cons, Condition.size_exit] at h
    refine ⟨[], _, _, hfollow, hstep, rfl, ?_, ?_⟩
    · cases rt.holds σ test with
      | true => exact Reads.append h.2 tail
      | false => exact tail
    · cases rt.holds σ test with
      | true => exact resolvedAll_append.mpr ⟨ht, hrs⟩
      | false => exact hrs
  | cons m e =>
    have hstep := step_exit rt σ hs hlen h rfl tail (hexit _)
    have hstop : pc + (Node.choice c t (m :: e)).size ctx.instructions =
        pc + c.size + codeSize ctx.instructions t + 3 + codeSize ctx.instructions (m :: e) := by
      rw [Node.size]
      omega
    rw [hstop] at tail
    rw [Node.ops, placed_cons, Condition.size_exit, placed_append, extent_opsOf] at h
    obtain ⟨-, hthen, hrest⟩ := h
    obtain ⟨hjump, helse⟩ := placed_cons.mp hrest
    refine ⟨[], _, _, hfollow, hstep, rfl, ?_, resolvedAll_append.mpr ⟨?_, hrs⟩⟩
    · cases rt.holds σ test with
      | true => exact Reads.append hthen (Reads.jump hjump tail)
      | false => exact Reads.append helse tail
    · cases rt.holds σ test with
      | true => exact ht
      | false => exact he

theorem steps_loop {c : Condition} {b : List Node}
    (h : Placed ctx.instructions code pc ((Node.loop c b).ops ctx pc))
    (tail : Reads ctx code (pc + (Node.loop c b).size ctx.instructions) ns)
    (hr : (Node.loop c b).Resolved ctx) (hrs : ResolvedAll ctx ns) :
    (Node.loop c b).Steps rt ctx code pc ns σ := by
  obtain ⟨test, htest, hexit⟩ := Condition.exists_test?_of_problems_eq_nil hn hr.1
  have hfollow : follow rt ctx (.loop c b :: ns, σ) =
      some ([], (if rt.holds σ test then b ++ .loop c b :: ns else ns, σ)) := by
    rw [follow, htest, Option.map_some]
  have hstep := step_exit rt σ hs hlen h rfl tail (hexit _)
  have hstop : pc + (Node.loop c b).size ctx.instructions =
      pc + c.size + codeSize ctx.instructions b + 3 := by
    rw [Node.size]
    omega
  -- behind the body the code jumps to the start of the loop
  have hagain : Reads ctx code pc (.loop c b :: ns) := Reads.node h tail
  rw [hstop] at tail
  rw [Node.ops, placed_cons, Condition.size_exit, placed_append, extent_opsOf] at h
  refine ⟨[], _, _, hfollow, hstep, rfl, ?_, ?_⟩
  · cases rt.holds σ test with
    | true => exact Reads.append h.2.1 (Reads.jump h.2.2 hagain)
    | false => exact tail
  · cases rt.holds σ test with
    | true => exact resolvedAll_append.mpr ⟨hr.2, hr, hrs⟩
    | false => exact hrs

/-- A node and the instruction in front of its code agree, unless the node is a comment. -/
theorem steps_node (h : Placed ctx.instructions code pc (n.ops ctx pc))
    (tail : Reads ctx code (pc + n.size ctx.instructions) ns) (hr : ResolvedAll ctx (n :: ns)) :
    n.Steps rt ctx code pc ns σ ∨
      follow rt ctx (n :: ns, σ) = some ([], (ns, σ)) ∧ n.size ctx.instructions = 0 := by
  cases n with
  | statement s => exact Or.inl (steps_statement hs hlen hn h tail hr.1 hr.2)
  | choice c t e => exact Or.inl (steps_choice hs hlen hn h tail hr.1 hr.2)
  | loop c b => exact Or.inl (steps_loop hs hlen hn h tail hr.1 hr.2)
  | comment text => exact Or.inr ⟨rfl, rfl⟩

/-- The code runs what is read. -/
theorem run_step_of_follow {c c' : List Node × State} {d : Nat × State} {calls : List Call}
    (hR : Agree ctx code c d) (h : follow rt ctx c = some (calls, c')) :
    ∃ d', Run (step rt ctx.instructions code) d calls d' ∧ Agree ctx code c' d' := by
  obtain ⟨ns, σ⟩ := c
  obtain ⟨pc, σ'⟩ := d
  obtain ⟨rfl, hreads, hr⟩ := hR
  simp only at hreads hr
  -- jumps are taken until the code of the first node is reached
  induction hreads with
  | finish hp => exact absurd h (by simp [follow])
  | @node pc n ns hp tail ih =>
    rcases steps_node hs hlen hn hp tail hr with ⟨calls', c'', d', hf, hd, hR⟩ | ⟨hf, hz⟩
    · rw [hf] at h
      obtain ⟨rfl, rfl⟩ := Prod.mk.inj (Option.some.inj h)
      exact ⟨d', Run.single hd, hR⟩
    · rw [hf] at h
      obtain ⟨rfl, rfl⟩ := Prod.mk.inj (Option.some.inj h)
      rw [hz, Nat.add_zero] at tail
      exact ⟨(pc, σ), Run.refl _, rfl, tail, hr.2⟩
  | jump hp tail ih =>
    obtain ⟨d', hrun, hR⟩ := ih h hr
    exact ⟨d', Run.step (step_jump hs hlen hp tail) hrun, hR⟩

/-- What the code runs is read. -/
theorem run_follow_of_step {c : List Node × State} {d d' : Nat × State} {calls : List Call}
    (hR : Agree ctx code c d) (h : step rt ctx.instructions code d = some (calls, d')) :
    ∃ c', Run (follow rt ctx) c calls c' ∧ Agree ctx code c' d' := by
  obtain ⟨ns, σ⟩ := c
  obtain ⟨pc, σ'⟩ := d
  obtain ⟨rfl, hreads, hr⟩ := hR
  simp only at hreads hr
  -- comments are read until a node with code is reached
  induction hreads with
  | finish hp => exact absurd h (by simp [step_eq_none_of_finish rt σ hp.getElem?_finish])
  | @node pc n ns hp tail ih =>
    rcases steps_node hs hlen hn hp tail hr with ⟨calls', c', d'', hf, hd, hR⟩ | ⟨hf, hz⟩
    · rw [hd] at h
      obtain ⟨rfl, rfl⟩ := Prod.mk.inj (Option.some.inj h)
      exact ⟨c', Run.single hf, hR⟩
    · rw [hz, Nat.add_zero] at ih
      obtain ⟨c', hrun, hR⟩ := ih hr.2 h
      exact ⟨c', Run.step hf hrun, hR⟩
  | @jump pc target ns hp tail ih =>
    rw [step_jump hs hlen hp tail] at h
    obtain ⟨rfl, rfl⟩ := Prod.mk.inj (Option.some.inj h)
    exact ⟨(ns, σ), Run.refl _, rfl, tail, hr⟩

variable (rt σ) in
omit hn in
/-- When everything is read, the code goes on to the end of the script. -/
theorem exists_finish (h : Reads ctx code pc []) :
    ∃ pc', Run (step rt ctx.instructions code) (pc, σ) [] (pc', σ) ∧
      code[pc']? = some (byte Opcode.finish) := by
  generalize hns : ([] : List Node) = ns at h
  induction h with
  | @finish pc hp => exact ⟨pc, Run.refl _, hp.getElem?_finish⟩
  | node hp tail ih => exact absurd hns (by simp)
  | jump hp tail ih =>
    subst hns
    obtain ⟨pc', hrun, hfinish⟩ := ih rfl
    exact ⟨pc', Run.step (step_jump hs hlen hp tail) hrun, hfinish⟩

/-- The code stops only at the end of the script, when everything is read. -/
theorem finish_of_step_eq_none (hreads : Reads ctx code pc ns) (hr : ResolvedAll ctx ns)
    (h : step rt ctx.instructions code (pc, σ) = none) :
    code[pc]? = some (byte Opcode.finish) ∧ Run (follow rt ctx) (ns, σ) [] ([], σ) := by
  induction hreads with
  | finish hp => exact ⟨hp.getElem?_finish, Run.refl _⟩
  | @node pc n ns hp tail ih =>
    rcases steps_node hs hlen hn hp tail hr with ⟨calls', c', d', -, hd, -⟩ | ⟨hf, hz⟩
    · rw [hd] at h
      exact absurd h (by simp)
    · rw [hz, Nat.add_zero] at ih
      obtain ⟨hfinish, hrun⟩ := ih hr.2 h
      exact ⟨hfinish, Run.step hf hrun⟩
  | jump hp tail ih =>
    rw [step_jump hs hlen hp tail] at h
    exact absurd h (by simp)

omit hlen in
/-- A tree without problems is read to its end. -/
theorem eq_nil_of_follow_eq_none (hr : ResolvedAll ctx ns) (h : follow rt ctx (ns, σ) = none) :
    ns = [] := by
  cases ns with
  | nil => rfl
  | cons n ns =>
    obtain ⟨hr, -⟩ := hr
    cases n with
    | statement s =>
      obtain ⟨call, hcall, -⟩ := Statement.exists_call?_of_problems_eq_nil hs hn hr
      rw [follow, hcall] at h
      exact absurd h (by simp)
    | choice c t e =>
      obtain ⟨test, htest, -⟩ := Condition.exists_test?_of_problems_eq_nil hn hr.1
      rw [follow, htest] at h
      exact absurd h (by simp)
    | loop c b =>
      obtain ⟨test, htest, -⟩ := Condition.exists_test?_of_problems_eq_nil hn hr.1
      rw [follow, htest] at h
      exact absurd h (by simp)
    | comment text => exact absurd h (by simp [follow])

end Simulation

/-! ## Compiled scripts -/

section Compile

variable {State : Type}

/-- The code of a script and its tree do the same from a state on: the same instructions are
executed up to any point, with the same state there, and one comes to its end if and only if the
other does.  Neither of them stops anywhere else. -/
structure Preserves (rt : Runtime State) (ctx : Context) (nodes : List Node) (code : Bytes)
    (σ : State) : Prop where
  run_iff : ∀ calls σ', (∃ ns, Run (follow rt ctx) (nodes, σ) calls (ns, σ')) ↔
    ∃ pc, Run (step rt ctx.instructions code) (0, σ) calls (pc, σ')
  finish_iff : ∀ calls σ', Run (follow rt ctx) (nodes, σ) calls ([], σ') ↔
    ∃ pc, Run (step rt ctx.instructions code) (0, σ) calls (pc, σ') ∧
      code[pc]? = some (byte Opcode.finish)
  follow_stops : ∀ calls ns σ', Run (follow rt ctx) (nodes, σ) calls (ns, σ') →
    follow rt ctx (ns, σ') = none → ns = []
  step_stops : ∀ calls pc σ', Run (step rt ctx.instructions code) (0, σ) calls (pc, σ') →
    step rt ctx.instructions code (pc, σ') = none → code[pc]? = some (byte Opcode.finish)

variable {ctx : Context} {nodes : List Node}

theorem preserves_bytecode (rt : Runtime State) (hs : ctx.Sound) (hn : ctx.Narrow)
    (hlen : (bytecode ctx nodes).length ≤ maxScriptSize) (hr : ResolvedAll ctx nodes)
    (σ : State) : Preserves rt ctx nodes (bytecode ctx nodes) σ := by
  have hstart : Agree ctx (bytecode ctx nodes) (nodes, σ) (0, σ) := ⟨rfl, reads_bytecode nodes, hr⟩
  -- the two machines simulate each other through `Agree`
  have hforth : ∀ {calls ns σ'}, Run (follow rt ctx) (nodes, σ) calls (ns, σ') →
      ∃ d, Run (step rt ctx.instructions (bytecode ctx nodes)) (0, σ) calls d ∧
        Agree ctx (bytecode ctx nodes) (ns, σ') d :=
    fun h => Run.simulate (Agree ctx (bytecode ctx nodes))
      (fun hR => run_step_of_follow hs hlen hn hR) hstart h
  have hback : ∀ {calls pc σ'},
      Run (step rt ctx.instructions (bytecode ctx nodes)) (0, σ) calls (pc, σ') →
      ∃ c, Run (follow rt ctx) (nodes, σ) calls c ∧ Agree ctx (bytecode ctx nodes) c (pc, σ') :=
    fun h => Run.simulate (fun d c => Agree ctx (bytecode ctx nodes) c d)
      (fun hR => run_follow_of_step hs hlen hn hR) hstart h
  refine ⟨fun calls σ' => ⟨?_, ?_⟩, fun calls σ' => ⟨?_, ?_⟩, ?_, ?_⟩
  · rintro ⟨ns, h⟩
    obtain ⟨⟨pc, σ''⟩, hrun, rfl, -, -⟩ := hforth h
    exact ⟨pc, hrun⟩
  · rintro ⟨pc, h⟩
    obtain ⟨⟨ns, σ''⟩, hrun, rfl, -, -⟩ := hback h
    exact ⟨ns, hrun⟩
  · intro h
    obtain ⟨⟨pc, σ''⟩, hrun, rfl, hreads, -⟩ := hforth h
    obtain ⟨pc', hrun', hfinish⟩ := exists_finish rt σ' hs hlen hreads
    have hall := hrun.append hrun'
    rw [List.append_nil] at hall
    exact ⟨pc', hall, hfinish⟩
  · rintro ⟨pc, h, hfinish⟩
    obtain ⟨⟨ns, σ''⟩, hrun, rfl, hreads, hr'⟩ := hback h
    have hstop : step rt ctx.instructions (bytecode ctx nodes) (pc, σ'') = none :=
      step_eq_none_of_finish rt σ'' hfinish
    obtain ⟨-, hrun'⟩ := finish_of_step_eq_none hs hlen hn hreads hr' hstop
    have hall := hrun.append hrun'
    rw [List.append_nil] at hall
    exact hall
  · intro calls ns σ' h hstop
    obtain ⟨d, -, -, -, hr'⟩ := hforth h
    exact eq_nil_of_follow_eq_none hs hn hr' hstop
  · intro calls pc σ' h hstop
    obtain ⟨⟨ns, σ''⟩, -, rfl, hreads, hr'⟩ := hback h
    exact (finish_of_step_eq_none hs hlen hn hreads hr' hstop).1

/-- **A script that is compiled without an error does what its tree says**, from every state on. -/
theorem compile_preserves {project : List Instruction} {state : GameState} {room : String}
    {temporaryFlags temporaryWords : List String}
    (htable : (InstructionTable.build project VariableKind.flag.capacity).result =
      .ok ctx.instructions)
    (hscope : (Scope.build state room temporaryFlags temporaryWords).result = .ok ctx.scope)
    (hscripts : ctx.roomScripts.length ≤ 256) (hgroups : ctx.entityGroups.length ≤ 256)
    (hrooms : ctx.rooms.rooms.length ≤ 256)
    (hentrances : ∀ r ∈ ctx.rooms.rooms, r.2.length ≤ 256) {name : String} {code : Bytes}
    (hcode : (compile ctx name nodes).result = .ok code)
    (hreport : (compile ctx name nodes).report.hasErrors = false) (rt : Runtime State)
    (σ : State) : Preserves rt ctx nodes code σ := by
  obtain ⟨flags, words, hflags, -, hbuilt⟩ := Scope.result_build_eq_ok_iff.mp hscope
  have hs : ctx.Sound := Context.sound_of_build htable (by rw [hbuilt]; exact hflags)
  have hword : ∀ name n, ctx.scope.lookup .word name = .ok n → n < 256 := by
    intro name n hl
    have hlt := Scope.lookup_lt_capacity hscope hl
    have hcap : VariableKind.word.capacity = 128 := rfl
    omega
  have hn : ctx.Narrow := ⟨hword, hscripts, hgroups, hrooms, hentrances⟩
  have hr : ResolvedAll ctx nodes := resolvedAll_of_accepts ⟨hcode, hreport⟩
  obtain ⟨rfl, hlen⟩ := result_compile_eq_ok_iff.mp hcode
  exact preserves_bytecode rt hs hn hlen hr σ

/-- A loop around a choice, for as long as there are less than ten coins. -/
def coinNodes : List Node :=
  [.loop ⟨.word, "coins", .less, some "10"⟩
    [.choice ⟨.flag, "seen", .isSet, none⟩ [.statement ⟨"sleep_frames", ["1"]⟩]
      [.statement ⟨"load_room", ["town", "gate"]⟩]]]

/-- Every instruction adds a coin, and flags are set once there are five. -/
def coinRuntime : Runtime UInt16 := ⟨fun σ _ => decide (5 ≤ σ), fun σ _ => σ, fun _ σ => σ + 1⟩

theorem preserves_coinNodes :
    Preserves coinRuntime sampleContext coinNodes (bytecode sampleContext coinNodes) 0 :=
  @compile_preserves UInt16 sampleContext coinNodes [] sampleState "town" ["seen"] []
    build_sampleTable build_sampleScope (by decide) (by decide) (by decide) (by decide) "startup"
    (bytecode sampleContext coinNodes) (by rfl) (by rfl) coinRuntime 0

end Compile

end Cartridge.Script
