import Cartridge.Proofs.Script.Listing

/-!
# Targets of jumps and branches

Every script that is compiled is well formed, with or without errors in it (`compile_wellFormed`):
the sweep from its start consumes it exactly, the only end of the script is its last byte, and every
jump and branch leads to an instruction that the sweep finds.

The proof goes over the listing.  `Closed start stop ls` says of instructions from the offset
`start` to the offset `stop` that they lead only to each other or to `stop`; it is kept when
instructions are put behind each other (`Closed.append`) and when blocks are built (`Closed.cons`,
`Closed.loop`).
-/

namespace Cartridge.Script

/-- An instruction stands at the offset. -/
def Boundary (ls : List Listed) (offset : Nat) : Prop := ∃ l ∈ ls, l.offset = offset

/-- What holds of the instructions of a compiled script. -/
structure WellFormed (t : InstructionTable) (code : Bytes) (ls : List Listed) : Prop where
  /-- The sweep consumes the code exactly. -/
  swept : disassemble t code = some ls
  /-- The script ends with its last byte and nowhere else. -/
  finish : ∃ front, ls = front ++ [⟨code.length - 1, .finish⟩] ∧ ∀ l ∈ front, l.op ≠ .finish
  targets : ∀ l ∈ ls, ∀ target, l.op.target? = some target →
    target < code.length ∧ Boundary ls target
  /-- A branch only leaves its block. -/
  forward : ∀ l ∈ ls, ∀ test target, l.op = .branch test target → l.offset < target

/-- Instructions from `start` to `stop` that do not lead anywhere else. -/
structure Closed (start stop : Nat) (ls : List Listed) : Prop where
  start_eq_or : start = stop ∨ Boundary ls start
  targets : ∀ l ∈ ls, ∀ target, l.op.target? = some target → target = stop ∨ Boundary ls target
  noFinish : ∀ l ∈ ls, l.op ≠ .finish
  forward : ∀ l ∈ ls, ∀ test target, l.op = .branch test target → l.offset < target

section Boundaries

variable {xs ys : List Listed} {l : Listed} {offset : Nat}

theorem Boundary.append_left (h : Boundary xs offset) : Boundary (xs ++ ys) offset := by
  obtain ⟨l, hl, ho⟩ := h
  exact ⟨l, List.mem_append_left _ hl, ho⟩

theorem Boundary.append_right (h : Boundary ys offset) : Boundary (xs ++ ys) offset := by
  obtain ⟨l, hl, ho⟩ := h
  exact ⟨l, List.mem_append_right _ hl, ho⟩

theorem Boundary.cons (h : Boundary xs offset) : Boundary (l :: xs) offset := by
  obtain ⟨l', hl, ho⟩ := h
  exact ⟨l', List.mem_cons_of_mem _ hl, ho⟩

theorem boundary_head : Boundary (l :: xs) l.offset := ⟨l, List.mem_cons_self, rfl⟩

theorem offset_bounds_of_mem_locate {ops : List Op} (h : l ∈ locate offset ops) :
    offset ≤ l.offset ∧ l.offset < offset + extent ops := by
  induction ops generalizing offset with
  | nil => exact absurd h (by simp)
  | cons op ops ih =>
    have hpos := op.size_pos
    rw [extent_cons]
    rcases List.mem_cons.mp h with rfl | h
    · simp only
      omega
    · have := ih h
      omega

end Boundaries

section Building

variable {start mid stop : Nat} {xs ys : List Listed}

theorem Closed.nil (start : Nat) : Closed start start [] :=
  ⟨Or.inl rfl, fun _ h => absurd h List.not_mem_nil, fun _ h => absurd h List.not_mem_nil,
    fun _ h => absurd h List.not_mem_nil⟩

theorem Closed.append (hx : Closed start mid xs) (hy : Closed mid stop ys) :
    Closed start stop (xs ++ ys) := by
  -- what leads to `mid` leads to the start of `ys`
  have hmid : mid = stop ∨ Boundary (xs ++ ys) mid :=
    hy.start_eq_or.imp id Boundary.append_right
  refine ⟨?_, fun l hl target ht => ?_, fun l hl => ?_, fun l hl => ?_⟩
  · rcases hx.start_eq_or with h | h
    · rw [h]
      exact hmid
    · exact Or.inr h.append_left
  · rcases List.mem_append.mp hl with hl | hl
    · rcases hx.targets l hl target ht with h | h
      · rw [h]
        exact hmid
      · exact Or.inr h.append_left
    · exact (hy.targets l hl target ht).imp id Boundary.append_right
  · exact (List.mem_append.mp hl).elim (hx.noFinish l) (hy.noFinish l)
  · exact (List.mem_append.mp hl).elim (hx.forward l) (hy.forward l)

/-- A jump or branch in front of instructions. -/
theorem Closed.cons (hx : Closed mid stop xs) {op : Op} {target : Nat}
    (ht : op.target? = some target) (hb : target = stop ∨ Boundary xs target)
    (hf : ∀ test target, op = .branch test target → start < target) :
    Closed start stop (⟨start, op⟩ :: xs) := by
  refine ⟨Or.inr boundary_head, fun l hl target' ht' => ?_, fun l hl => ?_, fun l hl => ?_⟩
  · rcases List.mem_cons.mp hl with rfl | hl
    · rw [ht, Option.some.injEq] at ht'
      subst ht'
      exact hb.imp id Boundary.cons
    · exact (hx.targets l hl target' ht').imp id Boundary.cons
  · rcases List.mem_cons.mp hl with rfl | hl
    · rintro rfl
      exact absurd ht (by simp [Op.target?])
    · exact hx.noFinish l hl
  · rcases List.mem_cons.mp hl with rfl | hl
    · exact hf
    · exact hx.forward l hl

/-- A block behind a branch to its end, with a jump back to the branch. -/
theorem Closed.loop (hx : Closed mid stop xs) {op : Op} (ht : op.target? = some (stop + 3))
    (hf : ∀ test target, op = .branch test target → start < target) :
    Closed start (stop + 3) (⟨start, op⟩ :: (xs ++ [⟨stop, .jump start⟩])) := by
  have hback : Boundary (⟨start, op⟩ :: (xs ++ [⟨stop, .jump start⟩])) stop :=
    Boundary.cons (Boundary.append_right boundary_head)
  refine ⟨Or.inr boundary_head, fun l hl target ht' => ?_, fun l hl => ?_, fun l hl => ?_⟩
  · rcases List.mem_cons.mp hl with rfl | hl
    · rw [ht, Option.some.injEq] at ht'
      exact Or.inl ht'.symm
    · rcases List.mem_append.mp hl with hl | hl
      · rcases hx.targets l hl target ht' with h | h
        · rw [h]
          exact Or.inr hback
        · exact Or.inr (Boundary.cons h.append_left)
      · rw [List.mem_singleton] at hl
        subst hl
        simp only [Op.target?, Option.some.injEq] at ht'
        subst ht'
        exact Or.inr boundary_head
  · rcases List.mem_cons.mp hl with rfl | hl
    · rintro rfl
      exact absurd ht (by simp [Op.target?])
    · rcases List.mem_append.mp hl with hl | hl
      · exact hx.noFinish l hl
      · rw [List.mem_singleton] at hl
        subst hl
        simp
  · rcases List.mem_cons.mp hl with rfl | hl
    · exact hf
    · rcases List.mem_append.mp hl with hl | hl
      · exact hx.forward l hl
      · rw [List.mem_singleton] at hl
        subst hl
        intro test target h
        exact absurd h (by simp)

end Building

section Listing

variable {ctx : Context}

theorem Condition.size_pos (c : Condition) : 0 < c.size := by
  unfold size
  split
  · cases c.kind with
    | flag => exact Nat.succ_pos 3
    | word => exact Nat.succ_pos 5
  · exact Nat.succ_pos 2

theorem Condition.forward_exit {c : Condition} {start target : Nat} (h : start < target)
    (test : Test) (target' : Nat) (he : c.exit ctx target = .branch test target') :
    start < target' := by
  have ht := congrArg Op.target? he
  rw [target?_exit, Op.target?, Option.some.injEq] at ht
  omega

theorem closed_statement (s : Statement) (origin : Nat) :
    Closed origin (origin + (Node.statement s).size ctx.instructions)
      (locate origin ((Node.statement s).ops ctx origin)) := by
  rw [← s.extent_emit?, Node.ops]
  cases s.emit? ctx with
  | none => exact Closed.nil origin
  | some call =>
    refine ⟨Or.inr boundary_head, fun l hl target ht => ?_, fun l hl => ?_,
      fun l hl test target h => ?_⟩
    · obtain rfl := List.mem_singleton.mp hl
      exact absurd ht (by simp [Op.target?])
    · obtain rfl := List.mem_singleton.mp hl
      simp
    · obtain rfl := List.mem_singleton.mp hl
      exact absurd h (by simp)

theorem closed_choice {c : Condition} {t e : List Node} {origin : Nat}
    (ht : ∀ origin, Closed origin (origin + codeSize ctx.instructions t)
      (locate origin (opsOf ctx origin t)))
    (he : ∀ origin, Closed origin (origin + codeSize ctx.instructions e)
      (locate origin (opsOf ctx origin e))) :
    Closed origin (origin + (Node.choice c t e).size ctx.instructions)
      (locate origin ((Node.choice c t e).ops ctx origin)) := by
  have hc := c.size_pos
  cases e with
  | nil =>
    rw [Node.ops, Node.size, locate_cons, Condition.size_exit, Nat.add_zero, ← Nat.add_assoc]
    exact (ht _).cons (Condition.target?_exit c _) (Or.inl rfl)
      (Condition.forward_exit (by omega))
  | cons n e =>
    rw [Node.ops, Node.size, locate_cons, Condition.size_exit, locate_append, extent_opsOf,
      locate_cons, show (Op.jump _).size = 3 from rfl]
    simp only [← Nat.add_assoc]
    -- behind the first block stands a jump over the second one
    have hjump : ∀ start target, Closed start (target + codeSize ctx.instructions (n :: e))
        (⟨start, .jump (target + codeSize ctx.instructions (n :: e))⟩ ::
          locate target (opsOf ctx target (n :: e))) :=
      fun start target => (he target).cons rfl (Or.inl rfl) (by simp)
    refine ((ht _).append (hjump _ _)).cons (Condition.target?_exit c _) ?_
      (Condition.forward_exit (by omega))
    exact (he _).start_eq_or.imp id fun h => h.cons.append_right

theorem closed_loop {c : Condition} {b : List Node} {origin : Nat}
    (hb : ∀ origin, Closed origin (origin + codeSize ctx.instructions b)
      (locate origin (opsOf ctx origin b))) :
    Closed origin (origin + (Node.loop c b).size ctx.instructions)
      (locate origin ((Node.loop c b).ops ctx origin)) := by
  have hc := c.size_pos
  rw [Node.ops, Node.size, locate_cons, Condition.size_exit, locate_append, extent_opsOf,
    locate_cons, locate_nil]
  simp only [← Nat.add_assoc]
  exact (hb _).loop (Condition.target?_exit c _) (Condition.forward_exit (by omega))

theorem closed_cons {n : Node} {ns : List Node} {origin : Nat}
    (hn : Closed origin (origin + n.size ctx.instructions) (locate origin (n.ops ctx origin)))
    (hns : ∀ origin, Closed origin (origin + codeSize ctx.instructions ns)
      (locate origin (opsOf ctx origin ns))) :
    Closed origin (origin + codeSize ctx.instructions (n :: ns))
      (locate origin (opsOf ctx origin (n :: ns))) := by
  rw [opsOf, codeSize, locate_append, extent_ops, ← Nat.add_assoc]
  exact hn.append (hns _)

/-- The instructions of nodes lead only to each other or to what follows them. -/
theorem closed_opsOf (ns : List Node) (origin : Nat) :
    Closed origin (origin + codeSize ctx.instructions ns)
      (locate origin (opsOf ctx origin ns)) := by
  induction ns using nodes_induction generalizing origin with
  | nil => exact Closed.nil origin
  | statement s ns ih => exact closed_cons (closed_statement s origin) ih
  | choice c t e ns iht ihe ih => exact closed_cons (closed_choice iht ihe) ih
  | loop c b ns ihb ih => exact closed_cons (closed_loop ihb) ih
  | comment text ns ih => exact closed_cons (Closed.nil origin) ih

end Listing

section Compile

variable {ctx : Context} {nodes : List Node}

/-- The end of the script stands behind its nodes. -/
theorem locate_listing : locate 0 (listing ctx nodes) =
    locate 0 (opsOf ctx 0 nodes) ++ [⟨codeSize ctx.instructions nodes, .finish⟩] := by
  rw [listing, locate_append, extent_opsOf, Nat.zero_add]
  rfl

theorem lt_length_of_boundary {offset : Nat} (h : Boundary (locate 0 (listing ctx nodes)) offset) :
    offset < (bytecode ctx nodes).length := by
  obtain ⟨l, hl, rfl⟩ := h
  have hb := offset_bounds_of_mem_locate hl
  rw [← length_assemble ctx.instructions, ← bytecode_eq_assemble] at hb
  omega

theorem wellFormed_bytecode (hs : ctx.Sound)
    (hsize : (bytecode ctx nodes).length ≤ maxScriptSize) :
    WellFormed ctx.instructions (bytecode ctx nodes) (locate 0 (listing ctx nodes)) := by
  have hclosed : Closed 0 _ (locate 0 (opsOf ctx 0 nodes)) := closed_opsOf nodes 0
  rw [Nat.zero_add] at hclosed
  have htargets : ∀ l ∈ locate 0 (listing ctx nodes), ∀ target, l.op.target? = some target →
      Boundary (locate 0 (listing ctx nodes)) target := by
    rw [locate_listing]
    intro l hl target ht
    rcases List.mem_append.mp hl with hl | hl
    · rcases hclosed.targets l hl target ht with rfl | h
      · exact Boundary.append_right boundary_head
      · exact h.append_left
    · rw [List.mem_singleton] at hl
      subst hl
      exact absurd ht (by simp [Op.target?])
  refine ⟨disassemble_bytecode hs hsize, ⟨_, ?_, hclosed.noFinish⟩, fun l hl target ht => ?_, ?_⟩
  · rw [locate_listing, length_bytecode, Nat.add_sub_cancel]
  · have hb := htargets l hl target ht
    exact ⟨lt_length_of_boundary hb, hb⟩
  · rw [locate_listing]
    intro l hl test target h
    rcases List.mem_append.mp hl with hl | hl
    · exact hclosed.forward l hl test target h
    · rw [List.mem_singleton] at hl
      subst hl
      exact absurd h (by simp)

/-- **Every script that is compiled is well formed**, whatever problems it has, and only a script
that sixteen-bit targets cannot address is not compiled. -/
theorem compile_wellFormed {project : List Instruction} {kind : VariableKind} {vs : List Variable}
    {room : String} {temporaries : List String}
    (htable : (InstructionTable.build project VariableKind.flag.capacity).result =
      .ok ctx.instructions)
    (hflags : (SlotTable.build kind vs room temporaries).result = .ok ctx.scope.flags)
    (name : String) (nodes : List Node) :
    (∀ code, (compile ctx name nodes).result = .ok code →
      ∃ ls, WellFormed ctx.instructions code ls) ∧
    ∀ failure, (compile ctx name nodes).result = .error failure ↔
      0x10000 < (bytecode ctx nodes).length ∧
        failure = .recordTooLarge .roomScript name (bytecode ctx nodes).length 0x10000 := by
  refine ⟨fun code h => ?_, fun failure => ?_⟩
  · obtain ⟨rfl, hsize⟩ := result_compile_eq_ok_iff.mp h
    exact ⟨_, wellFormed_bytecode (Context.sound_of_build htable hflags) hsize⟩
  · rw [result_compile, show maxScriptSize = 0x10000 from rfl]
    by_cases hc : (bytecode ctx nodes).length > 0x10000
    · rw [if_pos hc, Except.error.injEq]
      exact ⟨fun h => ⟨hc, h.symm⟩, fun h => h.2.symm⟩
    · rw [if_neg hc]
      exact ⟨fun h => absurd h (by simp), fun h => absurd h.1 hc⟩

/-- A comparator of the wrong kind, an instruction that there is not and one without arguments. -/
def faultyNodes : List Node :=
  [.choice ⟨.word, "coins", .isSet, none⟩ [.statement ⟨"vanish", []⟩]
      [.statement ⟨"load_room", []⟩],
    .loop ⟨.flag, "seen", .isClear, none⟩ [.statement ⟨"sleep_frames", ["1"]⟩]]

theorem wellFormed_faultyNodes :
    ∃ ls, WellFormed sampleTable (bytecode sampleContext faultyNodes) ls :=
  (@compile_wellFormed sampleContext _ _ _ _ _ build_sampleTable build_sampleFlags "startup"
    faultyNodes).1 _ (by rfl)

end Compile

end Cartridge.Script
