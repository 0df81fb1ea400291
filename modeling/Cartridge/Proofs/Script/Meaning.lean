import Cartridge.Proofs.Script.Grammar
import Cartridge.Proofs.Script.Reading
import Cartridge.Proofs.Variable.Rules

/-!
# Ill-formed scripts

`IllFormed` says what is wrong with a script without regard to its compilation: a `Vocabulary` holds
the names that the script may use, and every statement and every condition has to be made of these.
`DenotesAll` says which numbers the arguments of a statement stand for, and `readOperands` reads
such numbers from the operands of an instruction.

Main statement: `compile_exact`, errors are reported of ill-formed scripts and of no others, and the
code of a script without errors holds the numbers that its arguments stand for.
-/

namespace Cartridge

theorem Parameter.isUsed_iff {p : Parameter} : p.isUsed = true ↔ p ≠ .unused :=
  bne_iff_ne

namespace Instruction

variable {i : Instruction}

/-- The parameters that take an argument. -/
def used (i : Instruction) : List Parameter := i.parameters.filter Parameter.isUsed

theorem length_used (i : Instruction) : i.used.length = i.arity :=
  List.countP_eq_length_filter.symm

/-- Parameters are used from the first one on. -/
theorem Valid.used_cases (hi : i.Valid) :
    (i.first = .unused ∧ i.second = .unused ∧ i.used = []) ∨
      (i.first ≠ .unused ∧ i.second = .unused ∧ i.used = [i.first]) ∨
      (i.first ≠ .unused ∧ i.second ≠ .unused ∧ i.used = [i.first, i.second]) := by
  have hunused : Parameter.unused.isUsed = false := rfl
  by_cases h1 : i.first = .unused
  · have h2 := hi.noGap h1
    exact Or.inl ⟨h1, h2, by simp [used, parameters, h1, h2, hunused]⟩
  · by_cases h2 : i.second = .unused
    · have hused : i.used = [i.first] := by
        simp [used, parameters, Parameter.isUsed_iff.mpr h1, h2, hunused]
      exact Or.inr (Or.inl ⟨h1, h2, hused⟩)
    · have hused : i.used = [i.first, i.second] := by
        simp [used, parameters, Parameter.isUsed_iff.mpr h1, Parameter.isUsed_iff.mpr h2]
      exact Or.inr (Or.inr ⟨h1, h2, hused⟩)

/-- The numbers that stand for arguments, of one number for each parameter. -/
def taken (i : Instruction) (m n : Nat) : List Nat :=
  (if i.first.isUsed then [m] else []) ++ (if i.second.isUsed then [n] else [])

end Instruction

namespace Script

/-! ## What a script may say -/

section Vocabulary

/-- The names that a script may use. -/
structure Vocabulary where
  instructions : List Instruction
  Visible : VariableKind → String → Prop
  roomScripts : List String
  entityGroups : List String
  /-- The names of the rooms with the names of their entrances. -/
  rooms : List (String × List String)

/-- The text spells a number that has sixteen bits. -/
def IsNumber (text : String) : Prop :=
  ∃ n : Nat, Text.integer? text = some (n : Int) ∧ n ≤ 0xFFFF

variable (v : Vocabulary)

/-- There is what an argument names.  An entrance belongs to the room `target`. -/
def Vocabulary.Accepts (target : Option String) (argument : String) : Parameter → Prop
  | .unused => False
  | .flag => v.Visible .flag argument
  | .word => v.Visible .word argument
  | .immediate => IsNumber argument
  | .roomScript => argument ∈ v.roomScripts
  | .entityGroup => argument ∈ v.entityGroups
  | .room => argument ∈ v.rooms.map Prod.fst
  | .roomEntrance => ∃ room r, target = some room ∧
      v.rooms.find? (fun r => r.1 == room) = some r ∧ argument ∈ r.2

/-- The statement gives an instruction the arguments that it takes. -/
def Statement.Meaningful (s : Statement) : Prop :=
  ∃ i ∈ v.instructions, i.name = s.instruction ∧
    List.Forall₂ (fun p argument => v.Accepts s.arguments[0]? argument p) i.used s.arguments

structure Condition.Meaningful (c : Condition) : Prop where
  kind : c.comparator.kind = c.kind
  visible : v.Visible c.kind c.variableName
  value : c.kind = .word → ∃ text, c.value = some text ∧ IsNumber text

/-- What is wrong with a script, if anything. -/
def IllFormed (nodes : List Node) : Prop :=
  (∃ s ∈ statementsOf nodes, ¬ s.Meaningful v) ∨
    (∃ c ∈ conditionsOf nodes, ¬ c.Meaningful v) ∨ maxNesting < nestingOf nodes

end Vocabulary

/-! ## What arguments stand for -/

section Denotation

/-- The name is at position `n` and at none before. -/
def StandsAt (names : List String) (name : String) (n : Nat) : Prop :=
  names[n]? = some name ∧ ∀ m < n, names[m]? ≠ some name

variable (ctx : Context)

/-- The number that an argument stands for. -/
def Context.Denotes (target : Option String) (argument : String) (n : Nat) : Parameter → Prop
  | .unused => False
  | .flag => ctx.scope.Sees .flag argument n
  | .word => ctx.scope.Sees .word argument n
  | .immediate => Text.integer? argument = some (n : Int) ∧ n ≤ 0xFFFF
  | .roomScript => StandsAt ctx.roomScripts argument n
  | .entityGroup => StandsAt ctx.entityGroups argument n
  | .room => StandsAt (ctx.rooms.rooms.map Prod.fst) argument n
  | .roomEntrance => ∃ room r, target = some room ∧
      ctx.rooms.rooms.find? (fun r => r.1 == room) = some r ∧ StandsAt r.2 argument n

inductive DenotesAll (target : Option String) : List Parameter → List String → List Nat → Prop
  | nil : DenotesAll target [] [] []
  | cons {p argument n ps arguments ns} (first : ctx.Denotes target argument n p)
      (behind : DenotesAll target ps arguments ns) :
      DenotesAll target (p :: ps) (argument :: arguments) (n :: ns)

/-- The vocabulary of a context. -/
def Context.vocabulary : Vocabulary where
  instructions := ctx.instructions.instructions
  Visible kind name := ∃ n, ctx.scope.Sees kind name n
  roomScripts := ctx.roomScripts
  entityGroups := ctx.entityGroups
  rooms := ctx.rooms.rooms

variable {ctx} {names : List String} {name argument text : String} {n : Nat}
  {target : Option String} {p : Parameter}

theorem findIdx?_eq_some_iff_standsAt :
    names.findIdx? (· == name) = some n ↔ StandsAt names name n := by
  rw [List.findIdx?_eq_some_iff_getElem, StandsAt]
  constructor
  · rintro ⟨hlt, hname, hbefore⟩
    refine ⟨by rw [List.getElem?_eq_getElem hlt, eq_of_beq hname], fun m hm hget => ?_⟩
    obtain ⟨_, hfound⟩ := List.getElem?_eq_some_iff.mp hget
    exact hbefore m hm (beq_iff_eq.mpr hfound)
  · rintro ⟨hget, hbefore⟩
    obtain ⟨hlt, rfl⟩ := List.getElem?_eq_some_iff.mp hget
    refine ⟨hlt, beq_self_eq_true _, fun m hm hname => hbefore m hm ?_⟩
    rw [List.getElem?_eq_getElem (by omega), eq_of_beq hname]

/-- Every name of a list stands somewhere. -/
theorem exists_standsAt_iff : (∃ n, StandsAt names name n) ↔ name ∈ names := by
  constructor
  · rintro ⟨n, hget, -⟩
    exact List.mem_of_getElem? hget
  · intro h
    obtain ⟨n, hn⟩ := exists_findIdx?_of_mem h
    exact ⟨n, findIdx?_eq_some_iff_standsAt.mp hn⟩

theorem exists_denotes_iff : (∃ n, ctx.Denotes target argument n p) ↔
    ctx.vocabulary.Accepts target argument p := by
  cases p with
  | unused => simp [Context.Denotes, Vocabulary.Accepts]
  | flag => rfl
  | word => rfl
  | immediate => rfl
  | roomScript => exact exists_standsAt_iff
  | entityGroup => exact exists_standsAt_iff
  | room => exact exists_standsAt_iff
  | roomEntrance =>
    simp only [Context.Denotes, Vocabulary.Accepts, ← exists_standsAt_iff]
    constructor
    · rintro ⟨n, room, r, htarget, hr, hn⟩
      exact ⟨room, r, htarget, hr, n, hn⟩
    · rintro ⟨room, r, htarget, hr, n, hn⟩
      exact ⟨n, room, r, htarget, hr, hn⟩

theorem exists_denotesAll_iff {ps : List Parameter} {arguments : List String} :
    (∃ ns, DenotesAll ctx target ps arguments ns) ↔
      List.Forall₂ (fun p argument => ctx.vocabulary.Accepts target argument p) ps arguments := by
  constructor
  · rintro ⟨ns, h⟩
    induction h with
    | nil => exact .nil
    | cons first _ ih => exact .cons (exists_denotes_iff.mp ⟨_, first⟩) ih
  · intro h
    induction h with
    | nil => exact ⟨[], .nil⟩
    | cons first _ ih =>
      obtain ⟨n, hn⟩ := exists_denotes_iff.mpr first
      obtain ⟨ns, hns⟩ := ih
      exact ⟨n :: ns, .cons hn hns⟩

end Denotation

/-! ## Arguments that resolve -/

section Resolving

variable {ctx : Context} {i : Instruction} {s : Statement} {argument text : String} {n : Nat}
  {target : Option String} {p : Parameter}

theorem resolveNumber_eq_ok_iff :
    resolveNumber text = .ok n ↔ Text.integer? text = some (n : Int) ∧ n ≤ 0xFFFF := by
  unfold resolveNumber
  cases Text.integer? text with
  | none => simp
  | some z =>
    simp only [Option.some.injEq]
    by_cases hz : 0 ≤ z ∧ z ≤ 0xFFFF
    · rw [if_pos hz, Except.ok.injEq]
      omega
    · rw [if_neg hz]
      constructor
      · intro h
        exact absurd h (by simp)
      · intro h
        omega

theorem Context.resolveVariable_eq_ok_iff {kind : VariableKind} :
    ctx.resolveVariable kind argument = .ok n ↔ ctx.scope.Sees kind argument n := by
  rw [← Scope.lookup_eq_ok_iff]
  refine ⟨lookup_of_resolveVariable, fun h => ?_⟩
  rw [resolveVariable, h]

/-- An argument resolves to the number that it stands for.  An entrance resolves in a room. -/
theorem Context.resolve_eq_ok_iff (hp : p ≠ .unused)
    (htarget : p = .roomEntrance → ∃ room, target = some room) :
    ctx.resolve target p argument = .ok n ↔ ctx.Denotes target argument n p := by
  unfold resolve
  cases p with
  | unused => exact absurd rfl hp
  | flag => exact resolveVariable_eq_ok_iff
  | word => exact resolveVariable_eq_ok_iff
  | immediate => exact resolveNumber_eq_ok_iff
  | roomScript => exact Resolved.ofOption_eq_ok_iff.trans findIdx?_eq_some_iff_standsAt
  | entityGroup => exact Resolved.ofOption_eq_ok_iff.trans findIdx?_eq_some_iff_standsAt
  | room =>
    show Resolved.ofOption _ (ctx.rooms.room? argument) = .ok n ↔ _
    rw [Resolved.ofOption_eq_ok_iff, Denotes, ← findIdx?_eq_some_iff_standsAt,
      RoomDirectory.room?, List.findIdx?_map]
    rfl
  | roomEntrance =>
    obtain ⟨room, rfl⟩ := htarget rfl
    simp only [Resolved.ofOption_eq_ok_iff, RoomDirectory.entrance?, Option.bind_eq_some_iff,
      findIdx?_eq_some_iff_standsAt, Denotes, Option.some.injEq, exists_and_left, exists_eq_left']

/-- Only entrances depend on the room. -/
theorem Context.resolve_congr (target target' : Option String) (hp : p ≠ .roomEntrance) :
    ctx.resolve target p argument = ctx.resolve target' p argument := by
  cases p with
  | roomEntrance => exact absurd rfl hp
  | _ => rfl

variable {a b : String} {m : Nat}

theorem Context.firstOperand_eq_ok_iff (hi : i.Valid) (h1 : i.first ≠ .unused)
    (ha : s.arguments[0]? = some a) :
    ctx.firstOperand i s = .ok m ↔ ctx.Denotes (some a) a m i.first := by
  rw [firstOperand, ha]
  show ctx.resolve none i.first a = .ok m ↔ _
  rw [resolve_congr none (some a) hi.first_ne_roomEntrance]
  exact resolve_eq_ok_iff h1 fun _ => ⟨a, rfl⟩

/-- The second argument is resolved in the room that the first one names. -/
theorem Context.secondOperand_eq_ok_iff (hi : i.Valid) (h2 : i.second ≠ .unused)
    (ha : s.arguments[0]? = some a) (hb : s.arguments[1]? = some b)
    (hm : ctx.firstOperand i s = .ok m) :
    ctx.secondOperand i s = .ok n ↔ ctx.Denotes (some a) b n i.second := by
  have htarget : ctx.resolve (ctx.target i s) i.second b = ctx.resolve (some a) i.second b := by
    by_cases hentrance : i.second = .roomEntrance
    · have hroom := hi.room_of_roomEntrance hentrance
      rw [firstOperand, ha, hroom] at hm
      rw [target_eq hroom ha (Resolved.ofOption_eq_ok_iff.mp hm)]
    · exact resolve_congr _ _ hentrance
  rw [secondOperand, hb]
  show ctx.resolve (ctx.target i s) i.second b = .ok n ↔ _
  rw [htarget]
  exact resolve_eq_ok_iff h2 fun _ => ⟨a, rfl⟩

/-- What takes no argument stands for zero. -/
theorem Context.resolve?_unused_eq_ok_iff {target argument : Option String} :
    ctx.resolve? target .unused argument = .ok n ↔ n = 0 := by
  have hzero : ctx.resolve? target .unused argument = .ok 0 := by
    cases argument with
    | none => rfl
    | some text => rfl
  rw [hzero, Except.ok.injEq]
  exact eq_comm

/-- The operands of a statement are what its arguments stand for. -/
theorem Context.denotesAll_iff (hi : i.Valid) {ns : List Nat} :
    DenotesAll ctx s.arguments[0]? i.used s.arguments ns ↔
      ∃ m n, s.arguments.length = i.arity ∧ ctx.firstOperand i s = .ok m ∧
        ctx.secondOperand i s = .ok n ∧ ns = i.taken m n := by
  obtain ⟨name, arguments⟩ := s
  have harity : i.arity = i.used.length := i.length_used.symm
  have hsecond : i.second = .unused → ∀ n,
      ctx.secondOperand i ⟨name, arguments⟩ = .ok n ↔ n = 0 := by
    intro h2 n
    rw [secondOperand, h2]
    exact resolve?_unused_eq_ok_iff
  rcases hi.used_cases with ⟨h1, h2, hused⟩ | ⟨h1, h2, hused⟩ | ⟨h1, h2, hused⟩
  · have htaken : ∀ m n, i.taken m n = [] := by
      intro m n
      simp [Instruction.taken, h1, h2, Parameter.isUsed]
    have hfirst : ∀ m, ctx.firstOperand i ⟨name, arguments⟩ = .ok m ↔ m = 0 := by
      intro m
      rw [firstOperand, h1]
      exact resolve?_unused_eq_ok_iff
    rw [hused, List.length_nil] at harity
    simp only [hfirst, hsecond h2, htaken, harity, hused, List.length_eq_zero_iff]
    constructor
    · intro h
      cases h with
      | nil => exact ⟨0, 0, rfl, rfl, rfl, rfl⟩
    · rintro ⟨m, n, rfl, -, -, rfl⟩
      exact .nil
  · have htaken : ∀ m n, i.taken m n = [m] := by
      intro m n
      rw [Instruction.taken, if_pos (Parameter.isUsed_iff.mpr h1), h2]
      rfl
    rw [hused, List.length_singleton] at harity
    simp only [hsecond h2, htaken, harity, hused, List.length_eq_one_iff]
    constructor
    · intro h
      cases h with
      | cons first behind =>
        cases behind with
        | nil => exact ⟨_, 0, ⟨_, rfl⟩, (firstOperand_eq_ok_iff hi h1 rfl).mpr first, rfl, rfl⟩
    · rintro ⟨m, n, ⟨a, rfl⟩, hm, -, rfl⟩
      exact .cons ((firstOperand_eq_ok_iff hi h1 rfl).mp hm) .nil
  · have htaken : ∀ m n, i.taken m n = [m, n] := by
      intro m n
      rw [Instruction.taken, if_pos (Parameter.isUsed_iff.mpr h1),
        if_pos (Parameter.isUsed_iff.mpr h2)]
      rfl
    have harity : i.arity = 2 := by rw [harity, hused]; rfl
    simp only [htaken, harity, hused, List.length_eq_two]
    constructor
    · intro h
      cases h with
      | cons first behind =>
        cases behind with
        | cons second behind =>
          cases behind with
          | nil =>
            rename_i a m b n
            have hm : ctx.firstOperand i ⟨name, [a, b]⟩ = .ok m :=
              (firstOperand_eq_ok_iff hi h1 rfl).mpr first
            exact ⟨m, n, ⟨_, _, rfl⟩, hm, (secondOperand_eq_ok_iff hi h2 rfl rfl hm).mpr second,
              rfl⟩
    · rintro ⟨m, n, ⟨a, b, rfl⟩, hm, hn, rfl⟩
      exact .cons ((firstOperand_eq_ok_iff hi h1 rfl).mp hm)
        (.cons ((secondOperand_eq_ok_iff hi h2 rfl rfl hm).mp hn) .nil)

end Resolving

/-! ## Errors -/

section Errors

variable {ctx : Context} {name : String} {nodes : List Node}

/-- Nothing is wrong with a statement if and only if it means something. -/
theorem Statement.problems_eq_nil_iff (ht : ctx.instructions.LaidOut) {s : Statement} :
    s.problems ctx = [] ↔ s.Meaningful ctx.vocabulary := by
  constructor
  · intro h
    obtain ⟨e, m, n, hl, harity, hm, hn⟩ := s.exists_operands_of_problems_eq_nil h
    have hmem := InstructionTable.mem_of_lookup? hl
    have hdenotes := (Context.denotesAll_iff (ht.valid_entry hmem)).mpr
      ⟨m, n, harity, hm, hn, rfl⟩
    exact ⟨e.instruction, List.mem_map_of_mem hmem, InstructionTable.name_of_lookup? hl,
      exists_denotesAll_iff.mp ⟨_, hdenotes⟩⟩
  · rintro ⟨i, hi, hname, haccepts⟩
    obtain ⟨e, he, rfl⟩ := List.mem_map.mp hi
    have hl : ctx.instructions.lookup? s.instruction = some e := by
      rw [← hname]
      exact InstructionTable.lookup?_eq_some ht.nodup he
    obtain ⟨ns, hns⟩ := exists_denotesAll_iff.mpr haccepts
    obtain ⟨m, n, harity, hm, hn, -⟩ := (Context.denotesAll_iff (ht.valid_entry he)).mp hns
    simp [problems, hl, harity, hm, hn, Resolved.problems]

theorem Resolved.problems_eq_nil_iff {r : Resolved} : r.problems = [] ↔ ∃ n, r = .ok n := by
  refine ⟨Resolved.exists_ok_of_problems_eq_nil, ?_⟩
  rintro ⟨n, rfl⟩
  rfl

theorem Condition.problems_eq_nil_iff {c : Condition} :
    c.problems ctx = [] ↔ c.Meaningful ctx.vocabulary := by
  have hvisible : (c.variableOperand ctx).problems = [] ↔
      ctx.vocabulary.Visible c.kind c.variableName := by
    rw [Resolved.problems_eq_nil_iff]
    exact exists_congr fun n => Context.resolveVariable_eq_ok_iff
  have hvalue : c.valueOperand.problems = [] ↔ ∃ text, c.value = some text ∧ IsNumber text := by
    rw [Resolved.problems_eq_nil_iff, valueOperand]
    cases c.value with
    | none => simp
    | some text =>
      simp only [Option.some.injEq, exists_eq_left']
      exact exists_congr fun n => resolveNumber_eq_ok_iff
  unfold problems
  by_cases ha : c.comparator.accepts c.kind = true
  · rw [if_pos ha]
    have hkind := Comparator.kind_eq_of_accepts ha
    cases hc : c.kind with
    | flag =>
      simp only [hvisible]
      constructor
      · intro h
        exact ⟨hkind, h, fun hword => absurd (hc.symm.trans hword) VariableKind.noConfusion⟩
      · exact Meaningful.visible
    | word =>
      simp only [List.append_eq_nil_iff, hvisible, hvalue]
      constructor
      · rintro ⟨h, hv⟩
        exact ⟨hkind, h, fun _ => hv⟩
      · intro h
        exact ⟨h.visible, h.value hc⟩
  · rw [if_neg ha]
    constructor
    · intro h
      exact absurd h (by simp)
    · intro h
      exact absurd (beq_iff_eq.mpr h.kind) ha

/-! ### Nesting -/

/-- No block is nested too deeply if the deepest one is not. -/
theorem tooDeepIn?_eq_none_iff {ns : List Node} {depth line : Nat} (hdepth : depth ≤ maxNesting) :
    tooDeepIn? depth line ns = none ↔ depth + nestingOf ns ≤ maxNesting := by
  induction ns using nodes_induction generalizing depth line with
  | nil => simp [tooDeepIn?, hdepth]
  | statement s ns ih =>
    simp only [tooDeepIn?, Node.tooDeep?, Option.orElse_eq_orElse, Option.orElse_eq_or,
      Option.none_or, ih hdepth, nestingOf_cons, nesting_statement]
    omega
  | choice c t e ns iht ihe ih =>
    simp only [tooDeepIn?, Node.tooDeep?, Option.orElse_eq_orElse, Option.orElse_eq_or,
      Option.or_eq_none_iff, ih hdepth, nestingOf_cons, nesting_choice]
    by_cases hd : depth ≥ maxNesting
    · rw [if_pos hd]
      simp only [reduceCtorEq, false_and, false_iff]
      omega
    · rw [if_neg hd]
      have hinside : depth + 1 ≤ maxNesting := by omega
      simp only [Option.or_eq_none_iff, iht hinside, ihe hinside]
      omega
  | loop c b ns ihb ih =>
    simp only [tooDeepIn?, Node.tooDeep?, Option.orElse_eq_orElse, Option.orElse_eq_or,
      Option.or_eq_none_iff, ih hdepth, nestingOf_cons, nesting_loop]
    by_cases hd : depth ≥ maxNesting
    · rw [if_pos hd]
      simp only [reduceCtorEq, false_and, false_iff]
      omega
    · rw [if_neg hd]
      have hinside : depth + 1 ≤ maxNesting := by omega
      simp only [ihb hinside]
      omega
  | comment text ns ih =>
    simp only [tooDeepIn?, Node.tooDeep?, Option.orElse_eq_orElse, Option.orElse_eq_or,
      Option.none_or, ih hdepth, nestingOf_cons, nesting_comment]
    omega

/-- A block that is nested too deeply is reported at its line. -/
theorem mem_remarksOf_of_tooDeepIn? {ns : List Node} {depth line l : Nat}
    (h : tooDeepIn? depth line ns = some l) :
    ⟨l, .nestedTooDeep⟩ ∈ remarksOf ctx (some l) line ns := by
  have hhere : ∀ line, line = l → (⟨l, .nestedTooDeep⟩ : Remark) ∈
      nestingRemarks (some l) line := by
    rintro line rfl
    rw [nestingRemarks, if_pos rfl]
    exact List.mem_singleton_self _
  induction ns using nodes_induction generalizing depth line with
  | nil => exact absurd h (by simp [tooDeepIn?])
  | statement s ns ih =>
    rw [remarksOf]
    exact List.mem_append_right _ (ih h)
  | choice c t e ns iht ihe ih =>
    simp only [tooDeepIn?, Node.tooDeep?, Option.orElse_eq_orElse, Option.orElse_eq_or,
      Option.or_eq_some_iff] at h
    rw [remarksOf, Node.remarks]
    simp only [List.mem_append]
    rcases h with h | ⟨-, h⟩
    · split at h
      · exact Or.inl (Or.inl (Or.inl (Or.inr (hhere line (Option.some.inj h)))))
      · rcases Option.or_eq_some_iff.mp h with h | ⟨-, h⟩
        · exact Or.inl (Or.inl (Or.inr (iht h)))
        · exact Or.inl (Or.inr (ihe h))
    · exact Or.inr (ih h)
  | loop c b ns ihb ih =>
    simp only [tooDeepIn?, Node.tooDeep?, Option.orElse_eq_orElse, Option.orElse_eq_or,
      Option.or_eq_some_iff] at h
    rw [remarksOf, Node.remarks]
    simp only [List.mem_append]
    rcases h with h | ⟨-, h⟩
    · split at h
      · exact Or.inl (Or.inl (Or.inl (Or.inr (hhere line (Option.some.inj h)))))
      · exact Or.inl (Or.inl (Or.inr (ihb h)))
    · exact Or.inr (ih h)
  | comment text ns ih =>
    rw [remarksOf]
    exact List.mem_append_right _ (ih h)

theorem quiet_remarks_iff :
    Quiet (remarks ctx nodes) ↔ ResolvedAll ctx nodes ∧ nestingOf nodes ≤ maxNesting := by
  have hdeep := @tooDeepIn?_eq_none_iff nodes 0 1 (Nat.zero_le _)
  rw [Nat.zero_add] at hdeep
  rw [remarks, ← hdeep]
  cases h : tooDeepIn? 0 1 nodes with
  | none => simp [quiet_remarksOf_iff]
  | some l =>
    simp only [reduceCtorEq, and_false, iff_false]
    intro hquiet
    exact hquiet _ (mem_remarksOf_of_tooDeepIn? h) rfl

/-- **An error is reported of a script if and only if it is ill-formed.** -/
theorem hasErrors_compile_iff (ht : ctx.instructions.LaidOut) :
    (compile ctx name nodes).report.hasErrors = true ↔ IllFormed ctx.vocabulary nodes := by
  rw [← Bool.not_eq_false, hasErrors_compile_eq_false_iff, quiet_remarks_iff, resolvedAll_iff,
    IllFormed]
  simp only [Statement.problems_eq_nil_iff ht, Condition.problems_eq_nil_iff]
  constructor
  · intro h
    by_contra hc
    simp only [not_or, not_exists, not_and, not_not, Nat.not_lt] at hc
    exact h ⟨⟨hc.1, hc.2.1⟩, hc.2.2⟩
  · rintro (⟨s, hs, hn⟩ | ⟨c, hc, hn⟩ | hn) ⟨⟨hstatements, hconditions⟩, hdeep⟩
    · exact hn (hstatements s hs)
    · exact hn (hconditions c hc)
    · omega

end Errors

/-! ## Numbers in the code -/

section Numbers

/-- The numbers in the operands of an instruction, one for each parameter that takes an argument.
A flag belongs to the group that the opcode stands for. -/
def readOperands (group : Nat) : List Parameter → Bytes → List Nat
  | [], _ => []
  | .unused :: ps, bytes => readOperands group ps bytes
  | .flag :: ps, bytes =>
    (flagGroupSize * group + ofLittleEndian (bytes.take 1)) ::
      readOperands group ps (bytes.drop 1)
  | p :: ps, bytes =>
    ofLittleEndian (bytes.take p.size) :: readOperands group ps (bytes.drop p.size)

variable (ctx : Context)

/-- The instruction in the code has the name that the statement has, and its operands are the
numbers that the arguments of the statement stand for. -/
def Says (s : Statement) (call : Call) : Prop :=
  ∃ e, ctx.instructions.entryAt? call.opcode.toNat = some e ∧
    e.instruction.name = s.instruction ∧
    DenotesAll ctx s.arguments[0]? e.instruction.used s.arguments
      (readOperands (call.opcode.toNat - e.opcode) e.instruction.parameters call.operands)

variable {ctx} {i : Instruction} {p : Parameter} {ps : List Parameter} {group m n : Nat}
  {bytes : Bytes}

/-- The number of an operand is read back from its bytes. -/
theorem readOperands_encode (hfits : Parameter.operand? p n = some (Parameter.encode p n))
    (hgroup : p = .flag → group = n / flagGroupSize) :
    readOperands group (p :: ps) (Parameter.encode p n ++ bytes) =
      (if p.isUsed then [n] else []) ++ readOperands group ps bytes := by
  have hbyte : (if n ≤ 0xFF then some [byte n] else none) = some [byte n] →
      ofLittleEndian [byte n] = n := by
    intro h
    have hle : n ≤ 0xFF := by
      by_contra hc
      rw [if_neg hc] at h
      exact absurd h (by simp)
    simp only [ofLittleEndian, toNat_byte]
    omega
  cases p with
  | unused => rfl
  | flag =>
    have hg := hgroup rfl
    have hsize : flagGroupSize = 256 := rfl
    show (flagGroupSize * group + ofLittleEndian [byte n]) :: _ = n :: _
    rw [hg, hsize]
    simp only [ofLittleEndian, toNat_byte]
    congr 1
    omega
  | immediate =>
    have hle : n ≤ 0xFFFF := by
      by_contra hc
      rw [Parameter.operand?, if_neg hc] at hfits
      exact absurd hfits (by simp)
    show ofLittleEndian (word16 n) :: _ = n :: _
    rw [ofLittleEndian_word16 (by omega)]
    rfl
  | word => exact congrArg (· :: _) (hbyte hfits)
  | roomScript => exact congrArg (· :: _) (hbyte hfits)
  | entityGroup => exact congrArg (· :: _) (hbyte hfits)
  | room => exact congrArg (· :: _) (hbyte hfits)
  | roomEntrance => exact congrArg (· :: _) (hbyte hfits)

/-- An instruction has one operand at most that is a flag, and its opcode gives the group of it. -/
theorem group_add_group_eq (hi : i.Valid) :
    (i.first = .flag → Parameter.group i.first m + Parameter.group i.second n =
      m / flagGroupSize) ∧
    (i.second = .flag → Parameter.group i.first m + Parameter.group i.second n =
      n / flagGroupSize) := by
  have hone : ¬ (i.first = .flag ∧ i.second = .flag) := by
    rintro ⟨h1, h2⟩
    have hc := hi.flagCount_le
    simp [Instruction.flagCount, Instruction.parameters, h1, h2] at hc
  constructor
  · intro h1
    rw [Parameter.group_of_ne_flag fun h2 => hone ⟨h1, h2⟩, h1]
    rfl
  · intro h2
    rw [Parameter.group_of_ne_flag fun h1 => hone ⟨h1, h2⟩, h2, Nat.zero_add]
    rfl

theorem readOperands_parameters (hi : i.Valid)
    (hm : Parameter.operand? i.first m = some (Parameter.encode i.first m))
    (hn : Parameter.operand? i.second n = some (Parameter.encode i.second n)) :
    readOperands (Parameter.group i.first m + Parameter.group i.second n) i.parameters
      (Parameter.encode i.first m ++ Parameter.encode i.second n) = i.taken m n := by
  obtain ⟨hfirst, hsecond⟩ := @group_add_group_eq i m n hi
  rw [Instruction.parameters, readOperands_encode hm hfirst,
    ← List.append_nil (Parameter.encode i.second n), readOperands_encode hn hsecond]
  simp [readOperands, Instruction.taken]

/-- A statement without problems is emitted as an instruction that says the same. -/
theorem Statement.exists_says (hs : ctx.Sound) (hnarrow : ctx.Narrow) {s : Statement}
    (h : s.problems ctx = []) : ∃ call, s.emit? ctx = some call ∧ Says ctx s call := by
  obtain ⟨e, m, n, hl, harity, hm, hn⟩ := s.exists_operands_of_problems_eq_nil h
  have hmem := InstructionTable.mem_of_lookup? hl
  have hvalid := hs.laidOut.valid_entry hmem
  have hopcode := Statement.toNat_opcode_emit hs (s := s) hmem
  have hoperands : (s.emit ctx e).operands =
      Parameter.encode e.instruction.first m ++ Parameter.encode e.instruction.second n := by
    rw [emit, hm, hn]
    rfl
  rw [hm, hn] at hopcode
  refine ⟨s.emit ctx e, by rw [emit?, hl, Option.map_some], e, Statement.entryAt?_emit hs hmem,
    InstructionTable.name_of_lookup? hl, ?_⟩
  rw [hopcode, Nat.add_sub_cancel_left, hoperands]
  have hread := readOperands_parameters hvalid (hnarrow.operand?_resolve? hm)
    (hnarrow.operand?_resolve? hn)
  exact (Context.denotesAll_iff hvalid).mpr ⟨m, n, harity, hm, hn, hread⟩

end Numbers

/-! ## The whole script -/

section Compile

variable {ctx : Context} {name : String} {nodes : List Node} {code : Bytes}

/-- **An error is reported of a script if and only if it is ill-formed**, and the instructions of a
script without errors say what its statements say, one for one. -/
theorem compile_exact {project : List Instruction}
    (htable : (InstructionTable.build project VariableKind.flag.capacity).result =
      .ok ctx.instructions)
    (hindexes : ∀ kind, ∀ slot ∈ ctx.scope.slots kind, slot.index < kind.capacity)
    (hscripts : ctx.roomScripts.length ≤ 256) (hgroups : ctx.entityGroups.length ≤ 256)
    (hrooms : ctx.rooms.rooms.length ≤ 256)
    (hentrances : ∀ r ∈ ctx.rooms.rooms, r.2.length ≤ 256)
    (hcode : (compile ctx name nodes).result = .ok code) :
    ((compile ctx name nodes).report.hasErrors = true ↔ IllFormed ctx.vocabulary nodes) ∧
      ((compile ctx name nodes).report.hasErrors = false →
        ∃ ls, disassemble ctx.instructions code = some ls ∧
          List.Forall₂ (Says ctx) (statementsOf nodes) (ls.filterMap fun l => l.op.call?)) := by
  have hlaidOut := InstructionTable.laidOut_of_build htable
  have hlookup : ∀ kind name n, ctx.scope.lookup kind name = .ok n → n < kind.capacity := by
    intro kind name n h
    obtain ⟨slot, hslot, rfl, -⟩ := Scope.lookup_eq_ok_iff.mp h
    exact hindexes kind slot (List.mem_of_find?_eq_some hslot)
  have hs : ctx.Sound := by
    refine ⟨hlaidOut, fun name n h => ?_⟩
    rw [InstructionTable.groups_of_build htable]
    exact hlookup .flag name n h
  have hword : ∀ name n, ctx.scope.lookup .word name = .ok n → n < 256 := by
    intro name n h
    have hlt := hlookup .word name n h
    have hcap : VariableKind.word.capacity = 128 := rfl
    omega
  have hnarrow : ctx.Narrow := ⟨hword, hscripts, hgroups, hrooms, hentrances⟩
  refine ⟨hasErrors_compile_iff hlaidOut, fun herrors => ?_⟩
  have hr : ResolvedAll ctx nodes := resolvedAll_of_accepts ⟨hcode, herrors⟩
  obtain ⟨rfl, hsize⟩ := result_compile_eq_ok_iff.mp hcode
  refine ⟨_, disassemble_bytecode hs hsize, ?_⟩
  rw [filterMap_call?_listing]
  exact forall₂_filterMap fun s hmem =>
    Statement.exists_says hs hnarrow (problems_eq_nil_of_mem_statementsOf hr hmem)

/-- The flag is in the second group, and the gate is an entrance of the town. -/
def gateNodes : List Node :=
  [.statement ⟨"set_flag", ["seen"]⟩,
    .choice ⟨.word, "coins", .less, some "0x0A"⟩ [.statement ⟨"load_room", ["town", "gate"]⟩] []]

theorem exact_gateNodes :
    ((compile sampleContext "startup" gateNodes).report.hasErrors = true ↔
        IllFormed sampleContext.vocabulary gateNodes) ∧
      ((compile sampleContext "startup" gateNodes).report.hasErrors = false →
        ∃ ls, disassemble sampleTable (bytecode sampleContext gateNodes) = some ls ∧
          List.Forall₂ (Says sampleContext) (statementsOf gateNodes)
            (ls.filterMap fun l => l.op.call?)) :=
  @compile_exact sampleContext "startup" gateNodes (bytecode sampleContext gateNodes) []
    build_sampleTable (fun kind => by cases kind <;> decide) (by decide) (by decide) (by decide)
    (by decide) (by rfl)

end Compile

end Script

end Cartridge
