import Cartridge.Proofs.Lists
import Cartridge.Proofs.Script.Listing

/-!
# What statements and conditions say

`Statement.call?` gives the instruction that a statement stands for and `Condition.test?` the test
that a condition stands for, without regard to the code: there is none as soon as a name is unknown,
an argument is missing or a number does not fit into its operand.

A statement without problems stands for the instruction that is emitted for it
(`exists_call?_of_problems_eq_nil`), and the branch behind a condition without problems is taken by
the opposite test (`exists_test?_of_problems_eq_nil`), as long as no list of names has more entries
than one byte can tell apart.
-/

namespace Cartridge.Script

/-- The bytes of an operand.  Of a flag only its place in its group stands there. -/
def Parameter.operand? (p : Parameter) (n : Nat) : Option Bytes :=
  match p with
  | .unused => some []
  | .flag => some [byte (n % flagGroupSize)]
  | .immediate => if n ≤ 0xFFFF then some (word16 n) else none
  | .word | .roomScript | .entityGroup | .room | .roomEntrance =>
    if n ≤ 0xFF then some [byte n] else none

section Reading

variable (ctx : Context)

/-- The instruction that a statement stands for.  Its opcode is one of those of the entry that it
names. -/
def Statement.call? (s : Statement) : Option Call := do
  let e ← ctx.instructions.lookup? s.instruction
  guard (s.arguments.length = e.instruction.arity)
  let m ← (ctx.firstOperand e.instruction s).toOption
  let n ← (ctx.secondOperand e.instruction s).toOption
  let first ← Parameter.operand? e.instruction.first m
  let second ← Parameter.operand? e.instruction.second n
  let opcode :=
    e.opcode + Parameter.group e.instruction.first m + Parameter.group e.instruction.second n
  guard (ctx.instructions.owns e opcode)
  return ⟨byte opcode, first ++ second⟩

/-- The test that a condition stands for. -/
def Condition.test? (c : Condition) : Option Test := do
  guard (c.comparator.kind = c.kind)
  let n ← (c.variableOperand ctx).toOption
  match c.kind with
  | .flag => return ⟨c.comparator, n, 0⟩
  | .word => return ⟨c.comparator, n, ← c.valueOperand.toOption⟩

/-- No list of names is longer than one byte can tell apart. -/
structure Context.Narrow (ctx : Context) : Prop where
  word_lt : ∀ name n, ctx.scope.lookup .word name = .ok n → n < 256
  roomScripts_le : ctx.roomScripts.length ≤ 256
  entityGroups_le : ctx.entityGroups.length ≤ 256
  rooms_le : ctx.rooms.rooms.length ≤ 256
  entrances_le : ∀ r ∈ ctx.rooms.rooms, r.2.length ≤ 256

end Reading

section Resolving

theorem Resolved.exists_ok_of_problems_eq_nil {r : Resolved} (h : r.problems = []) :
    ∃ n, r = .ok n := by
  cases r with
  | ok n => exact ⟨n, rfl⟩
  | error p => exact absurd h (by simp [Resolved.problems])

theorem Resolved.ofOption_eq_ok_iff {p : Problem} {o : Option Nat} {n : Nat} :
    Resolved.ofOption p o = .ok n ↔ o = some n := by
  cases o with
  | none => simp [Resolved.ofOption]
  | some m => simp [Resolved.ofOption]

theorem RoomDirectory.room?_lt {d : RoomDirectory} {room : String} {n : Nat}
    (h : d.room? room = some n) : n < d.rooms.length :=
  lt_of_findIdx? h

theorem RoomDirectory.exists_entrances {d : RoomDirectory} {room entrance : String} {n : Nat}
    (h : d.entrance? room entrance = some n) : ∃ r ∈ d.rooms, n < r.2.length := by
  obtain ⟨r, hr, hn⟩ := Option.bind_eq_some_iff.mp h
  exact ⟨r, List.mem_of_find?_eq_some hr, lt_of_findIdx? hn⟩

variable {ctx : Context}

theorem Context.lookup_of_resolveVariable {kind : VariableKind} {name : String} {n : Nat}
    (h : ctx.resolveVariable kind name = .ok n) : ctx.scope.lookup kind name = .ok n := by
  unfold resolveVariable at h
  cases hl : ctx.scope.lookup kind name with
  | ok m =>
    rw [hl] at h
    rw [Except.ok.inj h]
  | error e =>
    rw [hl] at h
    cases e with
    | unknown => exact absurd h (by simp)
    | wrongRoom owner => exact absurd h (by simp)

variable (hn : ctx.Narrow)
include hn

/-- What an argument stands for fits into its operand. -/
theorem Context.Narrow.operand?_resolve {target : Option String} {p : Parameter}
    {argument : String} {n : Nat} (h : ctx.resolve target p argument = .ok n) :
    Parameter.operand? p n = some (Parameter.encode p n) := by
  have hbyte : ∀ m, m < 256 → (if m ≤ 0xFF then some [byte m] else none) = some [byte m] :=
    fun m hm => if_pos (by omega)
  unfold Parameter.operand? Parameter.encode
  cases p with
  | unused => rfl
  | flag =>
    simp only
    rw [show flagGroupSize = 256 from rfl, byte_mod]
  | immediate =>
    have hlt : (resolveNumber argument).number < 0x10000 := resolveNumber_lt argument
    rw [show resolveNumber argument = .ok n from h] at hlt
    exact if_pos (Nat.le_of_lt_succ hlt)
  | word => exact hbyte n (hn.word_lt argument n (lookup_of_resolveVariable h))
  | roomScript =>
    have hlt := lt_of_findIdx? (Resolved.ofOption_eq_ok_iff.mp h)
    exact hbyte n (by have := hn.roomScripts_le; omega)
  | entityGroup =>
    have hlt := lt_of_findIdx? (Resolved.ofOption_eq_ok_iff.mp h)
    exact hbyte n (by have := hn.entityGroups_le; omega)
  | room =>
    have hlt := RoomDirectory.room?_lt (Resolved.ofOption_eq_ok_iff.mp h)
    exact hbyte n (by have := hn.rooms_le; omega)
  | roomEntrance =>
    cases target with
    | none =>
      obtain rfl := Except.ok.inj h
      rfl
    | some room =>
      obtain ⟨r, hr, hlt⟩ := RoomDirectory.exists_entrances (Resolved.ofOption_eq_ok_iff.mp h)
      exact hbyte n (by have := hn.entrances_le r hr; omega)

theorem Context.Narrow.operand?_resolve? {target : Option String} {p : Parameter}
    {argument : Option String} {n : Nat} (h : ctx.resolve? target p argument = .ok n) :
    Parameter.operand? p n = some (Parameter.encode p n) := by
  cases argument with
  | some text => exact hn.operand?_resolve h
  | none =>
    obtain rfl := Except.ok.inj h
    cases p <;> rfl

end Resolving

section Sound

variable {ctx : Context}

/-- A statement without problems names an instruction, and its arguments stand for numbers. -/
theorem Statement.exists_operands_of_problems_eq_nil {s : Statement} (h : s.problems ctx = []) :
    ∃ e m n, ctx.instructions.lookup? s.instruction = some e ∧
      s.arguments.length = e.instruction.arity ∧ ctx.firstOperand e.instruction s = .ok m ∧
      ctx.secondOperand e.instruction s = .ok n := by
  unfold problems at h
  cases hl : ctx.instructions.lookup? s.instruction with
  | none =>
    rw [hl] at h
    exact absurd h (by simp)
  | some e =>
    simp only [hl, List.append_eq_nil_iff, ite_eq_left_iff] at h
    obtain ⟨⟨harity, hfirst⟩, hsecond⟩ := h
    obtain ⟨m, hm⟩ := Resolved.exists_ok_of_problems_eq_nil hfirst
    obtain ⟨n, hn⟩ := Resolved.exists_ok_of_problems_eq_nil hsecond
    refine ⟨e, m, n, rfl, ?_, hm, hn⟩
    by_contra hc
    exact absurd (harity hc) (by simp)

theorem Statement.exists_argument {s : Statement} {k : Nat} (h : k < s.arguments.length) :
    ∃ name, s.arguments[k]? = some name :=
  ⟨_, List.getElem?_eq_getElem h⟩

/-- The target of an entrance is the room that the first argument names. -/
theorem Context.target_eq {i : Instruction} {s : Statement} {name : String} {m : Nat}
    (hi : i.first = .room) (harg : s.arguments[0]? = some name)
    (hroom : ctx.rooms.room? name = some m) : ctx.target i s = some name := by
  simp [target, hi, harg, hroom, Option.filter]

variable (hs : ctx.Sound) (hn : ctx.Narrow)
include hs hn

/-- A statement without problems stands for the instruction that is emitted for it. -/
theorem Statement.exists_call?_of_problems_eq_nil {s : Statement} (h : s.problems ctx = []) :
    ∃ call, s.call? ctx = some call ∧ s.emit? ctx = some call := by
  obtain ⟨e, m, n, hl, hlen, hm, hnn⟩ := s.exists_operands_of_problems_eq_nil h
  have hop := hs.group_lt (s := s) (InstructionTable.mem_of_lookup? hl)
  rw [hm, hnn] at hop
  have howns : ctx.instructions.owns e (e.opcode + Parameter.group e.instruction.first m +
      Parameter.group e.instruction.second n) = true := by
    simp only [Resolved.number] at hop
    simp only [InstructionTable.owns, Bool.and_eq_true, decide_eq_true_eq]
    omega
  refine ⟨s.emit ctx e, ?_, by rw [emit?, hl, Option.map_some]⟩
  have h1 := hn.operand?_resolve? hm
  have h2 := hn.operand?_resolve? hnn
  simp [call?, hl, hlen, hm, hnn, h1, h2, howns, emit, Resolved.number, Except.toOption, guard]

omit hs in
/-- The branch behind a condition without problems is taken if its test fails. -/
theorem Condition.exists_test?_of_problems_eq_nil {c : Condition} (h : c.problems ctx = []) :
    ∃ test, c.test? ctx = some test ∧ ∀ target, c.exit ctx target = .branch test.negate target := by
  by_cases ha : c.comparator.accepts c.kind = true
  · rw [problems, if_pos ha] at h
    have hk := Comparator.kind_eq_of_accepts ha
    cases hc : c.kind with
    | flag =>
      simp only [hc] at h
      obtain ⟨n, hv⟩ := Resolved.exists_ok_of_problems_eq_nil h
      refine ⟨⟨c.comparator, n, 0⟩, ?_, fun target => ?_⟩
      · simp [test?, hk, hc, hv, Except.toOption, guard]
      · rw [exit, if_pos ha, exitTest, hv]
        simp only [hc]
        rfl
    | word =>
      simp only [hc, List.append_eq_nil_iff] at h
      obtain ⟨n, hv⟩ := Resolved.exists_ok_of_problems_eq_nil h.1
      obtain ⟨v, hvalue⟩ := Resolved.exists_ok_of_problems_eq_nil h.2
      have hlt : n < 256 := by
        have hw : ctx.resolveVariable .word c.variableName = .ok n := by
          rw [← hv, variableOperand, hc]
        exact hn.word_lt _ n (Context.lookup_of_resolveVariable hw)
      refine ⟨⟨c.comparator, n, v⟩, ?_, fun target => ?_⟩
      · simp [test?, hk, hc, hv, hvalue, Except.toOption, guard]
      · rw [exit, if_pos ha, exitTest, hv, hvalue]
        simp only [hc, Resolved.number, Nat.mod_eq_of_lt hlt]
        rfl
  · rw [problems, if_neg ha] at h
    exact absurd h (by simp)

end Sound

end Cartridge.Script
