import Mathlib.Data.Fintype.Pigeonhole
import Cartridge.Proofs.Resource.Rules

/-!
# Errors about parents

The steps from parent to parent end at a root, which gives a struct its chain, or at a name that is
not declared, or they never end (`exists_chain_or_missing_or_endless`); they never end if and only
if they come twice to one struct (`endless_iff_revisits`).

A struct without a chain gets one error, and the error looks one step ahead (`reports_of_leftOut`):
a parent that is not declared is unknown, and any other is taken to be part of a circle.  That says
what is wrong of every struct (`Truthful`) unless a declared parent leads to a name that is not
declared.

Main statement: `resolve_parentReports`.
-/

namespace Cartridge.StructTable

/-! ## Steps from parent to parent -/

section Ancestors

variable (structs : List EntityStruct)

/-- The parent that a name is declared with. -/
def parent? (name : String) : Option String :=
  (declaration? structs name).bind EntityStruct.parent

/-- Where so many steps from parent to parent lead. -/
def ancestor? (name : String) : Nat → Option String
  | 0 => some name
  | n + 1 => (ancestor? name n).bind (parent? structs)

/-- The steps never end. -/
def Endless (name : String) : Prop := ∀ n, (ancestor? structs name n).isSome

/-- The steps come twice to one struct. -/
def Revisits (name : String) : Prop :=
  ∃ i j a, i < j ∧ ancestor? structs name i = some a ∧ ancestor? structs name j = some a

/-- So many steps lead to a name that is not declared. -/
structure Missing (name : String) (n : Nat) (a : String) : Prop where
  reached : ancestor? structs name n = some a
  undeclared : declaration? structs a = none

variable {structs} {name a b : String} {m n : Nat} {chain : List EntityStruct}

theorem parent?_eq_some_iff :
    parent? structs a = some b ↔ ∃ s, declaration? structs a = some s ∧ s.parent = some b :=
  Option.bind_eq_some_iff

theorem ancestor?_one : ancestor? structs name 1 = parent? structs name := rfl

theorem ancestor?_add : ancestor? structs name (m + n) =
    (ancestor? structs name m).bind fun a => ancestor? structs a n := by
  induction n with
  | zero => exact (Option.bind_fun_some _).symm
  | succ n ih =>
    rw [← Nat.add_assoc, ancestor?, ih, Option.bind_assoc]
    rfl

theorem ancestor?_isSome_of_le (hmn : m ≤ n) (h : (ancestor? structs name n).isSome) :
    (ancestor? structs name m).isSome := by
  obtain ⟨k, rfl⟩ := Nat.exists_eq_add_of_le hmn
  rw [ancestor?_add] at h
  exact Option.isSome_of_isSome_bind h

/-- Behind a name that is not declared there are no steps. -/
theorem Missing.le (h : Missing structs name n a) (hm : (ancestor? structs name m).isSome) :
    m ≤ n := by
  by_contra hlt
  have hnext := ancestor?_isSome_of_le (Nat.lt_of_not_le hlt) hm
  rw [ancestor?, h.reached, Option.bind_some, parent?, h.undeclared] at hnext
  exact absurd hnext (by decide)

/-- Neither a struct with a parent nor a parent that is declared is what is missing. -/
theorem Missing.two_le {d : EntityStruct} (h : Missing structs name n a)
    (hparent : parent? structs name = some b) (hd : declaration? structs b = some d) : 2 ≤ n := by
  obtain ⟨hreached, hundeclared⟩ := h
  match n with
  | 0 =>
    obtain rfl := Option.some.inj hreached
    obtain ⟨s, hs, -⟩ := parent?_eq_some_iff.mp hparent
    exact absurd (hs.symm.trans hundeclared) (by simp)
  | 1 =>
    obtain rfl := Option.some.inj (hparent.symm.trans hreached)
    exact absurd (hd.symm.trans hundeclared) (by simp)
  | n + 2 => exact Nat.le_add_left 2 n

theorem Missing.not_endless (h : Missing structs name n a) : ¬ Endless structs name := by
  intro hendless
  have hle := h.le (hendless (n + 1))
  omega

/-- Steps that end have a last one. -/
theorem exists_last_ancestor (h : ancestor? structs name n = none) :
    ∃ m a, ancestor? structs name m = some a ∧ parent? structs a = none := by
  induction n with
  | zero => exact absurd h (by simp [ancestor?])
  | succ n ih =>
    cases hn : ancestor? structs name n with
    | none => exact ih hn
    | some a =>
      rw [ancestor?, hn] at h
      exact ⟨n, a, hn, h⟩

/-- A chain of an ancestor goes on down to the struct. -/
theorem exists_chain_of_ancestor (ha : ancestor? structs name n = some a)
    (h : ∃ chain, Chain structs a chain) : ∃ chain, Chain structs name chain := by
  induction n generalizing a with
  | zero =>
    obtain rfl := Option.some.inj ha
    exact h
  | succ n ih =>
    obtain ⟨b, hb, hparent⟩ := Option.bind_eq_some_iff.mp ha
    obtain ⟨s, hs, hp⟩ := parent?_eq_some_iff.mp hparent
    obtain ⟨chain, hchain⟩ := h
    exact ih hb ⟨chain ++ [s], .child hs hp hchain⟩

/-- The ancestors of a struct that has a chain have chains. -/
theorem exists_chain_ancestor (ha : ancestor? structs name n = some a)
    (h : ∃ chain, Chain structs name chain) : ∃ chain, Chain structs a chain := by
  induction n generalizing a with
  | zero =>
    obtain rfl := Option.some.inj ha
    exact h
  | succ n ih =>
    obtain ⟨b, hb, hparent⟩ := Option.bind_eq_some_iff.mp ha
    obtain ⟨s, hs, hp⟩ := parent?_eq_some_iff.mp hparent
    obtain ⟨chain, hchain⟩ := ih hb
    cases hchain with
    | root declared noParent =>
      obtain rfl := Option.some.inj (hs.symm.trans declared)
      exact absurd (noParent.symm.trans hp) (by simp)
    | child declared hasParent higher =>
      obtain rfl := Option.some.inj (hs.symm.trans declared)
      obtain rfl := Option.some.inj (hp.symm.trans hasParent)
      exact ⟨_, higher⟩

theorem Missing.not_exists_chain (h : Missing structs name n a) :
    ¬ ∃ chain, Chain structs name chain := by
  intro hchain
  obtain ⟨chain, hchain⟩ := exists_chain_ancestor h.reached hchain
  obtain ⟨s, -, hs, -⟩ := hchain.exists_inherits
  exact absurd (h.undeclared.symm.trans hs) (by simp)

theorem exists_chain_or_missing_or_endless (structs : List EntityStruct) (name : String) :
    (∃ chain, Chain structs name chain) ∨ (∃ n a, Missing structs name n a) ∨
      Endless structs name := by
  by_cases hendless : Endless structs name
  · exact .inr (.inr hendless)
  · obtain ⟨n, hn⟩ := not_forall.mp hendless
    rw [Option.not_isSome_iff_eq_none] at hn
    obtain ⟨m, a, ha, hlast⟩ := exists_last_ancestor hn
    cases hs : declaration? structs a with
    | none => exact .inr (.inl ⟨m, a, ha, hs⟩)
    | some s =>
      rw [parent?, hs] at hlast
      exact .inl (exists_chain_of_ancestor ha ⟨[s], .root hs hlast⟩)

/-! ### Circles -/

/-- Round a circle as often as one likes. -/
theorem ancestor?_mul (h : ancestor? structs a n = some a) :
    ancestor? structs a (m * n) = some a := by
  induction m with
  | zero => rw [Nat.zero_mul, ancestor?]
  | succ m ih => rw [Nat.succ_mul, ancestor?_add, ih, Option.bind_some, h]

theorem Revisits.endless (h : Revisits structs name) : Endless structs name := by
  obtain ⟨i, j, a, hlt, hi, hj⟩ := h
  obtain ⟨k, rfl⟩ := Nat.exists_eq_add_of_lt hlt
  rw [Nat.add_assoc, ancestor?_add, hi, Option.bind_some] at hj
  intro n
  have hround : ancestor? structs name (i + n * (k + 1)) = some a := by
    rw [ancestor?_add, hi, Option.bind_some, ancestor?_mul hj]
  refine ancestor?_isSome_of_le ?_ (Option.isSome_of_eq_some hround)
  exact Nat.le_add_left_of_le (Nat.le_mul_of_pos_right n (Nat.succ_pos k))

/-- There are no more names than structs, so endless steps come back. -/
theorem Endless.revisits (h : Endless structs name) : Revisits structs name := by
  have hmem : ∀ n, (ancestor? structs name n).get (h n) ∈ structs.map EntityStruct.name := by
    intro n
    obtain ⟨b, hb⟩ := Option.isSome_iff_exists.mp (h (n + 1))
    obtain ⟨a, ha, hparent⟩ := Option.bind_eq_some_iff.mp hb
    obtain ⟨s, hs, -⟩ := parent?_eq_some_iff.mp hparent
    simp only [ha, Option.get_some, ← name_of_declaration? hs]
    exact List.mem_map_of_mem (List.mem_of_find?_eq_some hs)
  obtain ⟨i, j, hne, heq⟩ := Finite.exists_ne_map_eq_of_infinite
    fun n => (⟨_, hmem n⟩ : {x // x ∈ structs.map EntityStruct.name})
  have hsame : ancestor? structs name i = ancestor? structs name j :=
    Option.get_inj.mp (congrArg Subtype.val heq)
  obtain ⟨a, hi⟩ := Option.isSome_iff_exists.mp (h i)
  have hj := hsame.symm.trans hi
  rcases Nat.lt_or_gt_of_ne hne with hlt | hlt
  · exact ⟨i, j, a, hlt, hi, hj⟩
  · exact ⟨j, i, a, hlt, hj, hi⟩

theorem endless_iff_revisits : Endless structs name ↔ Revisits structs name :=
  ⟨Endless.revisits, Revisits.endless⟩

end Ancestors

/-! ## What is reported of parents -/

section Reports

variable (structs : List EntityStruct)

/-- What is reported of a struct as a whole, and not of one of its fields. -/
def parentErrors (name : String) : Report :=
  (resolve structs).report.filter fun d => d.place == .whole && d.name == name

/-- The only error about the parent of a struct. -/
def Reports (name : String) (p : ParentProblem) : Prop :=
  parentErrors structs name = [⟨.error, .entityStruct, name, .whole, p.message⟩]

/-- A name that is declared, without a struct in the table. -/
structure LeftOut (name : String) : Prop where
  declared : name ∈ structs.map EntityStruct.name
  absent : contains (resolve structs).value name = false

/-- Every struct that is left out has one error, which says what is wrong with its parents. -/
structure Truthful : Prop where
  one : ∀ name, LeftOut structs name → ∃ p, Reports structs name p
  circular : ∀ name parent, LeftOut structs name → Reports structs name (.circular parent) →
    Endless structs name
  missing : ∀ name n a, LeftOut structs name → Missing structs name n a →
    ∃ parent, Reports structs name (.unknown parent)

/-- The error of a struct that is left out: whether its parent is declared decides. -/
def LooksAhead (name parent : String) : Prop :=
  (Reports structs name (.unknown parent) ∧ Missing structs name 1 parent) ∨
    (Reports structs name (.circular parent) ∧
      (Endless structs name ∨ ∃ n a, 2 ≤ n ∧ Missing structs name n a))

variable {structs} {name parent : String} {n : Nat} {s : EntityStruct}

theorem exists_declaration?_iff :
    (∃ s, declaration? structs name = some s) ↔ name ∈ structs.map EntityStruct.name := by
  rw [← Option.isSome_iff_exists, declaration?, List.find?_isSome, List.mem_map]
  simp only [beq_iff_eq]

/-- Names and fields have their errors at an item. -/
theorem parentErrors_eq : parentErrors structs name =
    ((resolution structs).2.filter fun s => s.name == name).map fun s =>
      ⟨.error, .entityStruct, s.name, .whole,
        (parentProblem ⟨structs.map EntityStruct.name⟩ s).message⟩ := by
  have hfilter : ∀ r : Report, (∀ d ∈ r, d.place ≠ .whole) →
      (r.filter fun d => d.place == .whole && d.name == name) = [] := by
    intro r hr
    rw [List.filter_eq_nil_iff]
    intro d hd
    simp [hr d hd]
  rw [parentErrors, report_resolve, List.filter_append, List.filter_append,
    hfilter _ fun d hd => NameIndex.place_of_mem_review hd, hfilter _ fun d hd => ?_]
  · rw [List.nil_append, List.nil_append, List.filter_map]
    rfl
  · obtain ⟨s, -, fields, -, hs⟩ := progress_resolution.reported d hd
    exact EntityStruct.place_of_mem_report hs

theorem LeftOut.not_exists_chain (h : LeftOut structs name) :
    ¬ ∃ chain, Chain structs name chain := by
  rw [← contains_resolve_iff, h.absent]
  exact Bool.false_ne_true

theorem parentErrors_eq_nil (h : ∃ chain, Chain structs name chain) :
    parentErrors structs name = [] := by
  rw [parentErrors_eq, List.map_eq_nil_iff, List.filter_eq_nil_iff]
  intro s hs hname
  rw [beq_iff_eq] at hname
  subst hname
  exact (mem_waiting_iff.mp hs).2 h

/-- A struct that is left out waits in the end, and no other with its name. -/
theorem LeftOut.reports (h : LeftOut structs name) : ∃ s, declaration? structs name = some s ∧
    Reports structs name (parentProblem ⟨structs.map EntityStruct.name⟩ s) := by
  obtain ⟨s, hs⟩ := exists_declaration?_iff.mpr h.declared
  obtain rfl := name_of_declaration? hs
  have hwaits := mem_waiting_iff.mpr ⟨mem_firstDeclarations_iff.mpr hs, h.not_exists_chain⟩
  have hnodup : ((resolution structs).2.map EntityStruct.name).Nodup := by
    refine (progress_resolution.sublist.map _).nodup ?_
    rw [firstDeclarations_eq]
    exact nodup_names_firsts
  refine ⟨s, hs, ?_⟩
  rw [Reports, parentErrors_eq, filter_eq_singleton_of_nodup hnodup hwaits]
  rfl

theorem parentProblem_eq {names : List String} (hp : s.parent = some parent) :
    parentProblem ⟨names⟩ s = if parent ∈ names then .circular parent else .unknown parent := by
  have hcontains : NameIndex.contains ⟨names⟩ parent = true ↔ parent ∈ names :=
    List.contains_iff_mem
  rw [parentProblem, hp, Option.getD_some]
  simp only [hcontains]

theorem message_circular_ne_message_unknown (parent parent' : String) :
    (ParentProblem.circular parent).message ≠ (ParentProblem.unknown parent').message := by
  intro h
  unfold ParentProblem.message at h
  have hfirst := congrArg (fun text => text.toList.head?) h
  have hc : (toString "circular parent chain through ").toList.head? = some 'c' := by decide
  have hu : (toString "unknown parent struct: ").toList.head? = some 'u' := by decide
  simp only [String.toList_append, List.head?_append, hc, hu, Option.some_or] at hfirst
  exact absurd hfirst (by decide)

theorem Reports.not_unknown (h : Reports structs name (.circular parent)) (parent' : String) :
    ¬ Reports structs name (.unknown parent') := by
  intro h'
  have hsame := List.head_eq_of_cons_eq (h.symm.trans h')
  exact message_circular_ne_message_unknown parent parent' (congrArg Diagnostic.message hsame)

theorem LeftOut.looksAhead (h : LeftOut structs name) :
    ∃ parent, parent? structs name = some parent ∧ LooksAhead structs name parent := by
  obtain ⟨s, hs, hreports⟩ := h.reports
  cases hp : s.parent with
  | none => exact absurd ⟨[s], .root hs hp⟩ h.not_exists_chain
  | some parent =>
    have hparent : parent? structs name = some parent := parent?_eq_some_iff.mpr ⟨s, hs, hp⟩
    refine ⟨parent, hparent, ?_⟩
    rw [parentProblem_eq hp] at hreports
    cases hd : declaration? structs parent with
    | none =>
      have hnot : parent ∉ structs.map EntityStruct.name := by
        rw [← exists_declaration?_iff, hd]
        simp
      rw [if_neg hnot] at hreports
      exact .inl ⟨hreports, hparent, hd⟩
    | some d =>
      have hmem : parent ∈ structs.map EntityStruct.name := exists_declaration?_iff.mp ⟨d, hd⟩
      rw [if_pos hmem] at hreports
      refine .inr ⟨hreports, ?_⟩
      rcases exists_chain_or_missing_or_endless structs name with hchain | ⟨n, a, hmissing⟩ | h'
      · exact absurd hchain h.not_exists_chain
      · exact .inr ⟨n, a, hmissing.two_le hparent hd, hmissing⟩
      · exact .inl h'

/-- A struct with an ancestor that is not declared is left out. -/
theorem Missing.leftOut {a : String} (h : Missing structs name n a) (hn : 1 ≤ n) :
    LeftOut structs name := by
  refine ⟨?_, ?_⟩
  · have hparent := ancestor?_isSome_of_le hn (Option.isSome_of_eq_some h.reached)
    rw [ancestor?_one] at hparent
    obtain ⟨b, hb⟩ := Option.isSome_iff_exists.mp hparent
    obtain ⟨s, hs, -⟩ := parent?_eq_some_iff.mp hb
    exact exists_declaration?_iff.mp ⟨s, hs⟩
  · rw [← Bool.not_eq_true, contains_resolve_iff]
    exact h.not_exists_chain

/-- The errors say what is wrong if and only if no declared parent leads to a missing name. -/
theorem truthful_iff :
    Truthful structs ↔ ∀ name n a, Missing structs name n a → n < 2 := by
  constructor
  · intro h name n a hmissing
    by_contra hge
    rw [Nat.not_lt] at hge
    have hleft := hmissing.leftOut (Nat.le_of_succ_le hge)
    obtain ⟨parent', hunknown⟩ := h.missing name n a hleft hmissing
    obtain ⟨parent, -, ⟨-, hdirect⟩ | ⟨hcircular, -⟩⟩ := hleft.looksAhead
    · -- steps that end at the parent do not go on to the second ancestor
      have hle := hdirect.le (Option.isSome_of_eq_some hmissing.reached)
      omega
    · exact hcircular.not_unknown parent' hunknown
  · intro h
    refine ⟨fun name hleft => ?_, fun name parent hleft hreports => ?_,
      fun name n a hleft hmissing => ?_⟩
    · obtain ⟨s, -, hreports⟩ := hleft.reports
      exact ⟨_, hreports⟩
    · obtain ⟨parent', -, ⟨hunknown, -⟩ | ⟨-, hendless | ⟨n, a, hge, hmissing⟩⟩⟩ := hleft.looksAhead
      · exact absurd hunknown (hreports.not_unknown parent')
      · exact hendless
      · exact absurd (h name n a hmissing) (Nat.not_lt.mpr hge)
    · obtain ⟨parent', -, ⟨hunknown, -⟩ | ⟨-, hendless | ⟨m, b, hge, hmissing'⟩⟩⟩ := hleft.looksAhead
      · exact ⟨parent', hunknown⟩
      · exact absurd hendless hmissing.not_endless
      · exact absurd (h name m b hmissing') (Nat.not_lt.mpr hge)

/-- What is reported of the parents of structs. -/
structure ParentReports (structs : List EntityStruct) : Prop where
  endless_iff : ∀ name, Endless structs name ↔ Revisits structs name
  resolved : ∀ name, contains (resolve structs).value name = true → parentErrors structs name = []
  leftOut : ∀ name, LeftOut structs name →
    ∃ parent, parent? structs name = some parent ∧ LooksAhead structs name parent
  truthful_iff : Truthful structs ↔ ∀ name n a, Missing structs name n a → n < 2

/-- **A struct that is left out has one error about its parents, which is true of it unless a
declared parent leads to a missing name.** -/
theorem resolve_parentReports (structs : List EntityStruct) : ParentReports structs :=
  ⟨fun _ => endless_iff_revisits,
    fun _ hcontains => parentErrors_eq_nil (contains_resolve_iff.mp hcontains),
    fun _ hleft => hleft.looksAhead, truthful_iff⟩

/-- A struct whose grandparent is not declared: no circle anywhere. -/
def strayStructs : List EntityStruct := [⟨"Leaf", some "Mid", []⟩, ⟨"Mid", some "Nope", []⟩]

theorem not_truthful_strayStructs : ¬ Truthful strayStructs := by
  intro h
  have hmissing : Missing strayStructs "Leaf" 2 "Nope" := ⟨by decide, by decide⟩
  exact absurd (truthful_iff.mp h "Leaf" 2 "Nope" hmissing) (by decide)

end Reports

end Cartridge.StructTable
