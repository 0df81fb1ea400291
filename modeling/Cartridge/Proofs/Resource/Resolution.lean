import Cartridge.Proofs.Resource.Names
import Cartridge.Resource.Struct

/-!
# Resolving structs

A struct is resolved if its parents lead to a struct without a parent (`Chain`), whatever the order
of the declarations.  Its fields are those of the chain from the root down, without the ones whose
name has been declared before (`chainFields`).

The proof follows the passes.  `Progress` says what passes over waiting structs have done: whatever
they put into the table has a chain, and whatever they leave waits still (`progress_pass`,
`Progress.trans`).  When a pass resolves nothing, the parent of every struct that waits is not in
the table, and no chain leads through it (`exists_of_chain`).

Main statement: `resolve_exact`.
-/

namespace Cartridge

/-- A text is a value of a type if it is a number in the range of the type. -/
theorem FieldType.parse_eq_ok_iff {t : FieldType} {text : String} {v : Int} :
    t.parse text = .ok v ↔ Text.integer? text = some v ∧ t.low ≤ v ∧ v ≤ t.high := by
  unfold parse
  cases Text.integer? text with
  | none => simp
  | some value =>
    simp only [check_eq_ok_iff, Option.some.injEq]
    constructor
    · rintro ⟨rfl, hrange⟩
      exact ⟨rfl, hrange⟩
    · rintro ⟨rfl, hrange⟩
      exact ⟨rfl, hrange⟩

namespace StructTable

/-! ## Chains of parents -/

section Chains

variable (structs : List EntityStruct)

/-- The struct that a name stands for: the first one that is declared with it. -/
def declaration? (name : String) : Option EntityStruct := structs.find? fun s => s.name == name

/-- The structs from a root down to the one that a name stands for, each the parent of the next. -/
inductive Chain : String → List EntityStruct → Prop where
  | root {name : String} {s : EntityStruct} (declared : declaration? structs name = some s)
      (noParent : s.parent = none) : Chain name [s]
  | child {name parent : String} {s : EntityStruct} {above : List EntityStruct}
      (declared : declaration? structs name = some s) (hasParent : s.parent = some parent)
      (higher : Chain parent above) : Chain name (above ++ [s])

/-- The fields that a chain of structs declares, each name with its first declaration. -/
def declaredFields (chain : List EntityStruct) : List StructField :=
  firsts StructField.name [] (chain.flatMap EntityStruct.fields)

def chainFields (chain : List EntityStruct) : List ResolvedField :=
  (declaredFields chain).map StructField.resolve

/-- The fields that a struct gets from its parent. -/
def Inherits (s : EntityStruct) (fields : List ResolvedField) : Prop :=
  match s.parent with
  | none => fields = []
  | some parent => ∃ above, Chain structs parent above ∧ fields = chainFields above

variable {structs} {name : String} {s : EntityStruct} {chain chain' above : List EntityStruct}
  {fields fields' : List ResolvedField}

theorem Chain.unique (h : Chain structs name chain) (h' : Chain structs name chain') :
    chain = chain' := by
  induction h generalizing chain' with
  | root declared noParent =>
    cases h' with
    | root declared' _ =>
      rw [Option.some.inj (declared.symm.trans declared')]
    | child declared' hasParent _ =>
      obtain rfl := Option.some.inj (declared.symm.trans declared')
      exact absurd (noParent.symm.trans hasParent) (by simp)
  | child declared hasParent higher ih =>
    cases h' with
    | root declared' noParent =>
      obtain rfl := Option.some.inj (declared.symm.trans declared')
      exact absurd (noParent.symm.trans hasParent) (by simp)
    | child declared' hasParent' higher' =>
      obtain rfl := Option.some.inj (declared.symm.trans declared')
      obtain rfl := Option.some.inj (hasParent.symm.trans hasParent')
      rw [ih higher']

theorem name_of_declaration? (h : declaration? structs name = some s) : s.name = name :=
  eq_of_beq (List.find?_some (p := fun s : EntityStruct => s.name == name) h)

theorem map_name_chainFields :
    (chainFields chain).map ResolvedField.name = (declaredFields chain).map StructField.name := by
  rw [chainFields, List.map_map]
  rfl

theorem nodup_chainFields : ((chainFields chain).map ResolvedField.name).Nodup := by
  rw [map_name_chainFields]
  exact nodup_names_firsts

theorem ownFields_eq (inherited : List String) (s : EntityStruct) :
    s.ownFields inherited =
      (firsts StructField.name inherited s.fields).map StructField.resolve := by
  rw [← filterMap_zipIdx_eq_firsts, List.map_filterMap]
  refine List.filterMap_congr ?_
  rintro ⟨f, i⟩ -
  simp only [EntityStruct.keeps, EntityStruct.fieldNames, ← Bool.not_or]
  cases inherited.contains f.name || isRepeated (s.fields.map StructField.name) i f.name with
  | true => rfl
  | false => rfl

/-- A struct adds its own fields to those of its chain. -/
theorem chainFields_append : chainFields (above ++ [s]) =
    chainFields above ++ s.ownFields ((chainFields above).map ResolvedField.name) := by
  rw [chainFields, declaredFields, List.flatMap_append, List.flatMap_singleton, firsts_append,
    List.map_append, ownFields_eq, map_name_chainFields]
  congr 2
  refine firsts_congr fun name => ?_
  rw [declaredFields, mem_names_firsts_iff, List.append_nil]
  simp

theorem chainFields_singleton : chainFields [s] = s.ownFields [] := by
  rw [chainFields, declaredFields, List.flatMap_singleton, ownFields_eq]

theorem Inherits.unique (h : Inherits structs s fields) (h' : Inherits structs s fields') :
    fields = fields' := by
  unfold Inherits at h h'
  cases hp : s.parent with
  | none =>
    rw [hp] at h h'
    rw [h, h']
  | some parent =>
    rw [hp] at h h'
    obtain ⟨above, habove, rfl⟩ := h
    obtain ⟨above', habove', rfl⟩ := h'
    rw [habove.unique habove']

/-- A struct that inherits fields has a chain, with its own fields behind the inherited ones. -/
theorem Inherits.exists_chain (h : Inherits structs s fields)
    (hs : declaration? structs s.name = some s) : ∃ chain, Chain structs s.name chain ∧
      chainFields chain = fields ++ s.ownFields (fields.map ResolvedField.name) := by
  unfold Inherits at h
  cases hp : s.parent with
  | none =>
    rw [hp] at h
    subst h
    exact ⟨[s], .root hs hp, chainFields_singleton⟩
  | some parent =>
    rw [hp] at h
    obtain ⟨above, habove, rfl⟩ := h
    exact ⟨above ++ [s], .child hs hp habove, chainFields_append⟩

theorem Chain.exists_inherits (h : Chain structs name chain) :
    ∃ s fields, declaration? structs name = some s ∧ Inherits structs s fields := by
  cases h with
  | @root _ s declared noParent =>
    refine ⟨s, [], declared, ?_⟩
    rw [Inherits, noParent]
  | @child _ parent s above declared hasParent higher =>
    refine ⟨s, chainFields above, declared, ?_⟩
    rw [Inherits, hasParent]
    exact ⟨above, higher, rfl⟩

theorem firstDeclarations_eq (structs : List EntityStruct) :
    firstDeclarations structs = firsts EntityStruct.name [] structs :=
  filterMap_isRepeated_eq_firsts

theorem mem_firstDeclarations_iff :
    s ∈ firstDeclarations structs ↔ declaration? structs s.name = some s := by
  rw [firstDeclarations_eq, mem_firsts_iff]
  exact ⟨fun h => h.1, fun h => ⟨h, List.not_mem_nil⟩⟩

end Chains

/-! ## Passes -/

section Passes

variable {structs : List EntityStruct} {table table' table'' : StructTable}
  {pending waiting waiting' : List EntityStruct} {r r' : Report} {s : EntityStruct}
  {fields : List ResolvedField}

/-- What a struct is resolved to. -/
def resolvedWith (s : EntityStruct) (fields : List ResolvedField) : ResolvedStruct :=
  ⟨s.name, fields ++ s.ownFields (fields.map ResolvedField.name)⟩

/-- Every struct of the table has a chain, and the fields of its chain. -/
def Grounded (structs : List EntityStruct) (table : StructTable) : Prop :=
  ∀ x ∈ table, ∃ chain, Chain structs x.name chain ∧ x.fields = chainFields chain

/-- Every struct is the first of its name. -/
def Declared (structs pending : List EntityStruct) : Prop :=
  ∀ s ∈ pending, declaration? structs s.name = some s

/-- What passes over `pending` have done when the table has become `table'` and `waiting` is left,
with the report `r`. -/
structure Progress (structs : List EntityStruct) (table : StructTable)
    (pending : List EntityStruct) (table' : StructTable) (waiting : List EntityStruct)
    (r : Report) : Prop where
  sublist : waiting.Sublist pending
  kept : ∀ x ∈ table, x ∈ table'
  new : ∀ x ∈ table', x ∈ table ∨ ∃ s ∈ pending, ∃ fields, Inherits structs s fields ∧
    x = resolvedWith s fields
  resolved : ∀ s ∈ pending, s ∈ waiting ∨ ∃ fields, Inherits structs s fields ∧
    resolvedWith s fields ∈ table' ∧ ∀ d ∈ s.report (fields.map ResolvedField.name), d ∈ r
  reported : ∀ d ∈ r, ∃ s ∈ pending, ∃ fields, Inherits structs s fields ∧
    d ∈ s.report (fields.map ResolvedField.name)

theorem Progress.refl (structs : List EntityStruct) (table : StructTable)
    (pending : List EntityStruct) : Progress structs table pending table pending [] :=
  ⟨List.Sublist.refl _, fun _ h => h, fun _ h => Or.inl h, fun _ h => Or.inl h,
    fun _ h => absurd h List.not_mem_nil⟩

theorem Progress.trans (h : Progress structs table pending table' waiting r)
    (h' : Progress structs table' waiting table'' waiting' r') :
    Progress structs table pending table'' waiting' (r ++ r') := by
  refine ⟨h'.sublist.trans h.sublist, fun x hx => h'.kept x (h.kept x hx), fun x hx => ?_,
    fun s hs => ?_, fun d hd => ?_⟩
  · rcases h'.new x hx with hx | ⟨s, hs, hnew⟩
    · exact h.new x hx
    · exact Or.inr ⟨s, h.sublist.subset hs, hnew⟩
  · rcases h.resolved s hs with hs | ⟨fields, hinherits, hmem, hr⟩
    · rcases h'.resolved s hs with hs | ⟨fields, hinherits, hmem, hr⟩
      · exact Or.inl hs
      · exact Or.inr ⟨fields, hinherits, hmem, fun d hd => List.mem_append_right _ (hr d hd)⟩
    · exact Or.inr ⟨fields, hinherits, h'.kept _ hmem,
        fun d hd => List.mem_append_left _ (hr d hd)⟩
  · rcases List.mem_append.mp hd with hd | hd
    · exact h.reported d hd
    · obtain ⟨s, hs, hfields⟩ := h'.reported d hd
      exact ⟨s, h.sublist.subset hs, hfields⟩

/-- A struct that waits is passed over. -/
theorem Progress.skip (h : Progress structs table pending table' waiting r) (s : EntityStruct) :
    Progress structs table (s :: pending) table' (s :: waiting) r := by
  refine ⟨h.sublist.cons_cons s, h.kept, fun x hx => ?_, fun s' hs' => ?_, fun d hd => ?_⟩
  · refine (h.new x hx).imp_right ?_
    rintro ⟨s', hs', hnew⟩
    exact ⟨s', List.mem_cons_of_mem s hs', hnew⟩
  · rcases List.mem_cons.mp hs' with rfl | hs'
    · exact Or.inl List.mem_cons_self
    · exact (h.resolved s' hs').imp_left (List.mem_cons_of_mem s)
  · obtain ⟨s', hs', hfields⟩ := h.reported d hd
    exact ⟨s', List.mem_cons_of_mem s hs', hfields⟩

/-- The first struct is resolved. -/
theorem progress_resolve (hinherits : Inherits structs s fields) :
    Progress structs table (s :: pending) (resolvedWith s fields :: table) pending
      (s.report (fields.map ResolvedField.name)) := by
  refine ⟨List.sublist_cons_self s pending, fun x hx => List.mem_cons_of_mem _ hx, fun x hx => ?_,
    fun s' hs' => ?_, fun d hd => ⟨s, List.mem_cons_self, fields, hinherits, hd⟩⟩
  · rcases List.mem_cons.mp hx with rfl | hx
    · exact Or.inr ⟨s, List.mem_cons_self, fields, hinherits, rfl⟩
    · exact Or.inl hx
  · rcases List.mem_cons.mp hs' with rfl | hs'
    · exact Or.inr ⟨fields, hinherits, List.mem_cons_self, fun d hd => hd⟩
    · exact Or.inl hs'

theorem Progress.grounded (h : Progress structs table pending table' waiting r)
    (hdeclared : Declared structs pending) (hgrounded : Grounded structs table) :
    Grounded structs table' := by
  intro x hx
  rcases h.new x hx with hx | ⟨s, hs, fields, hinherits, rfl⟩
  · exact hgrounded x hx
  · obtain ⟨chain, hchain, hfields⟩ := hinherits.exists_chain (hdeclared s hs)
    exact ⟨chain, hchain, hfields.symm⟩

/-- What is found in a table has the name that it was looked up with. -/
theorem name_of_get? {name : String} {x : ResolvedStruct} (h : get? table name = some x) :
    x ∈ table ∧ x.name = name :=
  ⟨List.mem_of_find?_eq_some h,
    eq_of_beq (List.find?_some (p := fun s : ResolvedStruct => s.name == name) h)⟩

/-- The parent in the table gives a struct the fields of its chain. -/
theorem inherits_of_parentFields? (hgrounded : Grounded structs table)
    (h : parentFields? table s = some fields) : Inherits structs s fields := by
  unfold parentFields? at h
  unfold Inherits
  cases hp : s.parent with
  | none =>
    rw [hp] at h
    exact (Option.some.inj h).symm
  | some parent =>
    rw [hp] at h
    obtain ⟨x, hx, rfl⟩ := Option.map_eq_some_iff.mp h
    obtain ⟨hmem, rfl⟩ := name_of_get? hx
    exact hgrounded x hmem

theorem progress_pass (hdeclared : Declared structs pending) (hgrounded : Grounded structs table) :
    Progress structs table pending (pass table pending).value.1 (pass table pending).value.2
      (pass table pending).report := by
  induction pending generalizing table with
  | nil => exact Progress.refl structs table []
  | cons s rest ih =>
    have hrest : Declared structs rest := fun s' hs' => hdeclared s' (List.mem_cons_of_mem s hs')
    rw [pass]
    cases hp : parentFields? table s with
    | some fields =>
      have hinherits := inherits_of_parentFields? hgrounded hp
      have hfirst : Progress structs table (s :: rest) (resolvedWith s fields :: table) rest
          (s.report (fields.map ResolvedField.name)) := progress_resolve hinherits
      have hall := hfirst.trans (ih hrest (hfirst.grounded hdeclared hgrounded))
      have hreport : (s.flatten fields).report = s.report (fields.map ResolvedField.name) := by
        rw [EntityStruct.flatten, Noted.report_bind, Noted.report_pure, List.append_nil]
        rfl
      dsimp only
      rw [Noted.value_bind, Noted.report_bind, hreport]
      exact hall
    | none =>
      dsimp only
      rw [Noted.value_bind, Noted.report_bind]
      have hskip := (ih hrest hgrounded).skip s
      rw [← List.append_nil (pass table rest).report] at hskip
      exact hskip

/-- A pass that leaves everything has changed nothing, and nothing could be resolved. -/
theorem stuck_of_pass (h : pending.length ≤ (pass table pending).value.2.length) :
    (pass table pending).value = (table, pending) ∧
      ∀ s ∈ pending, parentFields? table s = none := by
  have hle : ∀ (pending : List EntityStruct) (table : StructTable),
      (pass table pending).value.2.length ≤ pending.length := by
    intro pending
    induction pending with
    | nil => intro table; exact Nat.le_refl 0
    | cons s rest ih =>
      intro table
      rw [pass]
      cases parentFields? table s with
      | some fields =>
        have := ih (resolvedWith s fields :: table)
        exact Nat.le_succ_of_le this
      | none =>
        have := ih table
        exact Nat.succ_le_succ this
  induction pending with
  | nil => exact ⟨rfl, fun s hs => absurd hs List.not_mem_nil⟩
  | cons s rest ih =>
    rw [pass] at h ⊢
    cases hp : parentFields? table s with
    | some fields =>
      rw [hp] at h
      have hshort := hle rest (resolvedWith s fields :: table)
      have hlong : (s :: rest).length ≤
          (pass (resolvedWith s fields :: table) rest).value.2.length := h
      rw [List.length_cons] at hlong
      omega
    | none =>
      rw [hp] at h
      have hlong : rest.length ≤ (pass table rest).value.2.length := Nat.le_of_succ_le_succ h
      obtain ⟨heq, hstuck⟩ := ih hlong
      refine ⟨?_, fun s' hs' => ?_⟩
      · show ((pass table rest).value.1, s :: (pass table rest).value.2) = (table, s :: rest)
        rw [heq]
      · rcases List.mem_cons.mp hs' with rfl | hs'
        · exact hp
        · exact hstuck s' hs'

/-- Passes go on until nothing can be resolved any more. -/
theorem progress_passes (hdeclared : Declared structs pending)
    (hgrounded : Grounded structs table) :
    Progress structs table pending (passes table pending).value.1 (passes table pending).value.2
        (passes table pending).report ∧
      ∀ s ∈ (passes table pending).value.2,
        parentFields? (passes table pending).value.1 s = none := by
  induction hn : pending.length using Nat.strongRecOn generalizing table pending with
  | _ n ih =>
    subst hn
    have hpass := progress_pass hdeclared hgrounded
    rw [passes, Noted.value_bind, Noted.report_bind]
    dsimp only
    by_cases hlt : (pass table pending).value.2.length < pending.length
    · rw [if_pos hlt]
      have hwaiting : Declared structs (pass table pending).value.2 :=
        fun s hs => hdeclared s (hpass.sublist.subset hs)
      obtain ⟨hprogress, hstuck⟩ :=
        ih _ hlt hwaiting (hpass.grounded hdeclared hgrounded) rfl
      exact ⟨hpass.trans hprogress, hstuck⟩
    · rw [if_neg hlt, Noted.value_pure, Noted.report_pure, List.append_nil]
      obtain ⟨heq, hstuck⟩ := stuck_of_pass (Nat.le_of_not_lt hlt)
      refine ⟨hpass, ?_⟩
      show ∀ s ∈ (pass table pending).value.2,
        parentFields? (pass table pending).value.1 s = none
      rw [heq]
      exact hstuck

end Passes

/-! ## The table of a project -/

section Table

variable {structs structs' : List EntityStruct} {name : String} {chain : List EntityStruct}
  {s : EntityStruct} {fields : List ResolvedField}

/-- The table and the structs that wait when the passes have ended. -/
def resolution (structs : List EntityStruct) : StructTable × List EntityStruct :=
  (passes [] (firstDeclarations structs)).value

theorem value_resolve : (resolve structs).value = (resolution structs).1 := by
  rw [resolve, Noted.value_bind, Noted.value_bind]
  rfl

theorem declared_firstDeclarations : Declared structs (firstDeclarations structs) :=
  fun _ hs => mem_firstDeclarations_iff.mp hs

theorem progress_resolution : Progress structs [] (firstDeclarations structs)
    (resolution structs).1 (resolution structs).2
    (passes [] (firstDeclarations structs)).report :=
  (progress_passes declared_firstDeclarations fun _ hx => absurd hx List.not_mem_nil).1

theorem parentFields?_of_waiting (hs : s ∈ (resolution structs).2) :
    parentFields? (resolution structs).1 s = none :=
  (progress_passes declared_firstDeclarations fun _ hx => absurd hx List.not_mem_nil).2 s hs

theorem grounded_resolution : Grounded structs (resolution structs).1 :=
  progress_resolution.grounded declared_firstDeclarations
    fun _ hx => absurd hx List.not_mem_nil

/-- What is found under a name has the chain of the name. -/
theorem exists_chain_of_get? {x : ResolvedStruct}
    (h : get? (resolution structs).1 name = some x) :
    ∃ chain, Chain structs name chain ∧ x = ⟨name, chainFields chain⟩ := by
  obtain ⟨hmem, rfl⟩ := name_of_get? h
  obtain ⟨chain, hchain, hfields⟩ := grounded_resolution x hmem
  exact ⟨chain, hchain, by rw [← hfields]⟩

theorem exists_get?_of_mem {table : StructTable} {x : ResolvedStruct} (h : x ∈ table) :
    ∃ x', get? table x.name = some x' := by
  rw [← Option.isSome_iff_exists, get?, List.find?_isSome]
  exact ⟨x, h, beq_self_eq_true _⟩

/-- A struct that has a chain does not wait: neither does its parent, by induction on the chain. -/
theorem exists_of_chain (h : Chain structs name chain) :
    ∃ x, get? (resolution structs).1 name = some x := by
  have hfound : ∀ {name : String} {s : EntityStruct}, declaration? structs name = some s →
      (∃ fields, parentFields? (resolution structs).1 s = some fields) →
      ∃ x, get? (resolution structs).1 name = some x := by
    rintro name s hs ⟨fields, hfields⟩
    obtain rfl := name_of_declaration? hs
    rcases progress_resolution.resolved s (mem_firstDeclarations_iff.mpr hs) with
      hwaiting | ⟨fields', -, hmem, -⟩
    · rw [parentFields?_of_waiting hwaiting] at hfields
      exact absurd hfields (by simp)
    · exact exists_get?_of_mem hmem
  induction h with
  | root declared noParent =>
    refine hfound declared ⟨[], ?_⟩
    rw [parentFields?, noParent]
  | child declared hasParent _ ih =>
    obtain ⟨x, hx⟩ := ih
    refine hfound declared ⟨x.fields, ?_⟩
    rw [parentFields?, hasParent]
    dsimp only
    rw [hx, Option.map_some]

/-- A table holds the structs that have a chain, each with the fields of its chain. -/
theorem get?_resolve_eq_some_iff {x : ResolvedStruct} :
    get? (resolve structs).value name = some x ↔
      ∃ chain, Chain structs name chain ∧ x = ⟨name, chainFields chain⟩ := by
  rw [value_resolve]
  constructor
  · exact exists_chain_of_get?
  · rintro ⟨chain, hchain, rfl⟩
    obtain ⟨x, hx⟩ := exists_of_chain hchain
    obtain ⟨chain', hchain', rfl⟩ := exists_chain_of_get? hx
    rw [hchain.unique hchain']
    exact hx

theorem contains_resolve_iff :
    contains (resolve structs).value name = true ↔ ∃ chain, Chain structs name chain := by
  rw [contains, Option.isSome_iff_exists]
  constructor
  · rintro ⟨x, hx⟩
    obtain ⟨chain, hchain, -⟩ := get?_resolve_eq_some_iff.mp hx
    exact ⟨chain, hchain⟩
  · rintro ⟨chain, hchain⟩
    exact ⟨_, get?_resolve_eq_some_iff.mpr ⟨chain, hchain, rfl⟩⟩

/-! ### The order of declarations -/

theorem declaration?_eq_some_iff (hnodup : (structs.map EntityStruct.name).Nodup) :
    declaration? structs name = some s ↔ s ∈ structs ∧ s.name = name :=
  find?_eq_some_iff_of_nodup EntityStruct.name hnodup

theorem declaration?_perm (hperm : structs.Perm structs')
    (hnodup : (structs.map EntityStruct.name).Nodup) :
    declaration? structs name = declaration? structs' name := by
  have hnodup' : (structs'.map EntityStruct.name).Nodup :=
    (hperm.map EntityStruct.name).nodup_iff.mp hnodup
  ext s
  rw [declaration?_eq_some_iff hnodup, declaration?_eq_some_iff hnodup', hperm.mem_iff]

theorem Chain.perm (h : Chain structs name chain) (hperm : structs.Perm structs')
    (hnodup : (structs.map EntityStruct.name).Nodup) : Chain structs' name chain := by
  induction h with
  | root declared noParent =>
    rw [declaration?_perm hperm hnodup] at declared
    exact .root declared noParent
  | child declared hasParent _ ih =>
    rw [declaration?_perm hperm hnodup] at declared
    exact .child declared hasParent ih

theorem get?_resolve_perm (hperm : structs.Perm structs')
    (hnodup : (structs.map EntityStruct.name).Nodup) :
    get? (resolve structs').value name = get? (resolve structs).value name := by
  have hnodup' : (structs'.map EntityStruct.name).Nodup :=
    (hperm.map EntityStruct.name).nodup_iff.mp hnodup
  ext x
  rw [get?_resolve_eq_some_iff, get?_resolve_eq_some_iff]
  constructor
  · rintro ⟨chain, hchain, rfl⟩
    exact ⟨chain, hchain.perm hperm.symm hnodup', rfl⟩
  · rintro ⟨chain, hchain, rfl⟩
    exact ⟨chain, hchain.perm hperm hnodup, rfl⟩

/-! ### Fields as they are declared -/

/-- A field with the declared name and type.  It has a default if the text of the default is a
number in the range of the type. -/
structure ResolvesTo (f : StructField) (r : ResolvedField) : Prop where
  name_eq : r.name = f.name
  type_eq : r.type = f.type
  default_iff : ∀ v, r.default = some v ↔ ∃ text, f.default = some text ∧
    Text.integer? text = some v ∧ f.type.low ≤ v ∧ v ≤ f.type.high

theorem default?_eq_some_iff {f : StructField} {v : Int} :
    f.default? = some v ↔ ∃ text, f.default = some text ∧
      Text.integer? text = some v ∧ f.type.low ≤ v ∧ v ≤ f.type.high := by
  rw [StructField.default?, Option.bind_eq_some_iff]
  refine exists_congr fun text => and_congr_right fun _ => ?_
  rw [← FieldType.parse_eq_ok_iff]
  cases f.type.parse text with
  | error cause => simp [Except.toOption]
  | ok value => simp [Except.toOption]

theorem resolvesTo_resolve (f : StructField) : ResolvesTo f f.resolve :=
  ⟨rfl, rfl, fun _ => default?_eq_some_iff⟩

/-- What resolving a list of structs gives. -/
structure Resolves (structs : List EntityStruct) (table : StructTable) : Prop where
  contains_iff : ∀ name, contains table name = true ↔ ∃ chain, Chain structs name chain
  /-- The fields of a struct are those that its chain declares, and none has the name of another. -/
  fields : ∀ name x, get? table name = some x → x.name = name ∧
    (x.fields.map ResolvedField.name).Nodup ∧
    ∃ chain, Chain structs name chain ∧
      List.Forall₂ ResolvesTo (declaredFields chain) x.fields
  /-- The order of declarations with different names does not matter. -/
  perm : ∀ structs', structs.Perm structs' → (structs.map EntityStruct.name).Nodup →
    ∀ name, get? (resolve structs').value name = get? table name

/-- **Structs are resolved exactly**, in whatever order they are declared. -/
theorem resolve_exact (structs : List EntityStruct) :
    Resolves structs (resolve structs).value := by
  refine ⟨fun name => contains_resolve_iff, fun name x hx => ?_,
    fun structs' hperm hnodup name => get?_resolve_perm hperm hnodup⟩
  obtain ⟨chain, hchain, rfl⟩ := get?_resolve_eq_some_iff.mp hx
  refine ⟨rfl, nodup_chainFields, chain, hchain, ?_⟩
  rw [chainFields, List.forall₂_map_right_iff, List.forall₂_same]
  exact fun f _ => resolvesTo_resolve f

end Table

end StructTable

end Cartridge
