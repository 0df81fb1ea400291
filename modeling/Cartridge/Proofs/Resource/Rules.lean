import Cartridge.Proofs.Resource.Resolution
import Cartridge.Resource.Entity

/-!
# Rules for structs, tables and entries

What has to hold of structs (`StructTable.WellFormed`), of function tables and frame sets
(`FunctionTable.Lawful`, `FrameSet.Lawful`) and of entries (`Entry.Lawful`) so that nothing is
reported of them.  The rules speak of the declarations alone: the fields of a struct are those of its
chain.
-/

namespace Cartridge

/-! ## Structs -/

namespace StructField

variable {f : StructField}

/-- The name of the field is well formed, and its default is a value of its type. -/
structure Lawful (f : StructField) : Prop where
  name : Text.isName f.name = true
  default : ∀ text, f.default = some text →
    ∃ v, Text.integer? text = some v ∧ f.type.low ≤ v ∧ v ≤ f.type.high

theorem defaultProblems_eq_nil_iff : f.defaultProblems = [] ↔
    ∀ text, f.default = some text →
      ∃ v, Text.integer? text = some v ∧ f.type.low ≤ v ∧ v ≤ f.type.high := by
  unfold defaultProblems
  cases f.default with
  | none => simp
  | some text =>
    simp only [Option.some.injEq, forall_eq', ← FieldType.parse_eq_ok_iff]
    cases f.type.parse text with
    | ok v => simp
    | error cause => simp

end StructField

namespace EntityStruct

variable {s : EntityStruct} {inherited : List String}

theorem fieldProblems_eq_nil_iff {i : Nat} {f : StructField} :
    s.fieldProblems inherited i f = [] ↔
      (f.Lawful ∧ f.name ∉ inherited) ∧ isRepeated s.fieldNames i f.name = false := by
  rw [fieldProblems, List.append_eq_nil_iff]
  by_cases hname : Text.isName f.name = true
  · rw [if_pos hname]
    by_cases hinherited : inherited.contains f.name = true
    · rw [if_pos hinherited]
      rw [List.contains_iff_mem] at hinherited
      simp [hinherited]
    · rw [if_neg hinherited]
      rw [List.contains_iff_mem] at hinherited
      cases isRepeated s.fieldNames i f.name with
      | true => simp
      | false =>
        simp only [Bool.false_eq_true, if_false, StructField.defaultProblems_eq_nil_iff]
        constructor
        · rintro ⟨-, hdefault⟩
          exact ⟨⟨⟨hname, hdefault⟩, hinherited⟩, trivial⟩
        · rintro ⟨⟨hlawful, -⟩, -⟩
          exact ⟨trivial, hlawful.default⟩
  · rw [if_neg hname]
    constructor
    · rintro ⟨h, -⟩
      exact absurd h (by simp)
    · rintro ⟨⟨hlawful, -⟩, -⟩
      exact absurd hlawful.name hname

/-- The errors of a struct have the places of its fields. -/
theorem place_of_mem_report {d : Diagnostic} (h : d ∈ s.report inherited) : d.place ≠ .whole := by
  obtain ⟨⟨f, i⟩, -, hd⟩ := List.mem_flatMap.mp h
  obtain ⟨p, -, rfl⟩ := List.mem_map.mp hd
  exact Place.noConfusion

/-- Nothing is reported of a struct that inherits fields. -/
theorem hasErrors_report_eq_false_iff : (s.report inherited).hasErrors = false ↔
    (∀ f ∈ s.fields, f.Lawful ∧ f.name ∉ inherited) ∧ s.fieldNames.Nodup := by
  have hall := @forall_zipIdx_isRepeated_iff StructField StructField.name s.fields
    fun f => f.Lawful ∧ f.name ∉ inherited
  rw [report, Report.hasErrors_flatMap_eq_false_iff, fieldNames, ← hall]
  refine forall_congr' fun x => forall_congr' fun _ => ?_
  rw [Report.hasErrors_map_eq_false_iff fun _ => rfl, fieldProblems_eq_nil_iff, fieldNames]

end EntityStruct

namespace StructTable

variable {structs : List EntityStruct} {name : String} {s : EntityStruct}
  {chain : List EntityStruct} {fields : List ResolvedField}

structure WellFormed (structs : List EntityStruct) : Prop where
  names : ProperNames (structs.map EntityStruct.name)
  chain : ∀ s ∈ structs, ∃ chain, Chain structs s.name chain
  fields : ∀ s ∈ structs, ∀ f ∈ s.fields, f.Lawful
  /-- No field is declared again, neither in the struct nor below it. -/
  nodup : ∀ name chain, Chain structs name chain →
    ((chain.flatMap EntityStruct.fields).map StructField.name).Nodup

/-- What waits in the end are the structs that have no chain. -/
theorem mem_waiting_iff : s ∈ (resolution structs).2 ↔
    s ∈ firstDeclarations structs ∧ ¬ ∃ chain, Chain structs s.name chain := by
  constructor
  · intro hs
    have hfirst := progress_resolution.sublist.subset hs
    refine ⟨hfirst, fun ⟨chain, hchain⟩ => ?_⟩
    have hstuck := parentFields?_of_waiting hs
    obtain ⟨s', fields, hs', hinherits⟩ := hchain.exists_inherits
    obtain rfl := Option.some.inj ((mem_firstDeclarations_iff.mp hfirst).symm.trans hs')
    unfold parentFields? at hstuck
    unfold Inherits at hinherits
    cases hp : s.parent with
    | none =>
      rw [hp] at hstuck
      exact absurd hstuck (by simp)
    | some parent =>
      rw [hp] at hstuck hinherits
      obtain ⟨above, habove, -⟩ := hinherits
      obtain ⟨x, hx⟩ := exists_of_chain habove
      dsimp only at hstuck
      rw [hx] at hstuck
      exact absurd hstuck (by simp)
  · rintro ⟨hfirst, hnone⟩
    rcases progress_resolution.resolved s hfirst with hwaiting | ⟨fields, hinherits, -⟩
    · exact hwaiting
    · obtain ⟨chain, hchain, -⟩ := hinherits.exists_chain (mem_firstDeclarations_iff.mp hfirst)
      exact absurd ⟨chain, hchain⟩ hnone

/-- Nothing waits in the end if every struct has a chain. -/
theorem waiting_eq_nil_iff : (resolution structs).2 = [] ↔
    ∀ s ∈ firstDeclarations structs, ∃ chain, Chain structs s.name chain := by
  simp only [List.eq_nil_iff_forall_not_mem, mem_waiting_iff, not_and, not_not]

/-- What passes report that leave nothing waiting: the errors of every struct with the fields that
it inherits. -/
theorem hasErrors_passes_eq_false_iff (hwaiting : (resolution structs).2 = []) :
    (passes [] (firstDeclarations structs)).report.hasErrors = false ↔
      ∀ s ∈ firstDeclarations structs, ∀ fields, Inherits structs s fields →
        (s.report (fields.map ResolvedField.name)).hasErrors = false := by
  constructor
  · intro h s hs fields hinherits
    rcases progress_resolution.resolved s hs with hs | ⟨fields', hinherits', -, hreport⟩
    · rw [hwaiting] at hs
      exact absurd hs List.not_mem_nil
    · rw [hinherits.unique hinherits', Report.hasErrors, List.any_eq_false]
      exact fun d hd => List.any_eq_false.mp h d (hreport d hd)
  · intro h
    rw [Report.hasErrors, List.any_eq_false]
    intro d hd
    obtain ⟨s, hs, fields, hinherits, hreport⟩ := progress_resolution.reported d hd
    exact List.any_eq_false.mp (h s hs fields hinherits) d hreport

/-- A struct that inherits fields stands behind the chain that declares them. -/
theorem Inherits.exists_above (h : Inherits structs s fields)
    (hs : declaration? structs s.name = some s) :
    ∃ above, Chain structs s.name (above ++ [s]) ∧ fields = chainFields above := by
  unfold Inherits at h
  cases hp : s.parent with
  | none =>
    rw [hp] at h
    exact ⟨[], .root hs hp, h⟩
  | some parent =>
    rw [hp] at h
    obtain ⟨above, habove, hfields⟩ := h
    exact ⟨above, .child hs hp habove, hfields⟩

theorem mem_names_chainFields_iff : name ∈ (chainFields chain).map ResolvedField.name ↔
    name ∈ (chain.flatMap EntityStruct.fields).map StructField.name := by
  rw [map_name_chainFields, declaredFields, mem_names_firsts_iff]
  simp

/-- A chain declares no name twice if its last struct does not, and no name of the structs above. -/
theorem nodup_append_iff :
    (((chain ++ [s]).flatMap EntityStruct.fields).map StructField.name).Nodup ↔
      ((chain.flatMap EntityStruct.fields).map StructField.name).Nodup ∧ s.fieldNames.Nodup ∧
        ∀ f ∈ s.fields, f.name ∉ (chainFields chain).map ResolvedField.name := by
  rw [List.flatMap_append, List.flatMap_singleton, List.map_append, List.nodup_append,
    EntityStruct.fieldNames]
  refine and_congr_right fun _ => and_congr_right fun _ => ?_
  constructor
  · intro h f hf hmem
    exact h _ (mem_names_chainFields_iff.mp hmem) _ (List.mem_map_of_mem hf) rfl
  · intro h a ha b hb hab
    obtain ⟨f, hf, rfl⟩ := List.mem_map.mp hb
    subst hab
    exact h f hf (mem_names_chainFields_iff.mpr ha)

/-- Nothing is reported of any struct if and only if their fields keep the rules, and no chain
declares a name twice. -/
theorem forall_hasErrors_report_iff :
    (∀ s ∈ firstDeclarations structs, ∀ fields, Inherits structs s fields →
      (s.report (fields.map ResolvedField.name)).hasErrors = false) ↔
    (∀ s ∈ firstDeclarations structs, (∃ fields, Inherits structs s fields) →
      ∀ f ∈ s.fields, f.Lawful) ∧
      ∀ name chain, Chain structs name chain →
        ((chain.flatMap EntityStruct.fields).map StructField.name).Nodup := by
  simp only [EntityStruct.hasErrors_report_eq_false_iff]
  constructor
  · intro h
    refine ⟨fun s hs ⟨fields, hinherits⟩ f hf => ((h s hs fields hinherits).1 f hf).1, ?_⟩
    intro name chain hchain
    -- from the root down, every struct keeps away from what it inherits
    induction hchain with
    | @root name s declared noParent =>
      have hs := mem_firstDeclarations_iff.mpr (name_of_declaration? declared ▸ declared)
      have hinherits : Inherits structs s [] := by rw [Inherits, noParent]
      rw [List.flatMap_singleton]
      exact (h s hs [] hinherits).2
    | @child name parent s above declared hasParent higher ih =>
      have hs := mem_firstDeclarations_iff.mpr (name_of_declaration? declared ▸ declared)
      have hinherits : Inherits structs s (chainFields above) := by
        rw [Inherits, hasParent]
        exact ⟨above, higher, rfl⟩
      obtain ⟨hfields, hnodup⟩ := h s hs _ hinherits
      exact nodup_append_iff.mpr ⟨ih, hnodup, fun f hf => (hfields f hf).2⟩
  · rintro ⟨hlawful, hnodup⟩ s hs fields hinherits
    obtain ⟨above, hchain, rfl⟩ := hinherits.exists_above (mem_firstDeclarations_iff.mp hs)
    obtain ⟨-, hown, hnew⟩ := nodup_append_iff.mp (hnodup s.name _ hchain)
    exact ⟨fun f hf => ⟨hlawful s hs ⟨_, hinherits⟩ f hf, hnew f hf⟩, hown⟩

theorem report_resolve : (resolve structs).report =
    NameIndex.review .entityStruct (structs.map EntityStruct.name) ++
      ((passes [] (firstDeclarations structs)).report ++
        (resolution structs).2.map fun s => ⟨.error, .entityStruct, s.name, .whole,
          (parentProblem ⟨structs.map EntityStruct.name⟩ s).message⟩) := by
  have hnames : (NameIndex.build .entityStruct (structs.map EntityStruct.name)).report =
      NameIndex.review .entityStruct (structs.map EntityStruct.name) := by
    rw [NameIndex.build, Noted.report_bind, Noted.report_pure, List.append_nil]
    rfl
  rw [resolve, Noted.report_bind, hnames, Noted.report_bind, Noted.report_bind, Noted.report_bind,
    Noted.report_pure]
  congr 2
  exact List.append_nil _

/-- **Nothing is reported of structs if and only if they are well formed.** -/
theorem hasErrors_resolve_eq_false_iff :
    (resolve structs).report.hasErrors = false ↔ WellFormed structs := by
  have hfirst : (structs.map EntityStruct.name).Nodup → firstDeclarations structs = structs := by
    intro hnodup
    rw [firstDeclarations_eq, firsts_eq_self hnodup fun _ _ => List.not_mem_nil]
  rw [report_resolve, Report.hasErrors_append_eq_false_iff, Report.hasErrors_append_eq_false_iff,
    NameIndex.hasErrors_review_iff_properNames, Report.hasErrors_map_eq_false_iff fun _ => rfl]
  constructor
  · rintro ⟨hnames, hpasses, hwaiting⟩
    have hchains := waiting_eq_nil_iff.mp hwaiting
    obtain ⟨hlawful, hnodup⟩ := forall_hasErrors_report_iff.mp
      ((hasErrors_passes_eq_false_iff hwaiting).mp hpasses)
    have hinherits : ∀ s ∈ firstDeclarations structs, ∃ fields, Inherits structs s fields := by
      intro s hs
      obtain ⟨chain, hchain⟩ := hchains s hs
      obtain ⟨s', fields, hs', hinherits⟩ := hchain.exists_inherits
      obtain rfl := Option.some.inj ((mem_firstDeclarations_iff.mp hs).symm.trans hs')
      exact ⟨fields, hinherits⟩
    rw [hfirst hnames.nodup] at hchains hlawful hinherits
    exact ⟨hnames, hchains, fun s hs => hlawful s hs (hinherits s hs), hnodup⟩
  · intro h
    have hwaiting : (resolution structs).2 = [] := by
      rw [waiting_eq_nil_iff, hfirst h.names.nodup]
      exact h.chain
    refine ⟨h.names, ?_, hwaiting⟩
    rw [hasErrors_passes_eq_false_iff hwaiting, forall_hasErrors_report_iff,
      hfirst h.names.nodup]
    exact ⟨fun s hs _ => h.fields s hs, h.nodup⟩

/-- In well-formed structs a chain leads to every name. -/
theorem WellFormed.exists_chain_iff (h : WellFormed structs) :
    (∃ chain, Chain structs name chain) ↔ name ∈ structs.map EntityStruct.name := by
  constructor
  · rintro ⟨chain, hchain⟩
    obtain ⟨s, -, hs, -⟩ := hchain.exists_inherits
    rw [← name_of_declaration? hs]
    exact List.mem_map_of_mem (List.mem_of_find?_eq_some hs)
  · intro hname
    obtain ⟨s, hs, rfl⟩ := List.mem_map.mp hname
    exact h.chain s hs

/-- In well-formed structs a chain leaves none of its fields out. -/
theorem WellFormed.chainFields_eq (h : WellFormed structs) (hchain : Chain structs name chain) :
    chainFields chain = (chain.flatMap EntityStruct.fields).map StructField.resolve := by
  rw [chainFields, declaredFields, firsts_eq_self (h.nodup name chain hchain) fun _ _ =>
    List.not_mem_nil]

theorem Chain.subset (h : Chain structs name chain) : ∀ s ∈ chain, s ∈ structs := by
  induction h with
  | root declared _ =>
    intro s hs
    rw [List.mem_singleton] at hs
    subst hs
    exact List.mem_of_find?_eq_some declared
  | child declared _ _ ih =>
    intro s hs
    rcases List.mem_append.mp hs with hs | hs
    · exact ih s hs
    · rw [List.mem_singleton] at hs
      subst hs
      exact List.mem_of_find?_eq_some declared

theorem WellFormed.lawful_of_chain (h : WellFormed structs) (hchain : Chain structs name chain) :
    ∀ f ∈ chain.flatMap EntityStruct.fields, f.Lawful := by
  intro f hf
  obtain ⟨s, hs, hf⟩ := List.mem_flatMap.mp hf
  exact h.fields s (hchain.subset s hs) f hf

end StructTable

/-! ## Function tables and frame sets -/

section Named

variable {α : Type} {nameOf : α → String} {items : List α} {name : String} {x : α}

theorem map_findNamed? : (findNamed? nameOf items name).map Prod.fst =
    items.find? fun x => nameOf x == name := by
  have hfind := List.find?_map (f := Prod.fst) (p := fun x => nameOf x == name) (l := items.zipIdx)
  rw [List.zipIdx_map_fst] at hfind
  exact hfind.symm

theorem getElem?_of_findNamed? {i : Nat} (h : findNamed? nameOf items name = some (x, i)) :
    items[i]? = some x ∧ nameOf x = name := by
  have hname := List.find?_some h
  exact ⟨List.mem_zipIdx_iff_getElem?.mp (List.mem_of_find?_eq_some h), eq_of_beq hname⟩

/-- Among items with different names every one is found. -/
theorem exists_findNamed?_iff (h : (items.map nameOf).Nodup) :
    (∃ i, findNamed? nameOf items name = some (x, i)) ↔ x ∈ items ∧ nameOf x = name := by
  rw [← find?_eq_some_iff_of_nodup nameOf h, ← map_findNamed?]
  simp

end Named

namespace FunctionTable

variable {structs : List EntityStruct} {orders : List ExportOrder} {ft : FunctionTable}

structure Lawful (structs : List EntityStruct) (orders : List ExportOrder) (ft : FunctionTable) :
    Prop where
  entityStruct : ∀ name, ft.entityStruct = some name → name ∈ structs.map EntityStruct.name
  exportOrder : ft.exportOrder ∈ orders.map ExportOrder.name

theorem problems_eq_nil_iff (h : StructTable.WellFormed structs) :
    ft.problems (StructTable.resolve structs).value orders = [] ↔ ft.Lawful structs orders := by
  have horder : (if (orders.map ExportOrder.name).contains ft.exportOrder then []
      else [s!"unknown export order: {ft.exportOrder}"]) = [] ↔
      ft.exportOrder ∈ orders.map ExportOrder.name := by
    rw [ite_eq_left_iff, ← List.contains_iff_mem]
    simp
  rw [problems, List.append_eq_nil_iff, horder]
  constructor
  · rintro ⟨hstruct, horder⟩
    refine ⟨fun name hname => ?_, horder⟩
    rw [hname] at hstruct
    rw [← h.exists_chain_iff, ← StructTable.contains_resolve_iff]
    by_contra hc
    exact absurd (hstruct.symm.trans (if_neg hc)) (by simp)
  · intro hlawful
    refine ⟨?_, hlawful.exportOrder⟩
    cases hname : ft.entityStruct with
    | none => rfl
    | some name =>
      have hmem := hlawful.entityStruct name hname
      rw [← h.exists_chain_iff, ← StructTable.contains_resolve_iff] at hmem
      exact if_pos hmem

theorem hasErrors_review_eq_false_iff {tables : List FunctionTable}
    (h : StructTable.WellFormed structs) :
    (review tables (StructTable.resolve structs).value orders).hasErrors = false ↔
      ∀ ft ∈ tables, ft.Lawful structs orders := by
  have hall := @Report.hasErrors_zipIdx_flatMap_eq_false_iff FunctionTable String tables
    (problems (StructTable.resolve structs).value orders)
    (fun ft i message => ⟨.error, .functionTable, ft.name, .item i, message⟩) fun _ _ _ => rfl
  simp only [problems_eq_nil_iff h] at hall
  exact hall

end FunctionTable

namespace FrameSet

variable {orders : List ExportOrder} {fs : FrameSet}

structure Lawful (orders : List ExportOrder) (fs : FrameSet) : Prop where
  paletteCount : 1 ≤ fs.paletteCount.toNat
  frames : ∃ order ∈ orders, order.name = fs.exportOrder ∧
    ∀ frame ∈ order.frames, frame ∈ fs.frames

theorem problems_eq_nil_iff (h : (orders.map ExportOrder.name).Nodup) :
    fs.problems orders = [] ↔ fs.Lawful orders := by
  have hcount : (if fs.paletteCount = 0 then ["frame set must have at least one palette"]
      else []) = [] ↔ 1 ≤ fs.paletteCount.toNat := by
    rw [ite_eq_right_iff]
    constructor
    · intro hc
      by_contra hzero
      have hpalettes : fs.paletteCount = 0 := UInt8.toNat.inj (by simpa using hzero)
      exact absurd (hc hpalettes) (by simp)
    · intro hpos hzero
      rw [hzero] at hpos
      exact absurd hpos (by decide)
  have hmissing : ∀ order : ExportOrder,
      ((order.frames.filter fun frame => !fs.frames.contains frame).map fun frame =>
        s!"missing frame {frame} required by export order {fs.exportOrder}") = [] ↔
      ∀ frame ∈ order.frames, frame ∈ fs.frames := by
    intro order
    simp [List.filter_eq_nil_iff]
  rw [problems, List.append_eq_nil_iff, hcount]
  constructor
  · rintro ⟨hpalettes, hframes⟩
    refine ⟨hpalettes, ?_⟩
    cases hf : findNamed? ExportOrder.name orders fs.exportOrder with
    | none =>
      rw [hf] at hframes
      exact absurd hframes (by simp)
    | some found =>
      rw [hf] at hframes
      obtain ⟨hmem, hname⟩ := (exists_findNamed?_iff h).mp ⟨found.2, hf⟩
      exact ⟨found.1, hmem, hname, (hmissing found.1).mp hframes⟩
  · rintro ⟨hpalettes, order, hmem, hname, hframes⟩
    obtain ⟨i, hi⟩ := (exists_findNamed?_iff h).mpr ⟨hmem, hname⟩
    refine ⟨hpalettes, ?_⟩
    rw [hi]
    exact (hmissing order).mpr hframes

theorem hasErrors_review_eq_false_iff {frameSets : List FrameSet}
    (h : (orders.map ExportOrder.name).Nodup) :
    (review frameSets orders).hasErrors = false ↔ ∀ fs ∈ frameSets, fs.Lawful orders := by
  have hall := @Report.hasErrors_zipIdx_flatMap_eq_false_iff FrameSet String frameSets
    (problems orders) (fun fs i message => ⟨.error, .frameSet, fs.name, .item i, message⟩)
    fun _ _ _ => rfl
  simp only [problems_eq_nil_iff h] at hall
  exact hall

end FrameSet

/-! ## Entries -/

section Values

/-- The value is one of the type. -/
def FieldValue.Fits (t : FieldType) : FieldValue → Prop
  | .integer n => t.low ≤ n ∧ n ≤ t.high
  | .text s => ∃ n, Text.integer? s = some n ∧ t.low ≤ n ∧ n ≤ t.high

/-- The fields of the entries that use a function table. -/
def FunctionTable.Declares (structs : List EntityStruct) (ft : FunctionTable)
    (fields : List StructField) : Prop :=
  match ft.entityStruct with
  | none => fields = []
  | some name => ∃ chain, StructTable.Chain structs name chain ∧
      fields = chain.flatMap EntityStruct.fields

theorem FunctionTable.Lawful.exists_declares {structs : List EntityStruct}
    {orders : List ExportOrder} {ft : FunctionTable} (h : ft.Lawful structs orders)
    (hstructs : StructTable.WellFormed structs) : ∃ fields, ft.Declares structs fields := by
  unfold Declares
  cases hs : ft.entityStruct with
  | none => exact ⟨[], rfl⟩
  | some name =>
    obtain ⟨chain, hchain⟩ := hstructs.exists_chain_iff.mpr (h.entityStruct name hs)
    exact ⟨_, chain, hchain, rfl⟩

/-- The value that an entry gives to a field. -/
def Entry.value? (e : Entry) (name : String) : Option FieldValue :=
  (e.fields.find? fun v => v.1 == name).map Prod.snd

/-- The field gets a value of its type, or has a default. -/
def Entry.Gives (e : Entry) (f : StructField) : Prop :=
  match e.value? f.name with
  | some v => v.Fits f.type
  | none => ∃ text, f.default = some text

/-- The entry has all that the function table, the frame set and the fields ask for. -/
structure Entry.Suits (structs : List EntityStruct) (e : Entry) (ft : FunctionTable)
    (fs : FrameSet) (fields : List StructField) : Prop where
  functionTable : ft.name = e.functionTable
  frameSet : fs.name = e.frameSet
  exportOrder : fs.exportOrder = ft.exportOrder
  palette : e.defaultPalette.toNat < fs.paletteCount.toNat
  displayFrame : e.displayFrame ∈ fs.frames
  declared : ft.Declares structs fields
  known : ∀ v ∈ e.fields, ∃ f ∈ fields, f.name = v.1
  given : ∀ f ∈ fields, e.Gives f

/-- There are the tables that the entry names, and it suits them. -/
def Entry.Lawful (structs : List EntityStruct) (tables : List FunctionTable)
    (frameSets : List FrameSet) (e : Entry) : Prop :=
  ∃ ft ∈ tables, ∃ fs ∈ frameSets, ∃ fields, e.Suits structs ft fs fields

/-- The structs are resolved ones, and nothing is reported of them and of the function tables. -/
structure EntryContext.Resolved (structs : List EntityStruct) (orders : List ExportOrder)
    (ctx : EntryContext) : Prop where
  wellFormed : StructTable.WellFormed structs
  structs_eq : ctx.structs = (StructTable.resolve structs).value
  tables_nodup : (ctx.functionTables.map FunctionTable.name).Nodup
  tables : ∀ ft ∈ ctx.functionTables, ft.Lawful structs orders
  frameSets_nodup : (ctx.frameSets.map FrameSet.name).Nodup

end Values

namespace Entry

variable {structs : List EntityStruct} {orders : List ExportOrder} {ctx : EntryContext}
  {e : Entry} {ft : FunctionTable} {fs : FrameSet} {fields : List StructField} {f : StructField}
  {i : Nat}

theorem fieldProblems_eq_nil_iff_exists {rf : ResolvedField} :
    e.fieldProblems rf = [] ↔ ∃ n, e.fieldValue rf = .ok n := by
  unfold fieldProblems
  cases e.fieldValue rf with
  | ok n => simp
  | error p => simp

theorem mapError_eq_ok_iff {α β γ : Type} {g : α → β} {x : Except α γ} {y : γ} :
    x.mapError g = .ok y ↔ x = .ok y := by
  cases x with
  | error a => simp [Except.mapError]
  | ok z => simp [Except.mapError]

theorem fieldProblems_resolve_eq_nil_iff (hf : f.Lawful) :
    e.fieldProblems f.resolve = [] ↔ e.Gives f := by
  have hname : f.resolve.name = f.name := rfl
  have htype : f.resolve.type = f.type := rfl
  have hdefault : f.resolve.default = f.default? := rfl
  have hvalue : (e.fields.find? fun v => v.1 == f.name).map Prod.snd = e.value? f.name := rfl
  rw [fieldProblems_eq_nil_iff_exists, fieldValue, Gives, hname, htype, hdefault, hvalue]
  cases e.value? f.name with
  | none =>
    dsimp only
    constructor
    · intro h
      cases hd : f.default? with
      | none =>
        rw [hd] at h
        exact absurd h (by simp)
      | some n =>
        obtain ⟨text, htext, -⟩ := StructTable.default?_eq_some_iff.mp hd
        exact ⟨text, htext⟩
    · rintro ⟨text, htext⟩
      obtain ⟨n, hn⟩ := hf.default text htext
      rw [StructTable.default?_eq_some_iff.mpr ⟨text, htext, hn⟩]
      exact ⟨n, rfl⟩
  | some v =>
    cases v with
    | integer n =>
      simp only [mapError_eq_ok_iff, FieldType.check_eq_ok_iff, FieldValue.Fits]
      simp
    | text s => simp only [mapError_eq_ok_iff, FieldType.parse_eq_ok_iff, FieldValue.Fits]

/-- The entries of a function table have the fields that its struct declares. -/
theorem valueProblems_eq_nil_iff (hstructs : StructTable.WellFormed structs)
    (hctx : ctx.structs = (StructTable.resolve structs).value)
    (hft : e.functionTable? ctx = some (ft, i)) (hfields : ft.Declares structs fields) :
    e.valueProblems ctx = [] ↔
      (∀ v ∈ e.fields, ∃ f ∈ fields, f.name = v.1) ∧ ∀ f ∈ fields, e.Gives f := by
  have hschema : e.schema? ctx = ft.entityStruct.bind ctx.structs.get? := by
    rw [schema?, hft, Option.bind_some]
  unfold FunctionTable.Declares at hfields
  unfold valueProblems
  rw [hschema, hft]
  cases hs : ft.entityStruct with
  | none =>
    rw [hs] at hfields
    subst hfields
    simp only [Option.bind_none, List.map_eq_nil_iff, List.not_mem_nil, false_and, exists_false,
      imp_false, IsEmpty.forall_iff, implies_true, and_true]
    exact List.eq_nil_iff_forall_not_mem
  | some name =>
    rw [hs] at hfields
    obtain ⟨chain, hchain, rfl⟩ := hfields
    have hget : ctx.structs.get? name = some ⟨name, StructTable.chainFields chain⟩ := by
      rw [hctx]
      exact StructTable.get?_resolve_eq_some_iff.mpr ⟨chain, hchain, rfl⟩
    have hlawful := hstructs.lawful_of_chain hchain
    rw [hstructs.chainFields_eq hchain] at hget
    have hknown : ∀ (fs : List StructField) (field : String),
        ((⟨name, fs.map StructField.resolve⟩ : ResolvedStruct).field? field).isNone = false ↔
          ∃ f ∈ fs, f.name = field := by
      intro fs field
      rw [← Bool.not_eq_true, Option.isNone_iff_eq_none, ResolvedStruct.field?,
        List.find?_eq_none]
      simp [StructField.resolve]
    rw [Option.bind_some, hget]
    dsimp only
    rw [List.append_eq_nil_iff, List.map_eq_nil_iff, List.filter_eq_nil_iff,
      List.flatMap_eq_nil_iff, List.forall_mem_map]
    refine and_congr (forall_congr' fun v => forall_congr' fun _ => ?_)
      (forall_congr' fun f => forall_congr' fun hf => ?_)
    · rw [Bool.not_eq_true, hknown]
    · exact fieldProblems_resolve_eq_nil_iff (hlawful f hf)

theorem frameProblems_eq_nil_iff : e.frameProblems fs (some ft) = [] ↔
    fs.exportOrder = ft.exportOrder ∧ e.defaultPalette.toNat < fs.paletteCount.toNat ∧
      e.displayFrame ∈ fs.frames := by
  have hpalette : (if e.defaultPalette ≥ fs.paletteCount then
      [EntryProblem.palette e.defaultPalette fs.paletteCount] else []) = [] ↔
      e.defaultPalette.toNat < fs.paletteCount.toNat := by
    rw [ite_eq_right_iff, ← UInt8.lt_iff_toNat_lt]
    constructor
    · intro h
      by_contra hc
      exact absurd (h (UInt8.not_lt.mp hc)) (by simp)
    · intro h hge
      exact absurd h (UInt8.not_lt.mpr hge)
  rw [frameProblems, List.append_eq_nil_iff, List.append_eq_nil_iff, hpalette]
  simp only [ite_eq_left_iff, List.cons_ne_nil, imp_false, not_not, List.contains_iff_mem,
    and_assoc]

theorem problems_eq_nil_iff_of_found {j : Nat}
    (hft : e.functionTable? ctx = some (ft, i)) (hfs : e.frameSet? ctx = some (fs, j)) :
    e.problems ctx = [] ↔ e.frameProblems fs (some ft) = [] ∧ e.valueProblems ctx = [] := by
  rw [problems, hft, hfs]
  simp

/-- An entry of which nothing is reported names a function table and a frame set. -/
theorem exists_found_of_problems (h : e.problems ctx = []) : ∃ ft i fs j,
    e.functionTable? ctx = some (ft, i) ∧ e.frameSet? ctx = some (fs, j) := by
  unfold problems at h
  simp only [List.append_eq_nil_iff, ite_eq_left_iff, List.cons_ne_nil, imp_false, not_not,
    Option.isSome_iff_exists, Prod.exists] at h
  obtain ⟨⟨⟨⟨ft, i, hft⟩, fs, j, hfs⟩, -⟩, -⟩ := h
  exact ⟨ft, i, fs, j, hft, hfs⟩

/-- **Nothing is reported of an entry if and only if it keeps the rules.** -/
theorem problems_eq_nil_iff (h : EntryContext.Resolved structs orders ctx) :
    e.problems ctx = [] ↔ e.Lawful structs ctx.functionTables ctx.frameSets := by
  obtain ⟨hstructs, hctx, htables, hlawful, hframeSets⟩ := h
  constructor
  · intro h
    obtain ⟨ft, i, fs, j, hft, hfs⟩ := exists_found_of_problems h
    obtain ⟨hmem, hname⟩ := (exists_findNamed?_iff htables).mp ⟨i, hft⟩
    obtain ⟨hmem', hname'⟩ := (exists_findNamed?_iff hframeSets).mp ⟨j, hfs⟩
    obtain ⟨fields, hfields⟩ := (hlawful ft hmem).exists_declares hstructs
    obtain ⟨hframe, hvalues⟩ := (problems_eq_nil_iff_of_found hft hfs).mp h
    obtain ⟨horder, hpalette, hdisplay⟩ := frameProblems_eq_nil_iff.mp hframe
    obtain ⟨hknown, hgiven⟩ := (valueProblems_eq_nil_iff hstructs hctx hft hfields).mp hvalues
    exact ⟨ft, hmem, fs, hmem', fields, hname, hname', horder, hpalette, hdisplay, hfields, hknown,
      hgiven⟩
  · rintro ⟨ft, hmem, fs, hmem', fields, h⟩
    obtain ⟨i, hft⟩ : ∃ i, e.functionTable? ctx = some (ft, i) :=
      (exists_findNamed?_iff htables).mpr ⟨hmem, h.functionTable⟩
    obtain ⟨j, hfs⟩ : ∃ j, e.frameSet? ctx = some (fs, j) :=
      (exists_findNamed?_iff hframeSets).mpr ⟨hmem', h.frameSet⟩
    have hframe := frameProblems_eq_nil_iff.mpr ⟨h.exportOrder, h.palette, h.displayFrame⟩
    have hvalues := (valueProblems_eq_nil_iff hstructs hctx hft h.declared).mpr ⟨h.known, h.given⟩
    exact (problems_eq_nil_iff_of_found hft hfs).mpr ⟨hframe, hvalues⟩

/-- Nothing is reported of a list of entries. -/
theorem hasErrors_encodeEntries_eq_false_iff_problems {kind : ResourceKind}
    {entries : List Entry} :
    (encodeEntries ctx kind entries).report.hasErrors = false ↔
      ProperNames (entries.map Entry.name) ∧ ∀ e ∈ entries, e.problems ctx = [] := by
  have hall := @Report.hasErrors_zipIdx_flatMap_eq_false_iff Entry EntryProblem entries
    (problems ctx) (fun e i p => ⟨.error, kind, e.name, .item i, p.message⟩) fun _ _ _ => rfl
  rw [encodeEntries, Noted.report_bind, Noted.report_bind, Noted.report_pure, List.append_nil,
    Report.hasErrors_append_eq_false_iff, ← hall,
    ← @NameIndex.hasErrors_review_iff_properNames _ kind, NameIndex.build, Noted.report_bind,
    Noted.report_pure, List.append_nil]
  rfl

theorem hasErrors_encodeEntries_eq_false_iff {kind : ResourceKind} {entries : List Entry}
    (h : EntryContext.Resolved structs orders ctx) :
    (encodeEntries ctx kind entries).report.hasErrors = false ↔
      ProperNames (entries.map Entry.name) ∧
        ∀ e ∈ entries, e.Lawful structs ctx.functionTables ctx.frameSets := by
  simp only [hasErrors_encodeEntries_eq_false_iff_problems, problems_eq_nil_iff h]

end Entry

end Cartridge
