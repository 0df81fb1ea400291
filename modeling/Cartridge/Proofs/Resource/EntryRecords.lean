import Mathlib.Algebra.Ring.Nat
import Cartridge.Proofs.Bytes
import Cartridge.Proofs.Lists
import Cartridge.Proofs.Resource.Rules

/-!
# Records of entries

The record of an entry has four bytes and the fields of the struct that its function table names,
whatever is reported of the entry (`length_encode`).  When nothing is reported, the bytes of a field
stand behind those of the fields in front of it, and denote the value that the entry has for it
(`recovers_encode`): the one that it gives, or the default.

A value is in the range of its type whatever it comes from (`fieldValue_eq_ok_iff`), the defaults
too, since the fields are those of a resolved struct; and a value in the range of a type is read
back from its bytes (`FieldType.decode_encode`).

Main statement: `encodeEntries_recorded`.
-/

namespace Cartridge

/-! ## Reading values back -/

namespace FieldType

/-- The number that the bytes of a value denote, in two's complement if the type is signed. -/
def decode (t : FieldType) (bytes : Bytes) : Int :=
  let bits := BitVec.ofNat (8 * t.size) (ofLittleEndian bytes)
  if t.isSigned then bits.toInt else bits.toNat

theorem two_pow_eq_valueCount (t : FieldType) : 2 ^ (8 * t.size) = t.valueCount := by
  cases t <;> rfl

theorem valueCount_eq_two_mul (t : FieldType) : t.valueCount = 2 * (t.valueCount / 2) := by
  cases t <;> rfl

/-- The bytes of a number hold it modulo the number of values. -/
theorem ofLittleEndian_encode (t : FieldType) (value : Int) :
    (ofLittleEndian (t.encode value) : Int) = value % t.valueCount := by
  have hcount : (256 ^ t.size : Int) = t.valueCount := by
    cases t <;> rfl
  rw [encode, ofLittleEndian_littleEndian_eq_emod, hcount]

/-- A value in the range of its type is read back. -/
theorem decode_encode {t : FieldType} {value : Int} (hlow : t.low ≤ value)
    (hhigh : value ≤ t.high) : t.decode (t.encode value) = value := by
  have hhalf := valueCount_eq_two_mul t
  rw [decode]
  unfold high at hhigh
  unfold low at hlow hhigh
  cases ht : t.isSigned with
  | false =>
    rw [ht, if_neg (by decide)] at hlow hhigh
    rw [if_neg (by decide), BitVec.toNat_ofNat, two_pow_eq_valueCount, Int.natCast_emod,
      ofLittleEndian_encode, Int.emod_emod, Int.emod_eq_of_lt hlow (by omega)]
  | true =>
    rw [ht, if_pos rfl] at hlow hhigh
    rw [if_pos rfl, BitVec.toInt_eq_toNat_bmod, BitVec.toNat_ofNat, two_pow_eq_valueCount,
      Int.natCast_emod, ofLittleEndian_encode, Int.emod_emod, Int.emod_bmod]
    exact Int.bmod_eq_of_le (by omega) (by omega)

end FieldType

/-- A field without a default, or with one in the range of its type. -/
def ResolvedField.Bounded (f : ResolvedField) : Prop :=
  ∀ v, f.default = some v → f.type.low ≤ v ∧ v ≤ f.type.high

theorem StructField.bounded_resolve (f : StructField) : f.resolve.Bounded := by
  intro v hv
  obtain ⟨-, -, -, hrange⟩ := StructTable.default?_eq_some_iff.mp hv
  exact hrange

theorem StructTable.bounded_of_mem_chainFields {chain : List EntityStruct} {f : ResolvedField}
    (hf : f ∈ chainFields chain) : f.Bounded := by
  obtain ⟨field, -, rfl⟩ := List.mem_map.mp hf
  exact field.bounded_resolve

namespace Entry

/-! ## What a record tells -/

section Records

/-- The struct is the one that the function table of the entry names. -/
def Uses (ctx : EntryContext) (e : Entry) (schema : ResolvedStruct) : Prop :=
  ∃ ft name, ctx.functionTables.find? (fun ft => ft.name == e.functionTable) = some ft ∧
    ft.entityStruct = some name ∧ ctx.structs.get? name = some schema

/-- The value that the entry has for a field: the number that it gives, or that it gives as text, or
else the default. -/
def Means (e : Entry) (f : ResolvedField) (value : Int) : Prop :=
  match e.value? f.name with
  | some (.integer n) => value = n
  | some (.text s) => Text.integer? s = some value
  | none => f.default = some value

/-- The bytes of a record at the place of a field that stands behind others. -/
def fieldBytes (record : Bytes) (front : List ResolvedField) (f : ResolvedField) : Bytes :=
  (record.drop (4 + total (front.map fun g => g.type.size))).take f.type.size

/-- The record tells what the entry has for every field, and the entry has no other fields. -/
structure Recovers (e : Entry) (schema : ResolvedStruct) (record : Bytes) : Prop where
  known : ∀ v ∈ e.fields, ∃ f ∈ schema.fields, f.name = v.1
  values : ∀ front f back, schema.fields = front ++ f :: back →
    e.Means f (f.type.decode (fieldBytes record front f))

/-- What the record of an entry is, with the errors that are reported of the entry. -/
structure Recorded (structs : List EntityStruct) (ctx : EntryContext) (e : Entry)
    (record : Bytes) (errors : Report) : Prop where
  length : ∀ schema, e.Uses ctx schema → record.length = 4 + schema.size
  /-- The fields of the parents come first. -/
  layout : ∀ schema, e.Uses ctx schema → ∃ chain, StructTable.Chain structs schema.name chain ∧
    schema.fields = StructTable.chainFields chain
  recovers : errors = [] → ∀ schema, e.Uses ctx schema → e.Recovers schema record
  /-- Without a struct there are no fields. -/
  bare : (¬ ∃ schema, e.Uses ctx schema) → record.length = 4 ∧ (errors = [] → e.fields = [])

variable {ctx : EntryContext} {e : Entry} {schema : ResolvedStruct} {f : ResolvedField}
  {fields front back : List ResolvedField} {n : Int}

theorem schema?_eq_some_iff : e.schema? ctx = some schema ↔ e.Uses ctx schema := by
  have hfind : (e.functionTable? ctx).map Prod.fst =
      ctx.functionTables.find? fun ft => ft.name == e.functionTable := map_findNamed?
  have hschema : e.schema? ctx = ((e.functionTable? ctx).map Prod.fst).bind fun ft =>
      ft.entityStruct.bind ctx.structs.get? := by
    rw [Option.bind_map]
    rfl
  rw [hschema, hfind]
  simp only [Option.bind_eq_some_iff, Uses]
  constructor
  · rintro ⟨ft, hft, name, hname, hget⟩
    exact ⟨ft, name, hft, hname, hget⟩
  · rintro ⟨ft, name, hft, hname, hget⟩
    exact ⟨ft, hft, name, hname, hget⟩

/-! ## The layout of a record -/

theorem length_encodeField : (e.encodeField f).length = f.type.size :=
  FieldType.encode_length _ _

theorem length_flatMap_encodeField :
    (fields.flatMap e.encodeField).length = total (fields.map fun f => f.type.size) := by
  induction fields with
  | nil => rfl
  | cons f fields ih =>
    rw [List.flatMap_cons, List.length_append, length_encodeField, ih, List.map_cons, total_cons]

/-- Four bytes stand in front of the fields. -/
theorem exists_encode_eq_append (h : e.schema? ctx = some schema) :
    ∃ head, head.length = 4 ∧ e.encode ctx = head ++ schema.fields.flatMap e.encodeField := by
  rw [encode, h]
  exact ⟨_, rfl, rfl⟩

theorem length_encode (h : e.schema? ctx = some schema) :
    (e.encode ctx).length = 4 + schema.size := by
  obtain ⟨head, hhead, heq⟩ := exists_encode_eq_append h
  rw [heq, List.length_append, hhead, length_flatMap_encodeField]
  rfl

theorem length_encode_of_none (h : e.schema? ctx = none) : (e.encode ctx).length = 4 := by
  rw [encode, h]
  rfl

/-- The bytes of a field stand behind those of the fields in front of it. -/
theorem fieldBytes_eq {head : Bytes} (hhead : head.length = 4) :
    fieldBytes (head ++ (front ++ f :: back).flatMap e.encodeField) front f = e.encodeField f := by
  rw [List.flatMap_append, List.flatMap_cons, ← List.append_assoc, fieldBytes]
  have hlen : (head ++ front.flatMap e.encodeField).length =
      4 + total (front.map fun g => g.type.size) := by
    rw [List.length_append, hhead, length_flatMap_encodeField]
  rw [List.drop_left' hlen, List.take_left' length_encodeField]

/-! ## The values of the fields -/

/-- A value is found if and only if the entry has one that is in the range of the type. -/
theorem fieldValue_eq_ok_iff (hf : f.Bounded) : e.fieldValue f = .ok n ↔
    e.Means f n ∧ f.type.low ≤ n ∧ n ≤ f.type.high := by
  have hvalue : (e.fields.find? fun v => v.1 == f.name).map Prod.snd = e.value? f.name := rfl
  rw [fieldValue, hvalue]
  unfold Means
  rcases e.value? f.name with _ | m | s
  · cases hd : f.default with
    | none => simp
    | some v =>
      simp only [Except.ok.injEq, Option.some.injEq]
      constructor
      · rintro rfl
        exact ⟨rfl, hf v hd⟩
      · exact fun h => h.1
  · simp only [mapError_eq_ok_iff, FieldType.check_eq_ok_iff]
    constructor
    · rintro ⟨rfl, hrange⟩
      exact ⟨rfl, hrange⟩
    · rintro ⟨rfl, hrange⟩
      exact ⟨rfl, hrange⟩
  · simp only [mapError_eq_ok_iff, FieldType.parse_eq_ok_iff]

/-- A field that has a value is read back from its bytes. -/
theorem means_decode_encodeField (hf : f.Bounded) (h : e.fieldProblems f = []) :
    e.Means f (f.type.decode (e.encodeField f)) := by
  obtain ⟨n, hn⟩ := fieldProblems_eq_nil_iff_exists.mp h
  obtain ⟨hmeans, hlow, hhigh⟩ := (fieldValue_eq_ok_iff hf).mp hn
  rw [encodeField, hn]
  dsimp only
  rw [FieldType.decode_encode hlow hhigh]
  exact hmeans

/-- What is known of the fields when nothing is reported of them. -/
theorem values_of_problems (h : e.problems ctx = []) (hschema : e.schema? ctx = some schema) :
    (∀ v ∈ e.fields, ∃ f ∈ schema.fields, f.name = v.1) ∧
      ∀ f ∈ schema.fields, e.fieldProblems f = [] := by
  obtain ⟨ft, i, fs, j, hft, hfs⟩ := exists_found_of_problems h
  obtain ⟨-, hvalues⟩ := (problems_eq_nil_iff_of_found hft hfs).mp h
  unfold valueProblems at hvalues
  rw [hft, hschema] at hvalues
  simp only [List.append_eq_nil_iff, List.map_eq_nil_iff, List.filter_eq_nil_iff,
    List.flatMap_eq_nil_iff] at hvalues
  refine ⟨fun v hv => ?_, hvalues.2⟩
  have hfound := hvalues.1 v hv
  rw [Bool.not_eq_true, Option.isNone_eq_false_iff, ResolvedStruct.field?,
    List.find?_isSome] at hfound
  obtain ⟨f, hf, hname⟩ := hfound
  exact ⟨f, hf, eq_of_beq hname⟩

theorem fields_eq_nil_of_problems (h : e.problems ctx = []) (hschema : e.schema? ctx = none) :
    e.fields = [] := by
  obtain ⟨ft, i, fs, j, hft, hfs⟩ := exists_found_of_problems h
  obtain ⟨-, hvalues⟩ := (problems_eq_nil_iff_of_found hft hfs).mp h
  unfold valueProblems at hvalues
  rw [hft, hschema] at hvalues
  exact List.map_eq_nil_iff.mp hvalues

theorem recovers_encode (hschema : e.schema? ctx = some schema)
    (hbounded : ∀ f ∈ schema.fields, f.Bounded) (h : e.problems ctx = []) :
    e.Recovers schema (e.encode ctx) := by
  obtain ⟨hknown, hfields⟩ := values_of_problems h hschema
  refine ⟨hknown, fun front f back heq => ?_⟩
  obtain ⟨head, hhead, hrecord⟩ := exists_encode_eq_append hschema
  have hf : f ∈ schema.fields := by
    rw [heq]
    exact List.mem_append_right front List.mem_cons_self
  rw [hrecord, heq, fieldBytes_eq hhead]
  exact means_decode_encodeField (hbounded f hf) (hfields f hf)

/-! ## Lists of entries -/

variable {structs : List EntityStruct} {kind : ResourceKind} {entries : List Entry} {i : Nat}

/-- What is reported of an entry stands in the report of its list, at the place of the entry. -/
theorem mem_report_encodeEntries (he : entries[i]? = some e) :
    ∀ d ∈ e.report ctx kind i, d ∈ (encodeEntries ctx kind entries).report ∧ d.place = .item i := by
  intro d hd
  constructor
  · have hall : d ∈ entries.zipIdx.flatMap fun x => x.1.report ctx kind x.2 :=
      List.mem_flatMap.mpr ⟨(e, i), List.mem_zipIdx_iff_getElem?.mpr he, hd⟩
    rw [encodeEntries, Noted.report_bind, Noted.report_bind, Noted.report_pure, List.append_nil]
    exact List.mem_append_right _ hall
  · obtain ⟨p, -, rfl⟩ := List.mem_map.mp hd
    rfl

theorem recorded_encode (hctx : ctx.structs = (StructTable.resolve structs).value) :
    e.Recorded structs ctx (e.encode ctx) (e.report ctx kind i) := by
  have hlayout : ∀ {schema}, e.schema? ctx = some schema → ∃ chain,
      StructTable.Chain structs schema.name chain ∧
        schema.fields = StructTable.chainFields chain := by
    intro schema hschema
    obtain ⟨ft, name, -, -, hget⟩ := schema?_eq_some_iff.mp hschema
    rw [hctx] at hget
    obtain ⟨chain, hchain, rfl⟩ := StructTable.get?_resolve_eq_some_iff.mp hget
    exact ⟨chain, hchain, rfl⟩
  refine ⟨fun schema huses => ?_, fun schema huses => ?_, fun hquiet schema huses => ?_,
    fun hbare => ?_⟩
  · exact length_encode (schema?_eq_some_iff.mpr huses)
  · exact hlayout (schema?_eq_some_iff.mpr huses)
  · have hschema := schema?_eq_some_iff.mpr huses
    obtain ⟨chain, -, hfields⟩ := hlayout hschema
    refine recovers_encode hschema (fun f hf => ?_) (List.map_eq_nil_iff.mp hquiet)
    rw [hfields] at hf
    exact StructTable.bounded_of_mem_chainFields hf
  · have hnone : e.schema? ctx = none := by
      rw [Option.eq_none_iff_forall_ne_some]
      exact fun schema hschema => hbare ⟨schema, schema?_eq_some_iff.mp hschema⟩
    exact ⟨length_encode_of_none hnone,
      fun hquiet => fields_eq_nil_of_problems (List.map_eq_nil_iff.mp hquiet) hnone⟩

/-- **The record of an entry has the size of its struct, and tells the values of the entry when
nothing is reported of it.** -/
theorem encodeEntries_recorded (structs : List EntityStruct) (tables : List FunctionTable)
    (frameSets : List FrameSet) (kind : ResourceKind) (he : entries[i]? = some e) :
    let ctx : EntryContext := ⟨(StructTable.resolve structs).value, tables, frameSets⟩
    let errors := e.report ctx kind i
    (∀ d ∈ errors, d ∈ (encodeEntries ctx kind entries).report ∧ d.place = .item i) ∧
      ∃ record, (encodeEntries ctx kind entries).value[i]? = some record ∧
        e.Recorded structs ctx record errors := by
  refine ⟨mem_report_encodeEntries he, e.encode _, ?_, recorded_encode rfl⟩
  have hvalue : ∀ ctx, (encodeEntries ctx kind entries).value = entries.map (encode ctx) :=
    fun _ => rfl
  rw [hvalue, List.getElem?_map, he, Option.map_some]

end Records

section Sample

def sampleStructs : List EntityStruct :=
  [⟨"Walker", some "Base", [⟨"speed", .s8, none⟩, ⟨"delay", .s24, some "-2"⟩]⟩,
    ⟨"Base", none, [⟨"health", .u16, some "300"⟩]⟩]

def sampleSchema : ResolvedStruct :=
  ⟨"Walker", [⟨"health", .u16, some 300⟩, ⟨"speed", .s8, none⟩, ⟨"delay", .s24, some (-2)⟩]⟩

def sampleContext : EntryContext :=
  ⟨(StructTable.resolve sampleStructs).value, [⟨"walkers", some "Walker", "still"⟩],
    [⟨"slime", "still", ["stand", "walk"], 2, []⟩]⟩

/-- A value of its own for one field, and the defaults for the others. -/
def sampleEntry : Entry := ⟨"slime", "walkers", "slime", 1, "walk", [("speed", .text "-0x10")]⟩

theorem uses_sampleEntry : sampleEntry.Uses sampleContext sampleSchema :=
  ⟨_, _, rfl, rfl, by decide +kernel⟩

theorem report_sampleEntry : sampleEntry.report sampleContext .entity 0 = [] := by
  decide +kernel

theorem recovers_sampleEntry : [sampleEntry][0]? = some sampleEntry ∧
    ∃ record, (encodeEntries sampleContext .entity [sampleEntry]).value[0]? = some record ∧
      record.length = 10 ∧ sampleEntry.Recovers sampleSchema record := by
  obtain ⟨-, record, hrecord, h⟩ := @encodeEntries_recorded sampleEntry [sampleEntry] 0
    sampleStructs sampleContext.functionTables sampleContext.frameSets .entity rfl
  exact ⟨rfl, record, hrecord, h.length _ uses_sampleEntry,
    h.recovers report_sampleEntry _ uses_sampleEntry⟩

end Sample

end Entry

end Cartridge
