import Cartridge.Proofs.Image.RunImage
import Cartridge.Proofs.Image.Submissions
import Cartridge.Proofs.Text.Numeral

/-!
# Addresses inside of banks

An address that a writer answers with lies in the window of a bank, with one exception: empty data
has room in a bank that is full, so if it is first submitted when the first bank is full, it gets
the address behind that bank (`Submission.Overhangs`).  No bank may start there, and it need not
even be one of 24 bits.

Main statement: `addressable_iff`, every address of a run is in a bank, is read back from its entry
in a table and is written with six digits, if and only if no empty data is placed behind the first
bank of a map that has no bank there.
-/

namespace Cartridge

/-! ## Addresses of a map -/

namespace MemoryMap

variable {map : MemoryMap} {address n : Nat}

/-- The window of a bank contains the address. -/
def Covers (map : MemoryMap) (address : Nat) : Prop := ∃ n, map.Window address 1 n

/-- The address behind the first bank. -/
def firstEnd (map : MemoryMap) : Nat := map.bankAddress 0 + map.bankSize

theorem bankSize_pos : 0 < map.bankSize := by
  unfold bankSize
  cases map.mode with
  | low => decide
  | high => decide

theorem Covers.lt (hm : map.Valid) (h : map.Covers address) : address < 0x1000000 := by
  obtain ⟨n, hn, -, hend⟩ := h
  have hle := bankAddress_add_bankSize_le hm hn
  omega

theorem covers_bankAddress (hn : n < map.bankCount) : map.Covers (map.bankAddress n) := by
  have hpos : 0 < map.bankSize := bankSize_pos
  exact ⟨n, hn, Nat.le_refl _, by omega⟩

/-- A bank starts right behind the first one if there is another and nothing lies in between. -/
theorem covers_firstEnd_iff (hm : map.Valid) :
    map.Covers map.firstEnd ↔ map.mode = .high ∧ 1 < map.bankCount := by
  have hend : map.firstEnd = (map.firstBank.toNat + 0 + 1) * 0x10000 :=
    bankAddress_add_bankSize hm hm.1
  constructor
  · rintro ⟨n, hn, hle, hlt⟩
    have hn' := bankAddress_add_bankSize hm hn
    have hsize : map.bankSize ≤ 0x10000 := bankSize_le
    -- a bank that reaches to the end of the first one without containing it starts there
    have hpos : 1 ≤ n := by omega
    refine ⟨?_, by omega⟩
    cases hmode : map.mode with
    | high => rfl
    | low =>
      have hhalf : map.bankSize = 0x8000 := by
        rw [bankSize, hmode]
      omega
  · rintro ⟨hmode, hcount⟩
    have hn' := bankAddress_add_bankSize hm hcount
    have hfull : map.bankSize = 0x10000 := by
      rw [bankSize, hmode]
    exact ⟨1, hcount, by omega, by omega⟩

end MemoryMap

/-! ## Addresses of an allocator -/

namespace Allocator

variable {map : MemoryMap} {a a' : Allocator} {address id : Nat} {data : Bytes}

/-- Data that is appended ends in the window of its bank. -/
theorem Appends.exists_window (hf : a.Fits map) (h : a.Appends a' address data) :
    ∃ n, map.Window address data.length n := by
  obtain ⟨id, b, padding, hb, hroom, haddress, -⟩ := h
  have hid := (List.getElem?_eq_some_iff.mp hb).1
  have hstart := hf.start_eq id b hb
  have hsize := hf.size_le id b hb
  have heq := hf.bankSize_eq
  have hnext : b.next = b.start + b.data.size := rfl
  rw [hf.length_eq] at hid
  rw [List.length_append] at hroom
  exact ⟨id, hid, by omega, by omega⟩

theorem Appends.covers (hf : a.Fits map) (h : a.Appends a' address data) (hne : data ≠ []) :
    map.Covers address := by
  obtain ⟨n, hn, hle, hend⟩ := h.exists_window hf
  have hpos : 0 < data.length := List.length_pos_iff.mpr hne
  exact ⟨n, hn, hle, by omega⟩

/-- The end of a window is a null address. -/
theorem covers_of_addNotNull (hm : map.Valid) (hf : a.Fits map)
    (h : a.addNotNull data = (.ok address, a')) : map.Covers address := by
  obtain ⟨n, hn, hle, hend⟩ := (appends_of_addNotNull h).exists_window hf
  have hwindow := MemoryMap.bankAddress_add_bankSize hm hn
  have hne := mod_ne_zero_of_addNotNull h
  exact ⟨n, hn, hle, by omega⟩

/-- The first bank is used if it has room. -/
theorem add_of_first {b : Bank} (hb : a.banks[0]? = some b)
    (hroom : b.data.size + data.length ≤ a.bankSize) :
    a.add data = (.ok b.next, a.append 0 data) := by
  have hid : a.bankFor? data.length = some 0 := by
    rw [bankFor?, List.findIdx?_eq_some_iff_getElem]
    obtain ⟨hlt, hget⟩ := List.getElem?_eq_some_iff.mp hb
    refine ⟨hlt, ?_, fun j hj => absurd hj (Nat.not_lt_zero j)⟩
    rw [hget]
    exact decide_eq_true hroom
  rw [add, hid]
  simp only [next_eq hb]

/-- Empty data is placed in the first bank, whatever it holds. -/
theorem Fits.add_nil (hf : a.Fits map) {b : Bank} (hb : a.banks[0]? = some b) :
    a.add [] = (.ok b.next, a.append 0 []) := by
  refine add_of_first hb ?_
  rw [hf.bankSize_eq]
  exact hf.size_le 0 b hb

theorem Fits.exists_first (hf : a.Fits map) (hpos : 0 < map.bankCount) :
    ∃ b, a.banks[0]? = some b := by
  have hlt : 0 < a.banks.length := by
    rw [hf.length_eq]
    exact hpos
  exact ⟨a.banks[0], List.getElem?_eq_getElem hlt⟩

/-- The first bank has no free byte. -/
def FirstFull (a : Allocator) : Prop := a.remaining? 0 = some 0

theorem Fits.next_of_firstFull (hf : a.Fits map) (hfull : a.FirstFull) {b : Bank}
    (hb : a.banks[0]? = some b) : b.next = map.firstEnd := by
  have hsize := hf.size_le 0 b hb
  have hstart := hf.start_eq 0 b hb
  rw [FirstFull, remaining?, hb, Option.map_some, hf.bankSize_eq, Option.some.injEq] at hfull
  rw [Bank.next, MemoryMap.firstEnd]
  omega

/-- Data of the size of a bank fills the first one. -/
theorem firstFull_of_length_eq (hm : map.Valid) (hlen : data.length = map.bankSize) :
    ∃ address a', (new map).add data = (.ok address, a') ∧ a'.FirstFull := by
  have hf : (new map).Fits map := fits_new map
  obtain ⟨b, hb⟩ := hf.exists_first hm.1
  have hempty : b.data.size = 0 := by
    have hmem := List.mem_of_getElem? hb
    obtain ⟨n, -, rfl⟩ := List.mem_map.mp hmem
    rfl
  have hroom : b.data.size + data.length ≤ (new map).bankSize := by
    rw [hempty, hlen, Nat.zero_add]
    exact Nat.le_refl _
  refine ⟨_, _, add_of_first hb hroom, ?_⟩
  rw [FirstFull, remaining?, getElem?_banks_append, hb, Option.map_some, if_pos rfl,
    Option.map_some, Bank.size_append, hempty, hlen, Nat.zero_add]
  exact congrArg some (Nat.sub_self _)

theorem covers_or_firstFull (hf : a.Fits map) (hpos : 0 < map.bankCount)
    (h : a.add data = (.ok address, a')) :
    map.Covers address ∨ data = [] ∧ a.FirstFull ∧ address = map.firstEnd := by
  by_cases hne : data = []
  · subst hne
    obtain ⟨b, hb⟩ := hf.exists_first hpos
    have hadd := hf.add_nil hb
    obtain rfl := Except.ok.inj (Prod.mk.inj (h.symm.trans hadd)).1
    have hsize := hf.size_le 0 b hb
    have hstart := hf.start_eq 0 b hb
    by_cases hfull : b.data.size = map.bankSize
    · have hfirst : a.FirstFull := by
        rw [FirstFull, remaining?, hb, Option.map_some, hf.bankSize_eq, hfull, Nat.sub_self]
      exact .inr ⟨rfl, hfirst, hf.next_of_firstFull hfirst hb⟩
    · refine .inl ⟨0, hpos, ?_, ?_⟩
      · rw [Bank.next]
        omega
      · rw [Bank.next]
        omega
  · exact .inl ((appends_of_add h).covers hf hne)

end Allocator

/-! ## Addresses of a run -/

/-- Empty data gets its first address when the first bank is full. -/
structure Submission.Overhangs (s : Submission) : Prop where
  manner_eq : s.manner = .plain
  data_eq : s.data = []
  unknown : s.before.address? [] = none
  full : s.before.allocator.FirstFull

section Submission

variable {map : MemoryMap} {s : Submission}

theorem Submission.Overhangs.address_eq (h : s.Overhangs) (hm : map.Valid) (hmet : s.Met)
    (hw : s.before.SoundOver map) : s.address = map.firstEnd := by
  obtain ⟨hmanner, hdata, hunknown, hfull⟩ := h
  cases hmet with
  | reused _ known _ _ =>
    rw [hdata, hunknown] at known
    exact absurd known (by simp)
  | plain _ _ added _ =>
    obtain ⟨b, hb⟩ := hw.fits.exists_first hm.1
    rw [hdata, hw.fits.add_nil hb] at added
    rw [← Except.ok.inj (Prod.mk.inj added).1]
    exact hw.fits.next_of_firstFull hfull hb
  | notNull manner_eq _ _ _ =>
    rw [hmanner] at manner_eq
    exact absurd manner_eq (by simp)
  | fixed manner_eq _ _ _ _ _ _ =>
    rw [hmanner] at manner_eq
    exact absurd manner_eq (by simp)

/-- What a submission places is in a bank unless it overhangs. -/
theorem Submission.Met.covers_or_overhangs (hmet : s.Met) (hm : map.Valid)
    (hw : s.before.SoundOver map) (hnew : s.before.address? s.data ≠ some s.address) :
    map.Covers s.address ∨ s.Overhangs ∧ s.address = map.firstEnd := by
  cases hmet with
  | reused _ known _ _ => exact absurd known hnew
  | plain manner_eq unknown added _ =>
    rcases Allocator.covers_or_firstFull hw.fits hm.1 added with h | ⟨hdata, hfull, heq⟩
    · exact .inl h
    · rw [hdata] at unknown
      exact .inr ⟨⟨manner_eq, hdata, unknown, hfull⟩, heq⟩
  | notNull _ _ added _ => exact .inl (Allocator.covers_of_addNotNull hm hw.fits added)
  | fixed _ bank lt address_eq _ _ _ =>
    rw [hw.map_eq] at lt address_eq
    rw [address_eq]
    exact .inl (MemoryMap.covers_bankAddress lt)

end Submission

namespace Writer

open Allocator (Placement)

variable {map : MemoryMap} {w w' : Writer} {s : Submission} {ss : List Submission}
  {rs : List Request} {name : String} {address : Nat} {addresses : List Nat} {data : Bytes}
  {items : List Bytes}

/-- All addresses that the writer remembers are in banks, or some submission of a trace overhangs
and they are behind the first bank. -/
structure Inside (map : MemoryMap) (ss : List Submission) (w : Writer) : Prop where
  soundOver : w.SoundOver map
  known : ∀ data address, w.address? data = some address →
    map.Covers address ∨ (∃ s ∈ ss, s.Overhangs) ∧ address = map.firstEnd

theorem Inside.covers_or (hi : Inside map ss s.before) (hm : map.Valid) (hs : s ∈ ss)
    (hmet : s.Met) :
    map.Covers s.address ∨ (∃ s ∈ ss, s.Overhangs) ∧ s.address = map.firstEnd := by
  by_cases hknown : s.before.address? s.data = some s.address
  · exact hi.known _ _ hknown
  · rcases hmet.covers_or_overhangs hm hi.soundOver hknown with h | ⟨hover, heq⟩
    · exact .inl h
    · exact .inr ⟨⟨s, hs, hover⟩, heq⟩

theorem Inside.of_recorded (hi : Inside map ss s.before) (hm : map.Valid) (hs : s ∈ ss)
    (hmet : s.Met) (hr : s.Recorded) : Inside map ss s.after := by
  refine ⟨hi.soundOver.of_met hmet, fun data address hknown => ?_⟩
  rw [hr.address?_eq] at hknown
  split at hknown
  · obtain rfl := Option.some.inj hknown
    exact hi.covers_or hm hs hmet
  · exact hi.known data address hknown

theorem Inside.of_sameStore (hi : Inside map ss w) (h : w.SameStore w') : Inside map ss w' := by
  refine ⟨hi.soundOver.of_sameStore h, fun data address hknown => ?_⟩
  rw [h.address?_eq] at hknown
  exact hi.known data address hknown

theorem Inside.of_met (hi : Inside map ss s.before) (hm : map.Valid) (hs : s ∈ ss)
    (hmet : s.Met) : Inside map ss s.after := by
  cases hmet with
  | reused _ _ _ same => exact hi.of_sameStore same
  | plain manner_eq unknown added recorded =>
    exact hi.of_recorded hm hs (.plain manner_eq unknown added recorded) recorded
  | notNull manner_eq null added recorded =>
    exact hi.of_recorded hm hs (.notNull manner_eq null added recorded) recorded
  | fixed manner_eq bank lt address_eq added map_eq placed_eq =>
    refine ⟨hi.soundOver.of_met (.fixed manner_eq bank lt address_eq added map_eq placed_eq),
      fun data address hknown => ?_⟩
    rw [address?, placed_eq] at hknown
    exact hi.known data address hknown

/-- Every address of a run is in a bank, or it is behind the first bank and some empty data has been
placed there. -/
theorem covers_or_overhangs_run (hm : map.Valid)
    (hs : s ∈ (new map).collect submissions rs) :
    s.Met ∧ s.before.SoundOver map ∧ (map.Covers s.address ∨
      (∃ s ∈ (new map).collect submissions rs, s.Overhangs) ∧ s.address = map.firstEnd) := by
  have hnew : Inside map ((new map).collect submissions rs) (new map) :=
    ⟨soundOver_new map, fun _ _ h => absurd h (by simp [new, address?])⟩
  obtain ⟨-, hall⟩ := (trace_run (new map) rs).keeps (fun _ _ hsame hi => hi.of_sameStore hsame)
    (fun s hs hmet hi => hi.of_met hm hs hmet) hnew
  obtain ⟨hmet, hi⟩ := hall s hs
  exact ⟨hmet, hi.soundOver, hi.covers_or hm hs hmet⟩

/-! ### Entries and symbols -/

/-- The addresses in the entries of a table. -/
def tableEntries : Bytes → List Nat
  | low :: middle :: high :: rest => ofLittleEndian [low, middle, high] :: tableEntries rest
  | _ => []

theorem tableEntries_tableBytes (h : ∀ address ∈ addresses, address < 0x1000000) :
    tableEntries (tableBytes addresses) = addresses := by
  induction addresses with
  | nil => rfl
  | cons address addresses ih =>
    have hfirst := ofLittleEndian_littleEndian (h address List.mem_cons_self)
    have hrest := ih fun a ha => h a (List.mem_cons_of_mem address ha)
    rw [tableBytes, List.flatMap_cons]
    exact congrArg₂ List.cons hfirst hrest

theorem length_tableBytes (addresses : List Nat) :
    (tableBytes addresses).length = 3 * addresses.length :=
  length_flatMap_of_width fun _ => littleEndian_length 3 _

/-- If all items of a table get addresses, they are served with these in their order. -/
theorem servedItems_of_addAll (h : (w.addAll items).1 = .ok addresses) :
    addresses.length = items.length ∧
      w.servedItems items = addresses.zipWith Placement.mk items := by
  induction items generalizing w addresses with
  | nil =>
    obtain rfl := Except.ok.inj h
    exact ⟨rfl, rfl⟩
  | cons item items ih =>
    rcases hadd : w.add item with ⟨e | address, w₁⟩
    · rw [addAll, hadd] at h
      exact absurd h (by simp)
    · rw [addAll_cons hadd] at h
      cases hrest : (w₁.addAll items).1 with
      | error e =>
        rw [hrest] at h
        exact absurd h (by simp [Except.map])
      | ok rest =>
        rw [hrest] at h
        obtain rfl := Except.ok.inj h
        obtain ⟨hlen, hserved⟩ := ih hrest
        rw [servedItems, hadd]
        exact ⟨congrArg (· + 1) hlen, congrArg (List.cons _) hserved⟩

/-- A table is answered with an address only if all its items get one. -/
theorem exists_addAll_of_addressOf? (h : w.addressOf? (.table name items) = some address) :
    ∃ addresses, (w.addAll items).1 = .ok addresses := by
  cases hall : (w.addAll items).1 with
  | ok addresses => exact ⟨addresses, rfl⟩
  | error e =>
    rw [addressOf?, perform, addTable_of_error name hall, toOption_join_addressed] at h
    exact absurd h (by simp [Except.toOption])

/-- The line of a symbol ends with six digits that denote its address. -/
def SixDigits (x : String × Nat) : Prop :=
  ∃ digits : List Char, digits.length = 6 ∧ (∀ c ∈ digits, Text.isHexDigit c = true) ∧
    Text.ofDigits 16 digits = x.2 ∧
    (Directive.address x.1 x.2).line = s!"constant {x.1} = 0x{String.ofList digits}"

theorem sixDigits_of_lt {x : String × Nat} (h : x.2 < 0x1000000) : SixDigits x :=
  ⟨_, Text.length_leftpad_six_iff.mpr h, fun _ => Text.isHexDigit_of_mem_leftpad,
    Text.ofDigits_leftpad_toDigits 6 x.2, rfl⟩

/-- What is collected from a run comes from one of its requests. -/
theorem mem_collect_iff {α : Type} {f : Writer → Request → List α} {x : α} :
    x ∈ w.collect f rs ↔ ∃ front r back, rs = front ++ r :: back ∧ x ∈ f (w.run front) r := by
  induction rs generalizing w with
  | nil => simp [collect]
  | cons r rs ih =>
    rw [collect, List.mem_append, ih]
    constructor
    · rintro (hx | ⟨front, r', back, rfl, hx⟩)
      · exact ⟨[], r, rs, rfl, hx⟩
      · exact ⟨r :: front, r', back, rfl, hx⟩
    · rintro ⟨front, r', back, heq, hx⟩
      cases front with
      | nil =>
        obtain ⟨rfl, rfl⟩ := List.cons.inj heq
        exact .inl hx
      | cons r₀ front =>
        obtain ⟨rfl, rfl⟩ := List.cons.inj heq
        exact .inr ⟨front, r', back, rfl, hx⟩

/-- A symbol is exported with an address that has been answered. -/
theorem exists_served_of_mem_exported {x : String × Nat}
    (hx : x ∈ w.collect exported rs) : ∃ p ∈ w.collect served rs, p.address = x.2 := by
  obtain ⟨front, r, back, hrs, hx⟩ := mem_collect_iff.mp hx
  have haddress : x.2 ∈ ((w.run front).addressOf? r).toList := (List.of_mem_zip hx).2
  refine ⟨⟨x.2, (w.run front).contentsOf r⟩, mem_collect_iff.mpr ⟨front, r, back, hrs, ?_⟩, rfl⟩
  exact List.mem_append_right _ (List.mem_map_of_mem haddress)

/-- What is asked of the addresses that a run answers with, stores in tables and exports. -/
structure Addressable (map : MemoryMap) (rs : List Request) : Prop where
  covered : ∀ p ∈ (new map).collect served rs, map.Covers p.address
  below : ∀ p ∈ (new map).collect served rs, p.address < 0x1000000
  entries : ∀ front name items back address, rs = front ++ .table name items :: back →
    ((new map).run front).addressOf? (.table name items) = some address →
    ∃ table, ((new map).run rs).allocator.Holds address table ∧
      table.length = 3 * items.length ∧
      ((new map).run front).servedItems items = (tableEntries table).zipWith Placement.mk items
  symbols : ∀ x ∈ (new map).collect exported rs, SixDigits x

/-- The table that a request is answered with stays where it is, and its entries are read back. -/
theorem exists_stored_table (hs : w.Sound) {front back : List Request}
    (hrs : rs = front ++ .table name items :: back)
    (haddress : (w.run front).addressOf? (.table name items) = some address)
    (hlt : ∀ p ∈ (w.run front).servedItems items, p.address < 0x1000000) :
    ∃ table, (w.run rs).allocator.Holds address table ∧ table.length = 3 * items.length ∧
      (w.run front).servedItems items = (tableEntries table).zipWith Placement.mk items := by
  obtain ⟨addresses, hall⟩ := exists_addAll_of_addressOf? haddress
  obtain ⟨hlen, hserved⟩ := servedItems_of_addAll hall
  obtain ⟨-, -, haddresses, -⟩ := grows_addAll (w.run front) items
  have heq := haddresses addresses hall
  have hplaced : (⟨address, tableBytes addresses⟩ : Placement) ∈ w.collect served rs := by
    refine mem_collect_iff.mpr ⟨front, _, back, hrs, List.mem_append_right _ ?_⟩
    rw [haddress, contentsOf, ← heq]
    exact List.mem_singleton_self _
  have hentries : tableEntries (tableBytes addresses) = addresses := by
    refine tableEntries_tableBytes fun a hmem => ?_
    rw [heq] at hmem
    obtain ⟨p, hp, rfl⟩ := List.mem_map.mp hmem
    exact hlt p hp
  refine ⟨tableBytes addresses, holds_of_mem_served hs hplaced, ?_, ?_⟩
  · rw [length_tableBytes, hlen]
  · rw [hentries]
    exact hserved

theorem addressable_of_covered (hm : map.Valid)
    (h : ∀ p ∈ (new map).collect served rs, map.Covers p.address) : Addressable map rs := by
  have hbelow : ∀ p ∈ (new map).collect served rs, p.address < 0x1000000 :=
    fun p hp => (h p hp).lt hm
  refine ⟨h, hbelow, fun front name items back address hrs haddress => ?_, fun x hx => ?_⟩
  · refine exists_stored_table (sound_new map) hrs haddress fun p hp => hbelow p ?_
    exact mem_collect_iff.mpr ⟨front, _, back, hrs, List.mem_append_left _ hp⟩
  · obtain ⟨p, hp, heq⟩ := exists_served_of_mem_exported hx
    exact sixDigits_of_lt (heq ▸ hbelow p hp)

theorem mem_served_iff {p : Placement} : p ∈ w.collect served rs ↔
    ∃ s ∈ w.collect submissions rs, s.placement = p := by
  rw [← map_placement_collect, List.mem_map]

/-- **Every address of a run is one of a bank**, unless empty data is placed behind the first one
and no other bank starts there. -/
theorem addressable_iff (hm : map.Valid) (rs : List Request) :
    Addressable map rs ↔ (map.mode = .high ∧ 1 < map.bankCount) ∨
      ∀ s ∈ (new map).collect submissions rs, ¬ s.Overhangs := by
  rw [← MemoryMap.covers_firstEnd_iff hm]
  constructor
  · intro h
    refine or_iff_not_imp_left.mpr fun hend s hs hover => hend ?_
    obtain ⟨hmet, hw, -⟩ := covers_or_overhangs_run hm hs
    have hcovers := h.covered s.placement (mem_served_iff.mpr ⟨s, hs, rfl⟩)
    rw [Submission.placement, hover.address_eq hm hmet hw] at hcovers
    exact hcovers
  · intro h
    refine addressable_of_covered hm fun p hp => ?_
    obtain ⟨s, hs, rfl⟩ := mem_served_iff.mp hp
    obtain ⟨-, -, hcovers | ⟨⟨s', hs', hover⟩, heq⟩⟩ := covers_or_overhangs_run hm hs
    · exact hcovers
    · rcases h with hend | hnone
      · rw [Submission.placement, heq]
        exact hend
      · exact absurd hover (hnone s' hs')

/-- Data that fits is placed there too. -/
theorem addressable_sample :
    (⟨.low, 0x80, 1⟩ : MemoryMap).Valid ∧
      Addressable ⟨.low, 0x80, 1⟩ [.named "none" [], .table "list" [[1, 2], [], [1, 2]]] := by
  refine ⟨by decide, (addressable_iff (by decide) _).mpr (.inr fun s hs hover => ?_)⟩
  have hroom : ∀ s ∈ (new ⟨.low, 0x80, 1⟩).collect submissions
      [.named "none" [], .table "list" [[1, 2], [], [1, 2]]],
      s.before.allocator.remaining? 0 ≠ some 0 := by
    decide +kernel
  exact hroom s hs hover.full

/-! ### Empty data behind a full bank -/

theorem exists_overhangs_named (name : String) (hw : w.SoundOver map) (hm : map.Valid)
    (hunknown : w.address? [] = none) (hfull : w.allocator.FirstFull) :
    ∃ s ∈ w.submissions (.named name []), s.Overhangs := by
  obtain ⟨b, hb⟩ := hw.fits.exists_first hm.1
  have hadd : w.add [] = (.ok b.next, w.record .plain [] b.next (w.allocator.append 0 [])) := by
    rw [add, hunknown, place, hw.fits.add_nil hb]
  rw [submissions, addNamed, hadd]
  exact ⟨_, List.mem_singleton_self _, rfl, rfl, hunknown, hfull⟩

/-- Over every map, empty data is placed behind the first bank if other data has filled it. -/
theorem exists_overhangs (hm : map.Valid) (hlen : data.length = map.bankSize) (name : String) :
    ∃ s ∈ (new map).collect submissions [.data data, .named name []], s.Overhangs := by
  obtain ⟨address, a', hadd, hfull⟩ := Allocator.firstFull_of_length_eq hm hlen
  have hperform : ((new map).perform (.data data)).2 = (new map).record .plain data address a' := by
    have hplaced : (new map).add data =
        (.ok address, (new map).record .plain data address a') := by
      rw [add, show (new map).address? data = none from rfl, place,
        show (new map).allocator.add data = _ from hadd]
    rw [perform, hplaced]
    rfl
  have hne : (data == []) = false := by
    have hpos : 0 < map.bankSize := MemoryMap.bankSize_pos
    cases data with
    | nil => exact absurd hlen (by simp; omega)
    | cons byte data => rfl
  have hw : ((new map).perform (.data data)).2.SoundOver map := by
    have hgrows := (performs (new map) (.data data)).grows
    exact ⟨hgrows.sound (sound_new map), hgrows.map_eq⟩
  have hunknown : ((new map).perform (.data data)).2.address? [] = none := by
    rw [hperform, address?_record, hne]
    rfl
  have hstill : ((new map).perform (.data data)).2.allocator.FirstFull := by
    rw [hperform]
    exact hfull
  obtain ⟨s, hs, hover⟩ := exists_overhangs_named name hw hm hunknown hstill
  exact ⟨s, List.mem_append_right _ (List.mem_append_left _ hs), hover⟩

/-- In the last bank of all, the address has seven digits. -/
theorem not_addressable_behind_last_bank :
    (⟨.high, 0xFF, 1⟩ : MemoryMap).Valid ∧
      ¬ Addressable ⟨.high, 0xFF, 1⟩ [.data (List.replicate 0x10000 0), .named "end" []] := by
  have hm : (⟨.high, 0xFF, 1⟩ : MemoryMap).Valid := by decide
  obtain ⟨s, hs, hover⟩ := exists_overhangs hm (List.length_replicate (a := (0 : UInt8))) "end"
  refine ⟨hm, fun h => ?_⟩
  obtain ⟨hmet, hw, -⟩ := covers_or_overhangs_run hm hs
  have hlt : s.address < 0x1000000 := h.below s.placement (mem_served_iff.mpr ⟨s, hs, rfl⟩)
  rw [hover.address_eq hm hmet hw] at hlt
  exact absurd hlt (by decide)

end Writer

end Cartridge
