import Cartridge.Proofs.Bytes
import Cartridge.Proofs.Image.Placement
import Cartridge.Proofs.Lists

/-!
# Reading an image

What can be told from an image and its include file alone.  The include file says of every bank at
which address it starts and which part of the image holds its data (`Image.sections`), so the bytes
at an address can be read (`Image.read?`); it exports the addresses of tables, so their entries can
be read too (`Image.itemAddress?`).

Main statements: what a bank of a sound writer holds is read back at its address
(`read?_of_holds`), and so are the addresses of the items of a table (`itemAddress?_of_tabled`).
-/

namespace Cartridge

/-- The data of a bank: its address, and the part of the image where it stands. -/
structure Section where
  start : Nat
  offset : Nat
  length : Nat
deriving DecidableEq, Repr

/-- What a directive says of a constant that is no address. -/
def Directive.constant? : Directive → Option (String × Int)
  | constant name value => some (name, value)
  | _ => none

/-- What a directive says of an address. -/
def Directive.address? : Directive → Option (String × Nat)
  | address name value => some (name, value)
  | _ => none

namespace Image

/-- The sections that directives tell of.  A bank without data has none. -/
def sections : List Directive → List Section
  | [] => []
  | .assertCounter start :: .insert _ offset length :: ds => ⟨start, offset, length⟩ :: sections ds
  | _ :: ds => sections ds

variable (image : Image)

/-- The bytes at an address. -/
def read? (address size : Nat) : Option Bytes :=
  ((sections image.directives).find? fun s =>
      decide (s.start ≤ address) && decide (address + size ≤ s.start + s.length)).map fun s =>
    (image.binary.drop (s.offset + (address - s.start))).take size

/-- The constants of the include file that are no addresses. -/
def constants : List (String × Int) := image.directives.filterMap Directive.constant?

/-- The addresses that the include file exports. -/
def symbols : List (String × Nat) := image.directives.filterMap Directive.address?

def symbol? (name : String) : Option Nat :=
  (image.symbols.find? fun s => s.1 == name).map Prod.snd

/-- Entry `i` of the table with a name. -/
def itemAddress? (name : String) (i : Nat) : Option Nat := do
  let address ← image.symbol? name
  let bytes ← image.read? (address + 3 * i) 3
  return ofLittleEndian bytes

end Image

/-! ## The include file of a writer -/

namespace Writer

section Directives

variable {path : String} {id offset : Nat} {bs : List Bank} {w : Writer}

/-- The sections of banks whose data starts at an offset in the image. -/
def bankSections (offset : Nat) : List Bank → List Section
  | [] => []
  | b :: bs =>
    (if b.data.isEmpty then [] else [⟨b.start, offset, b.data.size⟩]) ++
      bankSections (offset + b.data.size) bs

theorem sections_bankDirectives_append (ds : List Directive) :
    Image.sections (bankDirectives path id offset bs ++ ds) =
      bankSections offset bs ++ Image.sections ds := by
  induction bs generalizing id offset with
  | nil => rfl
  | cons b bs ih =>
    rw [bankDirectives, bankSections]
    by_cases h : b.data.isEmpty = true
    · rw [if_pos h, if_pos h]
      exact ih
    · rw [if_neg h, if_neg h]
      simp only [List.cons_append, List.nil_append, Image.sections, ih]

theorem sections_append_of_forall {ds ds' : List Directive}
    (h : ∀ d ∈ ds, ∀ value, d ≠ .assertCounter value) :
    Image.sections (ds ++ ds') = Image.sections ds' := by
  induction ds with
  | nil => rfl
  | cons d ds ih =>
    have ih := ih fun d' hd' => h d' (List.mem_cons_of_mem d hd')
    cases d with
    | assertCounter value => exact absurd rfl (h _ List.mem_cons_self value)
    | _ => exact ih

theorem sections_map_append {α : Type} {f : α → Directive}
    (hf : ∀ x value, f x ≠ .assertCounter value) (xs : List α) (ds : List Directive) :
    Image.sections (xs.map f ++ ds) = Image.sections ds := by
  refine sections_append_of_forall fun d hd value => ?_
  obtain ⟨x, -, rfl⟩ := List.mem_map.mp hd
  exact hf x value

/-- Constants, blank lines and symbols are no sections. -/
theorem sections_directives :
    Image.sections (w.directives path) = bankSections 0 w.allocator.banks := by
  have hblank : ∀ (c : Prop) [Decidable c] (ds : List Directive),
      Image.sections ((if c then [] else [.blank]) ++ ds) = Image.sections ds := by
    intro c _ ds
    split
    · rfl
    · rfl
  unfold directives
  simp only [List.append_assoc]
  rw [sections_map_append (by simp), hblank, sections_bankDirectives_append]
  show _ ++ Image.sections (w.tables.map _ ++ w.symbols.map _) = _
  rw [sections_map_append (by simp), ← List.append_nil (w.symbols.map _),
    sections_map_append (by simp)]
  exact List.append_nil _

theorem filterMap_bankDirectives {α : Type} {f : Directive → Option α}
    (hopen : ∀ name, f (.openNamespace name) = none)
    (hcounter : ∀ value, f (.assertCounter value) = none)
    (hinsert : ∀ path offset length, f (.insert path offset length) = none)
    (hclose : f .closeNamespace = none) :
    (bankDirectives path id offset bs).filterMap f = [] := by
  induction bs generalizing id offset with
  | nil => rfl
  | cons b bs ih =>
    rw [bankDirectives]
    split
    · simp [hopen, hcounter, hclose, ih]
    · simp [hopen, hcounter, hinsert, hclose, ih]

/-- The include file has the constants of the writer, then the lengths of its tables. -/
theorem constants_directives (binary : Bytes) :
    (Image.mk binary (w.directives path)).constants =
      w.constants ++ w.tables.map fun t => (s!"{t.1}.count", (t.2 : Int)) := by
  have hbanks : (bankDirectives path 0 0 w.allocator.banks).filterMap Directive.constant? = [] :=
    filterMap_bankDirectives (fun _ => rfl) (fun _ => rfl) (fun _ _ _ => rfl) rfl
  have hblank : (if w.constants.isEmpty then [] else [Directive.blank]).filterMap
      Directive.constant? = [] := by
    split
    · rfl
    · rfl
  unfold Image.constants directives
  simp only [List.filterMap_append, hbanks, hblank, List.filterMap_map]
  simp [Function.comp_def, Directive.constant?]

theorem symbols_directives (binary : Bytes) :
    (Image.mk binary (w.directives path)).symbols = w.symbols := by
  have hbanks : (bankDirectives path 0 0 w.allocator.banks).filterMap Directive.address? = [] :=
    filterMap_bankDirectives (fun _ => rfl) (fun _ => rfl) (fun _ _ _ => rfl) rfl
  have hblank : (if w.constants.isEmpty then [] else [Directive.blank]).filterMap
      Directive.address? = [] := by
    split
    · rfl
    · rfl
  unfold Image.symbols directives
  simp only [List.filterMap_append, hbanks, hblank, List.filterMap_map]
  simp [Function.comp_def, Directive.address?]

end Directives

/-! ## Data of banks -/

section Banks

variable {path : String} {offset : Nat} {bs : List Bank} {b : Bank} {w : Writer}

/-- A section stands for a bank, and shows where its data begins. -/
theorem exists_bank_of_mem_bankSections {s : Section} (h : s ∈ bankSections offset bs) :
    ∃ (n : Nat) (b : Bank), bs[n]? = some b ∧ s.start = b.start ∧ s.length = b.data.size ∧
      ∃ front rest, bs.flatMap (fun b => b.data.toList) = front ++ b.data.toList ++ rest ∧
        s.offset = offset + front.length := by
  induction bs generalizing offset with
  | nil => exact absurd h (by simp [bankSections])
  | cons b bs ih =>
    rcases List.mem_append.mp h with h | h
    · split at h
      · exact absurd h (by simp)
      · rw [List.mem_singleton] at h
        subst h
        exact ⟨0, b, rfl, rfl, rfl, [], bs.flatMap fun b => b.data.toList, rfl, rfl⟩
    · obtain ⟨n, b', hb', hstart, hlength, front, rest, hdata, hoffset⟩ := ih h
      refine ⟨n + 1, b', hb', hstart, hlength, b.data.toList ++ front, rest, ?_, ?_⟩
      · rw [List.flatMap_cons, hdata]
        simp only [List.append_assoc]
      · have hsize : b.data.toList.length = b.data.size := Array.length_toList
        rw [hoffset, List.length_append, hsize, Nat.add_assoc]

/-- The section of a bank that has data shows where it begins. -/
theorem exists_mem_bankSections (offset : Nat) {n : Nat} (hb : bs[n]? = some b)
    (hpos : 0 < b.data.size) :
    ∃ front rest, bs.flatMap (fun b => b.data.toList) = front ++ b.data.toList ++ rest ∧
      ⟨b.start, offset + front.length, b.data.size⟩ ∈ bankSections offset bs := by
  induction bs generalizing offset n with
  | nil => exact absurd hb (by simp)
  | cons b' bs ih =>
    rw [bankSections]
    cases n with
    | zero =>
      obtain rfl := Option.some.inj hb
      have hne : ¬ b'.data.isEmpty = true := by
        rw [Array.isEmpty_iff_size_eq_zero]
        omega
      rw [if_neg hne]
      exact ⟨[], bs.flatMap fun b => b.data.toList, rfl, List.mem_append_left _ List.mem_cons_self⟩
    | succ n =>
      obtain ⟨front, rest, hdata, hs⟩ := ih (offset + b'.data.size) hb
      have hsize : b'.data.toList.length = b'.data.size := Array.length_toList
      refine ⟨b'.data.toList ++ front, rest, ?_, List.mem_append_right _ ?_⟩
      · rw [List.flatMap_cons, hdata]
        simp only [List.append_assoc]
      · rw [List.length_append, hsize, ← Nat.add_assoc]
        exact hs

/-- Data inside of a piece is found behind what comes before the piece. -/
theorem take_drop_of_prefix {front piece rest data : Bytes} {k : Nat} (hk : k ≤ piece.length)
    (hpre : data <+: piece.drop k) :
    ((front ++ piece ++ rest).drop (front.length + k)).take data.length = data := by
  obtain ⟨suffix, hsuffix⟩ := hpre
  rw [List.append_assoc, ← List.drop_drop, List.drop_left, List.drop_append_of_le_length hk,
    ← hsuffix, List.append_assoc, List.take_left]

/-- **What a bank holds is read back** from the image, by its address alone. -/
theorem read?_of_holds (hm : w.map.Valid) (hf : w.allocator.Fits w.map) {address : Nat}
    {data : Bytes} (hd : w.allocator.Holds address data) (hne : data ≠ []) :
    (Image.mk w.binary (w.directives path)).read? address data.length = some data := by
  obtain ⟨n, b, hb, hle, hpre⟩ := hd
  have hlen := hpre.length_le
  have hpos : 0 < data.length := List.length_pos_iff.mpr hne
  have hsize : b.data.toList.length = b.data.size := Array.length_toList
  rw [List.length_drop, hsize] at hlen
  have hbound := hf.size_le n b hb
  have hsections : Image.sections (w.directives path) = _ := sections_directives
  unfold Image.read?
  simp only [hsections]
  cases hfind : (bankSections 0 w.allocator.banks).find? (fun s =>
      decide (s.start ≤ address) && decide (address + data.length ≤ s.start + s.length)) with
  | none =>
    obtain ⟨front, rest, -, hs⟩ := exists_mem_bankSections 0 hb (by omega)
    have hnone := List.find?_eq_none.mp hfind _ hs
    simp only [Bool.and_eq_true, decide_eq_true_eq] at hnone
    omega
  | some s =>
    have hs := List.find?_some hfind
    simp only [Bool.and_eq_true, decide_eq_true_eq] at hs
    obtain ⟨m, b', hb', hstart, hlength, front, rest, hdata, hoffset⟩ :=
      exists_bank_of_mem_bankSections (List.mem_of_find?_eq_some hfind)
    -- the address is in the window of one bank only
    have hbound' := hf.size_le m b' hb'
    have hn := (List.getElem?_eq_some_iff.mp hb).1
    have hm' := (List.getElem?_eq_some_iff.mp hb').1
    rw [hf.length_eq] at hn hm'
    have hw := hf.start_eq n b hb
    have hw' := hf.start_eq m b' hb'
    have hstart' : w.map.bankAddress n ≤ address := by omega
    have hmn : m = n :=
      MemoryMap.eq_of_bankAddress_le hm hm' hn (by omega) (by omega) hstart' (by omega)
    subst hmn
    obtain rfl := Option.some.inj (hb.symm.trans hb')
    rw [Option.map_some, hoffset, hstart, Nat.zero_add, binary, hdata,
      take_drop_of_prefix (by omega) hpre]

end Banks

/-! ## Entries of tables -/

section Entries

variable {path name : String} {w : Writer} {items : List Bytes} {item : Bytes} {i address : Nat}

/-- **An entry of a table holds the low bytes of the address of its item.** -/
theorem itemAddress?_of_tabled (hm : w.map.Valid) (hs : w.Sound) (htable : w.Tabled items address)
    (hname : (Image.mk w.binary (w.directives path)).symbol? name = some address)
    (hi : items[i]? = some item) :
    ∃ a, w.address? item = some a ∧
      (Image.mk w.binary (w.directives path)).itemAddress? name i =
        some (ofLittleEndian (littleEndian 3 a)) := by
  obtain ⟨addresses, hitems, htable⟩ := htable
  obtain ⟨a, ha, haddress⟩ := exists_getElem?_of_forall₂ hitems hi
  obtain ⟨front, rest, heq, hlen⟩ :=
    exists_flatMap_eq (f := fun address : Nat => littleEndian 3 address)
      (fun _ => littleEndian_length 3 _) ha
  have hholds := hs.holds _ _ htable
  rw [tableBytes, heq] at hholds
  have hentry := hholds.part
  rw [hlen] at hentry
  have hread : (Image.mk w.binary (w.directives path)).read? _ _ = _ :=
    read?_of_holds hm hs.fits hentry (by simp [littleEndian])
  rw [littleEndian_length] at hread
  refine ⟨a, haddress, ?_⟩
  simp [Image.itemAddress?, hname, hread]

/-- An address in a bank fits into an entry. -/
theorem lt_of_holds (hm : w.map.Valid) (hs : w.Sound) (hd : w.allocator.Holds address item)
    (hne : item ≠ []) : address < 0x1000000 := by
  obtain ⟨n, b, hb, hle, hpre⟩ := hd
  have hlen := hpre.length_le
  have hpos : 0 < item.length := List.length_pos_iff.mpr hne
  have hsize : b.data.toList.length = b.data.size := Array.length_toList
  rw [List.length_drop, hsize] at hlen
  have hbound := hs.fits.size_le n b hb
  have hn := (List.getElem?_eq_some_iff.mp hb).1
  rw [hs.fits.length_eq] at hn
  have hstart := hs.fits.start_eq n b hb
  have hend := MemoryMap.bankAddress_add_bankSize_le hm hn
  omega

/-- An entry leads to its item. -/
theorem read?_itemAddress (hm : w.map.Valid) (hs : w.Sound) (hitem : w.address? item = some address)
    (hne : item ≠ []) :
    (Image.mk w.binary (w.directives path)).read? (ofLittleEndian (littleEndian 3 address))
      item.length = some item := by
  have hholds := hs.holds item address hitem
  rw [ofLittleEndian_littleEndian (lt_of_holds hm hs hholds hne)]
  exact read?_of_holds hm hs.fits hholds hne

end Entries

end Writer

end Cartridge
