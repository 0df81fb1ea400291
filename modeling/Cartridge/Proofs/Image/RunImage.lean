import Cartridge.Proofs.Image.WriterRun

/-!
# The image behind a run

An image is made behind every run, and it agrees with the answers of the run (`finish_run`): the
parts of the image tile it in the order of the banks, all data is found in the one bank that has its
addresses, and the include file ends with the tables and the symbols in the order in which they were
made.
-/

namespace Cartridge

/-- What a directive inserts: a path, and the offset and length of a part of that file. -/
def Directive.insert? : Directive → Option (String × Nat × Nat)
  | insert path offset length => some (path, offset, length)
  | _ => none

/-- The sections follow each other from one offset to another, and none of them is empty. -/
def Section.Tile : Nat → List Section → Nat → Prop
  | offset, [], stop => offset = stop
  | offset, s :: ss, stop =>
    s.offset = offset ∧ 0 < s.length ∧ Tile (offset + s.length) ss stop

/-! ## Lines of the include file -/

namespace IncludeFile

/-- The number of open namespaces behind directives. -/
def depthBehind (depth : Nat) (ds : List Directive) : Nat :=
  ds.foldl (fun depth d => d.depthAfter depth) depth

theorem lines_append (depth : Nat) (ds ds' : List Directive) :
    lines depth (ds ++ ds') = lines depth ds ++ lines (depthBehind depth ds) ds' := by
  induction ds generalizing depth with
  | nil => rfl
  | cons d ds ih =>
    rw [List.cons_append, lines, ih, lines, List.cons_append]
    rfl

theorem depthBehind_append (depth : Nat) (ds ds' : List Directive) :
    depthBehind depth (ds ++ ds') = depthBehind (depthBehind depth ds) ds' :=
  List.foldl_append

theorem depthBehind_map {α : Type} {f : α → Directive} (depth : Nat)
    (hf : ∀ x, (f x).depthAfter depth = depth) (xs : List α) :
    depthBehind depth (xs.map f) = depth := by
  induction xs with
  | nil => rfl
  | cons x xs ih =>
    have hx : depthBehind depth ((x :: xs).map f) =
        depthBehind ((f x).depthAfter depth) (xs.map f) := rfl
    rw [hx, hf, ih]

/-- Outside of namespaces a line is not indented. -/
theorem lines_map {α : Type} {f : α → Directive} (hf : ∀ x, (f x).depthAfter 0 = 0)
    (hi : ∀ x, (f x).indentation 0 = 0) (xs : List α) :
    lines 0 (xs.map f) = xs.map fun x => (f x).line := by
  induction xs with
  | nil => rfl
  | cons x xs ih =>
    rw [List.map_cons, lines, hf, hi, ih, List.map_cons]
    simp

end IncludeFile

namespace Writer

section Depth

variable {path : String} {id offset : Nat} {bs : List Bank} {w : Writer}

/-- The namespace of every bank is closed again. -/
theorem depthBehind_bankDirectives :
    IncludeFile.depthBehind 0 (bankDirectives path id offset bs) = 0 := by
  induction bs generalizing id offset with
  | nil => rfl
  | cons b bs ih =>
    rw [bankDirectives, IncludeFile.depthBehind_append]
    have hbank : IncludeFile.depthBehind 0
        ([.openNamespace s!"RomData_Bank{id}", .assertCounter b.start] ++
          (if b.data.isEmpty then [] else [.insert path offset b.data.size]) ++
          [.closeNamespace]) = 0 := by
      split
      · rfl
      · rfl
    rw [hbank]
    exact ih

/-- What the include file says before the tables and symbols. -/
def preamble (w : Writer) (path : String) : List Directive :=
  w.constants.map (fun (name, value) => .constant name value) ++
    (if w.constants.isEmpty then [] else [.blank]) ++
    bankDirectives path 0 0 w.allocator.banks ++ [.blank]

theorem depthBehind_preamble : IncludeFile.depthBehind 0 (w.preamble path) = 0 := by
  have hconstants : IncludeFile.depthBehind 0
      (w.constants.map fun (name, value) => .constant name value) = 0 :=
    IncludeFile.depthBehind_map 0 (fun _ => rfl) _
  have hblank : IncludeFile.depthBehind 0 (if w.constants.isEmpty then [] else [.blank]) = 0 := by
    split
    · rfl
    · rfl
  rw [preamble, IncludeFile.depthBehind_append, IncludeFile.depthBehind_append,
    IncludeFile.depthBehind_append, hconstants, hblank, depthBehind_bankDirectives]
  rfl

theorem directives_eq : w.directives path = w.preamble path ++
    (w.tables.map (fun (name, count) => .constant s!"{name}.count" count) ++
      w.symbols.map fun (name, address) => .address name address) := by
  rw [directives, preamble]
  simp only [List.append_assoc]

/-- No address is exported before the symbols. -/
theorem filterMap_address?_preamble :
    (w.preamble path).filterMap Directive.address? = [] := by
  have hsymbols : (w.directives path).filterMap Directive.address? = w.symbols :=
    symbols_directives []
  have htail : (w.tables.map (fun (t : String × Nat) => Directive.constant s!"{t.1}.count" t.2) ++
      w.symbols.map fun (s : String × Nat) => Directive.address s.1 s.2).filterMap
        Directive.address? = w.symbols := by
    simp only [List.filterMap_append, List.filterMap_map]
    simp [Function.comp_def, Directive.address?]
  rw [directives_eq, List.filterMap_append] at hsymbols
  exact List.append_left_eq_self.mp (htail ▸ hsymbols)

theorem line_count (name count : String) :
    "constant " ++ (name ++ ".count") ++ " = " ++ count =
      "constant " ++ name ++ ".count = " ++ count := by
  have hsplit : ".count" ++ " = " = ".count = " := rfl
  rw [← hsplit]
  simp only [String.append_assoc]

/-- The include file ends with a line for every table, and then one for every symbol. -/
theorem lines_directives : IncludeFile.lines 0 (w.directives path) =
    IncludeFile.lines 0 (w.preamble path) ++
      (w.tables.map (fun t => s!"constant {t.1}.count = {t.2}") ++
        w.symbols.map fun s => s!"constant {s.1} = 0x{Text.hex 6 s.2}") := by
  have htables : IncludeFile.depthBehind 0
      (w.tables.map fun (name, count) => .constant s!"{name}.count" count) = 0 :=
    IncludeFile.depthBehind_map 0 (fun _ => rfl) _
  rw [directives_eq, IncludeFile.lines_append, depthBehind_preamble, IncludeFile.lines_append,
    htables, IncludeFile.lines_map (fun _ => rfl) (fun _ => rfl),
    IncludeFile.lines_map (fun _ => rfl) (fun _ => rfl)]
  refine congrArg _ (congrArg (· ++ _) (List.map_congr_left fun t _ => ?_))
  exact line_count t.1 (toString t.2)

end Depth

/-! ## Parts of the image -/

section Parts

variable {path : String} {id offset : Nat} {bs : List Bank} {w : Writer} {map : MemoryMap}

theorem tile_bankSections : Section.Tile offset (bankSections offset bs)
    (offset + (bs.flatMap fun b => b.data.toList).length) := by
  induction bs generalizing offset with
  | nil => rfl
  | cons b bs ih =>
    have hsize : b.data.toList.length = b.data.size := Array.length_toList
    have hrest : Section.Tile (offset + b.data.size) (bankSections (offset + b.data.size) bs) _ :=
      ih
    rw [List.flatMap_cons, List.length_append, hsize, ← Nat.add_assoc, bankSections]
    by_cases h : b.data.isEmpty = true
    · have hzero : b.data.size = 0 := Array.isEmpty_iff_size_eq_zero.mp h
      rw [if_pos h]
      rw [hzero] at hrest ⊢
      exact hrest
    · have hpos : b.data.size ≠ 0 := fun hc => h (Array.isEmpty_iff_size_eq_zero.mpr hc)
      rw [if_neg h]
      exact ⟨rfl, Nat.pos_of_ne_zero hpos, hrest⟩

/-- The sections are those of the banks that have data, in the order of the banks. -/
theorem map_bankSections : (bankSections offset bs).map (fun s => (s.start, s.length)) =
    (bs.map fun b => (b.start, b.data.size)).filter fun p => p.2 ≠ 0 := by
  induction bs generalizing offset with
  | nil => rfl
  | cons b bs ih =>
    rw [bankSections, List.map_append, ih, List.map_cons, List.filter_cons]
    by_cases h : b.data.isEmpty = true
    · have hzero : b.data.size = 0 := Array.isEmpty_iff_size_eq_zero.mp h
      simp [h, hzero]
    · have hpos : b.data.size ≠ 0 := fun hc => h (Array.isEmpty_iff_size_eq_zero.mpr hc)
      simp [h, hpos]

theorem filterMap_insert?_bankDirectives :
    (bankDirectives path id offset bs).filterMap Directive.insert? =
      (bankSections offset bs).map fun s => (path, s.offset, s.length) := by
  induction bs generalizing id offset with
  | nil => rfl
  | cons b bs ih =>
    rw [bankDirectives, bankSections]
    by_cases h : b.data.isEmpty = true
    · rw [if_pos h, if_pos h]
      exact ih
    · rw [if_neg h, if_neg h]
      exact congrArg (List.cons _) ih

/-- Nothing but the data of banks is inserted. -/
theorem filterMap_insert?_directives :
    (w.directives path).filterMap Directive.insert? =
      (Image.sections (w.directives path)).map fun s => (path, s.offset, s.length) := by
  have hblank : (if w.constants.isEmpty then [] else [Directive.blank]).filterMap
      Directive.insert? = [] := by
    split
    · rfl
    · rfl
  have hbanks : (bankDirectives path 0 0 w.allocator.banks).filterMap Directive.insert? = _ :=
    filterMap_insert?_bankDirectives
  rw [sections_directives, ← hbanks, directives]
  simp only [List.filterMap_append, hblank, List.filterMap_map]
  simp [Function.comp_def, Directive.insert?]

/-- The banks of a map with the bytes that are used in them. -/
theorem map_banks_of_fits {a : Allocator} (hf : a.Fits map) :
    a.banks.map (fun b => (b.start, b.data.size)) =
      ((List.range map.bankCount).map map.bankAddress).zip a.used := by
  have hstart : a.banks.map Bank.start = (List.range map.bankCount).map map.bankAddress := by
    have hlen : (a.banks.map Bank.start).length = map.bankCount := by
      rw [List.length_map, hf.length_eq]
    refine (map_range_eq hlen fun n start hn => ?_).symm
    rw [List.getElem?_map] at hn
    obtain ⟨b, hb, rfl⟩ := Option.map_eq_some_iff.mp hn
    exact (hf.start_eq n b hb).symm
  rw [← hstart, Allocator.used, List.zip_map']

end Parts

end Writer

/-! ## Data in the image -/

/-- The window of bank `n` contains the addresses. -/
def MemoryMap.Window (map : MemoryMap) (address size n : Nat) : Prop :=
  n < map.bankCount ∧ map.bankAddress n ≤ address ∧
    address + size ≤ map.bankAddress n + map.bankSize

theorem MemoryMap.Window.unique {map : MemoryMap} (hm : map.Valid) {address size m n : Nat}
    (hpos : 0 < size) (h : map.Window address size m) (h' : map.Window address size n) :
    m = n := by
  obtain ⟨hmc, hmle, hmend⟩ := h
  obtain ⟨hnc, hnle, hnend⟩ := h'
  exact eq_of_bankAddress_le hm hmc hnc hmle (by omega) hnle (by omega)

namespace Image

/-- The data is found at its address: one bank alone has the addresses in its window, and its part
of the image holds the data there. -/
def Locates (image : Image) (map : MemoryMap) (p : Allocator.Placement) : Prop :=
  ∃ n, map.Window p.address p.data.length n ∧
    (∀ m, map.Window p.address p.data.length m → m = n) ∧
    ∃ s ∈ sections image.directives, s.start = map.bankAddress n ∧
      (image.binary.drop (s.offset + (p.address - s.start))).take p.data.length = p.data

end Image

namespace Writer

open Allocator (Placement)

theorem locates_of_holds {w : Writer} {map : MemoryMap} {path : String} {p : Placement}
    (hm : map.Valid) (hf : w.allocator.Fits map) (hd : w.allocator.Holds p.address p.data)
    (hne : p.data ≠ []) : (Image.mk w.binary (w.directives path)).Locates map p := by
  obtain ⟨n, b, hb, hle, hpre⟩ := hd
  have hlen := hpre.length_le
  have hpos : 0 < p.data.length := List.length_pos_iff.mpr hne
  have hsize : b.data.toList.length = b.data.size := Array.length_toList
  rw [List.length_drop, hsize] at hlen
  have hbound := hf.size_le n b hb
  have hstart := hf.start_eq n b hb
  have hn := (List.getElem?_eq_some_iff.mp hb).1
  rw [hf.length_eq] at hn
  have hwindow : map.Window p.address p.data.length n := ⟨hn, by omega, by omega⟩
  obtain ⟨front, rest, hdata, hs⟩ := exists_mem_bankSections 0 hb (by omega)
  refine ⟨n, hwindow, fun m h => h.unique hm hpos hwindow,
    ⟨b.start, 0 + front.length, b.data.size⟩, ?_, hstart, ?_⟩
  · rw [sections_directives]
    exact hs
  · have hk : p.address - b.start ≤ b.data.toList.length := by omega
    rw [Nat.zero_add, binary, hdata]
    exact take_drop_of_prefix hk hpre

/-! ## The image behind a run -/

/-- What an image says of the run before it. -/
structure Agrees (map : MemoryMap) (path : String) (rs : List Request) (image : Image) : Prop where
  tile : Section.Tile 0 (Image.sections image.directives) image.binary.length
  banks : (Image.sections image.directives).map (fun s => (s.start, s.length)) =
    (((List.range map.bankCount).map map.bankAddress).zip
      ((new map).run rs).allocator.used).filter fun p => p.2 ≠ 0
  inserted : image.directives.filterMap Directive.insert? =
    (Image.sections image.directives).map fun s => (path, s.offset, s.length)
  located : ∀ p ∈ (new map).collect served rs, p.data ≠ [] → image.Locates map p
  constants_eq : image.constants = (new map).collect (fun _ r => r.declared) rs ++
    ((new map).collect tabled rs).map fun t => (s!"{t.1}.count", (t.2 : Int))
  symbols_eq : image.symbols = (new map).collect exported rs
  directives_eq : ∃ front, front.filterMap Directive.address? = [] ∧
    image.directives = front ++
      (((new map).collect tabled rs).map (fun t => .constant s!"{t.1}.count" t.2) ++
        ((new map).collect exported rs).map fun s => .address s.1 s.2) ∧
    IncludeFile.lines 0 image.directives = IncludeFile.lines 0 front ++
      (((new map).collect tabled rs).map (fun t => s!"constant {t.1}.count = {t.2}") ++
        ((new map).collect exported rs).map fun s => s!"constant {s.1} = 0x{Text.hex 6 s.2}")

/-- **An image is made behind every run, and agrees with its answers.** -/
theorem finish_run {map : MemoryMap} (hm : map.Valid) (path : String) (rs : List Request) :
    ∃ image, ((new map).run rs).finish path = .ok image ∧ Agrees map path rs image := by
  have hgrows := grows_run (new map) rs
  have hsound : ((new map).run rs).Sound := hgrows.sound (sound_new map)
  have hf : ((new map).run rs).allocator.Fits map := by
    have hfits := hsound.fits
    rw [hgrows.map_eq] at hfits
    exact hfits
  have hfinish : ((new map).run rs).finish path = .ok
      ⟨((new map).run rs).binary, ((new map).run rs).directives path⟩ := by
    rw [finish, hf.checkCapacity]
  have hconstants := constants_run (new map) rs
  have hsymbols := symbols_run (new map) rs
  have htables := tables_run (new map) rs
  refine ⟨_, hfinish, ?_, ?_, filterMap_insert?_directives, fun p hp hne => ?_, ?_, ?_, ?_⟩
  · have htile : Section.Tile 0 (bankSections 0 ((new map).run rs).allocator.banks) _ :=
      tile_bankSections
    rw [Nat.zero_add] at htile
    rw [sections_directives]
    exact htile
  · rw [sections_directives, map_bankSections, map_banks_of_fits hf]
  · exact locates_of_holds hm hf (holds_of_mem_served (sound_new map) hp) hne
  · rw [constants_directives, hconstants, htables]
    rfl
  · rw [symbols_directives, hsymbols]
    rfl
  · refine ⟨((new map).run rs).preamble path, filterMap_address?_preamble,
      directives_eq.trans ?_, lines_directives.trans ?_⟩
    · rw [hsymbols, htables]
      rfl
    · rw [hsymbols, htables]
      rfl

/-- Data is shared between a name and a table, and one request is refused. -/
theorem agrees_shared : (MemoryMap.mk .low 0x80 1).Valid ∧
    (new (MemoryMap.mk .low 0x80 1)).collect exported
      [.named "song" [1, 2], .fixed "tiles" 7 [3], .table "songs" [[4], [1, 2]]] =
      [("song", 0x808000), ("songs", 0x808003)] ∧
    ∃ image, ((new (MemoryMap.mk .low 0x80 1)).run
      [.named "song" [1, 2], .fixed "tiles" 7 [3], .table "songs" [[4], [1, 2]]]).finish "rom.bin" =
        .ok image ∧
      Agrees (MemoryMap.mk .low 0x80 1) "rom.bin"
        [.named "song" [1, 2], .fixed "tiles" 7 [3], .table "songs" [[4], [1, 2]]] image :=
  ⟨by decide, by decide +kernel, finish_run (by decide) _ _⟩

end Writer

end Cartridge
