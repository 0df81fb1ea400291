import Cartridge.Proofs.Project.Decoding
import Cartridge.Proofs.Project.WellFormed

/-!
# References of entries

The records of entities, projectiles and players start with four bytes: the indexes of a function
table and of a frame set, a palette and the index of a frame.  The length of every list of resources
is checked, so the first two bytes are the indexes themselves; the length of the frames in a frame
set is not, so the fourth byte is the low byte of an index.

Main statement: `compile_entriesRefer`, the bytes that the image has for an entry lead to what the
entry names, and to its display frame if and only if it is one of the first 256 of its frame set.
-/

namespace Cartridge

/-! ## The bytes of a record -/

namespace Entry

/-- The bytes are the indexes of the function table and the frame set that the entry names, and a
palette of that frame set. -/
structure Refers (tables : List FunctionTable) (frameSets : List FrameSet) (e : Entry)
    (fs : FrameSet) (b0 b1 b2 : UInt8) : Prop where
  functionTable : ∃ ft, tables[b0.toNat]? = some ft ∧ ft.name = e.functionTable
  frameSet : frameSets[b1.toNat]? = some fs
  name_eq : fs.name = e.frameSet
  palette_eq : b2 = e.defaultPalette
  palette_lt : b2.toNat < fs.paletteCount.toNat

variable {ctx : EntryContext} {e : Entry}

/-- The record of an entry of which nothing is reported. -/
theorem exists_encode_eq (htables : ctx.functionTables.length ≤ 256)
    (hframeSets : ctx.frameSets.length ≤ 256) (h : e.problems ctx = []) :
    ∃ fs b0 b1 b2 b3 rest k, e.encode ctx = [b0, b1, b2, b3] ++ rest ∧
      e.Refers ctx.functionTables ctx.frameSets fs b0 b1 b2 ∧
      fs.frames.findIdx? (· == e.displayFrame) = some k ∧ b3.toNat = k % 256 := by
  obtain ⟨ft, i, fs, j, hft, hfs⟩ := exists_found_of_problems h
  obtain ⟨hframe, -⟩ := (problems_eq_nil_iff_of_found hft hfs).mp h
  obtain ⟨-, hpalette, hdisplay⟩ := frameProblems_eq_nil_iff.mp hframe
  obtain ⟨k, hk⟩ := exists_findIdx?_of_mem hdisplay
  obtain ⟨hi, hftName⟩ := getElem?_of_findNamed? hft
  obtain ⟨hj, hfsName⟩ := getElem?_of_findNamed? hfs
  have hilt := (List.getElem?_eq_some_iff.mp hi).1
  have hjlt := (List.getElem?_eq_some_iff.mp hj).1
  have hindex : e.displayIndex? ctx = some k := by
    rw [displayIndex?, hfs, Option.bind_some]
    exact hk
  obtain ⟨rest, hrest⟩ : ∃ rest,
      e.encode ctx = [byte i, byte j, e.defaultPalette, byte k] ++ rest := by
    rw [encode, hft, hfs, hindex]
    exact ⟨_, rfl⟩
  refine ⟨fs, byte i, byte j, e.defaultPalette, byte k, rest, k, hrest,
    ⟨⟨ft, ?_, hftName⟩, ?_, hfsName, rfl, hpalette⟩, hk, toNat_byte k⟩
  · rw [toNat_byte_of_lt (by omega)]
    exact hi
  · rw [toNat_byte_of_lt (by omega)]
    exact hj

end Entry

/-! ## Entries in the image -/

namespace Image

variable {image : Image} {table : String} {i : Nat} {bytes bytes' : Bytes}

/-- Entry `i` of a table leads to the bytes. -/
def LeadsTo (image : Image) (table : String) (i : Nat) (bytes : Bytes) : Prop :=
  ∃ address, image.itemAddress? table i = some address ∧
    image.read? address bytes.length = some bytes

theorem LeadsTo.unique (h : image.LeadsTo table i bytes) (h' : image.LeadsTo table i bytes')
    (hlen : bytes.length = bytes'.length) : bytes = bytes' := by
  obtain ⟨address, haddress, hread⟩ := h
  obtain ⟨address', haddress', hread'⟩ := h'
  obtain rfl := Option.some.inj (haddress.symm.trans haddress')
  rw [hlen] at hread
  exact Option.some.inj (hread.symm.trans hread')

end Image

namespace Project

/-- The tables that have the records of entries, with the entries. -/
def entryLists (p : Project) : List (String × List Entry) :=
  [("Project.EntityList", p.entities),
    ("Project.ProjectileList", p.projectiles),
    ("Project.PlayerList", p.players)]

/-- Entry `i` of a table leads to four bytes, of which the first three refer to the frame set and to
what else the entry names. -/
def EntryBytes (p : Project) (image : Image) (table : String) (i : Nat) (entry : Entry)
    (fs : FrameSet) (frame : UInt8) : Prop :=
  ∃ b0 b1 b2, image.LeadsTo table i [b0, b1, b2, frame] ∧
    entry.Refers p.functionTables p.frameSets fs b0 b1 b2

/-- The fourth byte is what one byte can hold of the index of the display frame. -/
def EntriesRefer (p : Project) (image : Image) : Prop :=
  ∀ l ∈ p.entryLists, ∀ (i : Nat) (entry : Entry), l.2[i]? = some entry →
    ∃ fs frame k, p.EntryBytes image l.1 i entry fs frame ∧
      fs.frames.findIdx? (· == entry.displayFrame) = some k ∧ frame.toNat = k % 256

/-- All four bytes of every entry are indexes of what the entry names. -/
def EntriesExact (p : Project) (image : Image) : Prop :=
  ∀ l ∈ p.entryLists, ∀ (i : Nat) (entry : Entry), l.2[i]? = some entry →
    ∃ fs frame, p.EntryBytes image l.1 i entry fs frame ∧
      fs.frames[frame.toNat]? = some entry.displayFrame

/-- Every entry uses one of the first 256 frames of its frame set. -/
def FramesIndexed (p : Project) : Prop :=
  ∀ l ∈ p.entryLists, ∀ entry ∈ l.2, ∀ fs ∈ p.frameSets, fs.name = entry.frameSet →
    entry.displayFrame ∈ fs.frames.take 256

section Compiled

variable {p : Project} {e : Encoding} {w : Writer} {path : String} {entry : Entry}

/-- The bytes that an item of a table starts with are read back, too. -/
theorem Placed.leadsTo (hm : p.map.Valid) (hw : p.Placed e w) {t : String × List Bytes}
    (ht : t ∈ p.tables e) {i : Nat} {front rest : Bytes} (hi : t.2[i]? = some (front ++ rest))
    (hne : front ≠ []) : (Image.mk w.binary (w.directives path)).LeadsTo t.1 i front := by
  have hvalid : w.map.Valid := hw.map_eq ▸ hm
  obtain ⟨a, ha, hentry⟩ := hw.itemAddress? hm ht hi
  have hholds := hw.sound.holds _ _ ha
  have hfront : w.allocator.Holds (a + ([] : Bytes).length) front := hholds.part
  rw [List.length_nil, Nat.add_zero] at hfront
  have hlt := Writer.lt_of_holds hvalid hw.sound hfront hne
  refine ⟨a, ?_, Writer.read?_of_holds hvalid hw.sound.fits hfront hne⟩
  rw [hentry, ofLittleEndian_littleEndian hlt]

/-- The records of entries, and that nothing is reported of them. -/
theorem Accepted.entries (h : p.Accepted e) {l : String × List Entry} (hl : l ∈ p.entryLists) :
    ((l.1, l.2.map (Entry.encode p.entryContext)) ∈ p.tables e) ∧
      ∀ entry ∈ l.2, entry.problems p.entryContext = [] := by
  have haccepted : ∀ {kind entries records}, p.EntriesAccepted kind entries records →
      ∀ entry ∈ entries, entry.problems p.entryContext = [] := fun ha =>
    (Entry.hasErrors_encodeEntries_eq_false_iff_problems.mp ha.2).2
  simp only [entryLists, List.mem_cons, List.not_mem_nil, or_false] at hl
  rcases hl with rfl | rfl | rfl
  · refine ⟨?_, haccepted h.entities⟩
    rw [← h.entities.1]
    simp [tables]
  · refine ⟨?_, haccepted h.projectiles⟩
    rw [← h.projectiles.1]
    simp [tables]
  · refine ⟨?_, haccepted h.players⟩
    rw [← h.players.1]
    simp [tables]

theorem Placed.entriesRefer (hm : p.map.Valid) (hw : p.Placed e w) (h : p.Accepted e) :
    p.EntriesRefer (Image.mk w.binary (w.directives path)) := by
  intro l hl i entry hi
  obtain ⟨htable, hproblems⟩ := h.entries hl
  have hentry := hproblems entry (List.mem_of_getElem? hi)
  have htables : p.entryContext.functionTables.length ≤ 256 :=
    h.size_le (.functionTable, p.functionTables.length) (by simp [indexedLists])
  have hframeSets : p.entryContext.frameSets.length ≤ 256 :=
    h.size_le (.frameSet, p.frameSets.length) (by simp [indexedLists])
  obtain ⟨fs, b0, b1, b2, b3, rest, k, hrecord, hrefers, hk, hb3⟩ :=
    Entry.exists_encode_eq htables hframeSets hentry
  have hitem : (l.2.map (Entry.encode p.entryContext))[i]? = some ([b0, b1, b2, b3] ++ rest) := by
    rw [List.getElem?_map, hi, Option.map_some, hrecord]
  exact ⟨fs, b3, k, ⟨b0, b1, b2, hw.leadsTo hm htable hitem (by simp), hrefers⟩, hk, hb3⟩

variable {image : Image} {table : String} {i : Nat} {fs fs' : FrameSet} {frame frame' : UInt8}

theorem EntryBytes.unique (h : p.EntryBytes image table i entry fs frame)
    (h' : p.EntryBytes image table i entry fs' frame') : fs = fs' ∧ frame = frame' := by
  obtain ⟨b0, b1, b2, hleads, hrefers⟩ := h
  obtain ⟨c0, c1, c2, hleads', hrefers'⟩ := h'
  obtain ⟨rfl, rfl, rfl, rfl⟩ : b0 = c0 ∧ b1 = c1 ∧ b2 = c2 ∧ frame = frame' := by
    simpa using hleads.unique hleads' rfl
  exact ⟨Option.some.inj (hrefers.frameSet.symm.trans hrefers'.frameSet), rfl⟩

theorem EntryBytes.mem (h : p.EntryBytes image table i entry fs frame) :
    fs ∈ p.frameSets ∧ fs.name = entry.frameSet := by
  obtain ⟨b0, b1, b2, -, hrefers⟩ := h
  exact ⟨List.mem_of_getElem? hrefers.frameSet, hrefers.name_eq⟩

theorem EntriesRefer.exact_iff (h : p.EntriesRefer image)
    (hn : (p.frameSets.map FrameSet.name).Nodup) : p.EntriesExact image ↔ p.FramesIndexed := by
  constructor
  · intro hexact l hl entry hmem fs hfs hname
    obtain ⟨i, hi⟩ := List.mem_iff_getElem?.mp hmem
    obtain ⟨found, frame, k, hbytes, hk, hframe⟩ := h l hl i entry hi
    obtain ⟨found', frame', hbytes', hget⟩ := hexact l hl i entry hi
    obtain ⟨rfl, rfl⟩ := hbytes.unique hbytes'
    obtain ⟨hmem', hname'⟩ := hbytes.mem
    obtain rfl := List.inj_on_of_nodup_map hn hfs hmem' (hname.trans hname'.symm)
    rw [hframe] at hget
    exact (getElem?_mod_iff_mem_take hk).mp hget
  · intro hframes l hl i entry hi
    obtain ⟨fs, frame, k, hbytes, hk, hframe⟩ := h l hl i entry hi
    obtain ⟨hmem, hname⟩ := hbytes.mem
    refine ⟨fs, frame, hbytes, ?_⟩
    rw [hframe]
    exact (getElem?_mod_iff_mem_take hk).mpr
      (hframes l hl entry (List.mem_of_getElem? hi) fs hmem hname)

theorem entriesRefer_of_compile {c : Compiled} (h : (p.compile path).result = .ok c) :
    p.EntriesRefer c.image ∧ (p.frameSets.map FrameSet.name).Nodup := by
  obtain ⟨hm, e, w, he, hw, himage⟩ := exists_placed h
  have haccepted := accepted_of_encode he
  rw [himage]
  exact ⟨hw.entriesRefer hm haccepted,
    (hasErrors_nameReport_eq_false_iff.mp haccepted.names).frameSets.nodup⟩

/-- **The bytes of an entry lead to what it names**, its display frame excepted if that is not one of
the first 256 of its frame set. -/
theorem compile_entriesRefer {c : Compiled} (h : (p.compile path).result = .ok c) :
    p.EntriesRefer c.image ∧ (p.EntriesExact c.image ↔ p.FramesIndexed) := by
  obtain ⟨hrefer, hnodup⟩ := entriesRefer_of_compile h
  exact ⟨hrefer, hrefer.exact_iff hnodup⟩

theorem entriesExact_sampleProject : ∃ c, (sampleProject.compile "town.bin").result = .ok c ∧
    sampleProject.EntriesExact c.image := by
  obtain ⟨c, hc⟩ := exists_compile_sampleProject
  have hframes : sampleProject.FramesIndexed := by
    unfold FramesIndexed
    decide
  exact ⟨c, hc, (compile_entriesRefer hc).2.mpr hframes⟩

/-- A frame set with 257 frames. -/
def crowdedFrameSet : FrameSet :=
  ⟨"props", "still", (List.range 256).map (fun n => s!"walk{n}") ++ ["front"], 1, []⟩

/-- The only entry uses the last frame. -/
def crowdedProject : Project where
  memoryMap := some ⟨.low, 0x80, 1⟩
  constants := []
  instructions := []
  gameState := .empty
  structs := []
  functionTables := [⟨"doors", none, "still"⟩]
  exportOrders := [⟨"still", ["front"]⟩]
  frameSets := [crowdedFrameSet]
  entities := [⟨"door", "doors", "props", 0, "front", []⟩]
  projectiles := []
  players := []
  palettes := []
  tilesets := []
  scenes := []
  rooms := []
  tileData := none

/-- The byte for frame 256 is that of frame 0. -/
theorem not_entriesExact_crowdedProject :
    ∃ c, (crowdedProject.compile "town.bin").result = .ok c ∧
      (∃ entry, crowdedProject.entities[0]? = some entry ∧
        crowdedProject.EntryBytes c.image "Project.EntityList" 0 entry crowdedFrameSet 0) ∧
      ¬ crowdedProject.EntriesExact c.image := by
  have hok : (crowdedProject.compile "town.bin").result.isOk = true := by decide +kernel
  have hindex : crowdedFrameSet.frames.findIdx? (· == "front") = some 256 := by decide +kernel
  obtain ⟨c, hc⟩ := Outcome.exists_result_eq_ok hok
  obtain ⟨hrefer, hnodup⟩ := entriesRefer_of_compile hc
  refine ⟨c, hc, ⟨_, rfl, ?_⟩, fun hexact => ?_⟩
  · obtain ⟨fs, frame, k, hbytes, hk, hframe⟩ :=
      hrefer _ List.mem_cons_self 0 _ rfl
    obtain rfl := List.mem_singleton.mp hbytes.mem.1
    obtain rfl := Option.some.inj (hk.symm.trans hindex)
    obtain rfl : frame = 0 := UInt8.toNat.inj hframe
    exact hbytes
  · have hmem := (hrefer.exact_iff hnodup).mp hexact _ List.mem_cons_self _ List.mem_cons_self
      crowdedFrameSet List.mem_cons_self rfl
    have hget := (getElem?_mod_iff_mem_take hindex).mpr hmem
    exact absurd hget (by decide +kernel)

end Compiled

end Project

end Cartridge
