import Cartridge.Proofs.Image.Reading
import Cartridge.Proofs.Project.Acceptance

/-!
# The image of a project

The image of a project leads back to the project (`compile_decodes`): the include file exports the
length of every list, entry `i` of a table leads to the bytes of item `i`, equal items share their
entries across all tables, and tile data starts its bank.
-/

namespace Cartridge

namespace Project

/-! ## What the writer is asked for -/

section Requests

variable (p : Project) (e : Encoding)

/-- The constants that are exported before the data: those of the project, then the opcodes. -/
def ownConstants : List (String × Int) :=
  p.constants ++
    e.instructions.entries.map (fun entry =>
      (s!"Project.Bytecode.{entry.instruction.name}", (entry.opcode : Int))) ++
    [("Project.Bytecode.N_OPCODES", (e.instructions.opcodeCount : Int))]

def tileRequests : List Writer.Request :=
  match p.tileData with
  | none => []
  | some tiles => [.fixed "Project.TileData" tiles.bank tiles.data]

/-- The tables, with their items in the order of declaration. -/
def tables : List (String × List Bytes) :=
  [("Project.PaletteList", p.palettes.map BinaryResource.data),
    ("Project.MetaTileTilesetList", p.tilesets.map BinaryResource.data),
    ("Project.FrameSetList", p.frameSets.map FrameSet.data),
    ("Project.EntityList", e.entities),
    ("Project.ProjectileList", e.projectiles),
    ("Project.PlayerList", e.players),
    ("Project.RoomList", e.rooms)]

/-- The lengths of the lists that have a table. -/
def listLengths : List (String × Nat) :=
  [("Project.PaletteList", p.palettes.length),
    ("Project.MetaTileTilesetList", p.tilesets.length),
    ("Project.FrameSetList", p.frameSets.length),
    ("Project.EntityList", p.entities.length),
    ("Project.ProjectileList", p.projectiles.length),
    ("Project.PlayerList", p.players.length),
    ("Project.RoomList", p.rooms.length)]

theorem requests_eq : p.requests e =
    (p.ownConstants e).map (fun c => .constant c.1 c.2) ++
      (p.tileRequests ++ (p.tables e).map fun t => .table t.1 t.2) := by
  unfold requests ownConstants tileRequests
  simp only [List.map_append, List.map_map, List.append_assoc]
  rfl

theorem tables_nodup : ((p.tables e).map Prod.fst).Nodup := by
  show ["Project.PaletteList", "Project.MetaTileTilesetList", "Project.FrameSetList",
    "Project.EntityList", "Project.ProjectileList", "Project.PlayerList",
    "Project.RoomList"].Nodup
  decide

theorem tileData_notMem_tables : "Project.TileData" ∉ (p.tables e).map Prod.fst := by
  show "Project.TileData" ∉ ["Project.PaletteList", "Project.MetaTileTilesetList",
    "Project.FrameSetList", "Project.EntityList", "Project.ProjectileList", "Project.PlayerList",
    "Project.RoomList"]
  decide

end Requests

/-! ## What the writer has done -/

section Placing

/-- The records of a project, in the order of declaration. -/
structure Records (p : Project) (e : Encoding) : Prop where
  entities : e.entities = p.entities.map (Entry.encode p.entryContext)
  projectiles : e.projectiles = p.projectiles.map (Entry.encode p.entryContext)
  players : e.players = p.players.map (Entry.encode p.entryContext)
  rooms : List.Forall₂
    (fun room record => (room.encode (p.roomContext e.instructions)).result = .ok record)
    p.rooms e.rooms

/-- What can be told from the image and the include file of a project. -/
structure Decodes (p : Project) (e : Encoding) (image : Image) : Prop where
  constants_eq : image.constants = p.ownConstants e ++
    p.listLengths.map fun l => (s!"{l.1}.count", (l.2 : Int))
  entry : ∀ t ∈ p.tables e, ∀ i item, t.2[i]? = some item →
    ∃ address, image.itemAddress? t.1 i = some address ∧
      (item ≠ [] → image.read? address item.length = some item)
  shared : ∀ t ∈ p.tables e, ∀ t' ∈ p.tables e, ∀ i j item, t.2[i]? = some item →
    t'.2[j]? = some item → image.itemAddress? t.1 i = image.itemAddress? t'.1 j
  tiles : ∀ tiles, p.tileData = some tiles →
    image.symbol? "Project.TileData" = some (p.map.bankAddress tiles.bank) ∧
      (tiles.data ≠ [] →
        image.read? (p.map.bankAddress tiles.bank) tiles.data.length = some tiles.data)

variable {p : Project} {e : Encoding}

theorem Accepted.records (h : p.Accepted e) : p.Records e :=
  ⟨h.entities.1, h.projectiles.1, h.players.1, h.rooms.imp fun _ _ hr => hr.1⟩

theorem Records.listLengths_eq (h : p.Records e) :
    (p.tables e).map (fun t => (t.1, t.2.length)) = p.listLengths := by
  simp [tables, listLengths, h.entities, h.projectiles, h.players, h.rooms.length_eq]

/-- The first symbol with the name of a table is that of the table. -/
theorem exists_find?_zip {ts : List (String × List Bytes)} {addresses : List Nat}
    {R : String × List Bytes → Nat → Prop} (h : List.Forall₂ R ts addresses)
    (hn : (ts.map Prod.fst).Nodup) {t : String × List Bytes} (ht : t ∈ ts) :
    ∃ address, R t address ∧
      ((ts.map Prod.fst).zip addresses).find? (fun s => s.1 == t.1) = some (t.1, address) := by
  induction h with
  | nil => exact absurd ht List.not_mem_nil
  | @cons t₀ address ts addresses hR _ ih =>
    rw [List.map_cons, List.nodup_cons] at hn
    rw [List.map_cons, List.zip_cons_cons, List.find?_cons]
    rcases List.mem_cons.mp ht with rfl | ht
    · exact ⟨address, hR, by simp⟩
    -- no other table has the name
    · have hne : (t₀.1 == t.1) = false := by
        rw [beq_eq_false_iff_ne]
        intro heq
        exact hn.1 (heq ▸ List.mem_map_of_mem ht)
      simp only [hne]
      exact ih hn.2 ht

/-- The symbol of the tile data. -/
def tileSymbols (p : Project) : List (String × Nat) :=
  match p.tileData with
  | none => []
  | some tiles => [("Project.TileData", p.map.bankAddress tiles.bank)]

/-- What holds of the writer behind the requests of a project. -/
structure Placed (p : Project) (e : Encoding) (w : Writer) : Prop where
  sound : w.Sound
  map_eq : w.map = p.map
  constants_eq : w.constants = p.ownConstants e
  tables_eq : w.tables = (p.tables e).map fun t => (t.1, t.2.length)
  symbols_eq : ∃ addresses,
    List.Forall₂ (fun t address => w.Tabled t.2 address) (p.tables e) addresses ∧
      w.symbols = p.tileSymbols ++ ((p.tables e).map Prod.fst).zip addresses
  tiles : ∀ tiles, p.tileData = some tiles →
    w.allocator.Holds (p.map.bankAddress tiles.bank) tiles.data

theorem performAll_tileRequests {w w' : Writer} (hmap : w.map = p.map)
    (h : w.performAll p.tileRequests = (.ok (), w')) :
    w.Keeps w' ∧ w'.constants = w.constants ∧ w'.tables = w.tables ∧
      w'.symbols = w.symbols ++ p.tileSymbols ∧
      ∀ tiles, p.tileData = some tiles →
        w'.allocator.Holds (p.map.bankAddress tiles.bank) tiles.data := by
  unfold tileRequests at h
  unfold tileSymbols
  cases htiles : p.tileData with
  | none =>
    rw [htiles] at h
    obtain ⟨-, rfl⟩ := Prod.mk.inj h
    exact ⟨.refl w, rfl, rfl, (List.append_nil _).symm, fun tiles ht => absurd ht (by simp)⟩
  | some tiles =>
    rw [htiles] at h
    simp only [Writer.performAll, Writer.perform, Writer.perform.addressed] at h
    rcases hf : w.addFixed "Project.TileData" tiles.bank tiles.data with ⟨cause | address, w₁⟩
    · rw [hf] at h
      exact absurd (Prod.mk.inj h).1 (by simp)
    · rw [hf] at h
      obtain ⟨-, rfl⟩ := Prod.mk.inj h
      obtain ⟨hk, hholds, hconstants, hsymbols, htables⟩ := Writer.keeps_of_addFixed hf
      rw [hmap] at hholds hsymbols
      refine ⟨hk, hconstants, htables, hsymbols, fun tiles' ht => ?_⟩
      obtain rfl := Option.some.inj ht
      exact hholds

theorem placed_of_performAll {w : Writer}
    (h : (Writer.new p.map).performAll (p.requests e) = (.ok (), w)) : p.Placed e w := by
  rw [requests_eq] at h
  obtain ⟨w₁, hconstants, h⟩ := Writer.performAll_append h
  rw [Writer.performAll_constants] at hconstants
  obtain ⟨-, rfl⟩ := Prod.mk.inj hconstants
  obtain ⟨w₂, htiles, h⟩ := Writer.performAll_append h
  obtain ⟨hk₂, hc₂, ht₂, hs₂, hholds⟩ := performAll_tileRequests rfl htiles
  obtain ⟨hk, hc, ht, addresses, htabled, hs⟩ := Writer.performAll_tables h
  have hsound := Writer.sound_new p.map
  refine ⟨hk.sound (hk₂.sound ⟨hsound.fits, hsound.holds⟩), hk.map_eq.trans hk₂.map_eq, ?_, ?_,
    ⟨addresses, htabled, ?_⟩, fun tiles hd => (hholds tiles hd).mono hk.extended⟩
  · rw [hc, hc₂]
    rfl
  · rw [ht, ht₂]
    rfl
  · rw [hs, hs₂]
    rfl

end Placing

/-! ## What the image says -/

section Reading

variable {p : Project} {e : Encoding} {w : Writer} {path : String}

theorem Placed.symbol? (hw : p.Placed e w) {t : String × List Bytes} (ht : t ∈ p.tables e) :
    ∃ address, w.Tabled t.2 address ∧
      (Image.mk w.binary (w.directives path)).symbol? t.1 = some address := by
  obtain ⟨addresses, hall, hsymbols⟩ := hw.symbols_eq
  obtain ⟨address, htabled, hfind⟩ := exists_find?_zip hall (p.tables_nodup e) ht
  refine ⟨address, htabled, ?_⟩
  -- the symbol of the tile data comes first, under a name of its own
  have htile : (p.tileSymbols.find? fun s => s.1 == t.1) = none := by
    have hne : t.1 ≠ "Project.TileData" := by
      intro heq
      exact p.tileData_notMem_tables e (heq ▸ List.mem_map_of_mem ht)
    unfold tileSymbols
    cases p.tileData with
    | none => rfl
    | some tiles => simp [Ne.symm hne]
  rw [Image.symbol?, Writer.symbols_directives, hsymbols, List.find?_append, htile,
    Option.none_or, hfind, Option.map_some]

theorem Placed.itemAddress? (hm : p.map.Valid) (hw : p.Placed e w) {t : String × List Bytes}
    (ht : t ∈ p.tables e) {i : Nat} {item : Bytes} (hi : t.2[i]? = some item) :
    ∃ a, w.address? item = some a ∧
      (Image.mk w.binary (w.directives path)).itemAddress? t.1 i =
        some (ofLittleEndian (littleEndian 3 a)) := by
  obtain ⟨address, htabled, hsymbol⟩ := hw.symbol? ht
  exact Writer.itemAddress?_of_tabled (hw.map_eq ▸ hm) hw.sound htabled hsymbol hi

theorem Placed.decodes (hm : p.map.Valid) (hw : p.Placed e w) (hr : p.Records e) :
    p.Decodes e (Image.mk w.binary (w.directives path)) := by
  have hvalid : w.map.Valid := hw.map_eq ▸ hm
  refine ⟨?_, fun t ht i item hi => ?_, fun t ht t' ht' i j item hi hj => ?_,
    fun tiles htiles => ⟨?_, fun hne => ?_⟩⟩
  · rw [Writer.constants_directives, hw.constants_eq, hw.tables_eq, hr.listLengths_eq]
  · obtain ⟨a, ha, hentry⟩ := hw.itemAddress? hm ht hi
    exact ⟨_, hentry, fun hne => Writer.read?_itemAddress hvalid hw.sound ha hne⟩
  · obtain ⟨a, ha, hentry⟩ := hw.itemAddress? hm ht hi
    obtain ⟨a', ha', hentry'⟩ := hw.itemAddress? hm ht' hj
    obtain rfl := Option.some.inj (ha.symm.trans ha')
    rw [hentry, hentry']
  · obtain ⟨addresses, -, hsymbols⟩ := hw.symbols_eq
    rw [Image.symbol?, Writer.symbols_directives, hsymbols, tileSymbols, htiles]
    rfl
  · exact Writer.read?_of_holds hvalid hw.sound.fits (hw.tiles tiles htiles) hne

/-- A project that is compiled was encoded without an error, and the image is that of a writer that
has met all requests. -/
theorem exists_placed {c : Compiled} (h : (p.compile path).result = .ok c) :
    p.map.Valid ∧ ∃ e w, p.encode.Accepts e ∧ p.Placed e w ∧
      c.image = ⟨w.binary, w.directives path⟩ := by
  obtain ⟨hm, e, he, hplace⟩ := compile_eq_ok h
  obtain ⟨w, hw, hfinish⟩ := place_eq_ok hplace
  refine ⟨hm, e, w, he, placed_of_performAll hw, ?_⟩
  unfold Writer.finish at hfinish
  split at hfinish
  · exact absurd hfinish (by simp)
  · exact (Except.ok.inj hfinish).symm

theorem exists_decodes {c : Compiled} (h : (p.compile path).result = .ok c) :
    ∃ e, p.encode.Accepts e ∧ p.Decodes e c.image := by
  obtain ⟨hm, e, w, he, hw, himage⟩ := exists_placed h
  rw [himage]
  exact ⟨e, he, hw.decodes hm (accepted_of_encode he).records⟩

/-- **The image of a project leads back to its resources.** -/
theorem compile_decodes {c : Compiled} (h : (p.compile path).result = .ok c) :
    ∃ e, p.encode.result = .ok e ∧ p.Records e ∧ p.Decodes e c.image := by
  obtain ⟨e, he, hd⟩ := exists_decodes h
  exact ⟨e, he.1, (accepted_of_encode he).records, hd⟩

theorem decodes_sampleProject : ∃ c e, (sampleProject.compile "town.bin").result = .ok c ∧
    sampleProject.Records e ∧ sampleProject.Decodes e c.image := by
  obtain ⟨c, hc⟩ := exists_compile_sampleProject
  obtain ⟨e, -, hr, hd⟩ := compile_decodes hc
  exact ⟨c, e, hc, hr, hd⟩

end Reading

end Project

end Cartridge
