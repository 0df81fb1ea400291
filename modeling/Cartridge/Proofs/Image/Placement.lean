import Mathlib.Data.List.Forall2
import Cartridge.Image.Writer
import Cartridge.Proofs.Image.Allocation

/-!
# What the writer keeps

In a sound writer contents are at the addresses that it has for them.  Requests for shared data, for
tables and for data at the start of a bank keep a writer sound, and nothing that it has written is
lost: contents stay where they are and keep their addresses (`Writer.Keeps`).  So equal items share
one address across all tables.

Main statement: `performAll_tables`, behind a list of tables every item is in the banks, and the
table over the items holds their addresses.
-/

namespace Cartridge

namespace Writer

/-- The banks are those of the map, and contents are where the writer says. -/
structure Sound (w : Writer) : Prop where
  fits : w.allocator.Fits w.map
  holds : ∀ data address, w.address? data = some address → w.allocator.Holds address data

/-- Nothing that has been written is lost. -/
structure Keeps (w w' : Writer) : Prop where
  sound : w.Sound → w'.Sound
  map_eq : w'.map = w.map
  extended : w.allocator.Extends w'.allocator
  remembers : ∀ data address, w.address? data = some address → w'.address? data = some address

section Keeps

variable {w w' w'' : Writer}

theorem sound_new (map : MemoryMap) : (new map).Sound :=
  ⟨Allocator.fits_new map, fun _ _ h => absurd h (by simp [new, address?])⟩

theorem Keeps.refl (w : Writer) : w.Keeps w := ⟨id, rfl, .refl _, fun _ _ h => h⟩

theorem Keeps.trans (h : w.Keeps w') (h' : w'.Keeps w'') : w.Keeps w'' :=
  ⟨h'.sound ∘ h.sound, h'.map_eq.trans h.map_eq, h.extended.trans h'.extended,
    fun data address hd => h'.remembers data address (h.remembers data address hd)⟩

/-- Exports and events have nothing to do with what is written. -/
theorem keeps_of_eq (hmap : w'.map = w.map) (ha : w'.allocator = w.allocator)
    (hp : w'.placed = w.placed) : w.Keeps w' := by
  have hfind : ∀ data, w'.address? data = w.address? data := by
    intro data
    rw [address?, address?, hp]
  refine ⟨fun hs => ⟨?_, fun data address h => ?_⟩, hmap, ?_, fun data address h => ?_⟩
  · rw [ha, hmap]
    exact hs.fits
  · rw [hfind] at h
    rw [ha]
    exact hs.holds data address h
  · rw [ha]
    exact .refl _
  · rw [hfind]
    exact h

end Keeps

/-! ## Single contents -/

section Contents

variable {w w' : Writer} {manner : Manner} {name : String} {data : Bytes} {address bank : Nat}
  {a : Allocator}

theorem address?_record (data' : Bytes) :
    (w.record manner data address a).address? data' =
      if data == data' then some address else w.address? data' := by
  unfold address? record
  rw [List.find?_cons]
  by_cases h : (data == data') = true
  · rw [h, if_pos rfl]
    rfl
  · rw [Bool.not_eq_true] at h
    rw [h, if_neg (by decide)]

/-- Data that has been placed, and whose address is remembered, keeps a writer sound. -/
theorem Sound.of_recorded (hs : w.Sound) (hm : w.allocator.Meets w'.allocator address data)
    (hmap : w'.map = w.map) (hknown : ∀ data', w'.address? data' =
      if data == data' then some address else w.address? data') : w'.Sound := by
  refine ⟨?_, fun data' address' h => ?_⟩
  · rw [hmap]
    exact hm.fits w.map hs.fits
  · rw [hknown] at h
    split at h
    next heq =>
      obtain rfl := Option.some.inj h
      obtain rfl := eq_of_beq heq
      exact hm.holds
    next => exact (hs.holds data' address' h).mono hm.extended

theorem keeps_record (hm : w.allocator.Meets a address data) (hnew : w.address? data = none) :
    w.Keeps (w.record manner data address a) := by
  refine ⟨fun hs => hs.of_recorded hm rfl address?_record, rfl, hm.extended,
    fun data' address' h => ?_⟩
  -- the data is new, so no address that was known is hidden
  rw [address?_record, if_neg ?_]
  · exact h
  · intro heq
    obtain rfl := eq_of_beq heq
    rw [hnew] at h
    exact absurd h (by simp)

/-- The exports of two writers are the same. -/
def SameExports (w w' : Writer) : Prop :=
  w'.constants = w.constants ∧ w'.symbols = w.symbols ∧ w'.tables = w.tables

theorem keeps_of_add (h : w.add data = (.ok address, w')) :
    w.Keeps w' ∧ w.SameExports w' ∧ w'.address? data = some address := by
  unfold add at h
  cases hknown : w.address? data with
  | some known =>
    rw [hknown] at h
    obtain ⟨hok, rfl⟩ := Prod.mk.inj h
    obtain rfl := Except.ok.inj hok
    exact ⟨keeps_of_eq rfl rfl rfl, ⟨rfl, rfl, rfl⟩, hknown⟩
  | none =>
    rw [hknown] at h
    simp only [place] at h
    rcases ha : w.allocator.add data with ⟨e | found, a⟩
    · rw [ha] at h
      exact absurd (Prod.mk.inj h).1 (by simp)
    · rw [ha] at h
      obtain ⟨hok, rfl⟩ := Prod.mk.inj h
      obtain rfl := Except.ok.inj hok
      refine ⟨keeps_record (Allocator.appends_of_add ha).meets hknown, ⟨rfl, rfl, rfl⟩, ?_⟩
      rw [address?_record, if_pos (beq_self_eq_true data)]

/-- Data at the start of a bank is exported, but not shared. -/
theorem keeps_of_addFixed (h : w.addFixed name bank data = (.ok address, w')) :
    w.Keeps w' ∧ w'.allocator.Holds (w.map.bankAddress bank) data ∧
      w'.constants = w.constants ∧ w'.symbols = w.symbols ++ [(name, w.map.bankAddress bank)] ∧
      w'.tables = w.tables := by
  unfold addFixed at h
  split at h
  · exact absurd (Prod.mk.inj h).1 (by simp)
  · simp only at h
    rcases ha : w.allocator.addFixed bank (w.map.bankAddress bank) data with ⟨e | ok, a⟩
    · rw [ha] at h
      exact absurd (Prod.mk.inj h).1 (by simp)
    · rw [ha] at h
      obtain ⟨-, rfl⟩ := Prod.mk.inj h
      have hm := (Allocator.appends_of_addFixed ha).meets
      refine ⟨⟨fun hs => ⟨hm.fits w.map hs.fits, fun data' address' h => ?_⟩, rfl, hm.extended,
        fun _ _ h => h⟩, hm.holds, rfl, rfl, rfl⟩
      exact (hs.holds data' address' h).mono hm.extended

end Contents

/-! ## Tables -/

section Tables

/-- Every item has the address beside it. -/
def Addressed (w : Writer) (items : List Bytes) (addresses : List Nat) : Prop :=
  List.Forall₂ (fun item address => w.address? item = some address) items addresses

/-- The items are placed, and so is the table of their addresses, at `address`. -/
def Tabled (w : Writer) (items : List Bytes) (address : Nat) : Prop :=
  ∃ addresses, w.Addressed items addresses ∧ w.address? (tableBytes addresses) = some address

variable {w w' : Writer} {name : String} {items : List Bytes} {addresses : List Nat}
  {address : Nat}

theorem Addressed.mono (h : w.Addressed items addresses) (hk : w.Keeps w') :
    w'.Addressed items addresses :=
  h.imp fun item address ha => hk.remembers item address ha

theorem Tabled.mono (h : w.Tabled items address) (hk : w.Keeps w') :
    w'.Tabled items address := by
  obtain ⟨addresses, hitems, htable⟩ := h
  exact ⟨addresses, hitems.mono hk, hk.remembers _ _ htable⟩

theorem keeps_of_addAll (h : w.addAll items = (.ok addresses, w')) :
    w.Keeps w' ∧ w.SameExports w' ∧ w'.Addressed items addresses := by
  induction items generalizing w addresses with
  | nil =>
    obtain ⟨hok, rfl⟩ := Prod.mk.inj h
    obtain rfl := Except.ok.inj hok
    exact ⟨.refl w, ⟨rfl, rfl, rfl⟩, .nil⟩
  | cons item items ih =>
    rw [addAll] at h
    rcases ha : w.add item with ⟨e | address, w₁⟩
    · rw [ha] at h
      exact absurd (Prod.mk.inj h).1 (by simp)
    · rw [ha] at h
      simp only at h
      rcases hall : w₁.addAll items with ⟨e | rest, w₂⟩
      · rw [hall] at h
        exact absurd (Prod.mk.inj h).1 (by simp)
      · rw [hall] at h
        obtain ⟨hok, rfl⟩ := Prod.mk.inj h
        obtain rfl := Except.ok.inj hok
        obtain ⟨hk₁, ⟨hc₁, hs₁, ht₁⟩, haddress⟩ := keeps_of_add ha
        obtain ⟨hk₂, ⟨hc₂, hs₂, ht₂⟩, hrest⟩ := ih hall
        exact ⟨hk₁.trans hk₂, ⟨hc₂.trans hc₁, hs₂.trans hs₁, ht₂.trans ht₁⟩,
          .cons (hk₂.remembers _ _ haddress) hrest⟩

theorem keeps_of_addTable (h : w.addTable name items = (.ok address, w')) :
    w.Keeps w' ∧ w'.Tabled items address ∧ w'.constants = w.constants ∧
      w'.symbols = w.symbols ++ [(name, address)] ∧
      w'.tables = w.tables ++ [(name, items.length)] := by
  unfold addTable at h
  rcases hall : w.addAll items with ⟨e | addresses, w₁⟩
  · rw [hall] at h
    exact absurd (Prod.mk.inj h).1 (by simp)
  · rw [hall] at h
    simp only [addNamed] at h
    rcases ha : w₁.add (tableBytes addresses) with ⟨e | found, w₂⟩
    · rw [ha] at h
      exact absurd (Prod.mk.inj h).1 (by simp)
    · rw [ha] at h
      simp only [named] at h
      obtain ⟨hok, hw⟩ := Prod.mk.inj h
      obtain rfl := Except.ok.inj hok
      obtain ⟨hk₁, ⟨hc₁, hs₁, ht₁⟩, hitems⟩ := keeps_of_addAll hall
      obtain ⟨hk₂, ⟨hc₂, hs₂, ht₂⟩, htable⟩ := keeps_of_add ha
      have hk : w₂.Keeps w' := by
        rw [← hw]
        exact keeps_of_eq rfl rfl rfl
      refine ⟨(hk₁.trans hk₂).trans hk,
        ⟨addresses, (hitems.mono hk₂).mono hk, hk.remembers _ _ htable⟩, ?_, ?_, ?_⟩
      · rw [← hw]
        exact hc₂.trans hc₁
      · rw [← hw, ← hs₁, ← hs₂]
        rfl
      · rw [← hw, ← ht₁, ← ht₂]
        rfl

end Tables

/-! ## Lists of requests -/

section Requests

variable {w w' : Writer}

theorem performAll_append {xs ys : List Request} (h : w.performAll (xs ++ ys) = (.ok (), w')) :
    ∃ w₁, w.performAll xs = (.ok (), w₁) ∧ w₁.performAll ys = (.ok (), w') := by
  induction xs generalizing w with
  | nil => exact ⟨w, rfl, h⟩
  | cons x xs ih =>
    rw [List.cons_append, performAll] at h
    rw [performAll]
    rcases hx : w.perform x with ⟨e | address, w₁⟩
    · rw [hx] at h
      exact absurd (Prod.mk.inj h).1 (by simp)
    · rw [hx] at h
      exact ih h

theorem performAll_constants (cs : List (String × Int)) :
    w.performAll (cs.map fun c => .constant c.1 c.2) =
      (.ok (), { w with constants := w.constants ++ cs }) := by
  induction cs generalizing w with
  | nil => rw [List.map_nil, performAll, List.append_nil]
  | cons c cs ih =>
    rw [List.map_cons, performAll]
    simp only [perform]
    rw [ih, addConstant, List.append_assoc, List.singleton_append]

theorem performAll_tables {ts : List (String × List Bytes)}
    (h : w.performAll (ts.map fun t => .table t.1 t.2) = (.ok (), w')) :
    w.Keeps w' ∧ w'.constants = w.constants ∧
      w'.tables = w.tables ++ ts.map (fun t => (t.1, t.2.length)) ∧
      ∃ addresses, List.Forall₂ (fun t address => w'.Tabled t.2 address) ts addresses ∧
        w'.symbols = w.symbols ++ (ts.map Prod.fst).zip addresses := by
  induction ts generalizing w with
  | nil =>
    obtain ⟨-, rfl⟩ := Prod.mk.inj h
    exact ⟨.refl w, rfl, by simp, [], .nil, by simp⟩
  | cons t ts ih =>
    rw [List.map_cons, performAll] at h
    simp only [perform, perform.addressed] at h
    rcases ht : w.addTable t.1 t.2 with ⟨e | address, w₁⟩
    · rw [ht] at h
      exact absurd (Prod.mk.inj h).1 (by simp)
    · rw [ht] at h
      obtain ⟨hk₁, htabled, hc₁, hs₁, ht₁⟩ := keeps_of_addTable ht
      obtain ⟨hk₂, hc₂, ht₂, addresses, hall, hs₂⟩ := ih h
      refine ⟨hk₁.trans hk₂, hc₂.trans hc₁, ?_, address :: addresses,
        .cons (htabled.mono hk₂) hall, ?_⟩
      · rw [ht₂, ht₁, List.append_assoc, List.map_cons, List.singleton_append]
      · rw [hs₂, hs₁, List.append_assoc, List.map_cons, List.zip_cons_cons, List.singleton_append]

end Requests

end Writer

end Cartridge
