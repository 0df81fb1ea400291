import Cartridge.Proofs.Image.Allocation

/-!
# Runs of an allocator

A run is any sequence of requests, refused ones included.  One step appends to one bank and never
beyond its size, or changes nothing.  Hence what all requests of a run have placed stays where it
is, in ranges of addresses that are apart from each other.

Main statement: `safe_after`, what holds behind every run over the banks of a valid map.
-/

namespace Cartridge

namespace Allocator

inductive Request where
  | plain (data : Bytes)
  | notNull (data : Bytes)
  | fixed (bank address : Nat) (data : Bytes)
deriving DecidableEq, Repr

def Request.data : Request → Bytes
  | plain data => data
  | notNull data => data
  | fixed _ _ data => data

/-- Meets a request; data at a fixed address is answered with that address. -/
def place (a : Allocator) : Request → Answer Nat
  | .plain data => a.add data
  | .notNull data => a.addNotNull data
  | .fixed bank address data =>
    ((a.addFixed bank address data).1.map fun _ => address, (a.addFixed bank address data).2)

/-- The allocator behind a request. -/
def step (a : Allocator) (r : Request) : Allocator := (a.place r).2

/-- The allocator behind requests that follow each other. -/
def run (a : Allocator) (rs : List Request) : Allocator := rs.foldl step a

/-- Data with the address that it was placed at. -/
structure Placement where
  address : Nat
  data : Bytes
deriving DecidableEq, Repr

/-- What a request has placed. -/
def placed (a : Allocator) (r : Request) : List Placement :=
  match (a.place r).1 with
  | .ok address => [⟨address, r.data⟩]
  | .error _ => []

/-- What the requests of a run have placed, in their order. -/
def placements (a : Allocator) : List Request → List Placement
  | [] => []
  | r :: rs => a.placed r ++ placements (a.step r) rs

/-- The ranges of addresses have nothing in common, unless one of them is empty. -/
def Placement.Apart (p q : Placement) : Prop :=
  p.data ≠ [] → q.data ≠ [] →
    p.address + p.data.length ≤ q.address ∨ q.address + q.data.length ≤ p.address

section Step

variable {map : MemoryMap} {a a' : Allocator} {r : Request} {rs : List Request} {address : Nat}
  {e : PlacementError} {p q : Placement}

theorem appends_of_place (h : (a.place r).1 = .ok address) :
    a.Appends (a.step r) address r.data := by
  cases r with
  | plain data => exact appends_of_add (Prod.ext h rfl)
  | notNull data => exact appends_of_addNotNull (Prod.ext h rfl)
  | fixed bank given data =>
    cases hf : (a.addFixed bank given data).1 with
    | error e =>
      simp only [place, hf] at h
      exact absurd h (by simp [Except.map])
    | ok =>
      simp only [place, hf] at h
      obtain rfl := Except.ok.inj h
      exact appends_of_addFixed (Prod.ext hf rfl)

theorem step_eq_of_refused (h : (a.place r).1 = .error e) : a.step r = a := by
  cases r with
  | plain data => exact eq_of_add_error (Prod.ext h rfl)
  | notNull data => exact eq_of_addNotNull_error (Prod.ext h rfl)
  | fixed bank given data =>
    cases hf : (a.addFixed bank given data).1 with
    | error e => exact eq_of_addFixed_error (Prod.ext hf rfl)
    | ok =>
      simp only [place, hf] at h
      exact absurd h (by simp [Except.map])

/-- A request is refused and changes nothing, or it appends to a bank. -/
theorem step_cases (a : Allocator) (r : Request) :
    (∃ e, (a.place r).1 = .error e ∧ a.step r = a ∧ a.placed r = []) ∨
      ∃ address, a.Appends (a.step r) address r.data ∧ a.placed r = [⟨address, r.data⟩] := by
  unfold placed
  cases h : (a.place r).1 with
  | error e => exact .inl ⟨e, rfl, step_eq_of_refused h, rfl⟩
  | ok address => exact .inr ⟨address, appends_of_place h, rfl⟩

theorem extends_step (a : Allocator) (r : Request) : a.Extends (a.step r) := by
  rcases step_cases a r with ⟨e, -, hsame, -⟩ | ⟨address, happends, -⟩
  · rw [hsame]
    exact .refl a
  · exact happends.meets.extended

theorem Fits.step (hf : a.Fits map) : (a.step r).Fits map := by
  rcases step_cases a r with ⟨e, -, hsame, -⟩ | ⟨address, happends, -⟩
  · rw [hsame]
    exact hf
  · exact happends.meets.fits map hf

/-- One bank at most is changed by a request. -/
theorem exists_changed_bank (a : Allocator) (r : Request) :
    ∃ id, ∀ n : Nat, n ≠ id → (a.step r).banks[n]? = a.banks[n]? := by
  rcases step_cases a r with ⟨e, -, hsame, -⟩ | ⟨address, ⟨id, b, padding, -, -, -, ha⟩, -⟩
  · refine ⟨0, fun n _ => ?_⟩
    rw [hsame]
  · refine ⟨id, fun n hn => ?_⟩
    rw [ha, getElem?_banks_append]
    simp [Ne.symm hn]

/-- What a request places is held behind it. -/
theorem holds_of_mem_placed (h : p ∈ a.placed r) : (a.step r).Holds p.address p.data := by
  rcases step_cases a r with ⟨e, -, -, hnone⟩ | ⟨address, happends, hone⟩
  · rw [hnone] at h
    exact absurd h List.not_mem_nil
  · rw [hone, List.mem_singleton] at h
    subst h
    exact happends.meets.holds

/-- Data that is held ends in the window of its bank. -/
theorem Holds.exists_window (hf : a.Fits map) (hd : a.Holds p.address p.data) (hne : p.data ≠ []) :
    ∃ n, n < map.bankCount ∧ map.bankAddress n ≤ p.address ∧ ∃ b, a.banks[n]? = some b ∧
      p.address + p.data.length ≤ b.next ∧ b.next ≤ map.bankAddress n + map.bankSize := by
  obtain ⟨n, b, hb, hle, hpre⟩ := hd
  have hlen := hpre.length_le
  have hpos : 0 < p.data.length := List.length_pos_iff.mpr hne
  have hsize : b.data.toList.length = b.data.size := Array.length_toList
  rw [List.length_drop, hsize] at hlen
  have hlt := (List.getElem?_eq_some_iff.mp hb).1
  have hstart := hf.start_eq n b hb
  have hbound := hf.size_le n b hb
  rw [hf.length_eq] at hlt
  refine ⟨n, hlt, by omega, b, hb, ?_, ?_⟩
  · rw [Bank.next]
    omega
  · rw [Bank.next]
    omega

/-- Data that is appended is apart from all that has been held before. -/
theorem Appends.apart (hm : map.Valid) (hf : a.Fits map) (h : a.Appends a' q.address q.data)
    (hp : a.Holds p.address p.data) : p.Apart q := by
  intro hpne hqne
  have hf' : a'.Fits map := h.meets.fits map hf
  obtain ⟨n, hn, hnle, b, hb, hend, hbound⟩ := hp.exists_window hf hpne
  obtain ⟨m, hmc, hmle, b', hb', hend', hbound'⟩ := h.meets.holds.exists_window hf' hqne
  obtain ⟨id, c, padding, hc, hroom, haddress, ha⟩ := h
  have hstart := hf.start_eq id c hc
  have hidc := (List.getElem?_eq_some_iff.mp hc).1
  have hsize := hf.size_le id c hc
  have heq := hf.bankSize_eq
  have hnext : c.next = c.start + c.data.size := rfl
  have hpos : 0 < q.data.length := List.length_pos_iff.mpr hqne
  rw [hf.length_eq] at hidc
  rw [List.length_append] at hroom
  rcases Nat.lt_trichotomy n id with hlt | rfl | hlt
  · have hwindow := MemoryMap.bankAddress_add_bankSize_le_of_lt hm hidc hlt
    omega
  -- in the same bank the new data comes behind all that it holds
  · obtain rfl := Option.some.inj (hb.symm.trans hc)
    omega
  · have hwindow := MemoryMap.bankAddress_add_bankSize_le_of_lt hm hn hlt
    omega

/-- What a request places is apart from all that has been held before it. -/
theorem apart_of_holds (hm : map.Valid) (hf : a.Fits map) (hp : a.Holds p.address p.data)
    (hq : q ∈ a.placed r) : p.Apart q := by
  rcases step_cases a r with ⟨e, -, -, hnone⟩ | ⟨address, happends, hone⟩
  · rw [hnone] at hq
    exact absurd hq List.not_mem_nil
  · rw [hone, List.mem_singleton] at hq
    subst hq
    exact happends.apart hm hf hp

end Step

section Run

variable {map : MemoryMap} {a : Allocator} {rs : List Request} {p q : Placement}

theorem Fits.run (hf : a.Fits map) : (a.run rs).Fits map := by
  induction rs generalizing a with
  | nil => exact hf
  | cons r rs ih => exact ih hf.step

theorem extends_run (a : Allocator) (rs : List Request) : a.Extends (a.run rs) := by
  induction rs generalizing a with
  | nil => exact .refl a
  | cons r rs ih => exact (extends_step a r).trans (ih (a.step r))

/-- What has been placed is still there behind the run. -/
theorem holds_of_mem_placements (h : p ∈ a.placements rs) :
    (a.run rs).Holds p.address p.data := by
  induction rs generalizing a with
  | nil => exact absurd h List.not_mem_nil
  | cons r rs ih =>
    rcases List.mem_append.mp h with h | h
    · exact (holds_of_mem_placed h).mono (extends_run (a.step r) rs)
    · exact ih h

theorem apart_of_mem_placements (hm : map.Valid) (hf : a.Fits map)
    (hp : a.Holds p.address p.data) (hq : q ∈ a.placements rs) : p.Apart q := by
  induction rs generalizing a with
  | nil => exact absurd hq List.not_mem_nil
  | cons r rs ih =>
    rcases List.mem_append.mp hq with hq | hq
    · exact apart_of_holds hm hf hp hq
    · exact ih hf.step (hp.mono (extends_step a r)) hq

theorem pairwise_apart_placements (hm : map.Valid) (hf : a.Fits map) :
    (a.placements rs).Pairwise Placement.Apart := by
  induction rs generalizing a with
  | nil => exact .nil
  | cons r rs ih =>
    rw [placements, List.pairwise_append]
    refine ⟨?_, ih hf.step, fun p hp q hq => ?_⟩
    · rcases step_cases a r with ⟨e, -, -, hnone⟩ | ⟨address, -, hone⟩
      · rw [hnone]
        exact .nil
      · rw [hone]
        exact List.pairwise_singleton _ _
    · exact apart_of_mem_placements hm hf.step (holds_of_mem_placed hp) hq

/-- No bank holds more than its size, so none is refused. -/
theorem Fits.checkCapacity (hf : a.Fits map) : a.checkCapacity = .ok () := by
  unfold Allocator.checkCapacity
  split
  next => rfl
  next b n hfind =>
    have hover := List.find?_some hfind
    have hb := List.mem_zipIdx_iff_getElem?.mp (List.mem_of_find?_eq_some hfind)
    have hle := hf.size_le n b hb
    have heq := hf.bankSize_eq
    simp only [decide_eq_true_eq] at hover
    omega

/-- What is used and what is free make up the size of a bank. -/
theorem Fits.exists_remaining? (hf : a.Fits map) {n : Nat} {b : Bank} (hb : a.banks[n]? = some b) :
    ∃ free, a.remaining? n = some free ∧ b.data.size + free = map.bankSize := by
  have hle := hf.size_le n b hb
  have heq := hf.bankSize_eq
  refine ⟨a.bankSize - b.data.size, ?_, ?_⟩
  · rw [remaining?, hb, Option.map_some]
  · omega

/-- What is known of the allocator behind requests, and of the request that comes next. -/
structure SafeAfter (map : MemoryMap) (rs : List Request) : Prop where
  bankCount_eq : ((new map).run rs).banks.length = map.bankCount
  size_le : ∀ (n : Nat) (b : Bank), ((new map).run rs).banks[n]? = some b →
    b.data.size ≤ map.bankSize
  checkCapacity_eq : ((new map).run rs).checkCapacity = .ok ()
  remaining : ∀ (n : Nat) (b : Bank), ((new map).run rs).banks[n]? = some b →
    ∃ free, ((new map).run rs).remaining? n = some free ∧ b.data.size + free = map.bankSize
  extended : ∀ r, ((new map).run rs).Extends (((new map).run rs).step r)
  changed : ∀ r, ∃ id, ∀ n : Nat, n ≠ id →
    (((new map).run rs).step r).banks[n]? = ((new map).run rs).banks[n]?
  refused : ∀ r e, (((new map).run rs).place r).1 = .error e →
    ((new map).run rs).step r = (new map).run rs
  held : ∀ p ∈ (new map).placements rs, ((new map).run rs).Holds p.address p.data
  apart : ((new map).placements rs).Pairwise Placement.Apart

/-- **Every run over the banks of a valid map is safe.** -/
theorem safe_after (hm : map.Valid) (rs : List Request) : SafeAfter map rs := by
  have hf : ((new map).run rs).Fits map := (fits_new map).run
  refine ⟨hf.length_eq, hf.size_le, hf.checkCapacity, fun n b hb => hf.exists_remaining? hb,
    extends_step _, exists_changed_bank _, fun r e h => step_eq_of_refused h,
    fun p hp => holds_of_mem_placements hp, pairwise_apart_placements hm (fits_new map)⟩

/-- Two of the requests are refused, and one needs padding. -/
theorem safe_after_refusals :
    (MemoryMap.mk .high 0xC0 1).Valid ∧
      ((new (MemoryMap.mk .high 0xC0 1)).placements
        [.notNull [7], .fixed 3 0 [1], .fixed 0 0xC00000 [2], .plain [8, 9]]) =
        [⟨0xC00001, [7]⟩, ⟨0xC00002, [8, 9]⟩] ∧
      SafeAfter (MemoryMap.mk .high 0xC0 1)
        [.notNull [7], .fixed 3 0 [1], .fixed 0 0xC00000 [2], .plain [8, 9]] :=
  ⟨by decide, by decide +kernel, safe_after (by decide) _⟩

end Run

end Allocator

end Cartridge
