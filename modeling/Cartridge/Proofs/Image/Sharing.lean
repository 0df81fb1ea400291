import Cartridge.Proofs.Image.Submissions

/-!
# Sharing of equal data

Data that is submitted again shares the address that the writer knows.  Which address that is
changes in one way only: a request for an address that is not null places the data anew if the known
one is null.  Data at the start of a bank gets an address that the writer never knows.

Main statement: `repeats_of_run`, whether data that is submitted a second time gets its first
address, and whether it is placed anew.
-/

namespace Cartridge

open Allocator (Placement)

namespace Submission

/-- The submission does not ask for another address of the data than one that is known. -/
def Spares (s : Submission) (address : Nat) (data : Bytes) : Prop :=
  address % 0x10000 = 0 → s.data = data → s.manner ≠ .notNull

/-- The writer keeps to an address that it knows of the data. -/
def Steady (address : Nat) (data : Bytes) (ss : List Submission) : Prop :=
  ∀ s ∈ ss, s.Spares address data

/-- What becomes of data that is submitted again. -/
structure Repeats (p : Submission) (middle : List Submission) (q : Submission) : Prop where
  address_iff : (p.manner = .fixed → p.data ≠ []) →
    (q.address = p.address ↔ p.manner ≠ .fixed ∧ Steady p.address p.data (middle ++ [q]))
  shared : p.manner ≠ .fixed →
    ¬ (q.manner = .notNull ∧ p.address % 0x10000 = 0 ∧ Steady p.address p.data middle) →
    q.before.SameStore q.after
  copied : p.manner ≠ .fixed → q.manner = .notNull → p.address % 0x10000 = 0 →
    Steady p.address p.data middle →
    q.before.allocator.Appends q.after.allocator q.address q.data

/-! ## The known address -/

section Met

variable {s : Submission} {address : Nat} {data : Bytes}

/-- Only data that has got an address that is shared becomes known there. -/
theorem Met.address?_eq (h : s.Met) (hne : s.data = data → s.manner = .fixed) :
    s.after.address? data = s.before.address? data := by
  have hrecorded (hr : s.Recorded) (hmanner : s.manner ≠ .fixed) :
      s.after.address? data = s.before.address? data := by
    have hdata : (s.data == data) = false := beq_eq_false_iff_ne.mpr fun hc => hmanner (hne hc)
    rw [hr.address?_eq, hdata]
    rfl
  cases h with
  | reused _ _ _ same => exact same.address?_eq data
  | plain manner_eq _ _ recorded => exact hrecorded recorded (by rw [manner_eq]; simp)
  | notNull manner_eq _ _ recorded => exact hrecorded recorded (by rw [manner_eq]; simp)
  | fixed _ _ _ _ _ _ placed_eq => rw [Writer.address?, placed_eq, Writer.address?]

theorem Met.known (h : s.Met) (hne : s.manner ≠ .fixed) :
    s.after.address? s.data = some s.address := by
  have hrecorded (hr : s.Recorded) : s.after.address? s.data = some s.address := by
    rw [hr.address?_eq, if_pos (beq_self_eq_true s.data)]
  cases h with
  | reused _ known _ same => exact (same.address?_eq s.data).trans known
  | plain _ _ _ recorded => exact hrecorded recorded
  | notNull _ _ _ recorded => exact hrecorded recorded
  | fixed manner_eq _ _ _ _ _ _ => exact absurd manner_eq hne

theorem Met.mod_ne_zero (h : s.Met) (hmanner : s.manner = .notNull) :
    s.address % 0x10000 ≠ 0 := by
  cases h with
  | reused _ _ notNull _ => exact notNull hmanner
  | plain manner_eq _ _ _ => exact absurd (hmanner.symm.trans manner_eq) (by simp)
  | notNull _ _ added _ => exact Allocator.mod_ne_zero_of_addNotNull added
  | fixed manner_eq _ _ _ _ _ _ => exact absurd (hmanner.symm.trans manner_eq) (by simp)

/-- A known address is used unless it is null and another one is asked for. -/
theorem Met.reuses (h : s.Met) (hne : s.manner ≠ .fixed)
    (hknown : s.before.address? s.data = some address) (hspares : s.Spares address s.data) :
    s.address = address ∧ s.before.SameStore s.after := by
  cases h with
  | reused _ known _ same => exact ⟨Option.some.inj (known.symm.trans hknown), same⟩
  | plain _ unknown _ _ => exact absurd (hknown.symm.trans unknown) (by simp)
  | notNull manner_eq null _ _ => exact absurd manner_eq (hspares (null address hknown) rfl)
  | fixed manner_eq _ _ _ _ _ _ => exact absurd manner_eq hne

theorem Met.copies (h : s.Met) (hmanner : s.manner = .notNull)
    (hknown : s.before.address? s.data = some address) (hnull : address % 0x10000 = 0) :
    s.before.allocator.Appends s.after.allocator s.address s.data := by
  cases h with
  | reused _ known notNull _ =>
    obtain rfl := Option.some.inj (known.symm.trans hknown)
    exact absurd hnull (notNull hmanner)
  | plain manner_eq _ _ _ => exact absurd (hmanner.symm.trans manner_eq) (by simp)
  | notNull _ _ added _ => exact Allocator.appends_of_addNotNull added
  | fixed manner_eq _ _ _ _ _ _ => exact absurd (hmanner.symm.trans manner_eq) (by simp)

/-- What one submission does to an address that is known: it stays, or it is given up for one that
is not null. -/
theorem Met.known_or (h : s.Met) (hknown : s.before.address? data = some address) :
    (s.Spares address data ∧ s.after.address? data = some address) ∨
      ¬ s.Spares address data ∧
        ∃ found, s.after.address? data = some found ∧ found % 0x10000 ≠ 0 := by
  by_cases hother : s.data = data → s.manner = .fixed
  · refine .inl ⟨fun _ hdata => ?_, (h.address?_eq hother).trans hknown⟩
    rw [hother hdata]
    simp
  · obtain ⟨rfl, hne⟩ := Classical.not_imp.mp hother
    by_cases hspares : s.Spares address s.data
    · obtain ⟨-, hsame⟩ := h.reuses hne hknown hspares
      exact .inl ⟨hspares, (hsame.address?_eq s.data).trans hknown⟩
    · have hmanner : s.manner = .notNull := by
        by_contra hc
        exact hspares fun _ _ => hc
      exact .inr ⟨hspares, s.address, h.known hne, h.mod_ne_zero hmanner⟩

end Met

end Submission

namespace Writer

open Submission (Steady)

variable {map : MemoryMap} {w w' : Writer} {p q s : Submission}
  {ss front middle back : List Submission} {address : Nat} {data : Bytes} {rs : List Request}

/-- What submissions that follow each other do to an address that is known. -/
theorem Trace.known (h : Trace w ss w') (hknown : w.address? data = some address) :
    ∃ found, w'.address? data = some found ∧
      (Steady address data ss ∧ found = address ∨
        ¬ Steady address data ss ∧ found % 0x10000 ≠ 0) := by
  induction h generalizing address with
  | nil same =>
    exact ⟨address, (same.address?_eq data).trans hknown,
      .inl ⟨fun s hs => absurd hs List.not_mem_nil, rfl⟩⟩
  | cons same met _ ih =>
    simp only [Steady, List.forall_mem_cons]
    rcases met.known_or ((same.address?_eq data).trans hknown) with
      ⟨hspares, hstill⟩ | ⟨hlost, other, hother, hnull⟩
    · obtain ⟨found, hfound, ⟨hsteady, rfl⟩ | ⟨hsteady, hne⟩⟩ := ih hstill
      · exact ⟨found, hfound, .inl ⟨⟨hspares, hsteady⟩, rfl⟩⟩
      · exact ⟨found, hfound, .inr ⟨fun hc => hsteady hc.2, hne⟩⟩
    · -- an address that is not null is kept from here on
      obtain ⟨found, hfound, ⟨-, rfl⟩ | ⟨hsteady, -⟩⟩ := ih hother
      · exact ⟨found, hfound, .inr ⟨fun hc => hlost hc.1, hnull⟩⟩
      · exact absurd (fun s _ hc => absurd hc hnull) hsteady

/-- Two submissions of a trace, with those in between. -/
theorem Trace.between (h : Trace w (front ++ p :: (middle ++ q :: back)) w') :
    Trace w front p.before ∧ p.Met ∧ Trace p.after middle q.before ∧ q.Met := by
  obtain ⟨w₁, hfront, hrest⟩ := h.split
  cases hrest with
  | cons same met behind =>
    obtain ⟨w₂, hmiddle, hback⟩ := behind.split
    cases hback with
    | cons same' met' _ =>
      have hp := hfront.append (.nil same)
      have hq := hmiddle.append (.nil same')
      rw [List.append_nil] at hp hq
      exact ⟨hp, met, hq, met'⟩

theorem repeats_of_ne_fixed (hp : p.Met) (hmiddle : Trace p.after middle q.before) (hq : q.Met)
    (hdata : q.data = p.data) (hpne : p.manner ≠ .fixed) (hqne : q.manner ≠ .fixed) :
    p.Repeats middle q := by
  obtain ⟨found, hfound, hcases⟩ := hmiddle.known (hp.known hpne)
  rw [← hdata] at hfound hcases
  have hreuses := hq.reuses hqne hfound
  have hsteady_append : Steady p.address p.data (middle ++ [q]) ↔
      Steady p.address q.data middle ∧ q.Spares p.address q.data := by
    rw [hdata, Steady, List.forall_mem_append, List.forall_mem_singleton, Steady]
  refine ⟨fun _ => ?_, fun _ hshared => ?_, fun _ hmanner hnull hsteady => ?_⟩
  · rw [hsteady_append]
    rcases hcases with ⟨hsteady, rfl⟩ | ⟨hunsteady, hne⟩
    · refine ⟨fun heq => ⟨hpne, hsteady, fun hnull _ hmanner => ?_⟩, fun hc => ?_⟩
      · rw [← heq] at hnull
        exact hq.mod_ne_zero hmanner hnull
      · exact (hreuses hc.2.2).1
    · refine ⟨fun heq => ?_, fun hc => absurd hc.2.1 hunsteady⟩
      obtain ⟨haddress, -⟩ := hreuses fun hnull => absurd hnull hne
      rw [← haddress, heq] at hne
      exact absurd (fun s _ hnull => absurd hnull hne) hunsteady
  · rw [← hdata] at hshared
    refine (hreuses fun hnull _ hmanner => ?_).2
    rcases hcases with ⟨hsteady, rfl⟩ | ⟨-, hne⟩
    · exact hshared ⟨hmanner, hnull, hsteady⟩
    · exact hne hnull
  · rw [← hdata] at hsteady
    rcases hcases with ⟨-, rfl⟩ | ⟨hunsteady, -⟩
    · exact hq.copies hmanner hfound hnull
    · exact absurd hsteady hunsteady

/-! ## Data at the start of a bank -/

/-- The data is at the address, but the writer does not know it there. -/
structure Hides (map : MemoryMap) (address : Nat) (data : Bytes) (w : Writer) : Prop where
  soundOver : w.SoundOver map
  held : w.allocator.Holds address data
  unknown : w.address? data ≠ some address

theorem Hides.of_sameStore (h : Hides map address data w) (hsame : w.SameStore w') :
    Hides map address data w' := by
  refine ⟨h.soundOver.of_sameStore hsame, ?_, ?_⟩
  · rw [hsame.allocator_eq]
    exact h.held
  · rw [hsame.address?_eq]
    exact h.unknown

/-- Data that is placed is not placed where it is already. -/
theorem address_ne_of_appends {a a' : Allocator} (hm : map.Valid) (hf : a.Fits map)
    (hne : data ≠ []) (hheld : a.Holds address data) {found : Nat}
    (h : a.Appends a' found data) : found ≠ address := by
  rintro rfl
  have hpos : 0 < data.length := List.length_pos_iff.mpr hne
  have happends : a.Appends a' (Placement.mk found data).address (Placement.mk found data).data := h
  rcases happends.apart (p := ⟨found, data⟩) hm hf hheld hne hne with hend | hend
  · exact absurd hend (by simp only; omega)
  · exact absurd hend (by simp only; omega)

theorem Hides.address_ne (h : Hides map address data s.before) (hm : map.Valid) (hne : data ≠ [])
    (hdata : s.data = data) (hmet : s.Met) : s.address ≠ address := by
  subst hdata
  rcases hmet.reused_or_appends with ⟨-, hknown, -⟩ | happends
  · exact fun hc => h.unknown (hc ▸ hknown)
  · exact address_ne_of_appends hm h.soundOver.fits hne h.held happends

theorem Hides.of_met (h : Hides map address data s.before) (hm : map.Valid) (hne : data ≠ [])
    (hmet : s.Met) : Hides map address data s.after := by
  refine ⟨h.soundOver.of_met hmet, ?_, ?_⟩
  · rcases hmet.reused_or_appends with ⟨-, -, hsame⟩ | happends
    · rw [hsame.allocator_eq]
      exact h.held
    · exact h.held.mono happends.meets.extended
  · by_cases hother : s.data = data → s.manner = .fixed
    · rw [hmet.address?_eq hother]
      exact h.unknown
    · obtain ⟨hdata, hmanner⟩ := Classical.not_imp.mp hother
      have haddress := h.address_ne hm hne hdata hmet
      rw [← hdata, hmet.known hmanner]
      exact fun hc => haddress (Option.some.inj hc)

/-- Fixed data is hidden from the writer behind it. -/
theorem hides_fixed (hp : p.Met) (hw : p.before.SoundOver map) (hm : map.Valid)
    (hfixed : p.manner = .fixed) (hne : p.data ≠ []) :
    Hides map p.address p.data p.after := by
  have happends : p.before.allocator.Appends p.after.allocator p.address p.data := by
    rcases hp.reused_or_appends with ⟨hshared, -, -⟩ | happends
    · exact absurd hfixed hshared
    · exact happends
  refine ⟨hw.of_met hp, happends.meets.holds, ?_⟩
  rw [hp.address?_eq fun _ => hfixed]
  exact fun hknown =>
    address_ne_of_appends hm hw.fits hne (hw.sound.holds _ _ hknown) happends rfl

theorem address_ne_of_fixed (hp : p.Met) (hw : p.before.SoundOver map) (hm : map.Valid)
    (hmiddle : Trace p.after middle q.before) (hq : q.Met) (hdata : q.data = p.data)
    (hfixed : p.manner = .fixed) (hne : p.data ≠ []) : q.address ≠ p.address := by
  have hhides := hides_fixed hp hw hm hfixed hne
  obtain ⟨hbefore, -⟩ := hmiddle.keeps (fun _ _ hsame h => h.of_sameStore hsame)
    (fun s _ hmet h => h.of_met hm hne hmet) hhides
  exact hbefore.address_ne hm hne hdata hq

/-! ## Data that is submitted again -/

/-- **What becomes of data that is submitted again in a run**: it gets its first address unless it
has been put at the start of a bank, or its address is null and it has been asked for at another
one; and it is placed anew in the latter request alone. -/
theorem repeats_of_run (hm : map.Valid) (rs : List Request)
    (hrun : (new map).collect submissions rs = front ++ p :: (middle ++ q :: back))
    (hdata : q.data = p.data) (hq : q.manner ≠ .fixed) : p.Repeats middle q := by
  have htrace := trace_run (new map) rs
  rw [hrun] at htrace
  obtain ⟨hfront, hpmet, hmiddle, hqmet⟩ := htrace.between
  obtain ⟨hw, -⟩ := hfront.keeps (fun _ _ hsame h => h.of_sameStore hsame)
    (fun s _ hmet h => h.of_met hmet) (soundOver_new map)
  by_cases hfixed : p.manner = .fixed
  · refine ⟨fun hne => ?_, fun hc => absurd hfixed hc, fun hc => absurd hfixed hc⟩
    have haddress := address_ne_of_fixed hpmet hw hm hmiddle hqmet hdata hfixed (hne hfixed)
    exact ⟨fun heq => absurd heq haddress, fun hc => absurd hfixed hc.1⟩
  · exact repeats_of_ne_fixed hpmet hmiddle hqmet hdata hfixed hq

/-- The address is null and is given up, so the third submission gets the one of the second. -/
theorem repeats_after_notNull :
    (⟨.high, 0xC0, 1⟩ : MemoryMap).Valid ∧ ∃ p s q : Submission,
      (new ⟨.high, 0xC0, 1⟩).collect submissions
        [.data [1, 2], .dataNotNull [1, 2], .data [1, 2]] = [] ++ p :: ([s] ++ q :: []) ∧
      (p.manner = .plain ∧ p.address = 0xC00000) ∧ (s.manner = .notNull ∧ s.address = 0xC00002) ∧
      (q.data = p.data ∧ q.manner = .plain ∧ q.address = 0xC00002) ∧ p.Repeats [s] q := by
  have hm : (⟨.high, 0xC0, 1⟩ : MemoryMap).Valid := by decide
  obtain ⟨p, s, q, hrun, hp, hs, hq⟩ : ∃ p s q : Submission,
      (new ⟨.high, 0xC0, 1⟩).collect submissions
        [.data [1, 2], .dataNotNull [1, 2], .data [1, 2]] = [] ++ p :: ([s] ++ q :: []) ∧
      (p.manner = .plain ∧ p.address = 0xC00000) ∧ (s.manner = .notNull ∧ s.address = 0xC00002) ∧
      (q.data = p.data ∧ q.manner = .plain ∧ q.address = 0xC00002) := by
    refine ⟨_, _, _, rfl, ?_⟩
    exact ⟨⟨rfl, rfl⟩, ⟨rfl, rfl⟩, rfl, rfl, rfl⟩
  refine ⟨hm, p, s, q, hrun, hp, hs, hq, repeats_of_run hm _ hrun hq.1 ?_⟩
  rw [hq.2.1]
  simp

/-- Data that is submitted again, at any place of a run, gets the address that it has got before,
and is not placed once more. -/
def SharesAll (map : MemoryMap) (rs : List Request) : Prop :=
  ∀ front p middle q back,
    (new map).collect submissions rs = front ++ p :: (middle ++ q :: back) → q.data = p.data →
    p.manner ≠ .notNull → q.manner = .plain →
    q.address = p.address ∧ q.after.allocator = q.before.allocator

/-- The data is placed three times, and plain requests get two of the addresses. -/
theorem not_sharesAll :
    (⟨.high, 0xC0, 2⟩ : MemoryMap).Valid ∧
      ((new ⟨.high, 0xC0, 2⟩).collect submissions
        [.fixed "tiles" 1 [1, 2], .data [1, 2], .dataNotNull [1, 2], .data [1, 2]]).map
          Submission.address = [0xC10000, 0xC00000, 0xC00002, 0xC00002] ∧
      ¬ SharesAll ⟨.high, 0xC0, 2⟩
        [.fixed "tiles" 1 [1, 2], .data [1, 2], .dataNotNull [1, 2], .data [1, 2]] := by
  refine ⟨by decide, rfl, fun h => ?_⟩
  obtain ⟨haddress, -⟩ := h [] _ [] _ _ rfl rfl (by decide) rfl
  exact absurd haddress (by decide)

end Writer

end Cartridge
