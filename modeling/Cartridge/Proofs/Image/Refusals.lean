import Cartridge.Proofs.Image.WriterRun

/-!
# Requests that are refused

A request that is refused exports nothing and forgets nothing.  Unless it asks for a table it leaves
the writer as it was.  A table is given up at the first item that cannot be placed, or behind all of
them if the table itself cannot be; what it leaves is the writer behind requests for the items that
have been placed (`run_data_of_addAll`), so these are shared from then on like all other data.

Main statement: `refuses_of_error`.
-/

namespace Cartridge

namespace Writer

open Allocator (Placement)

/-- What requests for the first `k` items are answered with. -/
def servedFirst (w : Writer) (items : List Bytes) (k : Nat) : List Placement :=
  w.collect served ((items.take k).map .data)

/-- What a table asks for behind its first `k` items: the next one, or the table of the addresses
that they have got. -/
def nextOf (w : Writer) (items : List Bytes) (k : Nat) : Bytes :=
  (items[k]?).getD (tableBytes ((w.servedFirst items k).map Placement.address))

/-- A table over the items is given up behind its first `k` items and leaves the writer `w'`. -/
structure GivesUp (w : Writer) (items : List Bytes) (e : PlacementError) (k : Nat)
    (w' : Writer) : Prop where
  le : k ≤ items.length
  eq_run : w' = w.run ((items.take k).map .data)
  answered : (w.servedFirst items k).map Placement.data = items.take k
  refused : w'.add (w.nextOf items k) = (.error e, w')
  /-- An item that is submitted again gets its address once more, and nothing is placed. -/
  reused : ∀ p ∈ w.servedFirst items k, (w'.add p.data).1 = .ok p.address ∧
    (w'.add p.data).2.allocator = w'.allocator ∧ (w'.add p.data).2.placed = w'.placed

/-- What a request does that is refused and leaves the writer `w'`. -/
structure Refuses (w : Writer) (r : Request) (e : PlacementError) (w' : Writer) : Prop where
  sound : w.Sound → w'.Sound
  sameExports : w.SameExports w'
  remembers : ∀ data address, w.address? data = some address → w'.address? data = some address
  unchanged : (∀ name items, r ≠ .table name items) → w' = w
  givesUp : ∀ name items, r = .table name items → ∃ k, w.GivesUp items e k w'

variable {w w' : Writer} {r : Request} {name : String} {data : Bytes} {items : List Bytes}
  {addresses : List Nat} {e : PlacementError} {p : Placement}

/-! ## Requests for data -/

theorem eq_of_place_error (h : w.place data = (.error e, w')) : w' = w := by
  unfold place at h
  split at h
  next hrefused =>
    obtain rfl := Allocator.eq_of_add_error hrefused
    exact (Prod.mk.inj h).2.symm
  · exact absurd (Prod.mk.inj h).1 (by simp)

theorem eq_of_placeNotNull_error (h : w.placeNotNull data = (.error e, w')) : w' = w := by
  unfold placeNotNull at h
  split at h
  next hrefused =>
    obtain rfl := Allocator.eq_of_addNotNull_error hrefused
    exact (Prod.mk.inj h).2.symm
  · exact absurd (Prod.mk.inj h).1 (by simp)

theorem eq_of_add_error (h : w.add data = (.error e, w')) : w' = w := by
  unfold add at h
  split at h
  · exact absurd (Prod.mk.inj h).1 (by simp)
  · exact eq_of_place_error h

theorem eq_of_addNotNull_error (h : w.addNotNull data = (.error e, w')) : w' = w := by
  unfold addNotNull at h
  split at h
  · split at h
    · exact eq_of_placeNotNull_error h
    · exact absurd (Prod.mk.inj h).1 (by simp)
  · exact eq_of_placeNotNull_error h

theorem eq_of_named_error {answer : Answer Nat} (h : named name answer = (.error e, w')) :
    answer = (.error e, w') := by
  rcases answer with ⟨e' | address, w₁⟩
  · exact h
  · exact absurd (Prod.mk.inj h).1 (by simp)

theorem error_of_addressed {answer : Answer Nat}
    (h : (perform.addressed answer).1 = .error e) :
    answer = (.error e, (perform.addressed answer).2) := by
  rcases answer with ⟨e' | address, w₁⟩
  · obtain rfl := Except.error.inj h
    rfl
  · exact absurd h (by simp [perform.addressed, Except.map])

/-- Only a table may do something before it is refused. -/
theorem eq_of_perform_error (htable : ∀ name items, r ≠ .table name items)
    (h : (w.perform r).1 = .error e) : (w.perform r).2 = w := by
  cases r with
  | data bytes => exact eq_of_add_error (error_of_addressed h)
  | dataNotNull bytes => exact eq_of_addNotNull_error (error_of_addressed h)
  | named name bytes => exact eq_of_add_error (eq_of_named_error (error_of_addressed h))
  | namedNotNull name bytes =>
    exact eq_of_addNotNull_error (eq_of_named_error (error_of_addressed h))
  | fixed name bank bytes => exact eq_of_addFixed_error (error_of_addressed h)
  | table name items => exact absurd rfl (htable name items)
  | constant name value => exact absurd h (by simp [perform])

/-! ## Tables -/

/-- Requests for items do what a table does that places them. -/
theorem run_data_of_addAll (h : w.addAll items = (.ok addresses, w')) :
    w.run (items.map .data) = w' ∧
      (w.collect served (items.map .data)).map Placement.data = items ∧
      (w.collect served (items.map .data)).map Placement.address = addresses ∧
      ∀ p ∈ w.collect served (items.map .data), w'.address? p.data = some p.address := by
  induction items generalizing w addresses with
  | nil =>
    obtain ⟨hok, rfl⟩ := Prod.mk.inj h
    obtain rfl := Except.ok.inj hok
    exact ⟨rfl, rfl, rfl, fun _ hp => absurd hp List.not_mem_nil⟩
  | cons item items ih =>
    rcases hadd : w.add item with ⟨e | address, w₁⟩
    · rw [addAll, hadd] at h
      exact absurd (Prod.mk.inj h).1 (by simp)
    · rw [addAll_cons hadd] at h
      obtain ⟨hok, hw⟩ := Prod.mk.inj h
      cases hrest : (w₁.addAll items).1 with
      | error e =>
        rw [hrest] at hok
        exact absurd hok (by simp [Except.map])
      | ok rest =>
        rw [hrest] at hok
        obtain rfl := Except.ok.inj hok
        have hbehind : w₁.addAll items = (.ok rest, w') := Prod.ext hrest hw
        obtain ⟨hrun, hdata, haddress, hknown⟩ := ih hbehind
        have hperform : w.perform (.data item) = (.ok (some address), w₁) := by
          rw [perform, hadd]
          rfl
        have hserved : w.collect served ((item :: items).map .data) =
            ⟨address, item⟩ :: w₁.collect served (items.map .data) := by
          rw [List.map_cons, collect, served, addressOf?, hperform]
          rfl
        rw [hserved]
        refine ⟨?_, congrArg (List.cons item) hdata, congrArg (List.cons address) haddress,
          List.forall_mem_cons.mpr ⟨?_, hknown⟩⟩
        · rw [← hrun, List.map_cons, run, List.foldl_cons, hperform, run]
        · exact (keeps_of_addAll hbehind).1.remembers _ _ (keeps_of_add hadd).2.2

/-- A table whose items cannot all be placed stops at one of them. -/
theorem exists_take_of_addAll_error (h : w.addAll items = (.error e, w')) :
    ∃ k item addresses, items[k]? = some item ∧ w.addAll (items.take k) = (.ok addresses, w') ∧
      w'.add item = (.error e, w') := by
  induction items generalizing w with
  | nil => exact absurd (Prod.mk.inj h).1 (by simp)
  | cons item items ih =>
    rcases hadd : w.add item with ⟨e' | address, w₁⟩
    · rw [addAll, hadd] at h
      obtain ⟨he, rfl⟩ := Prod.mk.inj h
      obtain rfl := Except.error.inj he
      obtain rfl := eq_of_add_error hadd
      exact ⟨0, item, [], rfl, rfl, hadd⟩
    · rw [addAll_cons hadd] at h
      obtain ⟨herror, hw⟩ := Prod.mk.inj h
      cases hrest : (w₁.addAll items).1 with
      | ok rest =>
        rw [hrest] at herror
        exact absurd herror (by simp [Except.map])
      | error e' =>
        rw [hrest] at herror
        obtain rfl := Except.error.inj herror
        obtain ⟨k, next, addresses, hnext, htaken, hrefused⟩ := ih (Prod.ext hrest hw)
        refine ⟨k + 1, next, address :: addresses, hnext, ?_, hrefused⟩
        rw [List.take_succ_cons, addAll_cons hadd, htaken]
        rfl

/-- A table that is refused stops at an item, or all its items are placed and it stops at itself. -/
theorem exists_take_of_addTable_error (h : w.addTable name items = (.error e, w')) :
    ∃ k addresses, k ≤ items.length ∧ w.addAll (items.take k) = (.ok addresses, w') ∧
      w'.add ((items[k]?).getD (tableBytes addresses)) = (.error e, w') := by
  rcases hall : w.addAll items with ⟨e' | addresses, w₁⟩
  · rw [addTable, hall] at h
    obtain ⟨he, rfl⟩ := Prod.mk.inj h
    obtain rfl := Except.error.inj he
    obtain ⟨k, item, addresses, hitem, htaken, hrefused⟩ := exists_take_of_addAll_error hall
    have hlt := (List.getElem?_eq_some_iff.mp hitem).1
    refine ⟨k, addresses, Nat.le_of_lt hlt, htaken, ?_⟩
    rw [hitem]
    exact hrefused
  · rw [addTable, hall] at h
    rcases hadd : w₁.add (tableBytes addresses) with ⟨e' | address, w₂⟩
    · simp only [addNamed, hadd, named] at h
      obtain ⟨he, rfl⟩ := Prod.mk.inj h
      obtain rfl := Except.error.inj he
      obtain rfl := eq_of_add_error hadd
      refine ⟨items.length, addresses, Nat.le_refl _, ?_, ?_⟩
      · rw [List.take_length, hall]
      · rw [List.getElem?_eq_none (Nat.le_refl _)]
        exact hadd
    · simp only [addNamed, hadd, named] at h
      exact absurd (Prod.mk.inj h).1 (by simp)

theorem add_of_known {address : Nat} (h : w.address? data = some address) :
    w.add data = (.ok address, w.note (.reused data.length address)) := by
  rw [add, h]

theorem givesUp_of_addTable_error (h : w.addTable name items = (.error e, w')) :
    ∃ k, w.GivesUp items e k w' := by
  obtain ⟨k, addresses, hle, htaken, hrefused⟩ := exists_take_of_addTable_error h
  obtain ⟨hrun, hdata, haddress, hknown⟩ := run_data_of_addAll htaken
  refine ⟨k, hle, hrun.symm, hdata, ?_, fun p hp => ?_⟩
  · rw [nextOf, servedFirst, haddress]
    exact hrefused
  · rw [add_of_known (hknown p hp)]
    exact ⟨rfl, rfl, rfl⟩

/-- What a table leaves that is given up: contents keep their addresses, and nothing is exported. -/
theorem keeps_of_addTable_error (h : w.addTable name items = (.error e, w')) :
    w.Keeps w' ∧ w.SameExports w' := by
  obtain ⟨k, addresses, -, htaken, -⟩ := exists_take_of_addTable_error h
  obtain ⟨hkeeps, hsame, -⟩ := keeps_of_addAll htaken
  exact ⟨hkeeps, hsame⟩

/-- **A request that is refused exports nothing and forgets nothing**, and what it leaves is the
writer before it or, for a table, the one behind the items that have been placed. -/
theorem refuses_of_error (h : (w.perform r).1 = .error e) : w.Refuses r e (w.perform r).2 := by
  by_cases htable : ∃ name items, r = .table name items
  · obtain ⟨name, items, rfl⟩ := htable
    have herror := error_of_addressed h
    obtain ⟨hkeeps, hsame⟩ := keeps_of_addTable_error herror
    refine ⟨hkeeps.sound, hsame, hkeeps.remembers, fun hne => absurd rfl (hne name items), ?_⟩
    rintro _ _ ⟨rfl, rfl⟩
    exact givesUp_of_addTable_error herror
  · have hne : ∀ name items, r ≠ .table name items := fun name items hr =>
      htable ⟨name, items, hr⟩
    rw [eq_of_perform_error hne h]
    exact ⟨id, .refl w, fun _ _ => id, fun _ => rfl, fun name items hr => absurd hr (hne name items)⟩

/-- In a single bank the first item leaves no room for the second. -/
def sampleItems : List Bytes := [[1, 2], List.replicate 0x8000 0, [3]]

theorem refuses_sampleItems :
    ((new ⟨.low, 0x80, 1⟩).perform (.table "list" sampleItems)).1 = .error (.outOfSpace 0x8000) ∧
      (new ⟨.low, 0x80, 1⟩).Refuses (.table "list" sampleItems) (.outOfSpace 0x8000)
        ((new ⟨.low, 0x80, 1⟩).perform (.table "list" sampleItems)).2 := by
  obtain ⟨w, hfirst, hfull⟩ : ∃ w, (new ⟨.low, 0x80, 1⟩).add [1, 2] = (.ok 0x808000, w) ∧
      w.add (List.replicate 0x8000 0) = (.error (.outOfSpace 0x8000), w) := by
    refine ⟨_, rfl, ?_⟩
    rw [add, address?, place, Allocator.add, List.length_replicate]
    rfl
  have herror : ((new ⟨.low, 0x80, 1⟩).perform (.table "list" sampleItems)).1 =
      .error (.outOfSpace 0x8000) := by
    rw [perform, addTable, sampleItems, addAll_cons hfirst, addAll, hfull]
    rfl
  exact ⟨herror, refuses_of_error herror⟩

end Writer

end Cartridge
