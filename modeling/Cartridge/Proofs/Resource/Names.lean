import Mathlib.Data.List.Nodup
import Cartridge.Proofs.Lists
import Cartridge.Resource.NameIndex

/-!
# Names without duplicates

The names of a collection that is reviewed without an error are different from each other, so a name
stands for the only index that has it.  In a collection with duplicates the first item of every name
counts; `firsts` gives these items.
-/

namespace Cartridge

namespace Report

variable {α : Type}

/-- A report made item by item is without errors if it is so for every item. -/
theorem hasErrors_flatMap_eq_false_iff {xs : List α} {f : α → Report} :
    hasErrors (xs.flatMap f) = false ↔ ∀ x ∈ xs, hasErrors (f x) = false := by
  simp [hasErrors]

theorem hasErrors_append_eq_false_iff {r s : Report} :
    hasErrors (r ++ s) = false ↔ r.hasErrors = false ∧ s.hasErrors = false := by
  rw [hasErrors_append, Bool.or_eq_false_iff]

/-- Reports that hold nothing but errors. -/
theorem hasErrors_map_eq_false_iff {xs : List α} {f : α → Diagnostic}
    (hf : ∀ x, (f x).isError = true) : hasErrors (xs.map f) = false ↔ xs = [] := by
  cases xs with
  | nil => simp [hasErrors]
  | cons x xs => simp [hasErrors, hf]

/-- A report of what is wrong with each item and its position, with nothing but errors in it. -/
theorem hasErrors_zipIdx_flatMap_eq_false_iff {β : Type} {xs : List α} {problems : α → List β}
    {f : α → Nat → β → Diagnostic} (hf : ∀ x i p, (f x i p).isError = true) :
    hasErrors (xs.zipIdx.flatMap fun x => (problems x.1).map (f x.1 x.2)) = false ↔
      ∀ x ∈ xs, problems x = [] := by
  rw [hasErrors_flatMap_eq_false_iff]
  simp only [hasErrors_map_eq_false_iff (hf _ _)]
  constructor
  · intro h x hx
    obtain ⟨i, hi⟩ := List.mem_iff_getElem?.mp hx
    exact h (x, i) (List.mem_zipIdx_iff_getElem?.mpr hi)
  · rintro h ⟨x, i⟩ hmem
    exact h x (List.mem_of_getElem? (List.mem_zipIdx_iff_getElem?.mp hmem))

end Report

section Names

variable {names : List String} {name : String} {i : Nat}

theorem isRepeated_eq_false_of_nodup (h : names.Nodup) (hi : names[i]? = some name) :
    isRepeated names i name = false := by
  obtain ⟨hlt, hget⟩ := List.getElem?_eq_some_iff.mp hi
  by_contra hc
  rw [Bool.not_eq_false, isRepeated, List.contains_iff_mem] at hc
  obtain ⟨j, hj, hget'⟩ := List.mem_take_iff_getElem.mp hc
  have heq := (h.getElem_inj_iff).mp (hget'.trans hget.symm)
  omega

theorem nodup_of_isRepeated_eq_false
    (h : ∀ i name, names[i]? = some name → isRepeated names i name = false) : names.Nodup := by
  rw [List.nodup_iff_getElem?_ne_getElem?]
  intro i j hij hj heq
  -- of two equal names the second one is repeated
  have hrep := h j names[j] (List.getElem?_eq_getElem hj)
  rw [isRepeated] at hrep
  have hmem : names[j] ∈ names.take j := by
    rw [List.mem_take_iff_getElem]
    refine ⟨i, by omega, ?_⟩
    rw [List.getElem?_eq_getElem hj, List.getElem?_eq_getElem (by omega)] at heq
    exact Option.some.inj heq
  rw [List.contains_iff_mem.mpr hmem] at hrep
  exact absurd hrep (by decide)

/-- What is asked of every item, and that no name is repeated, asks for different names. -/
theorem forall_zipIdx_isRepeated_iff {α : Type} {nameOf : α → String} {xs : List α}
    {P : α → Prop} :
    (∀ x ∈ xs.zipIdx, P x.1 ∧ isRepeated (xs.map nameOf) x.2 (nameOf x.1) = false) ↔
      (∀ x ∈ xs, P x) ∧ (xs.map nameOf).Nodup := by
  constructor
  · intro h
    have hat : ∀ i x, xs[i]? = some x →
        P x ∧ isRepeated (xs.map nameOf) i (nameOf x) = false :=
      fun i x hi => h (x, i) (List.mem_zipIdx_iff_getElem?.mpr hi)
    refine ⟨fun x hx => ?_, nodup_of_isRepeated_eq_false fun i name hi => ?_⟩
    · obtain ⟨i, hi⟩ := List.mem_iff_getElem?.mp hx
      exact (hat i x hi).1
    · rw [List.getElem?_map] at hi
      obtain ⟨x, hx, rfl⟩ := Option.map_eq_some_iff.mp hi
      exact (hat i x hx).2
  · rintro ⟨hall, hnodup⟩ ⟨x, i⟩ hmem
    have hi : xs[i]? = some x := List.mem_zipIdx_iff_getElem?.mp hmem
    refine ⟨hall x (List.mem_of_getElem? hi), isRepeated_eq_false_of_nodup hnodup ?_⟩
    rw [List.getElem?_map, hi, Option.map_some]

/-- Errors that a condition keeps away. -/
theorem Report.hasErrors_unless_iff {c : Prop} [Decidable c] {d : Diagnostic}
    (hd : d.isError = true) : hasErrors (if c then [] else [d]) = false ↔ c := by
  by_cases hc : c
  · rw [if_pos hc]
    exact ⟨fun _ => hc, fun _ => rfl⟩
  · rw [if_neg hc]
    simp [hasErrors, hd, hc]

theorem Report.hasErrors_when_iff {c : Bool} {d : Diagnostic} (hd : d.isError = true) :
    hasErrors (if c then [d] else []) = false ↔ c = false := by
  cases c with
  | true => simp [hasErrors, hd]
  | false => simp [hasErrors]

theorem NameIndex.hasErrors_problems_eq_false_iff {kind : ResourceKind} :
    (problems kind names i name).hasErrors = false ↔
      Text.isName name = true ∧ isRepeated names i name = false := by
  rw [problems, Report.hasErrors_append_eq_false_iff, Report.hasErrors_unless_iff rfl,
    Report.hasErrors_when_iff rfl]

/-- A review without errors: the names are well formed and different. -/
theorem NameIndex.hasErrors_review_eq_false_iff {kind : ResourceKind} :
    (review kind names).hasErrors = false ↔
      (∀ name ∈ names, Text.isName name = true) ∧ names.Nodup := by
  have hall := @forall_zipIdx_isRepeated_iff String id names (Text.isName · = true)
  rw [List.map_id] at hall
  rw [review, Report.hasErrors_flatMap_eq_false_iff, ← hall]
  simp only [hasErrors_problems_eq_false_iff, id_eq]

theorem NameIndex.place_of_mem_review {kind : ResourceKind} {d : Diagnostic}
    (h : d ∈ review kind names) : d.place ≠ .whole := by
  obtain ⟨⟨name, i⟩, -, hd⟩ := List.mem_flatMap.mp h
  have hplace : d.place = .item i := by
    rcases List.mem_append.mp hd with hd | hd
    · obtain ⟨-, hd⟩ := List.mem_ite_nil_left.mp hd
      rw [List.mem_singleton.mp hd]
    · obtain ⟨-, hd⟩ := List.mem_ite_nil_right.mp hd
      rw [List.mem_singleton.mp hd]
  rw [hplace]
  exact Place.noConfusion

/-- Names that are well formed and different from each other. -/
structure ProperNames (names : List String) : Prop where
  valid : ∀ name ∈ names, Text.isName name = true
  nodup : names.Nodup

theorem NameIndex.hasErrors_review_iff_properNames {kind : ResourceKind} :
    (review kind names).hasErrors = false ↔ ProperNames names := by
  rw [hasErrors_review_eq_false_iff]
  exact ⟨fun h => ⟨h.1, h.2⟩, fun h => ⟨h.valid, h.nodup⟩⟩

/-- Among items with different names every one is found by its name. -/
theorem find?_eq_some_iff_of_nodup {α : Type} (nameOf : α → String) {xs : List α} {x : α}
    (hnodup : (xs.map nameOf).Nodup) :
    xs.find? (fun y => nameOf y == name) = some x ↔ x ∈ xs ∧ nameOf x = name := by
  constructor
  · intro h
    exact ⟨List.mem_of_find?_eq_some h,
      eq_of_beq (List.find?_some (p := fun y => nameOf y == name) h)⟩
  · rintro ⟨hx, rfl⟩
    cases hf : xs.find? (fun y => nameOf y == nameOf x) with
    | none =>
      have hnone := List.find?_eq_none.mp hf x hx
      exact absurd (beq_self_eq_true (nameOf x)) hnone
    | some y =>
      have hname := eq_of_beq (List.find?_some (p := fun y => nameOf y == nameOf x) hf)
      rw [List.inj_on_of_nodup_map hnodup (List.mem_of_find?_eq_some hf) hx hname]

/-- Among items with different names no other has the name of one of them. -/
theorem filter_eq_singleton_of_nodup {α : Type} {nameOf : α → String} {xs : List α} {x : α}
    (hnodup : (xs.map nameOf).Nodup) (hx : x ∈ xs) :
    xs.filter (fun y => nameOf y == nameOf x) = [x] := by
  induction xs with
  | nil => exact absurd hx List.not_mem_nil
  | cons y ys ih =>
    rw [List.map_cons, List.nodup_cons] at hnodup
    rcases List.mem_cons.mp hx with rfl | hx
    · rw [List.filter_cons, if_pos (beq_self_eq_true _), List.filter_eq_nil_iff.mpr]
      intro z hz heq
      rw [beq_iff_eq] at heq
      exact hnodup.1 (heq ▸ List.mem_map_of_mem hz)
    · rw [List.filter_cons, if_neg, ih hnodup.2 hx]
      rw [beq_iff_eq]
      intro heq
      exact hnodup.1 (heq ▸ List.mem_map_of_mem hx)

end Names

/-! ## The first item of every name -/

section Firsts

variable {α : Type} (nameOf : α → String)

/-- The items whose names are neither among `seen` nor the name of an item before. -/
def firsts (seen : List String) : List α → List α
  | [] => []
  | x :: xs =>
    if nameOf x ∈ seen then firsts seen xs else x :: firsts (nameOf x :: seen) xs

variable {nameOf} {seen seen' : List String} {xs ys : List α} {x : α} {name : String}

theorem firsts_congr (h : ∀ name, name ∈ seen ↔ name ∈ seen') :
    firsts nameOf seen xs = firsts nameOf seen' xs := by
  induction xs generalizing seen seen' with
  | nil => rfl
  | cons x xs ih =>
    simp only [firsts, h (nameOf x)]
    rw [ih h, @ih (nameOf x :: seen) (nameOf x :: seen')]
    intro name
    rw [List.mem_cons, List.mem_cons, h name]

theorem firsts_append : firsts nameOf seen (xs ++ ys) =
    firsts nameOf seen xs ++ firsts nameOf (xs.map nameOf ++ seen) ys := by
  induction xs generalizing seen with
  | nil => rfl
  | cons x xs ih =>
    rw [List.cons_append, firsts, firsts]
    by_cases hx : nameOf x ∈ seen
    · rw [if_pos hx, if_pos hx, ih]
      congr 1
      refine firsts_congr fun name => ?_
      simp only [List.map_cons, List.cons_append, List.mem_cons, List.mem_append]
      constructor
      · exact Or.inr
      · rintro (rfl | h)
        · exact Or.inr hx
        · exact h
    · rw [if_neg hx, if_neg hx, ih, List.cons_append]
      congr 2
      refine firsts_congr fun name => ?_
      simp only [List.map_cons, List.cons_append, List.mem_cons, List.mem_append]
      rw [or_left_comm]

theorem isRepeated_cons_succ {names : List String} {first : String} {i : Nat} :
    isRepeated (first :: names) (i + 1) name = (name == first || isRepeated names i name) := by
  rw [isRepeated, List.take_succ_cons, List.contains_cons, isRepeated]

/-- Items are kept by their positions. -/
theorem filterMap_zipIdx_eq_firsts : (xs.zipIdx.filterMap fun (x, i) =>
    if seen.contains (nameOf x) || isRepeated (xs.map nameOf) i (nameOf x) then none
    else some x) = firsts nameOf seen xs := by
  induction xs generalizing seen with
  | nil => rfl
  | cons x xs ih =>
    -- behind the head every position is shifted by one, and the name of the head is seen
    have htail : ((xs.zipIdx 1).filterMap fun (y, i) =>
        if seen.contains (nameOf y) || isRepeated ((x :: xs).map nameOf) i (nameOf y) then none
        else some y) = firsts nameOf (nameOf x :: seen) xs := by
      rw [List.zipIdx_succ, List.filterMap_map, ← ih]
      refine List.filterMap_congr fun y _ => ?_
      simp only [Function.comp_apply, List.map_cons, isRepeated_cons_succ, List.contains_cons]
      rw [← Bool.or_assoc, Bool.or_comm (seen.contains _)]
    rw [List.zipIdx_cons, List.filterMap_cons, htail, firsts]
    by_cases hx : nameOf x ∈ seen
    · have hseen : seen.contains (nameOf x) = true := List.contains_iff_mem.mpr hx
      rw [if_pos hx]
      simp only [hseen, Bool.true_or, if_true]
      refine firsts_congr fun name => ?_
      rw [List.mem_cons]
      exact ⟨fun h => h.elim (fun h => h ▸ hx) id, Or.inr⟩
    · have hseen : seen.contains (nameOf x) = false := by
        rw [Bool.eq_false_iff, ne_eq, List.contains_iff_mem]
        exact hx
      have hrep : isRepeated ((x :: xs).map nameOf) 0 (nameOf x) = false := rfl
      rw [if_neg hx]
      simp only [hseen, hrep, Bool.or_self, Bool.false_eq_true, if_false]

theorem filterMap_isRepeated_eq_firsts : (xs.zipIdx.filterMap fun (x, i) =>
    if isRepeated (xs.map nameOf) i (nameOf x) then none else some x) = firsts nameOf [] xs :=
  @filterMap_zipIdx_eq_firsts α nameOf [] xs

theorem mem_names_firsts_iff :
    name ∈ (firsts nameOf seen xs).map nameOf ↔ name ∈ xs.map nameOf ∧ name ∉ seen := by
  induction xs generalizing seen with
  | nil => simp [firsts]
  | cons x xs ih =>
    rw [firsts]
    by_cases hx : nameOf x ∈ seen
    · rw [if_pos hx, ih, List.map_cons, List.mem_cons]
      constructor
      · exact fun h => ⟨Or.inr h.1, h.2⟩
      · rintro ⟨rfl | h, hnew⟩
        · exact absurd hx hnew
        · exact ⟨h, hnew⟩
    · rw [if_neg hx, List.map_cons, List.mem_cons, ih, List.map_cons, List.mem_cons, List.mem_cons,
        not_or]
      constructor
      · rintro (rfl | ⟨h, -, hnew⟩)
        · exact ⟨Or.inl rfl, hx⟩
        · exact ⟨Or.inr h, hnew⟩
      · rintro ⟨rfl | h, hnew⟩
        · exact Or.inl rfl
        · by_cases hname : name = nameOf x
          · exact Or.inl hname
          · exact Or.inr ⟨h, hname, hnew⟩

theorem nodup_names_firsts : ((firsts nameOf seen xs).map nameOf).Nodup := by
  induction xs generalizing seen with
  | nil => exact List.nodup_nil
  | cons x xs ih =>
    rw [firsts]
    by_cases hx : nameOf x ∈ seen
    · rw [if_pos hx]
      exact ih
    · rw [if_neg hx, List.map_cons, List.nodup_cons, mem_names_firsts_iff]
      exact ⟨fun h => h.2 List.mem_cons_self, ih⟩

/-- Nothing is left out if no name is repeated. -/
theorem firsts_eq_self (hnodup : (xs.map nameOf).Nodup) (hnew : ∀ x ∈ xs, nameOf x ∉ seen) :
    firsts nameOf seen xs = xs := by
  induction xs generalizing seen with
  | nil => rfl
  | cons x xs ih =>
    rw [List.map_cons, List.nodup_cons] at hnodup
    rw [firsts, if_neg (hnew x List.mem_cons_self), ih hnodup.2]
    intro y hy hmem
    rcases List.mem_cons.mp hmem with hname | hmem
    · exact hnodup.1 (hname ▸ List.mem_map_of_mem hy)
    · exact hnew y (List.mem_cons_of_mem x hy) hmem

/-- An item is the first of its name if a search for the name finds it. -/
theorem mem_firsts_iff : x ∈ firsts nameOf seen xs ↔
    xs.find? (fun y => nameOf y == nameOf x) = some x ∧ nameOf x ∉ seen := by
  induction xs generalizing seen with
  | nil => simp [firsts]
  | cons y ys ih =>
    rw [firsts, List.find?_cons]
    by_cases hname : nameOf y = nameOf x
    · have hbeq : (nameOf y == nameOf x) = true := by rw [hname, beq_self_eq_true]
      rw [hbeq]
      by_cases hy : nameOf y ∈ seen
      · rw [if_pos hy, ih]
        rw [hname] at hy
        exact ⟨fun h => absurd hy h.2, fun h => absurd hy h.2⟩
      · rw [if_neg hy, List.mem_cons, ih, Option.some.injEq]
        rw [hname] at hy
        constructor
        · rintro (rfl | h)
          · exact ⟨rfl, hy⟩
          · exact absurd (List.mem_cons.mpr (Or.inl hname.symm)) h.2
        · exact fun h => Or.inl h.1.symm
    · have hbeq : (nameOf y == nameOf x) = false := by
        rw [Bool.eq_false_iff, ne_eq, beq_iff_eq]
        exact hname
      rw [hbeq]
      by_cases hy : nameOf y ∈ seen
      · rw [if_pos hy, ih]
      · rw [if_neg hy, List.mem_cons, ih, List.mem_cons, not_or]
        constructor
        · rintro (rfl | h)
          · exact absurd rfl hname
          · exact ⟨h.1, h.2.2⟩
        · exact fun h => Or.inr ⟨h.1, fun hc => hname hc.symm, h.2⟩

end Firsts

end Cartridge
