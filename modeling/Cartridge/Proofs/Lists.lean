import Mathlib.Data.List.Forall2
import Cartridge.Bytes

/-!
# Positions in lists

Where something stands in a list: the first item with a property, a list by its positions
(`map_range_eq`), the pieces of equal width that bytes are made of (`exists_flatMap_eq`), and the
partner of an item in a list that belongs to it item by item.
-/

namespace Cartridge

variable {α β : Type}

/-! ### Items that are found -/

section Found

variable {names : List String} {name : String} {i : Nat}

theorem exists_of_findIdx? {p : α → Bool} {xs : List α} (h : xs.findIdx? p = some i) :
    ∃ x, xs[i]? = some x ∧ p x = true := by
  obtain ⟨hlt, hp, -⟩ := List.findIdx?_eq_some_iff_getElem.mp h
  exact ⟨xs[i], List.getElem?_eq_getElem hlt, hp⟩

theorem lt_of_findIdx? {p : α → Bool} {xs : List α} (h : xs.findIdx? p = some i) :
    i < xs.length :=
  (List.findIdx?_eq_some_iff_findIdx_eq.mp h).1

theorem getElem?_of_findIdx? (h : names.findIdx? (· == name) = some i) :
    names[i]? = some name := by
  obtain ⟨found, hget, hp⟩ := exists_of_findIdx? h
  rw [hget, eq_of_beq hp]

theorem exists_findIdx?_of_mem (h : name ∈ names) : ∃ i, names.findIdx? (· == name) = some i := by
  cases hf : names.findIdx? (· == name) with
  | some i => exact ⟨i, rfl⟩
  | none => exact absurd (List.findIdx?_eq_none_iff.mp hf name h) (by simp)

/-- The first number with a property. -/
def First (p : Nat → Prop) (n : Nat) : Prop := p n ∧ ∀ m < n, ¬ p m

theorem findIdx?_eq_some_iff_first {p : α → Bool} {xs : List α} :
    xs.findIdx? p = some i ↔ First (fun n => ∃ x, xs[n]? = some x ∧ p x = true) i := by
  rw [List.findIdx?_eq_some_iff_getElem]
  constructor
  · rintro ⟨hlt, hp, hbefore⟩
    refine ⟨⟨xs[i], List.getElem?_eq_getElem hlt, hp⟩, ?_⟩
    rintro n hn ⟨x, hx, hpx⟩
    obtain ⟨hlt, rfl⟩ := List.getElem?_eq_some_iff.mp hx
    exact hbefore n hn hpx
  · rintro ⟨⟨x, hx, hpx⟩, hbefore⟩
    obtain ⟨hlt, rfl⟩ := List.getElem?_eq_some_iff.mp hx
    exact ⟨hlt, hpx, fun n hn hp => hbefore n hn ⟨_, List.getElem?_eq_getElem (by omega), hp⟩⟩

theorem findIdx?_eq_none_iff_forall {p : α → Bool} {xs : List α} :
    xs.findIdx? p = none ↔ ∀ n : Nat, ¬ ∃ x, xs[n]? = some x ∧ p x = true := by
  rw [List.findIdx?_eq_none_iff]
  constructor
  · rintro h n ⟨x, hx, hp⟩
    rw [h x (List.mem_of_getElem? hx)] at hp
    exact Bool.false_ne_true hp
  · intro h x hx
    obtain ⟨n, hn⟩ := List.getElem?_of_mem hx
    exact Bool.eq_false_iff.mpr fun hp => h n ⟨x, hn, hp⟩

end Found

/-! ### Lists by position -/

/-- The items in front of a position. -/
theorem mem_take_iff {xs : List α} {x : α} {n : Nat} :
    x ∈ xs.take n ↔ ∃ m, m < n ∧ xs[m]? = some x := by
  rw [List.mem_take_iff_getElem]
  constructor
  · rintro ⟨m, hm, rfl⟩
    exact ⟨m, by omega, List.getElem?_eq_getElem (by omega)⟩
  · rintro ⟨m, hm, hget⟩
    obtain ⟨hlt, rfl⟩ := List.getElem?_eq_some_iff.mp hget
    exact ⟨m, by omega, rfl⟩

/-- The low byte of the index of a name leads to the name if it is one of the first 256. -/
theorem getElem?_mod_iff_mem_take {names : List String} {name : String} {k : Nat}
    (h : names.findIdx? (· == name) = some k) :
    names[k % 256]? = some name ↔ name ∈ names.take 256 := by
  rw [mem_take_iff]
  constructor
  · intro hget
    exact ⟨k % 256, Nat.mod_lt k (by decide), hget⟩
  · rintro ⟨m, hm, hget⟩
    -- no equal name stands in front of the first
    have hle : k ≤ m := by
      obtain ⟨_, -, hfirst⟩ := List.findIdx?_eq_some_iff_getElem.mp h
      obtain ⟨hlt, hname⟩ := List.getElem?_eq_some_iff.mp hget
      by_contra hc
      have hne := hfirst m (Nat.not_le.mp hc)
      rw [hname] at hne
      exact hne (beq_self_eq_true name)
    rw [Nat.mod_eq_of_lt (by omega)]
    exact getElem?_of_findIdx? h

/-- A list is what is found at each of its positions. -/
theorem map_range_eq {f : Nat → α} {xs : List α} {n : Nat} (hlen : xs.length = n)
    (h : ∀ (i : Nat) (x : α), xs[i]? = some x → f i = x) : (List.range n).map f = xs := by
  subst hlen
  refine List.ext_getElem (by rw [List.length_map, List.length_range]) fun i _ hi => ?_
  rw [List.getElem_map, List.getElem_range]
  exact h i _ (List.getElem?_eq_getElem hi)

/-! ### Pieces -/

section Pieces

theorem getElem?_append_add (front rest : List α) (i : Nat) :
    (front ++ rest)[front.length + i]? = rest[i]? := by
  rw [List.getElem?_append_right (Nat.le_add_right _ _), Nat.add_sub_cancel_left]

/-- A byte of a piece. -/
theorem getElem?_append_piece {front piece : List α} (rest : List α) {i : Nat}
    (hi : i < piece.length) : (front ++ piece ++ rest)[front.length + i]? = piece[i]? := by
  rw [List.append_assoc, getElem?_append_add, List.getElem?_append_left hi]

theorem drop_of_eq_append {front rest xs : List α} (h : xs = front ++ rest) :
    xs.drop front.length = rest := by
  rw [h, List.drop_left]

variable {f : α → Bytes} {width : Nat} {xs : List α}

theorem length_flatMap_of_width (hw : ∀ x, (f x).length = width) :
    (xs.flatMap f).length = width * xs.length := by
  induction xs with
  | nil => rfl
  | cons x xs ih =>
    rw [List.flatMap_cons, List.length_append, hw, ih, List.length_cons, Nat.mul_add,
      Nat.mul_one, Nat.add_comm]

/-- Piece `i` stands behind `i` others. -/
theorem exists_flatMap_eq (hw : ∀ x, (f x).length = width) {i : Nat} {x : α}
    (h : xs[i]? = some x) :
    ∃ front rest, xs.flatMap f = front ++ f x ++ rest ∧ front.length = width * i := by
  obtain ⟨hlt, hget⟩ := List.getElem?_eq_some_iff.mp h
  refine ⟨(xs.take i).flatMap f, (xs.drop (i + 1)).flatMap f, ?_, ?_⟩
  · rw [← hget, List.append_assoc, ← List.flatMap_cons, ← List.drop_eq_getElem_cons hlt,
      ← List.flatMap_append, List.take_append_drop]
  · rw [length_flatMap_of_width hw, List.length_take, Nat.min_eq_left (Nat.le_of_lt hlt)]

end Pieces

/-! ### Lists that belong to each other -/

section Pairs

variable {R : α → β → Prop} {xs : List α} {ys : List β}

theorem exists_getElem?_of_forall₂ (h : List.Forall₂ R xs ys) {i : Nat} {x : α}
    (hx : xs[i]? = some x) : ∃ y, ys[i]? = some y ∧ R x y := by
  induction h generalizing i with
  | nil => exact absurd hx (by simp)
  | cons hR _ ih =>
    cases i with
    | zero =>
      obtain rfl := Option.some.inj hx
      exact ⟨_, rfl, hR⟩
    | succ i => exact ih hx

theorem forall₂_filterMap {f : α → Option β} (h : ∀ x ∈ xs, ∃ y, f x = some y ∧ R x y) :
    List.Forall₂ R xs (xs.filterMap f) := by
  induction xs with
  | nil => exact .nil
  | cons x xs ih =>
    obtain ⟨y, hy, hR⟩ := h x List.mem_cons_self
    rw [List.filterMap_cons_some hy]
    exact .cons hR (ih fun x hx => h x (List.mem_cons_of_mem _ hx))

/-- Where items and partners belong to each other, what is asked of a pair is asked of the item. -/
theorem forall₂_iff_forall {S : α → β → Prop} {p : α → Prop} (h : List.Forall₂ R xs ys)
    (hp : ∀ x y, R x y → (S x y ↔ p x)) : List.Forall₂ S xs ys ↔ ∀ x ∈ xs, p x := by
  induction h with
  | nil => simp
  | cons hR _ ih => rw [List.forall₂_cons, List.forall_mem_cons, hp _ _ hR, ih]

/-- The partner of every item is its image. -/
theorem forall₂_eq_and_iff {f : α → β} {p : α → Prop} :
    List.Forall₂ (fun x y => y = f x ∧ p x) xs ys ↔ ys = xs.map f ∧ ∀ x ∈ xs, p x := by
  induction xs generalizing ys with
  | nil => simp
  | cons x xs ih =>
    rw [List.forall₂_cons_left_iff, List.map_cons, List.forall_mem_cons]
    constructor
    · rintro ⟨y, ys', ⟨rfl, hx⟩, hxs, rfl⟩
      obtain ⟨rfl, hall⟩ := ih.mp hxs
      exact ⟨rfl, hx, hall⟩
    · rintro ⟨rfl, hx, hall⟩
      exact ⟨_, _, ⟨rfl, hx⟩, ih.mpr ⟨rfl, hall⟩, rfl⟩

end Pairs

end Cartridge
