import Cartridge.Script.Position

/-!
# Positions are invertible

The position of an offset is where the characters before it lead to (`walk?_append`), and only the
places between two characters have one (`isBoundary_of_walk?`).  Back from a position, a text is
split at its line ends: `Position.offset?` counts the lines before the one of the position, each
with its line end, and the characters before the column.

Main statement: `Position.at?_invertible`.
-/

namespace Cartridge.Script

theorem byteLength_eq_zero_iff {cs : List Char} : byteLength cs = 0 ↔ cs = [] := by
  cases cs with
  | nil => simp
  | cons c cs =>
    have hpos := c.utf8Size_pos
    simp only [byteLength_cons, reduceCtorEq, iff_false]
    omega

/-- A place between two characters of a text, or at one of its ends. -/
def IsBoundary (text : List Char) (offset : Nat) : Prop :=
  ∃ before after, text = before ++ after ∧ byteLength before = offset

namespace Position

/-- Whether a position comes first in reading order. -/
def Before (p q : Position) : Prop :=
  p.line < q.line ∨ (p.line = q.line ∧ p.column < q.column)

/-- The position behind some characters that stand at `p`. -/
def after (p : Position) (cs : List Char) : Position := cs.foldl next p

/-- The characters before the offset lead to the position. -/
def Reaches (text : List Char) (offset : Nat) (p : Position) : Prop :=
  ∃ before rest, text = before ++ rest ∧ byteLength before = offset ∧ first.after before = p

/-- The offset of the place behind so many characters of a line, both counted from zero.  The lines
before it count with the line ends between them. -/
def offsetIn? (lines : List (List Char)) (line column : Nat) : Option Nat :=
  lines[line]?.bind fun l =>
    if column ≤ l.length then
      some (total ((lines.take line).map fun l => byteLength l + 1) + byteLength (l.take column))
    else none

/-- The offset that a position leads to in a text that is split at its line ends. -/
def offset? (text : List Char) (p : Position) : Option Nat :=
  if 1 ≤ p.line ∧ 1 ≤ p.column then
    offsetIn? (text.splitOn '\n') (p.line - 1) (p.column - 1)
  else none

/-! ## Walking along a text -/

section Walk

variable {p q r : Position} {c : Char} {cs ds text : List Char} {n offset : Nat}

@[simp] theorem after_nil : p.after [] = p := rfl

@[simp] theorem after_cons : p.after (c :: cs) = (p.next c).after cs := rfl

theorem after_append : p.after (cs ++ ds) = (p.after cs).after ds := List.foldl_append

theorem walk?_append (p : Position) (cs ds : List Char) :
    p.walk? (byteLength cs) (cs ++ ds) = some (p.after cs) := by
  induction cs generalizing p with
  | nil => rw [byteLength_nil, walk?, after_nil]
  | cons c cs ih =>
    have hpos := c.utf8Size_pos
    obtain ⟨n, hn⟩ : ∃ n, c.utf8Size + byteLength cs = n + 1 := ⟨_, (Nat.succ_pred (by omega)).symm⟩
    rw [List.cons_append, byteLength_cons, hn, walk?, if_pos (by omega),
      show n + 1 - c.utf8Size = byteLength cs by omega, ih, after_cons]

/-- Past the end, a walk stays at the end. -/
theorem walk?_of_le (h : byteLength cs ≤ n) : p.walk? n cs = some (p.after cs) := by
  induction cs generalizing p n with
  | nil => cases n <;> rfl
  | cons c cs ih =>
    rw [byteLength_cons] at h
    have hpos := c.utf8Size_pos
    obtain ⟨m, rfl⟩ : ∃ m, n = m + 1 := ⟨n - 1, by omega⟩
    rw [walk?, if_pos (by omega), ih (by omega), after_cons]

/-- No walk ends inside of a character. -/
theorem isBoundary_of_walk? (hle : n ≤ byteLength cs) (h : p.walk? n cs = some q) :
    IsBoundary cs n := by
  induction cs generalizing p n with
  | nil => exact ⟨[], [], rfl, (Nat.le_zero.mp hle).symm⟩
  | cons c cs ih =>
    cases n with
    | zero => exact ⟨[], c :: cs, rfl, rfl⟩
    | succ n =>
      rw [byteLength_cons] at hle
      rw [walk?] at h
      split at h
      next hc =>
        obtain ⟨before, rest, rfl, hlen⟩ := ih (by omega) h
        refine ⟨c :: before, rest, rfl, ?_⟩
        rw [byteLength_cons]
        omega
      next => exact absurd h (by simp)

theorem at?_byteLength (before rest : List Char) :
    at? (before ++ rest) (byteLength before) = some (first.after before) :=
  walk?_append first before rest

/-- An offset past the end counts as the end. -/
theorem at?_min : at? text (min offset (byteLength text)) = at? text offset := by
  by_cases hle : offset ≤ byteLength text
  · rw [Nat.min_eq_left hle]
  · have hge := Nat.le_of_not_le hle
    rw [Nat.min_eq_right hge, at?, at?, walk?_of_le hge, walk?_of_le (Nat.le_refl _)]

theorem at?_eq_some_iff : at? text offset = some p ↔
    Reaches text (min offset (byteLength text)) p := by
  rw [← at?_min]
  constructor
  · intro h
    obtain ⟨before, rest, rfl, hlen⟩ := isBoundary_of_walk? (Nat.min_le_right _ _) h
    rw [← hlen, at?_byteLength] at h
    exact ⟨before, rest, rfl, hlen, Option.some.inj h⟩
  · rintro ⟨before, rest, rfl, hlen, rfl⟩
    rw [← hlen]
    exact at?_byteLength before rest

end Walk

/-! ## Reading order -/

section Order

variable {p q r : Position} {c : Char} {cs : List Char}

theorem Before.trans (hpq : p.Before q) (hqr : q.Before r) : p.Before r := by
  unfold Before at *
  omega

theorem Before.asymm (hpq : p.Before q) : ¬ q.Before p := by
  unfold Before at *
  omega

theorem before_next (p : Position) (c : Char) : p.Before (p.next c) := by
  unfold next
  split
  · exact .inl (Nat.lt_succ_self p.line)
  · exact .inr ⟨rfl, Nat.lt_succ_self p.column⟩

theorem before_after (h : cs ≠ []) : p.Before (p.after cs) := by
  induction cs generalizing p with
  | nil => exact absurd rfl h
  | cons c cs ih =>
    rw [after_cons]
    by_cases hcs : cs = []
    · rw [hcs, after_nil]
      exact before_next p c
    · exact (before_next p c).trans (ih hcs)

end Order

/-! ## Lines and columns -/

section Lines

variable {l : List Char} {lines : List (List Char)} {c : Char} {text cs : List Char}
  {line column offset : Nat} {p q : Position}

/-- A position in a text, moved by one more character in front of the text. -/
def behind (c : Char) (p : Position) : Position :=
  if c = '\n' then ⟨p.line + 1, p.column⟩
  else if p.line = 1 then ⟨1, p.column + 1⟩
  else p

theorem after_line_succ (line column : Nat) (cs : List Char) :
    (⟨line + 1, column⟩ : Position).after cs =
      ⟨((⟨line, column⟩ : Position).after cs).line + 1,
        ((⟨line, column⟩ : Position).after cs).column⟩ := by
  induction cs generalizing line column with
  | nil => rfl
  | cons c cs ih =>
    by_cases hc : c = '\n'
    · simp only [after_cons, next, if_pos hc, ih]
    · simp only [after_cons, next, if_neg hc, ih]

/-- Only what is in the same line is moved to the next column. -/
theorem after_column_succ (line column : Nat) (cs : List Char) :
    (⟨line, column + 1⟩ : Position).after cs =
      if ((⟨line, column⟩ : Position).after cs).line = line then
        ⟨line, ((⟨line, column⟩ : Position).after cs).column + 1⟩
      else (⟨line, column⟩ : Position).after cs := by
  induction cs generalizing column with
  | nil => simp
  | cons c cs ih =>
    by_cases hc : c = '\n'
    · have hline : ((⟨line + 1, 1⟩ : Position).after cs).line ≠ line := by
        by_cases hcs : cs = []
        · simp [hcs]
        · rcases before_after (p := ⟨line + 1, 1⟩) hcs with hlt | ⟨heq, -⟩
          · exact Nat.ne_of_gt (Nat.lt_of_succ_lt hlt)
          · rw [← heq]
            exact Nat.succ_ne_self line
      simp only [after_cons, next, if_pos hc, if_neg hline]
    · simp only [after_cons, next, if_neg hc, ih (column + 1)]

theorem after_next_first (c : Char) (cs : List Char) :
    (first.next c).after cs = (first.after cs).behind c := by
  by_cases hc : c = '\n'
  · rw [behind, if_pos hc, next, if_pos hc]
    exact after_line_succ 1 1 cs
  · rw [behind, if_neg hc, next, if_neg hc]
    exact after_column_succ 1 1 cs

/-- Lines and columns are counted from one. -/
theorem one_le_after (cs : List Char) :
    1 ≤ (first.after cs).line ∧ 1 ≤ (first.after cs).column := by
  have hstep : ∀ p : Position, 1 ≤ p.line ∧ 1 ≤ p.column →
      1 ≤ (p.after cs).line ∧ 1 ≤ (p.after cs).column := by
    induction cs with
    | nil => exact fun p hp => hp
    | cons c cs ih =>
      refine fun p hp => ih (p.next c) ?_
      unfold next
      split
      · exact ⟨Nat.le_add_left 1 _, Nat.le_refl 1⟩
      · exact ⟨hp.1, Nat.le_add_left 1 _⟩
  exact hstep first ⟨Nat.le_refl 1, Nat.le_refl 1⟩

theorem Reaches.one_le (h : Reaches text offset p) : 1 ≤ p.line ∧ 1 ≤ p.column := by
  obtain ⟨before, -, -, -, rfl⟩ := h
  exact one_le_after before

/-- Nothing but the start is at the first position. -/
theorem reaches_first_iff : Reaches text offset first ↔ offset = 0 := by
  constructor
  · rintro ⟨before, rest, rfl, rfl, hp⟩
    by_cases hne : before = []
    · rw [hne, byteLength_nil]
    · have hbefore := before_after (p := first) hne
      rw [hp] at hbefore
      exact absurd hbefore hbefore.asymm
  · rintro rfl
    exact ⟨[], text, rfl, rfl, rfl⟩

theorem reaches_nil_iff : Reaches [] offset p ↔ offset = 0 ∧ p = first := by
  constructor
  · rintro ⟨before, rest, htext, rfl, rfl⟩
    obtain ⟨rfl, -⟩ := List.append_eq_nil_iff.mp htext.symm
    exact ⟨rfl, rfl⟩
  · rintro ⟨rfl, rfl⟩
    exact reaches_first_iff.mpr rfl

/-- Away from the start, the places behind the first character are those of the text behind it. -/
theorem reaches_cons_iff (hp : p ≠ first) : Reaches (c :: cs) offset p ↔
    ∃ n q, Reaches cs n q ∧ c.utf8Size + n = offset ∧ q.behind c = p := by
  constructor
  · rintro ⟨before, rest, htext, rfl, rfl⟩
    cases before with
    | nil => exact absurd rfl hp
    | cons d before =>
      obtain ⟨rfl, rfl⟩ := List.cons_eq_cons.mp htext
      exact ⟨_, _, ⟨before, rest, rfl, rfl, rfl⟩, rfl, (after_next_first c before).symm⟩
  · rintro ⟨n, q, ⟨before, rest, rfl, rfl, rfl⟩, rfl, rfl⟩
    exact ⟨c :: before, rest, rfl, rfl, after_next_first c before⟩

theorem reaches_newline_cons_iff : Reaches ('\n' :: cs) offset ⟨line + 2, column⟩ ↔
    ∃ n, Reaches cs n ⟨line + 1, column⟩ ∧ 1 + n = offset := by
  rw [reaches_cons_iff (by simp [first])]
  constructor
  · rintro ⟨n, ⟨l, k⟩, hn, rfl, hq⟩
    obtain ⟨rfl, rfl⟩ : l = line + 1 ∧ k = column := by simpa [behind] using hq
    exact ⟨n, hn, rfl⟩
  · rintro ⟨n, hn, rfl⟩
    exact ⟨n, _, hn, rfl, rfl⟩

theorem not_reaches_newline_cons : ¬ Reaches ('\n' :: cs) offset ⟨1, column + 2⟩ := by
  rw [reaches_cons_iff (by simp [first])]
  rintro ⟨n, q, hn, -, hq⟩
  have hline := hn.one_le.1
  rw [behind, if_pos rfl, Position.mk.injEq] at hq
  omega

theorem reaches_cons_column_iff (hc : c ≠ '\n') : Reaches (c :: cs) offset ⟨1, column + 2⟩ ↔
    ∃ n, Reaches cs n ⟨1, column + 1⟩ ∧ c.utf8Size + n = offset := by
  rw [reaches_cons_iff (by simp [first])]
  constructor
  · rintro ⟨n, ⟨l, k⟩, hn, rfl, hq⟩
    rw [behind, if_neg hc] at hq
    split at hq
    next hl =>
      obtain rfl : l = 1 := hl
      obtain rfl : k = column + 1 := by simpa using hq
      exact ⟨n, hn, rfl⟩
    next hl => exact absurd (congrArg Position.line hq) hl
  · rintro ⟨n, hn, rfl⟩
    exact ⟨n, _, hn, rfl, by rw [behind, if_neg hc, if_pos rfl]⟩

theorem reaches_cons_line_iff (hc : c ≠ '\n') : Reaches (c :: cs) offset ⟨line + 2, column⟩ ↔
    ∃ n, Reaches cs n ⟨line + 2, column⟩ ∧ c.utf8Size + n = offset := by
  rw [reaches_cons_iff (by simp [first])]
  constructor
  · rintro ⟨n, q, hn, rfl, hq⟩
    rw [behind, if_neg hc] at hq
    split at hq
    · exact absurd (congrArg Position.line hq) (by simp)
    · exact ⟨n, hq ▸ hn, rfl⟩
  · rintro ⟨n, hn, rfl⟩
    exact ⟨n, _, hn, rfl, by rw [behind, if_neg hc, if_neg (by simp)]⟩

theorem offsetIn?_zero_zero : offsetIn? (l :: lines) 0 0 = some 0 := rfl

theorem offsetIn?_nil_succ : offsetIn? ([] :: lines) 0 (column + 1) = none := rfl

theorem offsetIn?_line_succ : offsetIn? (l :: lines) (line + 1) column =
    (offsetIn? lines line column).map (byteLength l + 1 + ·) := by
  simp only [offsetIn?, List.getElem?_cons_succ, List.take_succ_cons, List.map_cons, total_cons]
  cases lines[line]? with
  | none => rfl
  | some m =>
    simp only [Option.bind_some]
    split
    · simp [Nat.add_assoc]
    · rfl

theorem offsetIn?_column_succ : offsetIn? ((c :: l) :: lines) 0 (column + 1) =
    (offsetIn? (l :: lines) 0 column).map (c.utf8Size + ·) := by
  simp only [offsetIn?, List.getElem?_cons_zero, Option.bind_some, List.length_cons,
    Nat.add_le_add_iff_right, List.take_succ_cons, byteLength_cons, List.take_zero, List.map_nil,
    total_nil, Nat.zero_add]
  split
  · rfl
  · rfl

theorem offsetIn?_cons_line_succ : offsetIn? ((c :: l) :: lines) (line + 1) column =
    (offsetIn? (l :: lines) (line + 1) column).map (c.utf8Size + ·) := by
  rw [offsetIn?_line_succ, offsetIn?_line_succ, Option.map_map, byteLength_cons]
  congr 1
  funext n
  simp only [Function.comp_apply]
  omega

/-- The lines that a text is split into lead to the same places as its characters. -/
theorem offsetIn?_splitOn_eq_some_iff :
    offsetIn? (text.splitOn '\n') line column = some offset ↔
      Reaches text offset ⟨line + 1, column + 1⟩ := by
  induction text generalizing line column offset with
  | nil =>
    rw [List.splitOn_nil, reaches_nil_iff]
    rcases line with _ | line
    · rcases column with _ | column
      · simp [offsetIn?_zero_zero, first, eq_comm]
      · simp [offsetIn?_nil_succ, first]
    · simp [offsetIn?, first]
  | cons c text ih =>
    obtain ⟨l, lines, hlines⟩ := List.exists_cons_of_ne_nil (List.splitOn_ne_nil '\n' text)
    rw [List.splitOn_cons_eq_if_modifyHead]
    by_cases hc : c = '\n'
    · subst hc
      rw [if_pos (by decide)]
      rcases line with _ | line
      · rcases column with _ | column
        · rw [offsetIn?_zero_zero, Option.some_inj, eq_comm]
          exact reaches_first_iff.symm
        · simp [offsetIn?_nil_succ, not_reaches_newline_cons]
      · rw [offsetIn?_line_succ, Option.map_eq_some_iff, reaches_newline_cons_iff]
        simp only [ih, byteLength_nil, Nat.zero_add]
    · rw [if_neg (by simpa using hc), hlines, List.modifyHead_cons]
      simp only [hlines] at ih
      rcases line with _ | line
      · rcases column with _ | column
        · rw [offsetIn?_zero_zero, Option.some_inj, eq_comm]
          exact reaches_first_iff.symm
        · rw [offsetIn?_column_succ, Option.map_eq_some_iff, reaches_cons_column_iff hc]
          simp only [ih]
      · rw [offsetIn?_cons_line_succ, Option.map_eq_some_iff, reaches_cons_line_iff hc]
        simp only [ih]

theorem offset?_eq_some_iff : p.offset? text = some offset ↔ Reaches text offset p := by
  obtain ⟨line, column⟩ := p
  unfold offset?
  split
  next h =>
    obtain ⟨hline, hcolumn⟩ := h
    rw [offsetIn?_splitOn_eq_some_iff, Nat.sub_add_cancel hline, Nat.sub_add_cancel hcolumn]
  next h =>
    constructor
    · intro hnone
      exact absurd hnone (by simp)
    · intro hreaches
      exact absurd hreaches.one_le h

end Lines

/-! ## There and back -/

section Inverse

variable {text : List Char} {offset a b : Nat} {p q : Position}

/-- How offsets and positions of a text belong together. -/
structure Invertible (text : List Char) : Prop where
  /-- An offset past the end counts as the end. -/
  returns : ∀ offset, IsBoundary text (min offset (byteLength text)) →
    ∃ p, at? text offset = some p ∧ p.offset? text = some (min offset (byteLength text))
  undefined : ∀ offset, ¬ IsBoundary text (min offset (byteLength text)) →
    at? text offset = none
  leads_iff : ∀ offset p, p.offset? text = some offset ↔
    offset ≤ byteLength text ∧ at? text offset = some p
  injective : ∀ a b, IsBoundary text a → IsBoundary text b → at? text a = at? text b → a = b
  increasing : ∀ a b p q, a ≤ byteLength text → b ≤ byteLength text →
    at? text a = some p → at? text b = some q → (a < b ↔ p.Before q)

theorem Reaches.le (h : Reaches text offset p) : offset ≤ byteLength text := by
  obtain ⟨before, rest, rfl, rfl, -⟩ := h
  rw [byteLength_append]
  exact Nat.le_add_right _ _

theorem at?_eq_some_iff_of_le (hle : offset ≤ byteLength text) :
    at? text offset = some p ↔ Reaches text offset p := by
  rw [at?_eq_some_iff, Nat.min_eq_left hle]

/-- Of two places in a text, the characters before the one are among those before the other. -/
theorem Reaches.before (ha : Reaches text a p) (hb : Reaches text b q) (hlt : a < b) :
    p.Before q := by
  obtain ⟨front, rest, rfl, rfl, rfl⟩ := ha
  obtain ⟨front', rest', htext, rfl, rfl⟩ := hb
  rcases List.append_eq_append_iff.mp htext with ⟨mid, rfl, -⟩ | ⟨mid, rfl, -⟩
  · rw [after_append]
    refine before_after fun hmid => ?_
    rw [hmid, List.append_nil] at hlt
    exact Nat.lt_irrefl _ hlt
  · rw [byteLength_append] at hlt
    omega

theorem Reaches.unique (hp : Reaches text a p) (hq : Reaches text a q) : p = q :=
  Option.some.inj (((at?_eq_some_iff_of_le hp.le).mpr hp).symm.trans
    ((at?_eq_some_iff_of_le hq.le).mpr hq))

theorem Reaches.lt_iff (ha : Reaches text a p) (hb : Reaches text b q) : a < b ↔ p.Before q := by
  refine ⟨ha.before hb, fun hpq => ?_⟩
  rcases Nat.lt_trichotomy a b with hlt | rfl | hgt
  · exact hlt
  · obtain rfl := ha.unique hb
    exact absurd hpq hpq.asymm
  · exact absurd hpq (hb.before ha hgt).asymm

theorem exists_reaches_iff : (∃ p, Reaches text offset p) ↔ IsBoundary text offset := by
  constructor
  · rintro ⟨p, front, rest, htext, hlen, -⟩
    exact ⟨front, rest, htext, hlen⟩
  · rintro ⟨front, rest, htext, hlen⟩
    exact ⟨_, front, rest, htext, hlen, rfl⟩

/-- **Positions are invertible**: splitting the text at its line ends leads from the position of an
offset back to the offset, and later offsets have later positions. -/
theorem at?_invertible (text : List Char) : Invertible text where
  returns := by
    intro offset hboundary
    obtain ⟨p, hp⟩ := exists_reaches_iff.mpr hboundary
    exact ⟨p, at?_eq_some_iff.mpr hp, offset?_eq_some_iff.mpr hp⟩
  undefined := by
    intro offset hboundary
    rw [Option.eq_none_iff_forall_ne_some]
    intro p hp
    exact hboundary (exists_reaches_iff.mp ⟨p, at?_eq_some_iff.mp hp⟩)
  leads_iff := by
    intro offset p
    rw [offset?_eq_some_iff]
    constructor
    · intro hp
      exact ⟨hp.le, (at?_eq_some_iff_of_le hp.le).mpr hp⟩
    · rintro ⟨hle, hp⟩
      exact (at?_eq_some_iff_of_le hle).mp hp
  injective := by
    intro a b ha hb hsame
    obtain ⟨p, hp⟩ := exists_reaches_iff.mpr ha
    obtain ⟨q, hq⟩ := exists_reaches_iff.mpr hb
    rw [(at?_eq_some_iff_of_le hp.le).mpr hp, (at?_eq_some_iff_of_le hq.le).mpr hq] at hsame
    obtain rfl := Option.some.inj hsame
    exact Option.some.inj ((offset?_eq_some_iff.mpr hp).symm.trans (offset?_eq_some_iff.mpr hq))
  increasing := by
    intro a b p q ha hb hp hq
    exact ((at?_eq_some_iff_of_le ha).mp hp).lt_iff ((at?_eq_some_iff_of_le hb).mp hq)

end Inverse

end Position

end Cartridge.Script
