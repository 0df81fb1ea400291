import Cartridge.Proofs.Text.Pattern
import Cartridge.Script.Lexer

/-!
# The longest token

`Kind.pattern` is the table of tokens: what may be written for each kind.  `lexeme?` finds the
longest text at the start of another that is in a pattern, and the kind of it; a keyword is not read
as a name.

Every family of kinds has characters of its own to start with (`Family.unique`), so what is the
longest in a family is the longest of all.

Main statements: `longest_of_lexeme?` and `not_matches_of_lexeme?`.
-/

namespace Cartridge.Script

open Computability Text

/-! ## The table of tokens -/

inductive Kind where
  | keyword (k : Keyword)
  | symbol (s : Symbol)
  | hexadecimal
  | decimal
  | name
  | comment
deriving DecidableEq, Repr

namespace Kind

/-- The texts of a kind. -/
def pattern : Kind → Language Char
  | keyword k => {k.spelling.toList}
  | symbol s => {s.spelling}
  | hexadecimal => Pattern.sign * Pattern.unsignedHexadecimal
  | decimal => Pattern.sign * Pattern.unsignedDecimal
  | name => Pattern.name
  | comment => {['/', '/']} * (Pattern.oneOf (· != '\n'))∗

/-- The token that a text of a kind stands for. -/
def token (part : List Char) : Kind → Token
  | keyword k => .keyword k
  | symbol s => .symbol s
  | hexadecimal => .number (String.ofList part)
  | decimal => .number (String.ofList part)
  | name => .name (String.ofList part)
  | comment => .comment (String.ofList (trim (part.drop 2)))

end Kind

def blankChars : List Char := [' ', '\t', '\r', '\n', '\x0c']

/-- What may stand between tokens: `[ \t\r\n\f]+`. -/
def blanks : Language Char :=
  Pattern.oneOf (blankChars.contains ·) * (Pattern.oneOf (blankChars.contains ·))∗

/-- A text starts with a part that is in a pattern. -/
def Matches (text part : List Char) : Prop :=
  part <+: text ∧ (part ∈ blanks ∨ ∃ kind : Kind, part ∈ kind.pattern)

/-- The longest part at the start of a text that is in a pattern is of a kind. -/
structure Longest (text : List Char) (kind : Kind) (part : List Char) : Prop where
  starts : part <+: text
  mem : part ∈ kind.pattern
  length_le : ∀ other, Matches text other → other.length ≤ part.length
  /-- What is spelled like a keyword is one. -/
  notKeyword : kind = .name → ∀ k : Keyword, part ∉ (Kind.keyword k).pattern

/-! ## Families -/

/-- Kinds that start with the same characters. -/
inductive Family where
  | word
  | number
  | symbol
  | comment
  | blank

/-- Whether a text of the family can start with a character. -/
def Family.opens : Family → Char → Bool
  | word, c => isNameStart c
  | number, c => c == '-' || c.isDigit
  | symbol, c => ['=', '!', '<', '>', '\x7b', '\x7d', ';'].contains c
  | comment, c => c == '/'
  | blank, c => isSkipped c

/-- The numbers of these characters. -/
def Family.Numbered : Family → Nat → Prop
  | word, n => (65 ≤ n ∧ n ≤ 90) ∨ (97 ≤ n ∧ n ≤ 122) ∨ n = 95
  | number, n => n = 45 ∨ (48 ≤ n ∧ n ≤ 57)
  | symbol, n => n = 33 ∨ (59 ≤ n ∧ n ≤ 62) ∨ n = 123 ∨ n = 125
  | comment, n => n = 47
  | blank, n => (9 ≤ n ∧ n ≤ 13) ∨ n = 32

def Kind.family : Kind → Family
  | keyword _ => .word
  | symbol _ => .symbol
  | hexadecimal => .number
  | decimal => .number
  | name => .word
  | comment => .comment

section Families

variable {f g : Family} {c : Char} {cs part text : List Char} {kind : Kind}

theorem Family.numbered_of_opens (h : f.opens c = true) : f.Numbered c.toNat := by
  cases f with
  | word =>
    rw [opens, isNameStart, Bool.or_eq_true, beq_iff_eq] at h
    rcases h with h | rfl
    · change (decide (c.val ≥ 'A'.val ∧ c.val ≤ 'Z'.val) ||
        (decide (c.val ≥ 'a'.val) && decide (c.val ≤ 'z'.val))) = true at h
      simp only [Bool.or_eq_true, Bool.and_eq_true, decide_eq_true_eq, ge_iff_le,
        UInt32.le_iff_toNat_le] at h
      rcases h with h | h
      · exact .inl h
      · exact .inr (.inl h)
    · exact .inr (.inr rfl)
  | number =>
    rw [opens, Bool.or_eq_true, beq_iff_eq, Char.isDigit_iff_toNat] at h
    rcases h with rfl | h
    · exact .inl rfl
    · exact .inr h
  | symbol =>
    simp only [opens, List.contains_eq_mem, decide_eq_true_eq, List.mem_cons, List.not_mem_nil,
      or_false] at h
    rcases h with rfl | rfl | rfl | rfl | rfl | rfl | rfl <;> simp [Numbered]
  | comment =>
    rw [opens, beq_iff_eq] at h
    rw [h]
    rfl
  | blank =>
    simp only [opens, isSkipped, Bool.or_eq_true, beq_iff_eq] at h
    rcases h with (((rfl | rfl) | rfl) | rfl) | rfl <;> simp [Numbered]

/-- No character opens two families. -/
theorem Family.unique (hf : f.opens c = true) (hg : g.opens c = true) : f = g := by
  have hf := numbered_of_opens hf
  have hg := numbered_of_opens hg
  generalize c.toNat = n at hf hg
  cases f <;> cases g <;> simp only [Numbered, reduceCtorEq] at hf hg ⊢ <;> omega

theorem Kind.exists_opens (h : part ∈ kind.pattern) :
    ∃ c cs, part = c :: cs ∧ kind.family.opens c = true := by
  cases kind with
  | keyword k =>
    rw [show part = k.spelling.toList from h]
    cases k <;> exact ⟨_, _, rfl, by decide⟩
  | symbol s =>
    rw [show part = s.spelling from h]
    cases s <;> exact ⟨_, _, rfl, by decide⟩
  | hexadecimal =>
    rcases Pattern.mem_sign_mul_iff.mp h with h | ⟨u, -, rfl⟩
    · obtain ⟨ds, rfl, -⟩ := Pattern.mem_unsignedHexadecimal_iff.mp h
      exact ⟨'0', 'x' :: ds, rfl, by decide⟩
    · exact ⟨'-', u, rfl, by decide⟩
  | decimal =>
    rcases Pattern.mem_sign_mul_iff.mp h with h | ⟨u, -, rfl⟩
    · obtain ⟨hne, hds⟩ := Pattern.mem_unsignedDecimal_iff.mp h
      obtain ⟨d, ds, rfl⟩ := List.exists_cons_of_ne_nil hne
      refine ⟨d, ds, rfl, ?_⟩
      rw [family, Family.opens, hds d List.mem_cons_self, Bool.or_true]
    · exact ⟨'-', u, rfl, by decide⟩
  | name =>
    obtain ⟨c, cs, rfl, hc, -⟩ := Pattern.mem_name_iff.mp h
    exact ⟨c, cs, rfl, hc⟩
  | comment =>
    obtain ⟨_, rfl, body, -, rfl⟩ := Language.mem_mul.mp h
    exact ⟨'/', '/' :: body, rfl, by decide⟩

/-- No token starts with a blank. -/
theorem Kind.isSkipped_of_mem (h : c :: cs ∈ kind.pattern) : isSkipped c = false := by
  obtain ⟨d, ds, hd, hopens⟩ := Kind.exists_opens h
  obtain ⟨rfl, rfl⟩ := List.cons_eq_cons.mp hd
  by_contra hblank
  have hfamily : kind.family = .blank :=
    Family.unique hopens (Bool.eq_true_of_not_eq_false hblank)
  cases kind <;> exact nomatch hfamily

theorem Kind.eq_hexadecimal_or_decimal (h : kind.family = .number) :
    kind = .hexadecimal ∨ kind = .decimal := by
  cases kind with
  | hexadecimal => exact .inl rfl
  | decimal => exact .inr rfl
  | keyword | symbol | name | comment => exact nomatch h

theorem Kind.exists_eq_symbol (h : kind.family = .symbol) : ∃ s, kind = .symbol s := by
  cases kind with
  | symbol s => exact ⟨s, rfl⟩
  | keyword | hexadecimal | decimal | name | comment => exact nomatch h

theorem Kind.eq_comment (h : kind.family = .comment) : kind = .comment := by
  cases kind with
  | comment => rfl
  | keyword | symbol | hexadecimal | decimal | name => exact nomatch h

end Families

/-! ## The longest in a family -/

section Readers

variable {family : Family} {p : Char → Bool} {c : Char} {cs ds text part u w : List Char}
  {kind : Kind}

/-- The longest part at the start of a text that is in a pattern of the family is of a kind. -/
structure LongestOf (family : Family) (text : List Char) (kind : Kind) (part : List Char) :
    Prop where
  family_eq : kind.family = family
  starts : part <+: text
  mem : part ∈ kind.pattern
  length_le : ∀ kind' : Kind, kind'.family = family → ∀ other, other <+: text →
    other ∈ kind'.pattern → other.length ≤ part.length
  notKeyword : kind = .name → ∀ k : Keyword, part ∉ (Kind.keyword k).pattern

/-- What a reader says of a text that looks for one family. -/
def Answers (family : Family) (text : List Char) : Option Lexeme → Prop
  | none => ∀ kind : Kind, kind.family = family → ∀ part, part <+: text → part ∉ kind.pattern
  | some (token, part) => ∃ kind : Kind, LongestOf family text kind part ∧ token = kind.token part

theorem answers_none (h : ∀ c cs, text = c :: cs → family.opens c = false) :
    Answers family text none := by
  rintro kind rfl part ⟨rest, rfl⟩ hmem
  obtain ⟨c, cs, rfl, hc⟩ := Kind.exists_opens hmem
  exact absurd hc (by simp [h c (cs ++ rest) rfl])

theorem forall_mem_takeWhile (p : Char → Bool) (cs : List Char) :
    ∀ d ∈ cs.takeWhile p, p d = true := List.all_eq_true.mp List.all_takeWhile

theorem length_le_takeWhile (h : ds <+: cs) (hall : ∀ d ∈ ds, p d = true) :
    ds.length ≤ (cs.takeWhile p).length := by
  obtain ⟨rest, rfl⟩ := h
  rw [List.takeWhile_append_of_pos hall, List.length_append]
  exact Nat.le_add_right _ _

/-! ### Words -/

theorem Kind.mem_name (hkind : kind.family = .word) (h : part ∈ kind.pattern) :
    part ∈ Pattern.name := by
  cases kind with
  | keyword k =>
    rw [show part = k.spelling.toList from h]
    cases k <;>
      exact Pattern.mem_name_iff.mpr ⟨_, _, rfl, by decide, List.all_eq_true.mp (by decide)⟩
  | name => exact h
  | symbol | hexadecimal | decimal | comment => exact nomatch hkind

/-- A word is a keyword if it is spelled like one, and else a name. -/
theorem exists_kind_wordToken (hpart : part ∈ Pattern.name) : ∃ kind : Kind,
    kind.family = .word ∧ part ∈ kind.pattern ∧
      wordToken (String.ofList part) = kind.token part ∧
      (kind = .name → ∀ k : Keyword, part ∉ (Kind.keyword k).pattern) := by
  rw [wordToken]
  cases hk : Keyword.ofSpelling? (String.ofList part) with
  | some k =>
    rw [Keyword.ofSpelling?] at hk
    have hspelling : k.spelling = String.ofList part := by simpa using List.find?_some hk
    refine ⟨.keyword k, rfl, ?_, rfl, nofun⟩
    exact (String.toList_ofList.symm.trans (congrArg String.toList hspelling.symm) :
      part = k.spelling.toList)
  | none =>
    refine ⟨.name, rfl, hpart, rfl, fun _ k hmem => ?_⟩
    have hne := List.find?_eq_none.mp hk k (Keyword.mem_all k)
    rw [show part = k.spelling.toList from hmem, String.ofList_toList] at hne
    exact hne (beq_self_eq_true _)

theorem answers_word? (text : List Char) : Answers .word text (word? text) := by
  cases text with
  | nil => exact answers_none nofun
  | cons c cs =>
    rw [word?]
    split
    next hc =>
      obtain ⟨kind, hfamily, hmem, htoken, hkeyword⟩ := exists_kind_wordToken
        (Pattern.mem_name_iff.mpr ⟨c, _, rfl, hc, forall_mem_takeWhile isNameRest cs⟩)
      refine ⟨kind, ⟨hfamily, ?_, hmem, ?_, hkeyword⟩, htoken⟩
      · exact List.cons_prefix_cons.mpr ⟨rfl, List.takeWhile_prefix _⟩
      · intro kind' hkind' other hother hmem'
        obtain ⟨d, ds, rfl, -, hds⟩ := Pattern.mem_name_iff.mp (Kind.mem_name hkind' hmem')
        exact Nat.succ_le_succ (length_le_takeWhile (List.cons_prefix_cons.mp hother).2 hds)
    next hc =>
      refine answers_none fun d ds h => ?_
      obtain ⟨rfl, rfl⟩ := List.cons_eq_cons.mp h
      exact Bool.eq_false_iff.mpr hc

/-! ### Numbers -/

/-- The digits of a number, with the mark of the hexadecimal ones. -/
def Unsigned (u : List Char) : Prop :=
  u ∈ Pattern.unsignedHexadecimal ∨ u ∈ Pattern.unsignedDecimal

theorem Unsigned.ne_nil (h : Unsigned u) : u ≠ [] := by
  rcases h with h | h
  · obtain ⟨ds, rfl, -⟩ := Pattern.mem_unsignedHexadecimal_iff.mp h
    exact List.cons_ne_nil _ _
  · exact (Pattern.mem_unsignedDecimal_iff.mp h).1

/-- Hexadecimal digits are found behind their mark, and only there. -/
theorem hexadecimalPart_cases (text : List Char) :
    (hexadecimalPart text = [] ∧ ∀ u, u <+: text → u ∉ Pattern.unsignedHexadecimal) ∨
      ∃ cs, text = '0' :: 'x' :: cs ∧ cs.takeWhile isHexDigit ≠ [] ∧
        hexadecimalPart text = '0' :: 'x' :: cs.takeWhile isHexDigit := by
  unfold hexadecimalPart
  split
  next cs =>
    split
    next hdigits =>
      refine .inl ⟨rfl, fun u hu hmem => ?_⟩
      obtain ⟨ds, rfl, hne, hall⟩ := Pattern.mem_unsignedHexadecimal_iff.mp hmem
      obtain ⟨-, hds⟩ := List.cons_prefix_cons.mp hu
      have hlen := length_le_takeWhile (List.cons_prefix_cons.mp hds).2 hall
      rw [hdigits, List.length_nil, Nat.le_zero] at hlen
      exact hne (List.length_eq_zero_iff.mp hlen)
    next hdigits => exact .inr ⟨cs, rfl, hdigits, rfl⟩
  next hmark =>
    refine .inl ⟨rfl, fun u hu hmem => ?_⟩
    obtain ⟨ds, rfl, -⟩ := Pattern.mem_unsignedHexadecimal_iff.mp hmem
    obtain ⟨rest, rfl⟩ := hu
    exact hmark (ds ++ rest) rfl

theorem unsignedPart_cases (text : List Char) :
    (unsignedPart text = text.takeWhile Char.isDigit ∧
      ∀ u, u <+: text → u ∉ Pattern.unsignedHexadecimal) ∨
      ∃ cs, text = '0' :: 'x' :: cs ∧ cs.takeWhile isHexDigit ≠ [] ∧
        unsignedPart text = '0' :: 'x' :: cs.takeWhile isHexDigit := by
  rw [unsignedPart]
  rcases hexadecimalPart_cases text with ⟨hpart, hnone⟩ | ⟨cs, htext, hne, hpart⟩
  · rw [hpart]
    exact .inl ⟨rfl, hnone⟩
  · rw [hpart]
    exact .inr ⟨cs, htext, hne, rfl⟩

theorem unsignedPart_prefix (text : List Char) : unsignedPart text <+: text := by
  rcases unsignedPart_cases text with ⟨hpart, -⟩ | ⟨cs, rfl, -, hpart⟩
  · rw [hpart]
    exact List.takeWhile_prefix _
  · rw [hpart]
    exact List.cons_prefix_cons.mpr ⟨rfl, List.cons_prefix_cons.mpr ⟨rfl, List.takeWhile_prefix _⟩⟩

theorem unsigned_unsignedPart (h : unsignedPart text ≠ []) : Unsigned (unsignedPart text) := by
  rcases unsignedPart_cases text with ⟨hpart, -⟩ | ⟨cs, rfl, hne, hpart⟩
  · rw [hpart] at h ⊢
    exact .inr (Pattern.mem_unsignedDecimal_iff.mpr ⟨h, forall_mem_takeWhile _ text⟩)
  · rw [hpart]
    exact .inl (Pattern.mem_unsignedHexadecimal_iff.mpr
      ⟨_, rfl, hne, forall_mem_takeWhile isHexDigit cs⟩)

/-- Of a number behind the hexadecimal mark, the decimal digits end at the mark. -/
theorem length_le_unsignedPart (hu : Unsigned u) (h : u <+: text) :
    u.length ≤ (unsignedPart text).length := by
  rcases unsignedPart_cases text with ⟨hpart, hnone⟩ | ⟨cs, rfl, hne, hpart⟩
  · rcases hu with hu | hu
    · exact absurd hu (hnone u h)
    · rw [hpart]
      exact length_le_takeWhile h (Pattern.mem_unsignedDecimal_iff.mp hu).2
  · rw [hpart]
    rcases hu with hu | hu
    · obtain ⟨ds, rfl, -, hall⟩ := Pattern.mem_unsignedHexadecimal_iff.mp hu
      obtain ⟨-, hds⟩ := List.cons_prefix_cons.mp h
      have hlen := length_le_takeWhile (List.cons_prefix_cons.mp hds).2 hall
      exact Nat.succ_le_succ (Nat.succ_le_succ hlen)
    · have hlen := length_le_takeWhile h (Pattern.mem_unsignedDecimal_iff.mp hu).2
      exact hlen.trans (Nat.le_add_left 1 _)

theorem exists_number_kind_iff :
    (∃ kind : Kind, kind.family = .number ∧ w ∈ kind.pattern) ↔
      Unsigned w ∨ ∃ u, Unsigned u ∧ w = '-' :: u := by
  constructor
  · rintro ⟨kind, hkind, hw⟩
    rcases Kind.eq_hexadecimal_or_decimal hkind with rfl | rfl
    · rcases Pattern.mem_sign_mul_iff.mp hw with hw | ⟨u, hu, rfl⟩
      · exact .inl (.inl hw)
      · exact .inr ⟨u, .inl hu, rfl⟩
    · rcases Pattern.mem_sign_mul_iff.mp hw with hw | ⟨u, hu, rfl⟩
      · exact .inl (.inr hw)
      · exact .inr ⟨u, .inr hu, rfl⟩
  · rintro ((hw | hw) | ⟨u, hu | hu, rfl⟩)
    · exact ⟨.hexadecimal, rfl, Pattern.mem_sign_mul_iff.mpr (.inl hw)⟩
    · exact ⟨.decimal, rfl, Pattern.mem_sign_mul_iff.mpr (.inl hw)⟩
    · exact ⟨.hexadecimal, rfl, Pattern.mem_sign_mul_iff.mpr (.inr ⟨u, hu, rfl⟩)⟩
    · exact ⟨.decimal, rfl, Pattern.mem_sign_mul_iff.mpr (.inr ⟨u, hu, rfl⟩)⟩

/-- A number has digits behind its sign, or no sign. -/
theorem numberPart_cases (text : List Char) :
    (∃ cs, text = '-' :: cs ∧
      numberPart text = if unsignedPart cs = [] then [] else '-' :: unsignedPart cs) ∨
      ((∀ cs, text ≠ '-' :: cs) ∧ numberPart text = unsignedPart text) := by
  unfold numberPart
  split
  next cs =>
    refine .inl ⟨cs, rfl, ?_⟩
    split
    next hpart => rw [if_pos hpart]
    next hpart => rw [if_neg hpart]
  next hsign => exact .inr ⟨hsign, rfl⟩

theorem numberPart_prefix (text : List Char) : numberPart text <+: text := by
  rcases numberPart_cases text with ⟨cs, rfl, hpart⟩ | ⟨-, hpart⟩
  · rw [hpart]
    split
    · exact List.nil_prefix
    · exact List.cons_prefix_cons.mpr ⟨rfl, unsignedPart_prefix cs⟩
  · rw [hpart]
    exact unsignedPart_prefix text

theorem exists_number_kind_numberPart (h : numberPart text ≠ []) :
    ∃ kind : Kind, kind.family = .number ∧ numberPart text ∈ kind.pattern := by
  refine exists_number_kind_iff.mpr ?_
  rcases numberPart_cases text with ⟨cs, rfl, hpart⟩ | ⟨-, hpart⟩
  · rw [hpart] at h ⊢
    by_cases hnil : unsignedPart cs = []
    · exact absurd (if_pos hnil) h
    · rw [if_neg hnil]
      exact .inr ⟨_, unsigned_unsignedPart hnil, rfl⟩
  · rw [hpart] at h ⊢
    exact .inl (unsigned_unsignedPart h)

theorem Unsigned.ne_dash_cons (h : Unsigned u) (cs : List Char) : u ≠ '-' :: cs := by
  rintro rfl
  rcases h with h | h
  · obtain ⟨ds, hds, -⟩ := Pattern.mem_unsignedHexadecimal_iff.mp h
    exact absurd hds (by simp)
  · exact absurd ((Pattern.mem_unsignedDecimal_iff.mp h).2 '-' List.mem_cons_self) (by decide)

theorem length_le_numberPart (hkind : kind.family = .number) (hw : w ∈ kind.pattern)
    (h : w <+: text) : w.length ≤ (numberPart text).length := by
  rcases exists_number_kind_iff.mp ⟨kind, hkind, hw⟩ with hu | ⟨u, hu, rfl⟩
  · rcases numberPart_cases text with ⟨cs, rfl, -⟩ | ⟨-, hpart⟩
    · obtain ⟨d, ds, rfl⟩ := List.exists_cons_of_ne_nil hu.ne_nil
      obtain ⟨rfl, -⟩ := List.cons_prefix_cons.mp h
      exact absurd rfl (hu.ne_dash_cons ds)
    · rw [hpart]
      exact length_le_unsignedPart hu h
  · rcases numberPart_cases text with ⟨cs, rfl, hpart⟩ | ⟨hsign, -⟩
    · have hlen := length_le_unsignedPart hu (List.cons_prefix_cons.mp h).2
      have hpos := List.length_pos_iff.mpr hu.ne_nil
      rw [hpart, if_neg (List.length_pos_iff.mp (Nat.lt_of_lt_of_le hpos hlen))]
      exact Nat.succ_le_succ hlen
    · obtain ⟨rest, rfl⟩ := h
      exact absurd rfl (hsign (u ++ rest))

theorem answers_number? (text : List Char) : Answers .number text (number? text) := by
  rw [number?]
  split
  next hpart =>
    intro kind hkind part hprefix hmem
    have hlen := length_le_numberPart hkind hmem hprefix
    obtain ⟨c, cs, rfl, -⟩ := Kind.exists_opens hmem
    rw [hpart] at hlen
    exact absurd hlen (Nat.not_succ_le_zero _)
  next hpart =>
    obtain ⟨kind, hkind, hmem⟩ := exists_number_kind_numberPart hpart
    refine ⟨kind, ⟨hkind, numberPart_prefix text, hmem, ?_, ?_⟩, ?_⟩
    · exact fun kind' hkind' other hother hmem' => length_le_numberPart hkind' hmem' hother
    · rintro rfl
      exact nomatch hkind
    · rcases Kind.eq_hexadecimal_or_decimal hkind with rfl | rfl
      · rfl
      · rfl

/-! ### Symbols and comments -/

theorem Symbol.head?_of_prefix {s : Symbol} (h : s.spelling <+: text) :
    s.spelling.head? = text.head? := by
  obtain ⟨rest, rfl⟩ := h
  cases s <;> rfl

/-- Two symbols do not start alike. -/
theorem Symbol.eq_of_head? {s s' : Symbol} (h : s.spelling.head? = s'.spelling.head?) :
    s = s' := by
  revert h
  cases s <;> cases s' <;> decide

theorem answers_symbol? (text : List Char) : Answers .symbol text (symbol? text) := by
  rw [symbol?]
  cases hfind : Symbol.all.find? fun s => s.spelling.isPrefixOf text with
  | none =>
    intro kind hkind part hpart hmem
    obtain ⟨s, rfl⟩ := Kind.exists_eq_symbol hkind
    rw [show part = s.spelling from hmem] at hpart
    exact List.find?_eq_none.mp hfind s (Symbol.mem_all s) (List.isPrefixOf_iff_prefix.mpr hpart)
  | some s =>
    have hs : s.spelling <+: text := by simpa using List.find?_some hfind
    refine ⟨.symbol s, ⟨rfl, hs, rfl, ?_, nofun⟩, rfl⟩
    intro kind hkind other hother hmem
    obtain ⟨s', rfl⟩ := Kind.exists_eq_symbol hkind
    rw [show other = s'.spelling from hmem] at hother ⊢
    have hhead := (Symbol.head?_of_prefix hs).trans (Symbol.head?_of_prefix hother).symm
    rw [Symbol.eq_of_head? hhead]

theorem mem_comment_iff : w ∈ Kind.comment.pattern ↔
    ∃ body, w = '/' :: '/' :: body ∧ ∀ c ∈ body, (c != '\n') = true := by
  rw [Kind.pattern, Language.mem_mul]
  constructor
  · rintro ⟨_, rfl, body, hbody, rfl⟩
    exact ⟨body, rfl, Pattern.mem_kstar_oneOf_iff.mp hbody⟩
  · rintro ⟨body, rfl, hbody⟩
    exact ⟨['/', '/'], rfl, body, Pattern.mem_kstar_oneOf_iff.mpr hbody, rfl⟩

theorem answers_comment? (text : List Char) : Answers .comment text (comment? text) := by
  unfold comment?
  split
  next cs =>
    refine ⟨.comment, ⟨rfl, ?_, ?_, ?_, nofun⟩, rfl⟩
    · exact List.cons_prefix_cons.mpr ⟨rfl, List.cons_prefix_cons.mpr
        ⟨rfl, List.takeWhile_prefix _⟩⟩
    · exact mem_comment_iff.mpr ⟨_, rfl, forall_mem_takeWhile _ cs⟩
    · intro kind hkind other hother hmem
      obtain rfl := Kind.eq_comment hkind
      obtain ⟨body, rfl, hbody⟩ := mem_comment_iff.mp hmem
      obtain ⟨-, hrest⟩ := List.cons_prefix_cons.mp hother
      have hlen := length_le_takeWhile (List.cons_prefix_cons.mp hrest).2 hbody
      exact Nat.succ_le_succ (Nat.succ_le_succ hlen)
  next hmark =>
    intro kind hkind part hpart hmem
    obtain rfl := Kind.eq_comment hkind
    obtain ⟨body, rfl, -⟩ := mem_comment_iff.mp hmem
    obtain ⟨rest, rfl⟩ := hpart
    exact hmark (body ++ rest) rfl

end Readers

/-! ## The longest of all -/

section Lexemes

variable {family : Family} {text part : List Char} {kind : Kind} {token : Token} {c : Char}
  {cs : List Char}

theorem contains_blankChars (c : Char) : blankChars.contains c = isSkipped c := by
  simp only [isSkipped, blankChars, List.contains_cons, List.contains_nil, Bool.or_false,
    Bool.or_assoc]

theorem mem_blanks_iff : part ∈ blanks ↔ part ≠ [] ∧ ∀ c ∈ part, isSkipped c = true := by
  rw [blanks, Pattern.mem_oneOf_plus_iff]
  simp only [contains_blankChars]

theorem isSkipped_of_starts (hpart : part ∈ blanks) (h : part <+: c :: cs) :
    isSkipped c = true := by
  obtain ⟨hne, hall⟩ := mem_blanks_iff.mp hpart
  obtain ⟨d, ds, rfl⟩ := List.exists_cons_of_ne_nil hne
  obtain ⟨rfl, -⟩ := List.cons_prefix_cons.mp h
  exact hall d List.mem_cons_self

/-- All that is in a pattern at the start of a text is in the patterns of one family. -/
theorem LongestOf.longest (h : LongestOf family text kind part) : Longest text kind part := by
  obtain ⟨rfl, hstarts, hmem, hlength, hkeyword⟩ := h
  refine ⟨hstarts, hmem, ?_, hkeyword⟩
  obtain ⟨c, cs, rfl, hc⟩ := Kind.exists_opens hmem
  obtain ⟨rest, rfl⟩ := hstarts
  rintro other ⟨hother, hblank | ⟨kind', hmem'⟩⟩
  · have hskipped := isSkipped_of_starts hblank hother
    rw [Kind.isSkipped_of_mem hmem] at hskipped
    exact nomatch hskipped
  · obtain ⟨d, ds, rfl, hd⟩ := Kind.exists_opens hmem'
    have hhead := (List.cons_prefix_cons.mp hother).1
    rw [hhead] at hd
    exact hlength kind' (Family.unique hd hc) _ hother hmem'

theorem longest_of_lexeme? (h : lexeme? text = some (token, part)) :
    ∃ kind : Kind, Longest text kind part ∧ token = kind.token part := by
  have hanswers : ∃ family, Answers family text (some (token, part)) := by
    simp only [lexeme?, Option.orElse_eq_orElse, Option.orElse_eq_or, Option.or_eq_some_iff] at h
    rcases h with h | ⟨-, h | ⟨-, h | ⟨-, h⟩⟩⟩
    · exact ⟨_, h ▸ answers_word? text⟩
    · exact ⟨_, h ▸ answers_number? text⟩
    · exact ⟨_, h ▸ answers_symbol? text⟩
    · exact ⟨_, h ▸ answers_comment? text⟩
  obtain ⟨family, kind, hlongest, htoken⟩ := hanswers
  exact ⟨kind, hlongest.longest, htoken⟩

/-- Where no token is found and no blank stands, nothing is in a pattern. -/
theorem not_matches_of_lexeme? (h : lexeme? (c :: cs) = none) (hc : isSkipped c = false)
    (part : List Char) : ¬ Matches (c :: cs) part := by
  simp only [lexeme?, Option.orElse_eq_orElse, Option.orElse_eq_or, Option.or_eq_none_iff] at h
  obtain ⟨hword, hnumber, hsymbol, hcomment⟩ := h
  rintro ⟨hstarts, hblank | ⟨kind, hmem⟩⟩
  · rw [isSkipped_of_starts hblank hstarts] at hc
    exact Bool.noConfusion hc
  · have hanswers : Answers kind.family (c :: cs) none := by
      cases kind with
      | keyword | name => exact hword ▸ answers_word? (c :: cs)
      | hexadecimal | decimal => exact hnumber ▸ answers_number? (c :: cs)
      | symbol => exact hsymbol ▸ answers_symbol? (c :: cs)
      | comment => exact hcomment ▸ answers_comment? (c :: cs)
    exact hanswers kind rfl part hstarts hmem

end Lexemes

end Cartridge.Script
