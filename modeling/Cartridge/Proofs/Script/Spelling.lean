import Cartridge.Proofs.Script.Tiling

/-!
# How tokens are spelled

`lexeme?` finds what the table of tokens says: the longest part at the start of a text that is in a
pattern, as the token of its kind (`lexeme?_eq_of_longest`).  So a text that is in a pattern is one
token (`tokens_eq_singleton_iff`), and tokens that stand one a line are read one by one, since no
pattern has a line end in it (`exists_tokensFrom_linesOf`).

Main statement: `exists_tokens_iff`, a list of tokens is that of a text exactly if each of them can
be spelled.
-/

namespace Cartridge.Script

open Text

section Kinds

variable {kind kind' : Kind} {text part part' rest : List Char}

theorem Keyword.eq_of_toList_spelling {k k' : Keyword}
    (h : k.spelling.toList = k'.spelling.toList) : k = k' := by
  revert h
  cases k <;> cases k' <;> decide

/-- A text is of a kind by itself; what is spelled like a keyword is not a name. -/
structure Kind.Spells (kind : Kind) (part : List Char) : Prop where
  mem : part ∈ kind.pattern
  notKeyword : kind = .name → ∀ k : Keyword, part ∉ (Kind.keyword k).pattern

theorem Longest.spells (h : Longest text kind part) : kind.Spells part :=
  ⟨h.mem, h.notKeyword⟩

/-- The kinds of one text are of one family. -/
theorem Kind.family_eq (h : part ∈ kind.pattern) (h' : part ∈ kind'.pattern) :
    kind.family = kind'.family := by
  obtain ⟨c, cs, rfl, hc⟩ := Kind.exists_opens h
  obtain ⟨d, ds, hd, hd'⟩ := Kind.exists_opens h'
  obtain ⟨rfl, rfl⟩ := List.cons_eq_cons.mp hd
  exact Family.unique hc hd'

/-- A text is spelled like one token only. -/
theorem Kind.Spells.token_eq (h : kind.Spells part) (h' : kind'.Spells part) :
    kind.token part = kind'.token part := by
  have hfamily : kind.family = kind'.family := Kind.family_eq h.mem h'.mem
  cases kind with
  | keyword k =>
    cases kind' with
    | keyword k' =>
      have hspelling : k.spelling.toList = k'.spelling.toList := Eq.trans (Eq.symm h.mem) h'.mem
      rw [Keyword.eq_of_toList_spelling hspelling]
    | name => exact absurd h.mem (h'.notKeyword rfl k)
    | symbol | hexadecimal | decimal | comment => exact nomatch hfamily
  | name =>
    cases kind' with
    | keyword k' => exact absurd h'.mem (h.notKeyword rfl k')
    | name => rfl
    | symbol | hexadecimal | decimal | comment => exact nomatch hfamily
  | symbol s =>
    obtain ⟨s', rfl⟩ := Kind.exists_eq_symbol hfamily.symm
    have hspelling : s.spelling = s'.spelling := Eq.trans (Eq.symm h.mem) h'.mem
    rw [Symbol.eq_of_head? (congrArg List.head? hspelling)]
  | hexadecimal | decimal =>
    rcases Kind.eq_hexadecimal_or_decimal hfamily.symm with rfl | rfl
    · rfl
    · rfl
  | comment => rw [Kind.eq_comment hfamily.symm]

/-- Of two longest parts at the start of one text, neither is longer. -/
theorem Longest.unique (h : Longest text kind part) (h' : Longest text kind' part') :
    part' = part := by
  have hle : part.length ≤ part'.length := h'.length_le part ⟨h.starts, .inr ⟨kind, h.mem⟩⟩
  have hge : part'.length ≤ part.length := h.length_le part' ⟨h'.starts, .inr ⟨kind', h'.mem⟩⟩
  exact (List.prefix_of_prefix_length_le h'.starts h.starts hge).eq_of_length_le hle

/-- **The longest part is what is found.** -/
theorem lexeme?_eq_of_longest (h : Longest text kind part) :
    lexeme? text = some (kind.token part, part) := by
  cases hfound : lexeme? text with
  | none =>
    obtain ⟨c, cs, rfl, -⟩ := Kind.exists_opens h.mem
    obtain ⟨rest, rfl⟩ := h.starts
    exact absurd ⟨h.starts, .inr ⟨kind, h.mem⟩⟩
      (not_matches_of_lexeme? hfound (Kind.isSkipped_of_mem h.mem) (c :: cs))
  | some found =>
    obtain ⟨token, part'⟩ := found
    obtain ⟨kind', h', rfl⟩ := longest_of_lexeme? hfound
    obtain rfl := h.unique h'
    rw [h.spells.token_eq h'.spells]

theorem tokensFrom_append_of_longest (h : Longest (part ++ rest) kind part) (offset : Nat) :
    tokensFrom offset (part ++ rest) =
      (tokensFrom (offset + byteLength part) rest).map
        (⟨kind.token part, offset, offset + byteLength part⟩ :: ·) := by
  have hfound := lexeme?_eq_of_longest h
  obtain ⟨c, cs, rfl, -⟩ := Kind.exists_opens h.mem
  have hskipped : ¬ isSkipped c = true := Bool.eq_false_iff.mp (Kind.isSkipped_of_mem h.mem)
  have hdrop : (cs ++ rest).drop ((c :: cs).length - 1) = rest := List.drop_left
  rw [List.cons_append] at hfound ⊢
  rw [tokensFrom, if_neg hskipped, hfound]
  simp only [hdrop]

end Kinds

/-! ## A text of one token -/

section Single

variable {kind : Kind} {text : List Char} {token : Token}

theorem Kind.Spells.longest_self (h : kind.Spells text) : Longest text kind text where
  starts := List.prefix_rfl
  mem := h.mem
  length_le := fun _ hother => hother.1.length_le
  notKeyword := h.notKeyword

/-- A token that spans a text is spelled by it. -/
theorem Located.Reads.spells {t : Located} (h : t.Reads text)
    (hspan : t.span = ⟨0, byteLength text⟩) : ∃ kind : Kind, kind.Spells text ∧
      t.token = kind.token text := by
  obtain ⟨before, part, rest, kind, rfl, hspan', hlongest, htoken, -⟩ := h
  obtain ⟨hstart, hstop⟩ := Span.mk.inj (hspan'.symm.trans hspan)
  obtain rfl := byteLength_eq_zero_iff.mp hstart
  have hrest : rest = [] := by
    rw [List.nil_append, List.nil_append, byteLength_append] at hstop
    exact byteLength_eq_zero_iff.mp (by omega)
  rw [hrest, List.append_nil, List.nil_append]
  exact ⟨kind, hlongest.spells, htoken⟩

/-- **A text is one token exactly if a pattern has it**, and then the token is of that kind. -/
theorem tokens_eq_singleton_iff : tokens text = .ok [⟨token, ⟨0, byteLength text⟩⟩] ↔
    ∃ kind : Kind, kind.Spells text ∧ token = kind.token text := by
  constructor
  · intro h
    have hlexes := lexes_tokens text
    rw [h] at hlexes
    exact (Tiled.reads hlexes _ List.mem_cons_self).spells rfl
  · rintro ⟨kind, hspells, rfl⟩
    have hlongest : Longest (text ++ []) kind text := by
      rw [List.append_nil]
      exact hspells.longest_self
    have htokens := tokensFrom_append_of_longest hlongest 0
    rw [List.append_nil, Nat.zero_add] at htokens
    rw [tokens, htokens, tokensFrom]
    rfl

end Single

/-! ## Tokens one a line -/

section Lines

variable {kind : Kind} {part rest other : List Char} {c : Char} {t : Token} {ts : List Token}

theorem Unsigned.newline_notMem (h : Unsigned part) : '\n' ∉ part := by
  intro hmem
  rcases h with h | h
  · obtain ⟨ds, rfl, -, hds⟩ := Pattern.mem_unsignedHexadecimal_iff.mp h
    simp only [List.mem_cons, Char.reduceEq, false_or] at hmem
    exact absurd (hds _ hmem) (by decide)
  · exact absurd ((Pattern.mem_unsignedDecimal_iff.mp h).2 _ hmem) (by decide)

/-- No token goes beyond the end of a line. -/
theorem Kind.newline_notMem (h : part ∈ kind.pattern) : '\n' ∉ part := by
  intro hmem
  cases kind with
  | keyword k =>
    rw [show part = k.spelling.toList from h] at hmem
    revert hmem
    cases k <;> decide
  | symbol s =>
    rw [show part = s.spelling from h] at hmem
    revert hmem
    cases s <;> decide
  | hexadecimal | decimal =>
    rcases exists_number_kind_iff.mp ⟨_, rfl, h⟩ with hu | ⟨u, hu, rfl⟩
    · exact hu.newline_notMem hmem
    · rcases List.mem_cons.mp hmem with hmem | hmem
      · exact absurd hmem (by decide)
      · exact hu.newline_notMem hmem
  | name =>
    obtain ⟨c, cs, rfl, hc, hcs⟩ := Pattern.mem_name_iff.mp h
    rcases List.mem_cons.mp hmem with rfl | hmem
    · exact absurd hc (by decide)
    · exact absurd (hcs _ hmem) (by decide)
  | comment =>
    obtain ⟨body, rfl, hbody⟩ := mem_comment_iff.mp h
    simp only [List.mem_cons, Char.reduceEq, false_or] at hmem
    exact absurd (hbody _ hmem) (by decide)

/-- What starts a text and does not have a character in it ends before the character. -/
theorem length_le_of_prefix_append_cons (h : other <+: part ++ c :: rest) (hc : c ∉ other) :
    other.length ≤ part.length := by
  by_contra hlt
  have hlong : (part ++ [c]).length ≤ other.length := by
    rw [List.length_append, List.length_singleton]
    omega
  have hpart : part ++ [c] <+: part ++ c :: rest := ⟨rest, by simp⟩
  have hother : part ++ [c] <+: other := List.prefix_of_prefix_length_le hpart h hlong
  exact hc (hother.subset (List.mem_append_right part List.mem_cons_self))

/-- At the end of a line a token is as long as can be. -/
theorem Kind.Spells.longest_line (h : kind.Spells part) (rest : List Char) :
    Longest (part ++ '\n' :: rest) kind part where
  starts := List.prefix_append _ _
  mem := h.mem
  length_le := by
    rintro other ⟨hother, hblank | ⟨kind', hmem⟩⟩
    · obtain ⟨c, cs, rfl, -⟩ := Kind.exists_opens h.mem
      have hskipped := isSkipped_of_starts hblank hother
      rw [Kind.isSkipped_of_mem h.mem] at hskipped
      exact nomatch hskipped
    · exact length_le_of_prefix_append_cons hother (Kind.newline_notMem hmem)
  notKeyword := h.notKeyword

theorem tokensFrom_line (h : kind.Spells part) (offset : Nat) (rest : List Char) :
    tokensFrom offset (part ++ '\n' :: rest) =
      (tokensFrom (offset + byteLength part + 1) rest).map
        (⟨kind.token part, offset, offset + byteLength part⟩ :: ·) := by
  rw [tokensFrom_append_of_longest (h.longest_line rest)]
  congr 1
  rw [tokensFrom, if_pos (by decide)]
  rfl

namespace Token

/-- The characters that spell a token; a comment is spelled with its slashes. -/
def spelled : Token → List Char
  | keyword k => k.spelling.toList
  | symbol s => s.spelling
  | number spelling => spelling.toList
  | name spelling => spelling.toList
  | comment text => '/' :: '/' :: text.toList

/-- The token is that of its own spelling. -/
def Spellable (t : Token) : Prop := ∃ kind : Kind, kind.Spells t.spelled ∧ kind.token t.spelled = t

end Token

/-- Tokens one a line. -/
def linesOf (ts : List Token) : List Char := ts.flatMap fun t => t.spelled ++ ['\n']

theorem exists_tokensFrom_linesOf (h : ∀ t ∈ ts, t.Spellable) (offset : Nat) :
    ∃ located, tokensFrom offset (linesOf ts) = .ok located ∧ located.map Located.token = ts := by
  induction ts generalizing offset with
  | nil => exact ⟨[], by rw [linesOf, List.flatMap_nil, tokensFrom], rfl⟩
  | cons t ts ih =>
    obtain ⟨⟨kind, hspells, htoken⟩, hts⟩ := List.forall_mem_cons.mp h
    obtain ⟨located, hlocated, hmap⟩ := ih hts (offset + byteLength t.spelled + 1)
    have hline : linesOf (t :: ts) = t.spelled ++ '\n' :: linesOf ts := by
      rw [linesOf, List.flatMap_cons, List.append_assoc, List.singleton_append, linesOf]
    rw [hline, tokensFrom_line hspells, hlocated, htoken]
    exact ⟨_, rfl, by rw [List.map_cons, hmap]⟩

/-! ### What is read can be spelled

A comment is read without the blanks around it, so its token is spelled by other characters than
those it was read from.  Trimming once more does not change it. -/

theorem trim_eq_self {cs : List Char} (hhead : ∀ c, cs.head? = some c → isBlank c = false)
    (hlast : ∀ c, cs.getLast? = some c → isBlank c = false) : trim cs = cs := by
  have hdrop {ds : List Char} (h : ∀ c, ds.head? = some c → isBlank c = false) :
      ds.dropWhile isBlank = ds := by
    cases ds with
    | nil => rfl
    | cons d ds => rw [List.dropWhile_cons, h d rfl, if_neg Bool.false_ne_true]
  have hback : cs.reverse.dropWhile isBlank = cs.reverse := by
    refine hdrop fun c hc => hlast c ?_
    rw [List.head?_reverse] at hc
    exact hc
  rw [trim, hdrop hhead, hback, List.reverse_reverse]

theorem trim_trim (cs : List Char) : trim (trim cs) = trim cs := by
  obtain ⟨-, -, -, -, hhead, hlast⟩ := trimmed_trim cs
  exact trim_eq_self hhead hlast

theorem mem_of_mem_trim {cs : List Char} (h : c ∈ trim cs) : c ∈ cs := by
  obtain ⟨front, back, hcs, -⟩ := trimmed_trim cs
  rw [hcs]
  exact List.mem_append_left back (List.mem_append_right front h)

theorem Kind.Spells.spellable (h : kind.Spells part) : (kind.token part).Spellable := by
  have hself (hpart : (kind.token part).spelled = part) : (kind.token part).Spellable := by
    refine ⟨kind, ?_, ?_⟩
    · rw [hpart]
      exact h
    · rw [hpart]
  cases kind with
  | keyword k => exact hself (Eq.symm h.mem)
  | symbol s => exact hself (Eq.symm h.mem)
  | hexadecimal | decimal | name => exact hself String.toList_ofList
  | comment =>
    obtain ⟨body, rfl, hbody⟩ := mem_comment_iff.mp h.mem
    have hspelled : (Kind.comment.token ('/' :: '/' :: body)).spelled = '/' :: '/' :: trim body :=
      congrArg (fun cs => '/' :: '/' :: cs) String.toList_ofList
    refine ⟨.comment, ⟨?_, nofun⟩, ?_⟩
    · rw [hspelled]
      exact mem_comment_iff.mpr ⟨trim body, rfl, fun c hc => hbody c (mem_of_mem_trim hc)⟩
    · rw [hspelled]
      show Token.comment (String.ofList (trim (trim body))) = .comment (String.ofList (trim body))
      rw [trim_trim]

theorem spellable_of_tokens {text : List Char} {located : List Located}
    (h : tokens text = .ok located) : ∀ t ∈ located, t.token.Spellable := by
  intro t ht
  have hlexes := lexes_tokens text
  rw [h] at hlexes
  obtain ⟨before, part, rest, kind, -, -, hlongest, htoken, -⟩ := Tiled.reads hlexes t ht
  rw [htoken]
  exact hlongest.spells.spellable

/-- **The tokens of texts are the lists of tokens that can be spelled.** -/
theorem exists_tokens_iff :
    (∃ text located, tokens text = .ok located ∧ located.map Located.token = ts) ↔
      ∀ t ∈ ts, t.Spellable := by
  constructor
  · rintro ⟨text, located, h, rfl⟩
    exact List.forall_mem_map.mpr (spellable_of_tokens h)
  · intro h
    obtain ⟨located, hlocated, hmap⟩ := exists_tokensFrom_linesOf h 0
    exact ⟨linesOf ts, located, hlocated, hmap⟩

end Lines

end Cartridge.Script
