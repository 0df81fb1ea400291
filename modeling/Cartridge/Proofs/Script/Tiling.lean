import Cartridge.Proofs.Script.Lexeme
import Cartridge.Proofs.Script.Position
import Cartridge.Proofs.Script.Viability
import Cartridge.Script.Source

/-!
# Tokens tile a text

A token stands where its span says and is the longest that starts there (`Located.Reads`), and
between tokens there is nothing but blanks (`Tiled`).  Where no token starts, what is in front of
the error is tiled in the same way.

So spans start and end between two characters, those of the parser's errors too
(`span_of_parse`), and the place of an error is never missing.

Main statement: `tokens_tile`.
-/

namespace Cartridge.Script

open Text

/-! ## What a token carries -/

section Carried

variable {cs text part rest : List Char} {kind : Kind}

/-- A text without the blanks at its ends. -/
def Trimmed (cs inner : List Char) : Prop :=
  ∃ front back, cs = front ++ inner ++ back ∧ (∀ c ∈ front ++ back, isBlank c = true) ∧
    (∀ c, inner.head? = some c → isBlank c = false) ∧
    ∀ c, inner.getLast? = some c → isBlank c = false

theorem isBlank_of_head?_dropWhile {c : Char} (h : (cs.dropWhile isBlank).head? = some c) :
    isBlank c = false := by
  have hnot := List.head?_dropWhile_not isBlank cs
  rw [h] at hnot
  exact hnot

theorem trimmed_trim (cs : List Char) : Trimmed cs (trim cs) := by
  have hfront : cs.takeWhile isBlank ++ cs.dropWhile isBlank = cs := List.takeWhile_append_dropWhile
  have hback : trim cs ++ ((cs.dropWhile isBlank).reverse.takeWhile isBlank).reverse =
      cs.dropWhile isBlank := by
    rw [trim, ← List.reverse_append, List.takeWhile_append_dropWhile, List.reverse_reverse]
  refine ⟨cs.takeWhile isBlank, ((cs.dropWhile isBlank).reverse.takeWhile isBlank).reverse,
    ?_, ?_, ?_, ?_⟩
  · rw [List.append_assoc, hback, hfront]
  · intro c hc
    rw [List.mem_append, List.mem_reverse] at hc
    rcases hc with hc | hc
    · exact forall_mem_takeWhile isBlank cs c hc
    · exact forall_mem_takeWhile isBlank _ c hc
  · intro c hc
    have hhead : (cs.dropWhile isBlank).head? = some c := by
      rw [← hback, List.head?_append, hc]
      rfl
    exact isBlank_of_head?_dropWhile hhead
  · intro c hc
    rw [trim, List.getLast?_reverse] at hc
    exact isBlank_of_head?_dropWhile hc

/-- What a token carries of its text: a comment what is left between the slashes and the end of the
line, and any other its text. -/
def Carries (part rest : List Char) : Token → Prop
  | .keyword k => k.spelling.toList = part
  | .symbol s => s.spelling = part
  | .number spelling => spelling.toList = part
  | .name spelling => spelling.toList = part
  | .comment inner => ∃ body, part = '/' :: '/' :: body ∧ '\n' ∉ body ∧
      (rest = [] ∨ rest.head? = some '\n') ∧ Trimmed body inner.toList

theorem Longest.carries (h : Longest (part ++ rest) kind part) :
    Carries part rest (kind.token part) := by
  cases kind with
  | keyword k => exact (show part = k.spelling.toList from h.mem).symm
  | symbol s => exact (show part = s.spelling from h.mem).symm
  | hexadecimal | decimal | name => exact String.toList_ofList
  | comment =>
    obtain ⟨body, rfl, hbody⟩ := mem_comment_iff.mp h.mem
    refine ⟨body, rfl, fun hmem => absurd (hbody _ hmem) (by decide), ?_, ?_⟩
    · -- with one more character of the line it would be longer
      cases rest with
      | nil => exact .inl rfl
      | cons d ds =>
        refine .inr ?_
        by_contra hd
        have hmore := h.length_le ('/' :: '/' :: (body ++ [d])) ⟨⟨ds, by simp⟩, .inr ⟨.comment, ?_⟩⟩
        · simp only [List.length_cons, List.length_append, List.length_nil] at hmore
          omega
        · refine mem_comment_iff.mpr ⟨_, rfl, fun c hc => ?_⟩
          rcases List.mem_append.mp hc with hc | hc
          · exact hbody c hc
          · rw [List.mem_singleton.mp hc]
            simpa using hd
    · rw [String.toList_ofList]
      exact trimmed_trim body

end Carried

/-! ## Tiles -/

/-- The token is the longest that starts at the place that its span names. -/
def Located.Reads (text : List Char) (t : Located) : Prop :=
  ∃ before part rest kind, text = before ++ (part ++ rest) ∧
    t.span = ⟨byteLength before, byteLength (before ++ part)⟩ ∧
    Longest (part ++ rest) kind part ∧ t.token = kind.token part ∧ Carries part rest t.token

/-- The tokens lie one behind the other between two places of a text, with nothing but blanks
outside of them. -/
structure Tiled (text : List Char) (start stop : Nat) (ts : List Located) : Prop where
  le : start ≤ stop
  bounds : ∀ t ∈ ts, start ≤ t.span.start ∧ t.span.start < t.span.stop ∧ t.span.stop ≤ stop
  ordered : ts.Pairwise fun t u => t.span.stop ≤ u.span.start
  reads : ∀ t ∈ ts, t.Reads text
  gaps : ∀ before c rest, text = before ++ c :: rest → start ≤ byteLength before →
    byteLength before < stop →
      (∃ t ∈ ts, t.span.start ≤ byteLength before ∧ byteLength before < t.span.stop) ∨
        c ∈ blankChars

/-- Nothing that is in a pattern starts at the character of the error. -/
def LexError.Stuck (text : List Char) (e : LexError) : Prop :=
  ∃ before rest, text = before ++ e.character :: rest ∧
    e.span = ⟨byteLength before, byteLength before + e.character.utf8Size⟩ ∧
    ∀ part, ¬ Matches (e.character :: rest) part

/-- What cutting a text into tokens from a place on tells of it. -/
def Lexes (text : List Char) (start : Nat) : Except LexError (List Located) → Prop
  | .ok ts => Tiled text start (byteLength text) ts
  | .error e => e.Stuck text ∧ ∃ ts, Tiled text start e.span.start ts

section Tiling

variable {text before part rest : List Char} {c : Char} {start stop : Nat} {t : Located}
  {ts : List Located}

theorem tiled_nil (text : List Char) (n : Nat) : Tiled text n n [] where
  le := Nat.le_refl n
  bounds := by simp
  ordered := List.Pairwise.nil
  reads := by simp
  gaps := fun before c rest _ hle hlt => absurd hlt (Nat.not_lt.mpr hle)

/-- Of two places before characters, the character at the first ends before the second, if they are
not the same. -/
theorem eq_or_next_le {before' rest' : List Char} {c' : Char}
    (h : before ++ c :: rest = before' ++ c' :: rest')
    (hle : byteLength before ≤ byteLength before') :
    c = c' ∨ byteLength before + c.utf8Size ≤ byteLength before' := by
  rcases List.append_eq_append_iff.mp h with ⟨mid, rfl, hmid⟩ | ⟨mid, rfl, hmid⟩
  · cases mid with
    | nil => exact .inl (List.cons_eq_cons.mp hmid).1
    | cons d mid =>
      obtain ⟨rfl, -⟩ := List.cons_eq_cons.mp hmid
      rw [byteLength_append, byteLength_cons]
      omega
  · rw [byteLength_append] at hle
    obtain rfl := byteLength_eq_zero_iff.mp (by omega : byteLength mid = 0)
    exact .inl (List.cons_eq_cons.mp hmid).1.symm

/-- A blank in front of tiles. -/
theorem Tiled.skip (htext : text = before ++ c :: rest) (hc : c ∈ blankChars)
    (h : Tiled text (byteLength before + c.utf8Size) stop ts) :
    Tiled text (byteLength before) stop ts where
  le := Nat.le_of_add_right_le h.le
  bounds := fun t ht =>
    ⟨Nat.le_of_add_right_le (h.bounds t ht).1, (h.bounds t ht).2⟩
  ordered := h.ordered
  reads := h.reads
  gaps := by
    intro before' c' rest' htext' hle hlt
    rcases eq_or_next_le (htext.symm.trans htext') hle with rfl | hnext
    · exact .inr hc
    · exact h.gaps before' c' rest' htext' hnext hlt

/-- A token in front of tiles. -/
theorem Tiled.cons (ht : t.Reads text) (hlt : t.span.start < t.span.stop)
    (h : Tiled text t.span.stop stop ts) : Tiled text t.span.start stop (t :: ts) where
  le := Nat.le_trans (Nat.le_of_lt hlt) h.le
  bounds := by
    refine List.forall_mem_cons.mpr ⟨⟨Nat.le_refl _, hlt, h.le⟩, fun u hu => ?_⟩
    exact ⟨Nat.le_trans (Nat.le_of_lt hlt) (h.bounds u hu).1, (h.bounds u hu).2⟩
  ordered := List.pairwise_cons.mpr ⟨fun u hu => (h.bounds u hu).1, h.ordered⟩
  reads := List.forall_mem_cons.mpr ⟨ht, h.reads⟩
  gaps := by
    intro before' c' rest' htext' hle hlt'
    by_cases hin : byteLength before' < t.span.stop
    · exact .inl ⟨t, List.mem_cons_self, hle, hin⟩
    · rcases h.gaps before' c' rest' htext' (Nat.le_of_not_lt hin) hlt' with ⟨u, hu, hspan⟩ | hblank
      · exact .inl ⟨u, List.mem_cons_of_mem t hu, hspan⟩
      · exact .inr hblank

theorem Lexes.skip {outcome : Except LexError (List Located)} (htext : text = before ++ c :: rest)
    (hc : c ∈ blankChars) (h : Lexes text (byteLength before + c.utf8Size) outcome) :
    Lexes text (byteLength before) outcome := by
  cases outcome with
  | ok ts => exact Tiled.skip htext hc h
  | error e =>
    obtain ⟨hstuck, ts, hts⟩ := h
    exact ⟨hstuck, ts, hts.skip htext hc⟩

theorem Lexes.cons {outcome : Except LexError (List Located)} (ht : t.Reads text)
    (hlt : t.span.start < t.span.stop) (h : Lexes text t.span.stop outcome) :
    Lexes text t.span.start (outcome.map (t :: ·)) := by
  cases outcome with
  | ok ts => exact Tiled.cons ht hlt h
  | error e =>
    obtain ⟨hstuck, ts, hts⟩ := h
    exact ⟨hstuck, t :: ts, hts.cons ht hlt⟩

theorem mem_blankChars_iff : c ∈ blankChars ↔ isSkipped c = true := by
  rw [← contains_blankChars, List.contains_iff_mem]

theorem lexes_tokensFrom (before cs : List Char) :
    Lexes (before ++ cs) (byteLength before) (tokensFrom (byteLength before) cs) := by
  generalize hoffset : byteLength before = offset
  fun_induction tokensFrom offset cs generalizing before with
  | case1 offset =>
    subst hoffset
    rw [List.append_nil]
    exact tiled_nil before (byteLength before)
  | case2 offset c cs hskipped ih =>
    subst hoffset
    have hbefore : byteLength (before ++ [c]) = byteLength before + c.utf8Size := by
      rw [byteLength_append, byteLength_cons, byteLength_nil, Nat.add_zero]
    have hrest := ih (before ++ [c]) hbefore
    rw [List.append_assoc, List.singleton_append] at hrest
    exact hrest.skip rfl (mem_blankChars_iff.mpr hskipped)
  | case3 offset c cs hskipped hnone =>
    subst hoffset
    refine ⟨⟨before, cs, rfl, rfl, ?_⟩, [], tiled_nil _ _⟩
    exact not_matches_of_lexeme? hnone (Bool.eq_false_iff.mpr hskipped)
  | case4 offset c cs hskipped token part hpart stop ih =>
    subst hoffset
    obtain ⟨kind, hlongest, rfl⟩ := longest_of_lexeme? hpart
    obtain ⟨d, ds, rfl, -⟩ := Kind.exists_opens hlongest.mem
    obtain ⟨rest, hrest⟩ := hlongest.starts
    obtain ⟨rfl, hcs⟩ := List.cons_eq_cons.mp hrest
    have hcs : ds ++ rest = cs := hcs
    subst hcs
    have hstop : byteLength (before ++ d :: ds) = stop := byteLength_append _ _
    have hdrop : (ds ++ rest).drop ((d :: ds).length - 1) = rest := List.drop_left
    have hlexes := ih (before ++ d :: ds) hstop
    rw [hdrop, List.append_assoc, List.cons_append] at hlexes
    rw [hdrop]
    refine Lexes.cons (t := ⟨kind.token (d :: ds), byteLength before, stop⟩) ?_ ?_ hlexes
    · exact ⟨before, d :: ds, rest, kind, rfl, by rw [hstop], hlongest, rfl, hlongest.carries⟩
    · have hpos := d.utf8Size_pos
      show byteLength before < byteLength before + (d.utf8Size + byteLength ds)
      omega

theorem lexes_tokens (text : List Char) : Lexes text 0 (tokens text) := lexes_tokensFrom [] text

end Tiling

/-! ## The places of errors -/

section Places

variable {limit n : Nat} {text : List Char} {t : Located} {ts : List Located} {s : State}
  {e : ParseError}

theorem isBoundary_zero (text : List Char) : IsBoundary text 0 := ⟨[], text, rfl, rfl⟩

theorem Located.Reads.isBoundary (h : t.Reads text) :
    IsBoundary text t.span.start ∧ IsBoundary text t.span.stop := by
  obtain ⟨before, part, rest, -, rfl, hspan, -⟩ := h
  rw [hspan]
  exact ⟨⟨before, part ++ rest, rfl, rfl⟩,
    ⟨before ++ part, rest, (List.append_assoc _ _ _).symm, rfl⟩⟩

theorem LexError.Stuck.isBoundary {e : LexError} (h : e.Stuck text) :
    IsBoundary text e.span.start ∧ IsBoundary text e.span.stop := by
  obtain ⟨before, rest, rfl, hspan, -⟩ := h
  rw [hspan]
  refine ⟨⟨before, e.character :: rest, rfl, rfl⟩, ⟨before ++ [e.character], rest, ?_, ?_⟩⟩
  · rw [List.append_assoc, List.singleton_append]
  · rw [byteLength_append, byteLength_cons, byteLength_nil, Nat.add_zero]

theorem span_of_read (h : s.read limit t = .error e) : e.span = t.span := by
  unfold State.read at h
  split at h
  · exact absurd h (by simp)
  · rw [← Except.error.inj h, ParseError.span]
  · rw [← Except.error.inj h, ParseError.span]

/-- An error of the parser has the span of a token, or the end of the last one. -/
theorem span_of_parse (h : parse ts = .error e) :
    (∃ t ∈ ts, e.span = t.span) ∨ e.span = endSpan ts := by
  rw [parse, parseWithin] at h
  cases hrun : ts.foldlM (State.read maxParseDepth) State.start with
  | error e' =>
    rw [hrun] at h
    obtain rfl := Except.error.inj h
    obtain ⟨k, t, s, ht, -, hrefused⟩ := exists_refused_of_run hrun
    exact .inl ⟨t, List.mem_of_getElem? ht, span_of_read hrefused⟩
  | ok s =>
    rw [hrun] at h
    dsimp only at h
    split at h
    · exact absurd h (by simp)
    · rw [← Except.error.inj h]
      exact .inr rfl

theorem isBoundary_endSpan (h : ∀ t ∈ ts, t.Reads text) :
    IsBoundary text (endSpan ts).start ∧ IsBoundary text (endSpan ts).stop := by
  unfold endSpan
  split
  next => exact ⟨isBoundary_zero text, isBoundary_zero text⟩
  next t ht =>
    have hstop := (h t (List.mem_of_getLast? ht)).isBoundary.2
    exact ⟨hstop, hstop⟩

theorem isBoundary_of_ofText? {e : SourceError} (h : ofText? text = .error e) :
    IsBoundary text e.span.start ∧ IsBoundary text e.span.stop := by
  have hlexes := lexes_tokens text
  unfold ofText? at h
  cases htokens : tokens text with
  | error e' =>
    rw [htokens] at h hlexes
    obtain rfl := Except.error.inj h
    exact hlexes.1.isBoundary
  | ok ts =>
    rw [htokens] at h hlexes
    have hreads : ∀ t ∈ ts, t.Reads text := Tiled.reads hlexes
    dsimp only at h
    cases hparse : parse ts with
    | ok nodes =>
      rw [hparse] at h
      exact absurd h (by simp)
    | error e' =>
      rw [hparse] at h
      obtain rfl := Except.error.inj h
      rcases span_of_parse hparse with ⟨t, ht, hspan⟩ | hspan
      · rw [SourceError.span, hspan]
        exact (hreads t ht).isBoundary
      · rw [SourceError.span, hspan]
        exact isBoundary_endSpan hreads

/-- Every span that is told of a text starts and ends at a position of the text. -/
structure Positioned (text : List Char) : Prop where
  tokens : ∀ ts, tokens text = .ok ts → ∀ t ∈ ts,
    (Position.at? text t.span.start).isSome ∧ (Position.at? text t.span.stop).isSome
  errors : ∀ e, ofText? text = .error e →
    (∃ p, Position.at? text e.span.start = some p ∧ e.place text = p.label) ∧
      (Position.at? text e.span.stop).isSome

theorem IsBoundary.exists_position (h : IsBoundary text n) :
    ∃ p, Position.at? text n = some p := by
  obtain ⟨before, rest, rfl, rfl⟩ := h
  exact ⟨_, Position.at?_byteLength before rest⟩

theorem IsBoundary.isSome_at? (h : IsBoundary text n) : (Position.at? text n).isSome :=
  Option.isSome_iff_exists.mpr h.exists_position

/-- **Tokens tile a text**, each as long as can be, up to its end or to the first place where none
starts; and whatever is wrong with the text, the place of the error is in it. -/
theorem tokens_tile (text : List Char) : Lexes text 0 (tokens text) ∧ Positioned text := by
  refine ⟨lexes_tokens text, ?_, ?_⟩
  · intro ts htokens t ht
    have hlexes := lexes_tokens text
    rw [htokens] at hlexes
    have hboundary := (Tiled.reads hlexes t ht).isBoundary
    exact ⟨hboundary.1.isSome_at?, hboundary.2.isSome_at?⟩
  · intro e herror
    obtain ⟨hstart, hstop⟩ := isBoundary_of_ofText? herror
    obtain ⟨p, hp⟩ := hstart.exists_position
    refine ⟨⟨p, hp, ?_⟩, hstop.isSome_at?⟩
    rw [SourceError.place, hp]
    rfl

/-- A mark without hexadecimal digits is a zero and a name. -/
example : tokens "-0xg".toList = .ok [⟨.number "-0", ⟨0, 2⟩⟩, ⟨.name "xg", ⟨2, 4⟩⟩] := by
  decide +kernel

end Places

end Cartridge.Script
