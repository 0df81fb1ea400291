import Cartridge.Proofs.Script.Parsing

/-!
# Where the parser stops

Whatever the parser has read can be completed to a script (`State.exists_completes`): the node that
is being read is finished and the blocks that are open are closed.  So the tokens in front of the
one that is refused begin a script, and with that token they begin none.  Of the limit a state knows
nothing but whether one more node may be nested: a token that is refused for being nested too deep is
taken under a greater limit, and any other is refused under every limit (`State.step_eq_of_le`).

Main statement: `parse_points`.
-/

namespace Cartridge.Script

/-- The tokens are a script that is nested no deeper than the limit. -/
def Accepted (limit : Nat) (ts : List Token) : Prop :=
  ∃ nodes, DerivesScript ts nodes ∧ nestingOf nodes ≤ limit

/-- Some script starts with the tokens. -/
def Viable (limit : Nat) (ts : List Token) : Prop := ∃ rest, Accepted limit (ts ++ rest)

/-- The tokens up to the one at index `k`, the last of them included. -/
def through (ts : List Located) (k : Nat) : List Token := (ts.take (k + 1)).map Located.token

/-- The token at index `k` is the first that makes it impossible to go on to a script. -/
structure Stops (limit : Nat) (ts : List Located) (k : Nat) : Prop where
  before : Viable limit ((ts.take k).map Located.token)
  here : ¬ Viable limit (through ts k)

/-- The error says of the tokens where they stop to begin a script, and what stands there. -/
def ParseError.Points (limit : Nat) (ts : List Located) : ParseError → Prop
  | unexpectedToken _ found span => ∃ k : Nat, ts[k]? = some ⟨found, span⟩ ∧ Stops limit ts k ∧
      ∀ deeper, ¬ Viable deeper (through ts k)
  | nestingTooDeep span => ∃ (k : Nat) (found : Token), ts[k]? = some ⟨found, span⟩ ∧
      Stops limit ts k ∧ ∃ deeper, Viable deeper (through ts k)
  | unexpectedEnd _ _ => ¬ Accepted limit (ts.map Located.token) ∧
      ∃ t rest, Accepted limit (ts.map Located.token ++ t :: rest)

/-! ## Every state can be completed -/

section Live

variable {limit depth : Nat} {close : List Node → List Token → List Node → Prop}
  (hclose : ∀ nodes, ∃ ts script, close nodes ts script)
include hclose

theorem exists_nodesComplete (nodes : List Node) :
    ∃ ts script, NodesComplete limit depth close nodes ts script := by
  obtain ⟨ts, script, h⟩ := hclose nodes
  exact ⟨ts, script, nodesComplete_iff.mpr (.inl h)⟩

theorem exists_elseCompletes (arms : List Arm) (nodes : List Node) :
    ∃ ts script, ElseCompletes limit depth close arms nodes ts script := by
  obtain ⟨ts, script, h⟩ := exists_nodesComplete hclose (chain arms [] ++ nodes)
  exact ⟨ts, script, elseCompletes_iff.mpr (.inl h)⟩

theorem exists_follows (block : Block) (body nodes : List Node) :
    ∃ ts script, block.Follows limit depth close body nodes ts script := by
  rcases block with ⟨before | _, c⟩ | arms
  · exact exists_elseCompletes hclose (⟨c, body⟩ :: before) nodes
  · exact exists_nodesComplete hclose (.loop c body :: nodes)
  · exact exists_nodesComplete hclose (chain arms body ++ nodes)

/-- A block may be empty. -/
theorem exists_block_completes (block : Block) (nodes : List Node) :
    ∃ ts script, block.Completes limit depth close nodes ts script := by
  obtain ⟨ts, script, h⟩ := exists_follows hclose block [] nodes
  exact ⟨_, script, [], ts, .braces .none, Nat.zero_le _, h⟩

theorem exists_stage_completes (stage : Stage) (nodes : List Node) :
    ∃ ts script, stage.Completes limit depth close nodes ts script := by
  cases stage with
  | node => exact exists_nodesComplete hclose nodes
  | arguments instruction read =>
    obtain ⟨ts, script, h⟩ := exists_nodesComplete hclose
      (.statement ⟨instruction, read.reverse ++ []⟩ :: nodes)
    exact ⟨_, script, [], ts, .none, h⟩
  | variableKind purpose =>
    obtain ⟨ts, script, h⟩ := exists_block_completes hclose
      (.guarded purpose ⟨.flag, "", .isSet, none⟩) nodes
    exact ⟨_, script, _, ts, .test (.flag rfl), h⟩
  | variableName purpose kind =>
    obtain ⟨ts, script, h⟩ := exists_block_completes hclose
      (.guarded purpose ⟨kind, "", .isSet, none⟩) nodes
    exact ⟨_, script, _, _, _, _, ts, rfl, .flag rfl, h⟩
  | comparator purpose kind name =>
    obtain ⟨ts, script, h⟩ := exists_block_completes hclose
      (.guarded purpose ⟨kind, name, .isSet, none⟩) nodes
    exact ⟨_, script, _, _, ts, .flag rfl, h⟩
  | value purpose kind name c =>
    obtain ⟨ts, script, h⟩ := exists_block_completes hclose
      (.guarded purpose ⟨kind, name, c, some ""⟩) nodes
    exact ⟨_, script, _, ts, rfl, h⟩
  | openBrace purpose c => exact exists_block_completes hclose (.guarded purpose c) nodes
  | afterThen arms => exact exists_elseCompletes hclose arms nodes
  | afterElse arms =>
    obtain ⟨ts, script, h⟩ := exists_nodesComplete hclose (chain arms [] ++ nodes)
    exact ⟨_, script, [], ts, .block (.braces .none), Nat.zero_le _, h⟩

end Live

/-- Open blocks can be closed, from the inside out. -/
theorem exists_closes (limit : Nat) (frames : List Frame) (nodes : List Node) :
    ∃ ts script, Closes limit frames nodes ts script := by
  induction frames generalizing nodes with
  | nil => exact ⟨[], nodes.reverse, rfl, rfl⟩
  | cons f frames ih =>
    obtain ⟨ts, script, h⟩ := exists_follows ih f.block nodes.reverse f.outer
    exact ⟨_, script, ts, rfl, h⟩

namespace State

theorem exists_completes (limit : Nat) (s : State) : ∃ ts script, s.Completes limit ts script :=
  exists_stage_completes (exists_closes limit s.frames) s.stage s.nodes

/-! ## The limit -/

section Limit

variable {limit deeper : Nat} {s s' : State} {t : Token}

theorem closeBlock_ne_tooDeep (s : State) : s.closeBlock ≠ .error .tooDeep := by
  unfold closeBlock
  split
  all_goals simp

/-- The answer is the same under every limit, and is not that something is nested too deep. -/
def Unlimited (answer : Nat → Except Refusal State) : Prop :=
  ∀ limit deeper, answer deeper = answer limit ∧ answer limit ≠ .error .tooDeep

/-- Between two nodes, a token nests one more node, or the limit has nothing to do with it. -/
theorem stepNode_cases (s : State) (t : Token) :
    (∃ purpose, ∀ limit, s.stepNode limit t = s.enter limit purpose) ∨
      Unlimited fun limit => s.stepNode limit t := by
  by_cases hif : t = .keyword .ifWord
  · subst hif
    exact .inl ⟨.arm [], fun _ => rfl⟩
  by_cases hwhile : t = .keyword .whileWord
  · subst hwhile
    exact .inl ⟨.loop, fun _ => rfl⟩
  refine .inr fun limit deeper => ?_
  unfold stepNode
  split
  next => exact ⟨rfl, by simp⟩
  next => exact absurd rfl hif
  next => exact absurd rfl hwhile
  next => exact ⟨rfl, by simp⟩
  next => exact ⟨rfl, closeBlock_ne_tooDeep s⟩
  next => exact ⟨rfl, by simp⟩

theorem step_cases (s : State) (t : Token) :
    (∃ r purpose, ∀ limit, s.step limit t = enter limit r purpose) ∨
      Unlimited fun limit => s.step limit t := by
  obtain ⟨frames, nodes, stage⟩ := s
  cases stage with
  | node =>
    rcases stepNode_cases ⟨frames, nodes, .node⟩ t with ⟨purpose, henter⟩ | hsame
    · exact .inl ⟨_, purpose, henter⟩
    · exact .inr hsame
  | afterThen arms =>
    by_cases helse : t = .keyword .elseWord
    · subst helse
      exact .inr fun _ _ => ⟨rfl, by simp [step]⟩
    · have hstep : ∀ limit, (⟨frames, nodes, .afterThen arms⟩ : State).step limit t =
          (⟨frames, chain arms [] ++ nodes, .node⟩ : State).stepNode limit t := by
        intro limit
        simp only [step]
        rfl
      simp only [hstep]
      rcases stepNode_cases ⟨frames, chain arms [] ++ nodes, .node⟩ t with ⟨purpose, henter⟩ | hsame
      · exact .inl ⟨_, purpose, henter⟩
      · exact .inr hsame
  | afterElse arms =>
    by_cases hif : t = .keyword .ifWord
    · subst hif
      exact .inl ⟨_, .arm arms, fun _ => rfl⟩
    · refine .inr fun limit deeper => ?_
      simp only [step]
      split
      next => exact absurd rfl hif
      next => exact ⟨rfl, by simp⟩
      next => exact ⟨rfl, by simp⟩
  | comparator purpose kind name =>
    refine .inr fun limit deeper => ⟨rfl, ?_⟩
    simp only [step]
    split
    · split
      · simp
      · simp
    · simp
  | _ =>
    -- the other stages have nothing to do with the limit
    refine .inr fun limit deeper => ⟨rfl, ?_⟩
    simp only [step]
    split
    all_goals simp

/-- What is not refused for its depth is answered in the same way under a greater limit. -/
theorem step_eq_of_le (h : s.step limit t ≠ .error .tooDeep) (hle : limit ≤ deeper) :
    s.step deeper t = s.step limit t := by
  rcases step_cases s t with ⟨r, purpose, henter⟩ | hsame
  · rw [henter] at h
    rw [henter, henter]
    unfold enter at h ⊢
    split at h
    · exact absurd rfl h
    · rw [if_neg (by omega), if_neg (by omega)]
  · exact (hsame limit deeper).1

/-- What is refused for its depth is taken under some greater limit. -/
theorem exists_step_of_tooDeep (h : s.step limit t = .error .tooDeep) :
    ∃ deeper s', limit ≤ deeper ∧ s.step deeper t = .ok s' := by
  rcases step_cases s t with ⟨r, purpose, henter⟩ | hsame
  · refine ⟨max limit (r.depth + purpose.depth + 1), { r with stage := .variableKind purpose },
      Nat.le_max_left _ _, ?_⟩
    rw [henter]
    exact enter_eq_ok_iff.mpr ⟨by omega, rfl⟩
  · exact absurd h (hsame limit limit).2

end Limit

end State

/-! ## Runs -/

section Run

variable {limit deeper k : Nat} {s s' : State} {t : Located} {ts : List Located}
  {us : List Token} {script : List Node} {e : ParseError}

theorem run_cons_eq_ok_iff : (t :: ts).foldlM (State.read limit) s = .ok s' ↔
    ∃ next, s.step limit t.token = .ok next ∧ ts.foldlM (State.read limit) next = .ok s' := by
  rw [List.foldlM_cons]
  simp only [← State.read_eq_ok_iff]
  cases s.read limit t with
  | error e => simp [bind, Except.bind]
  | ok next => simp [bind, Except.bind]

theorem run_eq_of_le (h : ts.foldlM (State.read limit) s = .ok s') (hle : limit ≤ deeper) :
    ts.foldlM (State.read deeper) s = .ok s' := by
  induction ts generalizing s with
  | nil => exact h
  | cons t ts ih =>
    obtain ⟨next, hstep, hrun⟩ := run_cons_eq_ok_iff.mp h
    refine run_cons_eq_ok_iff.mpr ⟨next, ?_, ih hrun⟩
    rw [State.step_eq_of_le (by rw [hstep]; simp) hle, hstep]

/-- What completes the state that a run leads to completes the one it starts from, behind the
tokens that it has read. -/
theorem completes_run (h : ts.foldlM (State.read limit) s = .ok s') :
    s.Completes limit (ts.map Located.token ++ us) script ↔ s'.Completes limit us script := by
  induction ts generalizing s with
  | nil =>
    obtain rfl := Except.ok.inj h
    exact Iff.rfl
  | cons t ts ih =>
    obtain ⟨next, hstep, hrun⟩ := run_cons_eq_ok_iff.mp h
    rw [List.map_cons, List.cons_append, State.completes_cons_iff]
    simp only [hstep, Except.ok.injEq, exists_eq_left']
    exact ih hrun

/-- A run that fails has read the tokens in front of the one that it is refused at. -/
theorem exists_refused_of_run (h : ts.foldlM (State.read limit) s = .error e) :
    ∃ k t s', ts[k]? = some t ∧ (ts.take k).foldlM (State.read limit) s = .ok s' ∧
      s'.read limit t = .error e := by
  induction ts generalizing s with
  | nil => exact absurd h (by simp [pure, Except.pure])
  | cons t ts ih =>
    cases hread : s.read limit t with
    | error e' =>
      rw [List.foldlM_cons, hread] at h
      obtain rfl := Except.error.inj h
      exact ⟨0, t, s, rfl, rfl, hread⟩
    | ok next =>
      rw [List.foldlM_cons, hread] at h
      obtain ⟨k, u, s', hu, hrun, hrefused⟩ := ih h
      exact ⟨k + 1, u, s', hu,
        run_cons_eq_ok_iff.mpr ⟨next, State.read_eq_ok_iff.mp hread, hrun⟩, hrefused⟩

theorem accepted_iff : Accepted limit us ↔ ∃ script, State.start.Completes limit us script :=
  exists_congr fun _ => State.completes_start_iff.symm

theorem viable_of_run (h : ts.foldlM (State.read limit) State.start = .ok s) :
    Viable limit (ts.map Located.token) := by
  obtain ⟨us, script, hs⟩ := s.exists_completes limit
  exact ⟨us, accepted_iff.mpr ⟨script, (completes_run h).mpr hs⟩⟩

theorem through_eq (h : ts[k]? = some t) :
    through ts k = (ts.take k).map Located.token ++ [t.token] := by
  rw [through, List.take_add_one, h, List.map_append]
  rfl

/-- Behind a run, the next token can be read if and only if some script goes on with it. -/
theorem viable_through_iff (ht : ts[k]? = some t)
    (h : (ts.take k).foldlM (State.read limit) State.start = .ok s) :
    Viable limit (through ts k) ↔ ∃ s', s.step limit t.token = .ok s' := by
  simp only [Viable, accepted_iff, through_eq ht, List.append_assoc, completes_run h,
    List.singleton_append, State.completes_cons_iff]
  constructor
  · rintro ⟨rest, script, s', hs', -⟩
    exact ⟨s', hs'⟩
  · rintro ⟨s', hs'⟩
    obtain ⟨rest, script, hrest⟩ := s'.exists_completes limit
    exact ⟨rest, script, s', hs', hrest⟩

theorem stops_of_refused (ht : ts[k]? = some t)
    (h : (ts.take k).foldlM (State.read limit) State.start = .ok s) {refusal : Refusal}
    (hrefused : s.step limit t.token = .error refusal) : Stops limit ts k := by
  refine ⟨viable_of_run h, fun hviable => ?_⟩
  obtain ⟨s', hs'⟩ := (viable_through_iff ht h).mp hviable
  rw [hrefused] at hs'
  exact absurd hs' (by simp)

theorem Viable.of_le (h : Viable limit us) (hle : limit ≤ deeper) : Viable deeper us := by
  obtain ⟨rest, nodes, hnodes, hnesting⟩ := h
  exact ⟨rest, nodes, hnodes, Nat.le_trans hnesting hle⟩

/-- A token that is refused for something else than its depth is possible under no limit. -/
theorem not_viable_of_unexpected (ht : ts[k]? = some t)
    (h : (ts.take k).foldlM (State.read limit) State.start = .ok s) {expected : Expected}
    (hrefused : s.step limit t.token = .error (.unexpected expected)) (deeper : Nat) :
    ¬ Viable deeper (through ts k) := by
  intro hviable
  have hle := Nat.le_max_left limit deeper
  obtain ⟨s', hs'⟩ := (viable_through_iff ht (run_eq_of_le h hle)).mp
    (hviable.of_le (Nat.le_max_right limit deeper))
  rw [State.step_eq_of_le (by rw [hrefused]; simp) hle, hrefused] at hs'
  exact absurd hs' (by simp)

theorem viable_of_tooDeep (ht : ts[k]? = some t)
    (h : (ts.take k).foldlM (State.read limit) State.start = .ok s)
    (hrefused : s.step limit t.token = .error .tooDeep) :
    ∃ deeper, Viable deeper (through ts k) := by
  obtain ⟨deeper, s', hle, hs'⟩ := State.exists_step_of_tooDeep hrefused
  exact ⟨deeper, (viable_through_iff ht (run_eq_of_le h hle)).mpr ⟨s', hs'⟩⟩

/-- The error about a token is the one about the refusal. -/
theorem points_of_refused (ht : ts[k]? = some t)
    (h : (ts.take k).foldlM (State.read limit) State.start = .ok s)
    (hrefused : s.read limit t = .error e) : e.Points limit ts := by
  unfold State.read at hrefused
  cases hstep : s.step limit t.token with
  | ok next =>
    rw [hstep] at hrefused
    exact absurd hrefused (by simp)
  | error refusal =>
    rw [hstep] at hrefused
    have hstops := stops_of_refused ht h hstep
    cases refusal with
    | unexpected expected =>
      obtain rfl := Except.error.inj hrefused
      exact ⟨k, ht, hstops, not_viable_of_unexpected ht h hstep⟩
    | tooDeep =>
      obtain rfl := Except.error.inj hrefused
      exact ⟨k, t.token, ht, hstops, viable_of_tooDeep ht h hstep⟩

/-- Where the tokens end too early, more of them are needed and enough. -/
theorem points_of_unfinished (h : ts.foldlM (State.read limit) State.start = .ok s)
    {expected : Expected} (hfinish : s.finish = .error expected) (span : Span) :
    (ParseError.unexpectedEnd expected span).Points limit ts := by
  have hnil : ∀ script, ¬ s.Completes limit [] script := by
    intro script hs
    rw [State.completes_nil_iff, hfinish] at hs
    exact absurd hs (by simp)
  refine ⟨fun haccepted => ?_, ?_⟩
  · obtain ⟨script, hscript⟩ := accepted_iff.mp haccepted
    rw [← List.append_nil (ts.map Located.token), completes_run h] at hscript
    exact hnil script hscript
  · obtain ⟨us, script, hs⟩ := s.exists_completes limit
    cases us with
    | nil => exact absurd hs (hnil script)
    | cons u us => exact ⟨u, us, accepted_iff.mpr ⟨script, (completes_run h).mpr hs⟩⟩

theorem parseWithin_points (h : parseWithin limit ts = .error e) : e.Points limit ts := by
  unfold parseWithin at h
  cases hrun : ts.foldlM (State.read limit) State.start with
  | error e' =>
    rw [hrun] at h
    obtain rfl := Except.error.inj h
    obtain ⟨k, t, s, ht, hbefore, hrefused⟩ := exists_refused_of_run hrun
    exact points_of_refused ht hbefore hrefused
  | ok s =>
    rw [hrun] at h
    dsimp only at h
    cases hfinish : s.finish with
    | ok nodes =>
      rw [hfinish] at h
      exact absurd h (by simp)
    | error expected =>
      rw [hfinish] at h
      obtain rfl := Except.error.inj h
      exact points_of_unfinished hrun hfinish _

/-- **The parser stops at the first impossible token**, or at the end of a text that goes on. -/
theorem parse_points (h : parse ts = .error e) : e.Points maxParseDepth ts :=
  parseWithin_points h

/-- The tokens that open a loop. -/
def loopOpening : List Token :=
  [.keyword .whileWord, .keyword .flagWord, .name "door", .keyword .setWord, .symbol .openBrace]

/-- As many loops as may be nested, and an `if` in the innermost. -/
def deepTokens : List Token :=
  (List.replicate maxParseDepth loopOpening).flatten ++ [.comment "deep", .keyword .ifWord]

/-- Tokens of one character each. -/
def located (ts : List Token) : List Located := ts.zipIdx.map fun (t, i) => ⟨t, ⟨i, i + 1⟩⟩

set_option maxRecDepth 8000 in
theorem points_deepTokens :
    parse (located deepTokens) = .error (.nestingTooDeep ⟨321, 322⟩) ∧
      (ParseError.nestingTooDeep ⟨321, 322⟩).Points maxParseDepth (located deepTokens) :=
  ⟨by rfl, parse_points (by rfl)⟩

end Run

end Cartridge.Script
