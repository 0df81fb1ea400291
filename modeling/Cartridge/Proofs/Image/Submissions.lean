import Cartridge.Proofs.Image.WriterRun

/-!
# Submissions to a writer

A submission is data that has got an address, in a request of its own or as an item of a table,
between the writer before it and the writer behind it.  What a submission can do is said once
(`Submission.Met`): the address of equal data is used, or the data is placed and its address
remembered, or it is placed at the start of a bank and forgotten.

Main statements: the submissions of a run follow each other (`trace_run`), so what each of them
keeps holds along the run (`Trace.keeps`).
-/

namespace Cartridge

open Allocator (Placement)

/-- Data with the address that it has got, and the writers before and behind. -/
structure Submission where
  manner : Manner
  data : Bytes
  address : Nat
  before : Writer
  after : Writer

def Submission.placement (s : Submission) : Placement := ⟨s.address, s.data⟩

namespace Writer

/-! ## The submissions of a run -/

/-- The submission that an answer about data is for. -/
def submitted (w : Writer) (manner : Manner) (data : Bytes) : Answer Nat → List Submission
  | (.ok address, w') => [⟨manner, data, address, w, w'⟩]
  | (.error _, _) => []

/-- The items of a table, up to the first that cannot be placed. -/
def submittedItems (w : Writer) : List Bytes → List Submission
  | [] => []
  | item :: items =>
    match w.add item with
    | (.error _, _) => []
    | (.ok address, w') => ⟨.plain, item, address, w, w'⟩ :: submittedItems w' items

/-- All data that gets an address in a request; a table is submitted behind its items. -/
def submissions (w : Writer) : Request → List Submission
  | .data bytes => w.submitted .plain bytes (w.add bytes)
  | .dataNotNull bytes => w.submitted .notNull bytes (w.addNotNull bytes)
  | .named name bytes => w.submitted .plain bytes (w.addNamed name bytes)
  | .namedNotNull name bytes => w.submitted .notNull bytes (w.addNamedNotNull name bytes)
  | .fixed name bank bytes => w.submitted .fixed bytes (w.addFixed name bank bytes)
  | .table name items =>
    w.submittedItems items ++ (w.addAll items).2.submitted .plain
      (w.contentsOf (.table name items)) (w.addTable name items)
  | .constant _ _ => []

/-- The banks and the addresses of contents are the same. -/
structure SameStore (w w' : Writer) : Prop where
  map_eq : w'.map = w.map
  allocator_eq : w'.allocator = w.allocator
  placed_eq : w'.placed = w.placed

end Writer

/-! ## One submission -/

namespace Submission

variable {s : Submission} {w : Writer}

/-- From now on the address of the data is the one that it has got. -/
structure Recorded (s : Submission) : Prop where
  map_eq : s.after.map = s.before.map
  address?_eq : ∀ data, s.after.address? data =
    if s.data == data then some s.address else s.before.address? data

/-- What a submission can do. -/
inductive Met (s : Submission) : Prop
  | reused (manner_ne : s.manner ≠ .fixed) (known : s.before.address? s.data = some s.address)
      (notNull : s.manner = .notNull → s.address % 0x10000 ≠ 0)
      (same : s.before.SameStore s.after)
  | plain (manner_eq : s.manner = .plain) (unknown : s.before.address? s.data = none)
      (added : s.before.allocator.add s.data = (.ok s.address, s.after.allocator))
      (recorded : s.Recorded)
  | notNull (manner_eq : s.manner = .notNull)
      (null : ∀ address, s.before.address? s.data = some address → address % 0x10000 = 0)
      (added : s.before.allocator.addNotNull s.data = (.ok s.address, s.after.allocator))
      (recorded : s.Recorded)
  | fixed (manner_eq : s.manner = .fixed) (bank : Nat) (lt : bank < s.before.map.bankCount)
      (address_eq : s.address = s.before.map.bankAddress bank)
      (added : s.before.allocator.addFixed bank s.address s.data = (.ok (), s.after.allocator))
      (map_eq : s.after.map = s.before.map) (placed_eq : s.after.placed = s.before.placed)

end Submission

namespace Writer

variable {w w' w'' : Writer} {s : Submission} {ss ss' : List Submission} {manner : Manner}
  {name : String} {data item : Bytes} {items : List Bytes} {address bank : Nat} {r : Request}
  {rs : List Request} {answer : Answer Nat}

theorem SameStore.refl (w : Writer) : w.SameStore w := ⟨rfl, rfl, rfl⟩

theorem SameStore.trans (h : w.SameStore w') (h' : w'.SameStore w'') : w.SameStore w'' :=
  ⟨h'.map_eq.trans h.map_eq, h'.allocator_eq.trans h.allocator_eq,
    h'.placed_eq.trans h.placed_eq⟩

theorem SameStore.address?_eq (h : w.SameStore w') (data : Bytes) :
    w'.address? data = w.address? data := by
  rw [address?, address?, h.placed_eq]

theorem SameStore.sound (h : w.SameStore w') (hs : w.Sound) : w'.Sound :=
  (keeps_of_eq h.map_eq h.allocator_eq h.placed_eq).sound hs

/-- The exports of the writer behind a submission do not matter. -/
theorem met_of_sameStore (h : Submission.Met ⟨manner, data, address, w, w'⟩)
    (hsame : w'.SameStore w'') : Submission.Met ⟨manner, data, address, w, w''⟩ := by
  have hrecorded : Submission.Recorded ⟨manner, data, address, w, w'⟩ →
      Submission.Recorded ⟨manner, data, address, w, w''⟩ := by
    intro hr
    refine ⟨hsame.map_eq.trans hr.map_eq, fun other => ?_⟩
    have heq := hsame.address?_eq other
    exact heq.trans (hr.address?_eq other)
  cases h with
  | reused manner_ne known notNull same =>
    exact .reused manner_ne known notNull (same.trans hsame)
  | plain manner_eq unknown added recorded =>
    refine .plain manner_eq unknown ?_ (hrecorded recorded)
    rw [hsame.allocator_eq]
    exact added
  | notNull manner_eq null added recorded =>
    refine .notNull manner_eq null ?_ (hrecorded recorded)
    rw [hsame.allocator_eq]
    exact added
  | fixed manner_eq bank lt address_eq added map_eq placed_eq =>
    refine .fixed manner_eq bank lt address_eq ?_ (hsame.map_eq.trans map_eq)
      (hsame.placed_eq.trans placed_eq)
    rw [hsame.allocator_eq]
    exact added

/-- An answer is about a submission that has been met, or nothing has been placed. -/
structure Answers (w : Writer) (manner : Manner) (data : Bytes) (answer : Answer Nat) : Prop where
  met : ∀ address, answer.1 = .ok address →
    Submission.Met ⟨manner, data, address, w, answer.2⟩
  refused : ∀ e, answer.1 = .error e → w.SameStore answer.2

theorem recorded_record (w : Writer) (manner manner' : Manner) (data : Bytes) (address : Nat)
    (a : Allocator) :
    Submission.Recorded ⟨manner, data, address, w, w.record manner' data address a⟩ :=
  ⟨rfl, fun other => address?_record other⟩

theorem answers_refused (w : Writer) (manner : Manner) (data : Bytes) (e : PlacementError) :
    w.Answers manner data (.error e, w) :=
  ⟨fun _ h => absurd h (by simp), fun _ _ => .refl w⟩

theorem answers_met (h : Submission.Met ⟨manner, data, address, w, w'⟩) :
    w.Answers manner data (.ok address, w') := by
  refine ⟨fun found hok => ?_, fun _ herror => absurd herror (by simp)⟩
  obtain rfl := Except.ok.inj hok
  exact h

theorem answers_add (w : Writer) (data : Bytes) : w.Answers .plain data (w.add data) := by
  unfold add
  cases hknown : w.address? data with
  | some address =>
    exact answers_met (.reused (by simp) hknown (fun h => absurd h (by simp)) ⟨rfl, rfl, rfl⟩)
  | none =>
    simp only [place]
    rcases h : w.allocator.add data with ⟨e | address, a⟩
    · obtain rfl := Allocator.eq_of_add_error h
      exact answers_refused w .plain data e
    · exact answers_met (.plain rfl hknown h (recorded_record w _ _ data _ _))

theorem answers_placeNotNull (hnull : ∀ address, w.address? data = some address →
    address % 0x10000 = 0) : w.Answers .notNull data (w.placeNotNull data) := by
  unfold placeNotNull
  rcases h : w.allocator.addNotNull data with ⟨e | address, a⟩
  · obtain rfl := Allocator.eq_of_addNotNull_error h
    exact answers_refused w .notNull data e
  · exact answers_met (.notNull rfl hnull h (recorded_record w _ _ data _ _))

theorem answers_addNotNull (w : Writer) (data : Bytes) :
    w.Answers .notNull data (w.addNotNull data) := by
  unfold addNotNull
  cases hknown : w.address? data with
  | none => exact answers_placeNotNull fun address h => absurd (hknown.symm.trans h) (by simp)
  | some address =>
    simp only
    split
    next hnull =>
      refine answers_placeNotNull fun found h => ?_
      obtain rfl := Option.some.inj (hknown.symm.trans h)
      exact hnull
    next hnull =>
      exact answers_met (.reused (by simp) hknown (fun _ => hnull) ⟨rfl, rfl, rfl⟩)

theorem answers_addFixed (w : Writer) (name : String) (bank : Nat) (data : Bytes) :
    w.Answers .fixed data (w.addFixed name bank data) := by
  unfold addFixed
  split
  · exact answers_refused w .fixed data _
  next hbank =>
    simp only
    rcases h : w.allocator.addFixed bank (w.map.bankAddress bank) data with ⟨e | ok, a⟩
    · obtain rfl := Allocator.eq_of_addFixed_error h
      exact answers_refused w .fixed data e
    · exact answers_met (.fixed rfl bank (Nat.not_le.mp hbank) rfl h rfl rfl)

theorem Answers.of_sameStore {answer' : Answer Nat} (h : w.Answers manner data answer)
    (hfst : answer'.1 = answer.1) (hsame : answer.2.SameStore answer'.2) :
    w.Answers manner data answer' :=
  ⟨fun address hok => met_of_sameStore (h.met address (hfst ▸ hok)) hsame,
    fun e herror => (h.refused e (hfst ▸ herror)).trans hsame⟩

theorem Answers.named (h : w.Answers manner data answer) (name : String) :
    w.Answers manner data (named name answer) := by
  rcases answer with ⟨e | address, w'⟩
  · exact h
  · exact h.of_sameStore rfl ⟨rfl, rfl, rfl⟩

theorem Answers.exportTable (h : w.Answers manner data answer) (name : String) (count : Nat) :
    w.Answers manner data (exportTable name count answer) := by
  rcases answer with ⟨e | address, w'⟩
  · exact h
  · exact h.of_sameStore rfl ⟨rfl, rfl, rfl⟩

/-! ## Submissions that follow each other -/

/-- Between submissions neither the banks nor the addresses of contents change. -/
inductive Trace : Writer → List Submission → Writer → Prop
  | nil {w w' : Writer} (same : w.SameStore w') : Trace w [] w'
  | cons {w w' : Writer} {s : Submission} {ss : List Submission} (same : w.SameStore s.before)
      (met : s.Met) (behind : Trace s.after ss w') : Trace w (s :: ss) w'

theorem Trace.append (h : Trace w ss w') (h' : Trace w' ss' w'') : Trace w (ss ++ ss') w'' := by
  induction h with
  | nil same =>
    cases h' with
    | nil same' => exact .nil (same.trans same')
    | cons same' met behind => exact .cons (same.trans same') met behind
  | cons same met _ ih => exact .cons same met (ih h')

theorem Trace.split (h : Trace w (ss ++ ss') w') :
    ∃ w₁, Trace w ss w₁ ∧ Trace w₁ ss' w' := by
  induction ss generalizing w with
  | nil => exact ⟨w, .nil (.refl w), h⟩
  | cons s ss ih =>
    cases h with
    | cons same met behind =>
      obtain ⟨w₁, hfront, hback⟩ := ih behind
      exact ⟨w₁, .cons same met hfront, hback⟩

/-- What every submission keeps holds before each of them, and behind the last. -/
theorem Trace.keeps {P : Writer → Prop} (h : Trace w ss w')
    (hsame : ∀ w w' : Writer, w.SameStore w' → P w → P w')
    (hmet : ∀ s ∈ ss, s.Met → P s.before → P s.after) (hw : P w) :
    P w' ∧ ∀ s ∈ ss, s.Met ∧ P s.before := by
  induction h with
  | nil same => exact ⟨hsame _ _ same hw, fun s hs => absurd hs List.not_mem_nil⟩
  | @cons w w' s ss same met _ ih =>
    have hbefore := hsame _ _ same hw
    obtain ⟨hlast, hall⟩ := ih (fun s' hs' => hmet s' (List.mem_cons_of_mem s hs'))
      (hmet s List.mem_cons_self met hbefore)
    refine ⟨hlast, fun s' hs' => ?_⟩
    rcases List.mem_cons.mp hs' with rfl | hs'
    · exact ⟨met, hbefore⟩
    · exact hall s' hs'

theorem Answers.trace (h : w.Answers manner data answer) :
    Trace w (w.submitted manner data answer) answer.2 := by
  rcases answer with ⟨e | address, w'⟩
  · exact .nil (h.refused e rfl)
  · exact .cons (.refl w) (h.met address rfl) (.nil (.refl w'))

theorem trace_submittedItems (w : Writer) (items : List Bytes) :
    Trace w (w.submittedItems items) (w.addAll items).2 := by
  induction items generalizing w with
  | nil => exact .nil (.refl w)
  | cons item items ih =>
    have hanswers := answers_add w item
    rw [submittedItems]
    rcases h : w.add item with ⟨e | address, w₁⟩
    · rw [h] at hanswers
      rw [addAll, h]
      exact .nil (hanswers.refused e rfl)
    · rw [h] at hanswers
      rw [addAll_cons h]
      exact .cons (.refl w) (hanswers.met address rfl) (ih w₁)

theorem trace_table (w : Writer) (name : String) (items : List Bytes) :
    Trace w (w.submissions (.table name items)) (w.addTable name items).2 := by
  refine (trace_submittedItems w items).append ?_
  cases hall : (w.addAll items).1 with
  | error e =>
    rw [addTable_of_error name hall]
    exact .nil (.refl _)
  | ok addresses =>
    obtain ⟨-, -, haddresses, -⟩ := grows_addAll w items
    have hanswers := answers_add (w.addAll items).2 (w.contentsOf (.table name items))
    rw [addTable_of_ok name hall, haddresses addresses hall]
    exact ((hanswers.named name).exportTable name items.length).trace

theorem trace_perform (w : Writer) (r : Request) :
    Trace w (w.submissions r) (w.perform r).2 := by
  cases r with
  | data bytes => exact (answers_add w bytes).trace
  | dataNotNull bytes => exact (answers_addNotNull w bytes).trace
  | named name bytes => exact ((answers_add w bytes).named name).trace
  | namedNotNull name bytes => exact ((answers_addNotNull w bytes).named name).trace
  | fixed name bank bytes => exact (answers_addFixed w name bank bytes).trace
  | table name items => exact trace_table w name items
  | constant name value => exact .nil ⟨rfl, rfl, rfl⟩

/-- **The submissions of a run lead from the writer before it to the writer behind it.** -/
theorem trace_run (w : Writer) (rs : List Request) :
    Trace w (w.collect submissions rs) (w.run rs) := by
  induction rs generalizing w with
  | nil => exact .nil (.refl w)
  | cons r rs ih => exact (trace_perform w r).append (ih (w.perform r).2)

/-! ## Submissions and answers -/

theorem map_placement_submitted : (w.submitted manner data answer).map Submission.placement =
    answer.1.toOption.toList.map fun address => ⟨address, data⟩ := by
  rcases answer with ⟨e | address, w'⟩
  · rfl
  · rfl

theorem map_placement_submittedItems (w : Writer) (items : List Bytes) :
    (w.submittedItems items).map Submission.placement = w.servedItems items := by
  induction items generalizing w with
  | nil => rfl
  | cons item items ih =>
    rw [submittedItems, servedItems]
    rcases w.add item with ⟨e | address, w₁⟩
    · rfl
    · exact congrArg (List.cons _) (ih w₁)

theorem toOption_join_addressed :
    (perform.addressed answer).1.toOption.join = answer.1.toOption := by
  rcases answer with ⟨e | address, w'⟩
  · rfl
  · rfl

/-- What is served in a request is what has been submitted in it. -/
theorem map_placement_submissions (w : Writer) (r : Request) :
    (w.submissions r).map Submission.placement = w.served r := by
  rw [served, addressOf?]
  cases r with
  | table name items =>
    rw [submissions, List.map_append, map_placement_submittedItems, map_placement_submitted,
      perform, toOption_join_addressed]
    rfl
  | constant name value => rfl
  | _ =>
    rw [submissions, map_placement_submitted, perform, toOption_join_addressed]
    rfl

theorem map_placement_collect (w : Writer) (rs : List Request) :
    (w.collect submissions rs).map Submission.placement = w.collect served rs := by
  induction rs generalizing w with
  | nil => rfl
  | cons r rs ih =>
    rw [collect, collect, List.map_append, map_placement_submissions, ih]

end Writer

/-! ## What a submission keeps -/

namespace Submission

variable {s : Submission}

/-- Only data that has an address already is not placed. -/
theorem Met.reused_or_appends (h : s.Met) :
    (s.manner ≠ .fixed ∧ s.before.address? s.data = some s.address ∧
        s.before.SameStore s.after) ∨
      s.before.allocator.Appends s.after.allocator s.address s.data := by
  cases h with
  | reused manner_ne known _ same => exact .inl ⟨manner_ne, known, same⟩
  | plain _ _ added _ => exact .inr (Allocator.appends_of_add added)
  | notNull _ _ added _ => exact .inr (Allocator.appends_of_addNotNull added)
  | fixed _ _ _ _ added _ _ => exact .inr (Allocator.appends_of_addFixed added)

theorem Met.map_eq (h : s.Met) : s.after.map = s.before.map := by
  cases h with
  | reused _ _ _ same => exact same.map_eq
  | plain _ _ _ recorded => exact recorded.map_eq
  | notNull _ _ _ recorded => exact recorded.map_eq
  | fixed _ _ _ _ _ map_eq _ => exact map_eq

theorem Met.sound (h : s.Met) (hs : s.before.Sound) : s.after.Sound := by
  cases h with
  | reused _ _ _ same => exact same.sound hs
  | plain _ _ added recorded =>
    exact hs.of_recorded (Allocator.appends_of_add added).meets recorded.map_eq
      recorded.address?_eq
  | notNull _ _ added recorded =>
    exact hs.of_recorded (Allocator.appends_of_addNotNull added).meets recorded.map_eq
      recorded.address?_eq
  | fixed _ _ _ _ added map_eq placed_eq =>
    have hmeets := (Allocator.appends_of_addFixed added).meets
    refine ⟨?_, fun data address hknown => ?_⟩
    · rw [map_eq]
      exact hmeets.fits _ hs.fits
    · rw [Writer.address?, placed_eq] at hknown
      exact (hs.holds data address hknown).mono hmeets.extended

end Submission

namespace Writer

variable {map : MemoryMap} {w w' : Writer} {s : Submission}

/-- The writer is sound and has the map. -/
structure SoundOver (map : MemoryMap) (w : Writer) : Prop where
  sound : w.Sound
  map_eq : w.map = map

theorem SoundOver.fits (h : w.SoundOver map) : w.allocator.Fits map :=
  h.map_eq ▸ h.sound.fits

theorem soundOver_new (map : MemoryMap) : (new map).SoundOver map := ⟨sound_new map, rfl⟩

theorem SoundOver.of_sameStore (h : w.SoundOver map) (hsame : w.SameStore w') :
    w'.SoundOver map :=
  ⟨hsame.sound h.sound, hsame.map_eq.trans h.map_eq⟩

theorem SoundOver.of_met (h : s.before.SoundOver map) (hmet : s.Met) : s.after.SoundOver map :=
  ⟨hmet.sound h.sound, hmet.map_eq.trans h.map_eq⟩

end Writer

end Cartridge
