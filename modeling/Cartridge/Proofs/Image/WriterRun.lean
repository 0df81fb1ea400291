import Cartridge.Proofs.Image.AllocatorRun
import Cartridge.Proofs.Image.Reading

/-!
# Runs of a writer

A run is any sequence of requests, refused ones included.  What a request has answered is taken from
the answers alone: the data with its address (`Writer.served`), the exported symbols
(`Writer.exported`) and the tables (`Writer.tabled`).

Main statements: what has been answered stays where it is, whatever follows (`holds_of_mem_served`),
and what is exported is what the answers say, in their order (`symbols_run`, `tables_run`,
`constants_run`).
-/

namespace Cartridge

namespace Writer

open Allocator (Placement)

/-! ## Answers -/

/-- The name that a request exports its address under. -/
def Request.name? : Request → Option String
  | data _ => none
  | dataNotNull _ => none
  | named name _ => some name
  | namedNotNull name _ => some name
  | fixed name _ _ => some name
  | table name _ => some name
  | constant _ _ => none

/-- The constants that a request declares. -/
def Request.declared : Request → List (String × Int)
  | constant name value => [(name, value)]
  | _ => []

/-- The items of a table that get an address, up to the first that cannot be placed. -/
def servedItems (w : Writer) : List Bytes → List Placement
  | [] => []
  | item :: items =>
    match w.add item with
    | (.error _, _) => []
    | (.ok address, w') => ⟨address, item⟩ :: servedItems w' items

/-- The items that a request places before its own data. -/
def itemsOf (w : Writer) : Request → List Placement
  | .table _ items => w.servedItems items
  | _ => []

/-- The data that the address in an answer is for; a table is the addresses of its items. -/
def contentsOf (w : Writer) : Request → Bytes
  | .data bytes => bytes
  | .dataNotNull bytes => bytes
  | .named _ bytes => bytes
  | .namedNotNull _ bytes => bytes
  | .fixed _ _ bytes => bytes
  | .table _ items => tableBytes ((w.servedItems items).map Placement.address)
  | .constant _ _ => []

/-- The address that a request is answered with. -/
def addressOf? (w : Writer) (r : Request) : Option Nat := (w.perform r).1.toOption.join

/-- All data that has got an address in a request. -/
def served (w : Writer) (r : Request) : List Placement :=
  w.itemsOf r ++ (w.addressOf? r).toList.map fun address => ⟨address, w.contentsOf r⟩

/-- The symbol that a request exports. -/
def exported (w : Writer) (r : Request) : List (String × Nat) :=
  r.name?.toList.zip (w.addressOf? r).toList

/-- The table that a request makes, with the number of its items. -/
def tabled (w : Writer) (r : Request) : List (String × Nat) :=
  match r with
  | .table name items => (w.addressOf? r).toList.map fun _ => (name, items.length)
  | _ => []

/-- The writer behind requests that follow each other. -/
def run (w : Writer) (rs : List Request) : Writer := rs.foldl (fun w r => (w.perform r).2) w

/-- What is collected from the requests of a run, in their order. -/
def collect {α : Type} (f : Writer → Request → List α) (w : Writer) : List Request → List α
  | [] => []
  | r :: rs => f w r ++ collect f (w.perform r).2 rs

/-! ## One request -/

/-- The banks are only appended to, and the writer stays sound; unlike in `Keeps`, a content may get
another address. -/
structure Grows (w w' : Writer) : Prop where
  sound : w.Sound → w'.Sound
  map_eq : w'.map = w.map
  extended : w.allocator.Extends w'.allocator

/-- What an answer about data that is shared has done. -/
structure Shares (w : Writer) (data : Bytes) (answer : Answer Nat) : Prop where
  grows : w.Grows answer.2
  same : w.SameExports answer.2
  known : ∀ address, answer.1 = .ok address → answer.2.address? data = some address

/-- What a request has done. -/
structure Performs (w : Writer) (r : Request) (w' : Writer) : Prop where
  grows : w.Grows w'
  constants_eq : w'.constants = w.constants ++ r.declared
  symbols_eq : w'.symbols = w.symbols ++ w.exported r
  tables_eq : w'.tables = w.tables ++ w.tabled r
  holds : w.Sound → ∀ p ∈ w.served r, w'.allocator.Holds p.address p.data

section Step

variable {w w' w'' : Writer} {manner : Manner} {name : String} {data : Bytes} {address : Nat}
  {a : Allocator} {items : List Bytes} {r : Request} {rs : List Request}

theorem Keeps.grows (h : w.Keeps w') : w.Grows w' := ⟨h.sound, h.map_eq, h.extended⟩

theorem Grows.refl (w : Writer) : w.Grows w := (Keeps.refl w).grows

theorem Grows.trans (h : w.Grows w') (h' : w'.Grows w'') : w.Grows w'' :=
  ⟨h'.sound ∘ h.sound, h'.map_eq.trans h.map_eq, h.extended.trans h'.extended⟩

theorem SameExports.trans (h : w.SameExports w') (h' : w'.SameExports w'') : w.SameExports w'' :=
  ⟨h'.1.trans h.1, h'.2.1.trans h.2.1, h'.2.2.trans h.2.2⟩

/-- The latest address of a content counts, so a record is sound whatever was known before. -/
theorem grows_record (hm : w.allocator.Meets a address data) :
    w.Grows (w.record manner data address a) :=
  ⟨fun hs => hs.of_recorded hm rfl address?_record, rfl, hm.extended⟩

theorem SameExports.refl (w : Writer) : w.SameExports w := ⟨rfl, rfl, rfl⟩

theorem shares_refused (w : Writer) (data : Bytes) (e : PlacementError) :
    w.Shares data (.error e, w) :=
  ⟨.refl w, .refl w, fun _ h => absurd h (by simp)⟩

theorem shares_met (hg : w.Grows w') (hs : w.SameExports w')
    (hknown : w'.address? data = some address) : w.Shares data (.ok address, w') := by
  refine ⟨hg, hs, fun found h => ?_⟩
  obtain rfl := Except.ok.inj h
  exact hknown

theorem shares_reused (hknown : w.address? data = some address) (event : WriterEvent) :
    w.Shares data (.ok address, w.note event) := by
  have hkeeps : w.Keeps (w.note event) := keeps_of_eq rfl rfl rfl
  exact shares_met hkeeps.grows ⟨rfl, rfl, rfl⟩ hknown

/-- Data that an allocator has placed is shared from then on. -/
theorem shares_record (hm : w.allocator.Meets a address data) :
    w.Shares data (.ok address, w.record manner data address a) := by
  refine shares_met (grows_record hm) ⟨rfl, rfl, rfl⟩ ?_
  rw [address?_record, if_pos (beq_self_eq_true data)]

theorem shares_add (w : Writer) (data : Bytes) : w.Shares data (w.add data) := by
  unfold add
  cases hknown : w.address? data with
  | some address => exact shares_reused hknown _
  | none =>
    simp only [place]
    rcases h : w.allocator.add data with ⟨e | address, a⟩
    · obtain rfl := Allocator.eq_of_add_error h
      exact shares_refused w data e
    · exact shares_record (Allocator.appends_of_add h).meets

theorem shares_placeNotNull (w : Writer) (data : Bytes) :
    w.Shares data (w.placeNotNull data) := by
  unfold placeNotNull
  rcases h : w.allocator.addNotNull data with ⟨e | address, a⟩
  · obtain rfl := Allocator.eq_of_addNotNull_error h
    exact shares_refused w data e
  · exact shares_record (Allocator.appends_of_addNotNull h).meets

theorem shares_addNotNull (w : Writer) (data : Bytes) : w.Shares data (w.addNotNull data) := by
  unfold addNotNull
  cases hknown : w.address? data with
  | none => exact shares_placeNotNull w data
  | some address =>
    simp only
    split
    · exact shares_placeNotNull w data
    · exact shares_reused hknown _

theorem Shares.holds {answer : Answer Nat} (h : w.Shares data answer) (hs : w.Sound)
    (hok : answer.1 = .ok address) : answer.2.allocator.Holds address data :=
  (h.grows.sound hs).holds data address (h.known address hok)

/-- An export leaves everything but the symbols as it is. -/
theorem grows_named (name : String) (answer : Answer Nat) (hg : w.Grows answer.2) :
    w.Grows (named name answer).2 := by
  rcases answer with ⟨e | address, w'⟩
  · exact hg
  · have hkeeps : w'.Keeps (w'.addSymbol name address) := keeps_of_eq rfl rfl rfl
    exact hg.trans hkeeps.grows

theorem named_eq (name : String) (answer : Answer Nat) :
    (named name answer).1 = answer.1 ∧
      (named name answer).2.allocator = answer.2.allocator ∧
      (named name answer).2.constants = answer.2.constants ∧
      (named name answer).2.tables = answer.2.tables ∧
      (named name answer).2.symbols =
        answer.2.symbols ++ [name].zip answer.1.toOption.toList := by
  rcases answer with ⟨e | address, w'⟩
  · exact ⟨rfl, rfl, rfl, rfl, (List.append_nil _).symm⟩
  · exact ⟨rfl, rfl, rfl, rfl, rfl⟩

theorem performs_of_answer {answer : Answer Nat} (hr : w.perform r = perform.addressed answer)
    (hg : w.Grows answer.2) (hconstants : answer.2.constants = w.constants ++ r.declared)
    (hsymbols : answer.2.symbols = w.symbols ++ r.name?.toList.zip answer.1.toOption.toList)
    (htables : answer.2.tables = w.tables ++ w.tabled r)
    (hitems : w.Sound → ∀ p ∈ w.itemsOf r, answer.2.allocator.Holds p.address p.data)
    (hdata : w.Sound → ∀ address, answer.1 = .ok address →
      answer.2.allocator.Holds address (w.contentsOf r)) :
    w.Performs r (w.perform r).2 := by
  have haddress : w.addressOf? r = answer.1.toOption := by
    rw [addressOf?, hr]
    rcases answer with ⟨e | address, w'⟩
    · rfl
    · rfl
  rw [hr]
  refine ⟨hg, hconstants, ?_, htables, fun hs p hp => ?_⟩
  · rw [exported, haddress]
    exact hsymbols
  · rcases List.mem_append.mp hp with hp | hp
    · exact hitems hs p hp
    · rw [haddress] at hp
      obtain ⟨address, hmem, rfl⟩ := List.mem_map.mp hp
      refine hdata hs address ?_
      rcases answer with ⟨e | found, w'⟩
      · exact absurd hmem (by simp [Except.toOption])
      · simp only [Except.toOption, Option.toList_some, List.mem_singleton] at hmem
        rw [hmem]

theorem Shares.performs {answer : Answer Nat} (h : w.Shares data answer)
    (hr : w.perform r = perform.addressed answer) (hname : r.name? = none)
    (hdeclared : r.declared = []) (htabled : w.tabled r = []) (hitems : w.itemsOf r = [])
    (hcontents : w.contentsOf r = data) : w.Performs r (w.perform r).2 := by
  obtain ⟨hconstants, hsymbols, htables⟩ := h.same
  refine performs_of_answer hr h.grows ?_ ?_ ?_ (fun _ p hp => ?_) (fun hs address hok => ?_)
  · rw [hconstants, hdeclared, List.append_nil]
  · rw [hsymbols, hname]
    exact (List.append_nil _).symm
  · rw [htables, htabled, List.append_nil]
  · rw [hitems] at hp
    exact absurd hp List.not_mem_nil
  · rw [hcontents]
    exact h.holds hs hok

theorem Shares.performs_named {answer : Answer Nat} (h : w.Shares data answer)
    (hr : w.perform r = perform.addressed (named name answer)) (hname : r.name? = some name)
    (hdeclared : r.declared = []) (htabled : w.tabled r = []) (hitems : w.itemsOf r = [])
    (hcontents : w.contentsOf r = data) : w.Performs r (w.perform r).2 := by
  obtain ⟨hconstants, hsymbols, htables⟩ := h.same
  obtain ⟨hfst, ha, hc, ht, hs⟩ := named_eq name answer
  refine performs_of_answer hr (grows_named name answer h.grows) ?_ ?_ ?_ (fun _ p hp => ?_)
    (fun hsound address hok => ?_)
  · rw [hc, hconstants, hdeclared, List.append_nil]
  · rw [hs, hsymbols, hname, hfst]
    rfl
  · rw [ht, htables, htabled, List.append_nil]
  · rw [hitems] at hp
    exact absurd hp List.not_mem_nil
  · rw [ha, hcontents]
    exact h.holds hsound (hfst ▸ hok)

theorem eq_of_addFixed_error {e : PlacementError} {bank : Nat}
    (h : w.addFixed name bank data = (.error e, w')) : w' = w := by
  unfold addFixed at h
  split at h
  · exact (Prod.mk.inj h).2.symm
  · simp only at h
    split at h
    next hrefused =>
      obtain rfl := Allocator.eq_of_addFixed_error hrefused
      exact (Prod.mk.inj h).2.symm
    · exact absurd (Prod.mk.inj h).1 (by simp)

theorem address_of_addFixed {bank : Nat} (h : w.addFixed name bank data = (.ok address, w')) :
    address = w.map.bankAddress bank := by
  unfold addFixed at h
  split at h
  · exact absurd (Prod.mk.inj h).1 (by simp)
  · simp only at h
    split at h
    · exact absurd (Prod.mk.inj h).1 (by simp)
    · exact (Except.ok.inj (Prod.mk.inj h).1).symm

theorem performs_fixed (w : Writer) (name : String) (bank : Nat) (data : Bytes) :
    w.Performs (.fixed name bank data) (w.perform (.fixed name bank data)).2 := by
  rcases h : w.addFixed name bank data with ⟨e | address, w'⟩
  · obtain rfl := eq_of_addFixed_error h
    refine performs_of_answer (by rw [perform, h]) (.refl w') (List.append_nil _).symm
      (List.append_nil _).symm (List.append_nil _).symm
      (fun _ p hp => absurd hp List.not_mem_nil) (fun _ address hok => absurd hok (by simp))
  · obtain ⟨hkeeps, hholds, hconstants, hsymbols, htables⟩ := keeps_of_addFixed h
    obtain rfl := address_of_addFixed h
    refine performs_of_answer (by rw [perform, h]) hkeeps.grows
      (hconstants.trans (List.append_nil _).symm) hsymbols (htables.trans (List.append_nil _).symm)
      (fun _ p hp => absurd hp List.not_mem_nil) (fun _ address hok => ?_)
    obtain rfl := Except.ok.inj hok
    exact hholds

theorem addAll_cons {item : Bytes} (h : w.add item = (.ok address, w')) :
    w.addAll (item :: items) =
      ((w'.addAll items).1.map fun addresses => address :: addresses, (w'.addAll items).2) := by
  rw [addAll, h]
  simp only
  rcases w'.addAll items with ⟨e | addresses, w''⟩
  · rfl
  · rfl

/-- The items of a table get their addresses in order, up to the first that cannot be placed. -/
theorem grows_addAll (w : Writer) (items : List Bytes) :
    w.Grows (w.addAll items).2 ∧ w.SameExports (w.addAll items).2 ∧
      (∀ addresses, (w.addAll items).1 = .ok addresses →
        addresses = (w.servedItems items).map Placement.address) ∧
      (w.Sound → ∀ p ∈ w.servedItems items,
        (w.addAll items).2.allocator.Holds p.address p.data) := by
  induction items generalizing w with
  | nil =>
    refine ⟨.refl w, .refl w, fun addresses h => (Except.ok.inj h).symm, fun _ p hp => ?_⟩
    exact absurd hp List.not_mem_nil
  | cons item items ih =>
    have hshares := shares_add w item
    rw [servedItems]
    rcases h : w.add item with ⟨e | address, w₁⟩
    · rw [h] at hshares
      rw [addAll, h]
      exact ⟨hshares.grows, hshares.same, fun _ hok => absurd hok (by simp),
        fun _ p hp => absurd hp List.not_mem_nil⟩
    · rw [h] at hshares
      obtain ⟨hg, hsame, haddresses, hholds⟩ := ih w₁
      rw [addAll_cons h]
      refine ⟨hshares.grows.trans hg, hshares.same.trans hsame, fun addresses hok => ?_,
        fun hs p hp => ?_⟩
      · cases hrest : (w₁.addAll items).1 with
        | error e =>
          rw [hrest] at hok
          exact absurd hok (by simp [Except.map])
        | ok rest =>
          rw [hrest] at hok
          obtain rfl := Except.ok.inj hok
          rw [List.map_cons, haddresses rest hrest]
      · rcases List.mem_cons.mp hp with rfl | hp
        · exact (hshares.holds hs rfl).mono hg.extended
        · exact hholds (hshares.grows.sound hs) p hp

/-- What a table adds to the answer about its addresses. -/
def exportTable (name : String) (count : Nat) : Answer Nat → Answer Nat
  | (.ok address, w) =>
    (.ok address, { w with tables := w.tables ++ [(name, count)] }.note (.tabled name count))
  | (.error e, w) => (.error e, w)

theorem addTable_of_error (name : String) {e : PlacementError}
    (h : (w.addAll items).1 = .error e) :
    w.addTable name items = (.error e, (w.addAll items).2) := by
  rw [addTable]
  rcases hall : w.addAll items with ⟨e' | addresses, w'⟩
  · rw [hall] at h
    obtain rfl := Except.error.inj h
    rfl
  · rw [hall] at h
    exact absurd h (by simp)

theorem addTable_of_ok (name : String) {addresses : List Nat}
    (h : (w.addAll items).1 = .ok addresses) :
    w.addTable name items = exportTable name items.length
      (named name ((w.addAll items).2.add (tableBytes addresses))) := by
  rw [addTable]
  rcases hall : w.addAll items with ⟨e | found, w'⟩
  · rw [hall] at h
    exact absurd h (by simp)
  · rw [hall] at h
    obtain rfl := Except.ok.inj h
    simp only [addNamed]
    rcases named name (w'.add (tableBytes found)) with ⟨e | address, w''⟩
    · rfl
    · rfl

theorem grows_exportTable (name : String) (count : Nat) (answer : Answer Nat)
    (hg : w.Grows answer.2) : w.Grows (exportTable name count answer).2 := by
  rcases answer with ⟨e | address, w'⟩
  · exact hg
  · have hkeeps : w'.Keeps (exportTable name count (.ok address, w')).2 :=
      keeps_of_eq rfl rfl rfl
    exact hg.trans hkeeps.grows

theorem exportTable_eq (name : String) (count : Nat) (answer : Answer Nat) :
    (exportTable name count answer).1 = answer.1 ∧
      (exportTable name count answer).2.allocator = answer.2.allocator ∧
      (exportTable name count answer).2.constants = answer.2.constants ∧
      (exportTable name count answer).2.symbols = answer.2.symbols ∧
      (exportTable name count answer).2.tables =
        answer.2.tables ++ answer.1.toOption.toList.map fun _ => (name, count) := by
  rcases answer with ⟨e | address, w'⟩
  · exact ⟨rfl, rfl, rfl, rfl, (List.append_nil _).symm⟩
  · exact ⟨rfl, rfl, rfl, rfl, rfl⟩

theorem tabled_table (w : Writer) (name : String) (items : List Bytes) :
    w.tabled (.table name items) =
      (w.addTable name items).1.toOption.toList.map fun _ => (name, items.length) := by
  rw [tabled, addressOf?, perform]
  rcases w.addTable name items with ⟨e | address, w'⟩
  · rfl
  · rfl

theorem performs_table (w : Writer) (name : String) (items : List Bytes) :
    w.Performs (.table name items) (w.perform (.table name items)).2 := by
  obtain ⟨hg, ⟨hconstants, hsymbols, htables⟩, haddresses, hholds⟩ := grows_addAll w items
  cases hall : (w.addAll items).1 with
  | error e =>
    have htable := addTable_of_error name hall
    refine performs_of_answer rfl ?_ ?_ ?_ ?_ (fun hs p hp => ?_) (fun _ address hok => ?_)
    · rw [htable]
      exact hg
    · rw [htable]
      exact hconstants.trans (List.append_nil _).symm
    · rw [htable]
      exact hsymbols.trans (List.append_nil _).symm
    · rw [tabled_table, htable]
      exact htables.trans (List.append_nil _).symm
    · rw [htable]
      exact hholds hs p hp
    · rw [htable] at hok
      exact absurd hok (by simp)
  | ok addresses =>
    have htable := addTable_of_ok name hall
    obtain rfl := haddresses addresses hall
    -- the table itself is data like its items
    have hshares := shares_add (w.addAll items).2 (w.contentsOf (.table name items))
    obtain ⟨hc, hs, ht⟩ := hshares.same
    obtain ⟨hfst, ha', hc', ht', hs'⟩ := named_eq name
      ((w.addAll items).2.add (w.contentsOf (.table name items)))
    obtain ⟨hfst', ha'', hc'', hs'', ht''⟩ := exportTable_eq name items.length
      (named name ((w.addAll items).2.add (w.contentsOf (.table name items))))
    have hgrows := grows_exportTable name items.length _ (grows_named name _ hshares.grows)
    change w.addTable name items = exportTable name items.length
      (named name ((w.addAll items).2.add (w.contentsOf (.table name items)))) at htable
    rw [← htable] at hfst' ha'' hc'' hs'' ht'' hgrows
    refine performs_of_answer rfl (hg.trans hgrows) ?_ ?_ ?_ (fun hsound p hp => ?_)
      (fun hsound address hok => ?_)
    · rw [hc'', hc', hc, hconstants]
      exact (List.append_nil _).symm
    · rw [hs'', hs', hs, hsymbols, hfst', hfst]
      rfl
    · rw [tabled_table, ht'', ht', ht, htables, hfst']
    · exact (hholds hsound p hp).mono hgrows.extended
    · rw [ha'', ha']
      exact hshares.holds (hg.sound hsound) (hfst ▸ hfst' ▸ hok)

/-- Every request only adds to what is there, and answers about what it adds. -/
theorem performs (w : Writer) (r : Request) : w.Performs r (w.perform r).2 := by
  cases r with
  | data bytes => exact (shares_add w bytes).performs rfl rfl rfl rfl rfl rfl
  | dataNotNull bytes => exact (shares_addNotNull w bytes).performs rfl rfl rfl rfl rfl rfl
  | named name bytes => exact (shares_add w bytes).performs_named rfl rfl rfl rfl rfl rfl
  | namedNotNull name bytes =>
    exact (shares_addNotNull w bytes).performs_named rfl rfl rfl rfl rfl rfl
  | fixed name bank bytes => exact performs_fixed w name bank bytes
  | table name items => exact performs_table w name items
  | constant name value =>
    have hkeeps : w.Keeps (w.addConstant name value) := keeps_of_eq rfl rfl rfl
    exact ⟨hkeeps.grows, rfl, (List.append_nil _).symm, (List.append_nil _).symm,
      fun _ p hp => absurd hp List.not_mem_nil⟩

end Step

/-! ## Runs -/

section Run

variable {w : Writer} {rs : List Request} {p : Placement}

theorem grows_run (w : Writer) (rs : List Request) : w.Grows (w.run rs) := by
  induction rs generalizing w with
  | nil => exact .refl w
  | cons r rs ih => exact (performs w r).grows.trans (ih (w.perform r).2)

/-- A list of the writer that every request appends to holds all that a run has appended. -/
theorem run_eq_append_collect {α : Type} {field : Writer → List α}
    {f : Writer → Request → List α} (h : ∀ w r, field (w.perform r).2 = field w ++ f w r)
    (w : Writer) (rs : List Request) : field (w.run rs) = field w ++ w.collect f rs := by
  induction rs generalizing w with
  | nil => exact (List.append_nil _).symm
  | cons r rs ih =>
    have hrest : field (w.run (r :: rs)) = _ := ih (w.perform r).2
    rw [hrest, h, collect, List.append_assoc]

theorem constants_run (w : Writer) (rs : List Request) :
    (w.run rs).constants = w.constants ++ w.collect (fun _ r => r.declared) rs :=
  run_eq_append_collect (fun w r => (performs w r).constants_eq) w rs

theorem symbols_run (w : Writer) (rs : List Request) :
    (w.run rs).symbols = w.symbols ++ w.collect exported rs :=
  run_eq_append_collect (fun w r => (performs w r).symbols_eq) w rs

theorem tables_run (w : Writer) (rs : List Request) :
    (w.run rs).tables = w.tables ++ w.collect tabled rs :=
  run_eq_append_collect (fun w r => (performs w r).tables_eq) w rs

/-- Whatever has got an address in a run is held there behind it. -/
theorem holds_of_mem_served (hs : w.Sound) (hp : p ∈ w.collect served rs) :
    (w.run rs).allocator.Holds p.address p.data := by
  induction rs generalizing w with
  | nil => exact absurd hp List.not_mem_nil
  | cons r rs ih =>
    have hperforms := performs w r
    rcases List.mem_append.mp hp with hp | hp
    · exact (hperforms.holds hs p hp).mono (grows_run (w.perform r).2 rs).extended
    · exact ih (hperforms.grows.sound hs) hp

end Run

end Writer

end Cartridge
