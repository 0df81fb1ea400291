import Cartridge.Noted
import Cartridge.Proofs.Lists

/-!
# Reasoning about outcomes

`Outcome.Accepts x a`: the outcome `x` is the value `a`, and it reports no error on the way to it.
Both the value of a computation and its acceptance are read step by step: through a bind
(`result_bind_eq_ok_iff`, `accepts_bind_iff`), through notes (`accepts_lift_iff`) and along a list
(`result_mapM_eq_ok_iff`, `accepts_mapM_iff`).  `Outcome.Raises P x`: the outcome fails only with
failures of `P`.
-/

namespace Cartridge

instance : LawfulMonad Noted := LawfulMonad.mk' Noted
  (by intro α x; cases x; simp [Functor.map])
  (by intro α β a f; simp [Bind.bind, Pure.pure])
  (by intro α β γ x f g; simp [Bind.bind, List.append_assoc])

namespace Outcome

variable {α β : Type}

/-- The outcome is the value `a`, and no diagnostic that it leaves is an error. -/
def Accepts (x : Outcome α) (a : α) : Prop :=
  x.result = .ok a ∧ x.report.hasErrors = false

/-! ### The value of a computation -/

@[simp] theorem result_pure (a : α) : (pure a : Outcome α).result = .ok a := rfl

@[simp] theorem result_throw (f : Failure) : (throw f : Outcome α).result = .error f := rfl

@[simp] theorem result_lift (x : Noted α) : (liftM x : Outcome α).result = .ok x.value := rfl

@[simp] theorem throw_bind (f : Failure) (k : α → Outcome β) :
    (throw f >>= k : Outcome β) = throw f := rfl

theorem result_bind (x : Outcome α) (f : α → Outcome β) :
    (x >>= f).result = x.result.bind fun a => (f a).result := by
  change (ExceptT.run (x >>= f)).value = (ExceptT.run x).value.bind _
  rw [ExceptT.run_bind, Noted.value_bind]
  cases (ExceptT.run x).value with
  | error e => rfl
  | ok a => rfl

theorem result_check {c : Prop} [Decidable c] {f : Failure} {k : Unit → Outcome α} :
    (if c then throw f >>= k else k ()).result = if c then .error f else (k ()).result := by
  by_cases hc : c
  · rw [if_pos hc, if_pos hc, throw_bind, result_throw]
  · rw [if_neg hc, if_neg hc]

theorem result_bind_eq_ok_iff {x : Outcome α} {f : α → Outcome β} {b : β} :
    (x >>= f).result = .ok b ↔ ∃ a, x.result = .ok a ∧ (f a).result = .ok b := by
  rw [result_bind]
  cases x.result with
  | error e => simp [Except.bind]
  | ok a => simp [Except.bind]

theorem exists_result_eq_ok {x : Outcome α} (h : x.result.isOk = true) :
    ∃ a, x.result = .ok a := by
  cases hx : x.result with
  | ok a => exact ⟨a, rfl⟩
  | error f =>
    rw [hx] at h
    exact absurd h Bool.false_ne_true

/-- A traversal has a value if every item has one. -/
theorem result_mapM_eq_ok_iff {f : α → Outcome β} {as : List α} {bs : List β} :
    (as.mapM f).result = .ok bs ↔ List.Forall₂ (fun a b => (f a).result = .ok b) as bs := by
  induction as generalizing bs with
  | nil =>
    rw [List.mapM_nil, result_pure, Except.ok.injEq, List.forall₂_nil_left_iff]
    exact eq_comm
  | cons a as ih =>
    rw [List.mapM_cons, result_bind_eq_ok_iff, List.forall₂_cons_left_iff]
    constructor
    · rintro ⟨b, hb, h⟩
      obtain ⟨bs', hbs, h⟩ := result_bind_eq_ok_iff.mp h
      exact ⟨b, bs', hb, ih.mp hbs, (Except.ok.inj h).symm⟩
    · rintro ⟨b, bs', hb, hbs, rfl⟩
      exact ⟨b, hb, result_bind_eq_ok_iff.mpr ⟨bs', ih.mpr hbs, rfl⟩⟩

/-- A traversal that fails does so at one of its items. -/
theorem exists_of_result_mapM_error {f : α → Outcome β} {as : List α} {e : Failure}
    (h : (as.mapM f).result = .error e) : ∃ a ∈ as, (f a).result = .error e := by
  induction as with
  | nil => exact absurd h (by simp)
  | cons a as ih =>
    rw [List.mapM_cons, result_bind] at h
    cases ha : (f a).result with
    | error e' =>
      rw [ha] at h
      obtain rfl : e' = e := Except.error.inj h
      exact ⟨a, List.mem_cons_self, ha⟩
    | ok b =>
      rw [ha, Except.bind, result_bind] at h
      cases has : (as.mapM f).result with
      | error e' =>
        rw [has] at h
        obtain rfl : e' = e := Except.error.inj h
        obtain ⟨a', hmem, he⟩ := ih has
        exact ⟨a', List.mem_cons_of_mem a hmem, he⟩
      | ok bs =>
        rw [has] at h
        exact absurd h (by simp [Except.bind])

/-! ### The diagnostics of a computation -/

@[simp] theorem report_pure (a : α) : (pure a : Outcome α).report = [] := rfl

@[simp] theorem report_throw (f : Failure) : (throw f : Outcome α).report = [] := rfl

@[simp] theorem report_lift (x : Noted α) : (liftM x : Outcome α).report = x.report := by
  change x.report ++ [] = x.report
  rw [List.append_nil]

theorem report_bind_of_ok {x : Outcome α} {f : α → Outcome β} {a : α} (h : x.result = .ok a) :
    (x >>= f).report = x.report ++ (f a).report := by
  change (ExceptT.run (x >>= f)).report = (ExceptT.run x).report ++ _
  have hv : (ExceptT.run x).value = .ok a := h
  rw [ExceptT.run_bind, Noted.report_bind, hv]
  rfl

/-! ### Acceptance -/

theorem accepts_pure_iff {a b : α} : (pure a : Outcome α).Accepts b ↔ a = b := by
  simp [Accepts, Report.hasErrors]

theorem not_accepts_throw {f : Failure} {a : α} : ¬ (throw f : Outcome α).Accepts a := by
  simp [Accepts]

theorem accepts_lift_iff {x : Noted α} {a : α} :
    (liftM x : Outcome α).Accepts a ↔ x.value = a ∧ x.report.hasErrors = false := by
  simp [Accepts]

theorem accepts_bind_iff {x : Outcome α} {f : α → Outcome β} {b : β} :
    (x >>= f).Accepts b ↔ ∃ a, x.Accepts a ∧ (f a).Accepts b := by
  unfold Accepts
  constructor
  · rintro ⟨hr, he⟩
    obtain ⟨a, ha, hb⟩ := result_bind_eq_ok_iff.mp hr
    rw [report_bind_of_ok ha, Report.hasErrors_append, Bool.or_eq_false_iff] at he
    exact ⟨a, ⟨ha, he.1⟩, hb, he.2⟩
  · rintro ⟨a, ⟨ha, hx⟩, hb, hf⟩
    refine ⟨result_bind_eq_ok_iff.mpr ⟨a, ha, hb⟩, ?_⟩
    rw [report_bind_of_ok ha, Report.hasErrors_append, hx, hf]
    rfl

/-- A traversal accepts the values that its items accept. -/
theorem accepts_mapM_iff {f : α → Outcome β} {as : List α} {bs : List β} :
    (as.mapM f).Accepts bs ↔ List.Forall₂ (fun a b => (f a).Accepts b) as bs := by
  induction as generalizing bs with
  | nil =>
    rw [List.mapM_nil, accepts_pure_iff, List.forall₂_nil_left_iff]
    exact eq_comm
  | cons a as ih =>
    rw [List.mapM_cons, accepts_bind_iff, List.forall₂_cons_left_iff]
    constructor
    · rintro ⟨b, hb, h⟩
      obtain ⟨bs', hbs, h⟩ := accepts_bind_iff.mp h
      exact ⟨b, bs', hb, ih.mp hbs, (accepts_pure_iff.mp h).symm⟩
    · rintro ⟨b, bs', hb, hbs, rfl⟩
      exact ⟨b, hb, accepts_bind_iff.mpr ⟨bs', ih.mpr hbs, accepts_pure_iff.mpr rfl⟩⟩

theorem accepts_iff_of_result {x : Outcome α} {a : α} (h : x.result = .ok a) :
    x.Accepts a ↔ x.report.hasErrors = false :=
  and_iff_right h

/-- A traversal that has a value is accepted if no item reports an error. -/
theorem accepts_mapM_iff_of_result {f : α → Outcome β} {as : List α} {bs : List β}
    (h : (as.mapM f).result = .ok bs) :
    (as.mapM f).Accepts bs ↔ ∀ a ∈ as, (f a).report.hasErrors = false := by
  rw [result_mapM_eq_ok_iff] at h
  rw [accepts_mapM_iff]
  exact forall₂_iff_forall h fun _ _ hab => accepts_iff_of_result hab

/-! ### Failures -/

/-- Every failure of the computation is one of `P`. -/
def Raises (P : Failure → Prop) (x : Outcome α) : Prop := ∀ f, x.result = .error f → P f

section Raises

variable {P : Failure → Prop}

theorem raises_pure (a : α) : (pure a : Outcome α).Raises P := by
  intro f hf
  exact absurd hf (by simp)

theorem raises_lift (x : Noted α) : (liftM x : Outcome α).Raises P := by
  intro f hf
  exact absurd hf (by simp)

theorem raises_throw {f : Failure} (h : P f) : (throw f : Outcome α).Raises P := by
  intro f' hf
  rw [result_throw, Except.error.injEq] at hf
  rw [← hf]
  exact h

theorem Raises.bind {x : Outcome α} {f : α → Outcome β} (hx : x.Raises P)
    (hf : ∀ a, x.result = .ok a → (f a).Raises P) : (x >>= f).Raises P := by
  intro e he
  rw [result_bind] at he
  cases ha : x.result with
  | error e' =>
    rw [ha] at he
    rw [← Except.error.inj he]
    exact hx e' ha
  | ok a =>
    rw [ha] at he
    exact hf a ha e he

theorem raises_check {c : Prop} [Decidable c] {f : Failure} {k : Unit → Outcome α} (h : P f)
    (hk : (k ()).Raises P) : (if c then throw f >>= k else k ()).Raises P := by
  by_cases hc : c
  · rw [if_pos hc, throw_bind]
    exact raises_throw h
  · rw [if_neg hc]
    exact hk

theorem raises_mapM {f : α → Outcome β} {as : List α} (h : ∀ a, (f a).Raises P) :
    (as.mapM f).Raises P := by
  intro e he
  obtain ⟨a, -, ha⟩ := exists_of_result_mapM_error he
  exact h a e ha

theorem raises_forIn {as : List α} {b : β} {f : α → β → Outcome (ForInStep β)}
    (h : ∀ a b, (f a b).Raises P) : (forIn as b f).Raises P := by
  induction as generalizing b with
  | nil => exact raises_pure b
  | cons a as ih =>
    rw [List.forIn_cons]
    refine (h a b).bind fun step _ => ?_
    cases step with
    | done b => exact raises_pure b
    | yield b => exact ih

end Raises

end Outcome

end Cartridge
