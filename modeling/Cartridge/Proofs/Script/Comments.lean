import Cartridge.Proofs.Script.Listing

/-!
# Comments

A comment has no code, and what is around comments is compiled as if they were not there
(`codeOf_eraseComments`), with one exception: an else branch of nothing but comments is still an
else branch, and the first branch ends with a jump over it.

Main statement: `compile_eraseComments_iff`, comments can be erased without a trace if and only if
there is no such branch, and each one costs three bytes.
-/

namespace Cartridge.Script

section Erasing

def Node.isComment : Node → Bool
  | .comment _ => true
  | _ => false

mutual

/-- What is left of a node without comments. -/
def Node.erased : Node → List Node
  | .statement s => [.statement s]
  | .choice c t e => [.choice c (eraseComments t) (eraseComments e)]
  | .loop c b => [.loop c (eraseComments b)]
  | .comment _ => []

/-- The nodes without the comments among them and inside them. -/
def eraseComments : List Node → List Node
  | [] => []
  | n :: ns => n.erased ++ eraseComments ns

end

/-- A branch that has nodes, all of them comments. -/
def isBare (ns : List Node) : Bool := !ns.isEmpty && ns.all Node.isComment

mutual

/-- The number of bare else branches in a node. -/
def Node.bareElses : Node → Nat
  | .statement _ => 0
  | .choice _ t e => bareElsesOf t + bareElsesOf e + (isBare e).toNat
  | .loop _ b => bareElsesOf b
  | .comment _ => 0

def bareElsesOf : List Node → Nat
  | [] => 0
  | n :: ns => n.bareElses + bareElsesOf ns

end

theorem eraseComments_eq_nil_iff {ns : List Node} :
    eraseComments ns = [] ↔ ns.all Node.isComment = true := by
  induction ns with
  | nil => simp [eraseComments]
  | cons n ns ih => cases n <;> simp [eraseComments, Node.erased, Node.isComment, ih]

/-- Erasing leaves an else branch empty that was not, or it does not. -/
theorem eraseComments_cases (e : List Node) :
    (e = [] ∧ isBare e = false) ∨
      (e ≠ [] ∧ eraseComments e = [] ∧ isBare e = true) ∨
      (e ≠ [] ∧ eraseComments e ≠ [] ∧ isBare e = false) := by
  cases e with
  | nil => exact .inl ⟨rfl, rfl⟩
  | cons n e =>
    refine .inr ?_
    by_cases h : eraseComments (n :: e) = []
    · have hall := eraseComments_eq_nil_iff.mp h
      exact .inl ⟨List.cons_ne_nil n e, h, by rw [isBare, hall]; rfl⟩
    · have hall := mt eraseComments_eq_nil_iff.mpr h
      rw [Bool.not_eq_true] at hall
      exact .inr ⟨List.cons_ne_nil n e, h, by rw [isBare, hall, Bool.and_false]⟩

end Erasing

/-! ## Sizes -/

section Sizes

variable {t : InstructionTable}

theorem Node.size_choice_of_ne_nil {c : Condition} {a e : List Node} (h : e ≠ []) :
    (Node.choice c a e).size t = c.size + codeSize t a + (3 + codeSize t e) := by
  cases e with
  | nil => exact absurd rfl h
  | cons n e => rw [Node.size]

/-- Every bare else branch has the jump over it, and no other code. -/
theorem codeSize_eq_eraseComments (ns : List Node) :
    codeSize t ns = codeSize t (eraseComments ns) + 3 * bareElsesOf ns := by
  induction ns using nodes_induction with
  | nil => rfl
  | statement s ns ih =>
    show (Node.statement s).size t + codeSize t ns =
      (Node.statement s).size t + codeSize t (eraseComments ns) + 3 * (0 + bareElsesOf ns)
    omega
  | choice c a e ns iha ihe ih =>
    show (Node.choice c a e).size t + codeSize t ns =
      (Node.choice c (eraseComments a) (eraseComments e)).size t + codeSize t (eraseComments ns) +
        3 * (bareElsesOf a + bareElsesOf e + (isBare e).toNat + bareElsesOf ns)
    rcases eraseComments_cases e with ⟨rfl, hb⟩ | ⟨he, hnil, hb⟩ | ⟨he, hne, hb⟩
    · simp only [eraseComments, Node.size, hb, Bool.toNat_false, bareElsesOf]
      omega
    · rw [Node.size_choice_of_ne_nil he, hnil, hb, Node.size]
      rw [hnil, codeSize] at ihe
      simp only [Bool.toNat_true]
      omega
    · rw [Node.size_choice_of_ne_nil he, Node.size_choice_of_ne_nil hne, hb, Bool.toNat_false]
      omega
  | loop c b ns ihb ih =>
    show (Node.loop c b).size t + codeSize t ns =
      (Node.loop c (eraseComments b)).size t + codeSize t (eraseComments ns) +
        3 * (bareElsesOf b + bareElsesOf ns)
    rw [Node.size, Node.size]
    omega
  | comment text ns ih =>
    show 0 + codeSize t ns = codeSize t (eraseComments ns) + 3 * (0 + bareElsesOf ns)
    omega

end Sizes

/-! ## Code -/

section Code

variable {ctx : Context}

/-- The code of a choice that has an else branch. -/
theorem Node.code_choice_of_ne_nil {c : Condition} {t e : List Node} (h : e ≠ []) (origin : Nat) :
    (Node.choice c t e).code ctx origin =
      let thenStart := origin + (c.code ctx).length + 2
      let elseStart := thenStart + (codeOf ctx thenStart t).length + 3
      c.code ctx ++ word16 elseStart ++ codeOf ctx thenStart t ++
        jumpTo (elseStart + (codeOf ctx elseStart e).length) ++ codeOf ctx elseStart e := by
  cases e with
  | nil => exact absurd rfl h
  | cons n e => rw [Node.code]

theorem codeOf_cons_congr {n n' : Node} {ns ns' : List Node} {origin : Nat}
    (h : n.code ctx origin = n'.code ctx origin)
    (hs : ∀ origin, codeOf ctx origin ns = codeOf ctx origin ns') :
    codeOf ctx origin (n :: ns) = codeOf ctx origin (n' :: ns') := by
  rw [codeOf, codeOf, h, hs]

/-- Without bare else branches, comments do not show in the code. -/
theorem codeOf_eraseComments {ns : List Node} (h : bareElsesOf ns = 0) (origin : Nat) :
    codeOf ctx origin (eraseComments ns) = codeOf ctx origin ns := by
  induction ns using nodes_induction generalizing origin with
  | nil => rfl
  | statement s ns ih =>
    have hns : 0 + bareElsesOf ns = 0 := h
    exact codeOf_cons_congr rfl fun origin => ih (by omega) origin
  | choice c t e ns iht ihe ih =>
    have hsum : bareElsesOf t + bareElsesOf e + (isBare e).toNat + bareElsesOf ns = 0 := h
    have iht := iht (by omega)
    have ihe := ihe (by omega)
    refine codeOf_cons_congr ?_ fun origin => ih (by omega) origin
    rcases eraseComments_cases e with ⟨rfl, -⟩ | ⟨-, -, hb⟩ | ⟨he, hne, -⟩
    · rw [eraseComments, Node.code, Node.code, iht]
    · rw [hb, Bool.toNat_true] at hsum
      omega
    · rw [Node.code_choice_of_ne_nil he, Node.code_choice_of_ne_nil hne]
      simp only [iht, ihe]
  | loop c b ns ihb ih =>
    have hsum : bareElsesOf b + bareElsesOf ns = 0 := h
    refine codeOf_cons_congr ?_ fun origin => ih (by omega) origin
    rw [Node.code, Node.code, ihb (by omega)]
  | comment text ns ih =>
    have hns : 0 + bareElsesOf ns = 0 := h
    show codeOf ctx origin (eraseComments ns) = [] ++ codeOf ctx (origin + 0) ns
    rw [ih (by omega), List.nil_append, Nat.add_zero]

theorem length_bytecode_eraseComments (nodes : List Node) :
    (bytecode ctx nodes).length =
      (bytecode ctx (eraseComments nodes)).length + 3 * bareElsesOf nodes := by
  have hsize := @codeSize_eq_eraseComments ctx.instructions nodes
  rw [length_bytecode, length_bytecode]
  omega

/-- Outcomes of scripts of different lengths differ. -/
theorem length_eq_of_result_compile_eq {name : String} {xs ys : List Node}
    (h : (compile ctx name xs).result = (compile ctx name ys).result) :
    (bytecode ctx xs).length = (bytecode ctx ys).length := by
  rw [result_compile, result_compile] at h
  split at h
  · split at h
    · simp only [Except.error.injEq, Failure.recordTooLarge.injEq] at h
      exact h.2.2.1
    · exact absurd h (by simp)
  · split at h
    · exact absurd h (by simp)
    · rw [Except.ok.inj h]

/-- **Comments are compiled to nothing** if and only if no else branch holds nothing but comments;
every such branch costs three bytes. -/
theorem compile_eraseComments_iff (ctx : Context) (name : String) (nodes : List Node) :
    (bytecode ctx nodes).length =
        (bytecode ctx (eraseComments nodes)).length + 3 * bareElsesOf nodes ∧
      ((compile ctx name (eraseComments nodes)).result = (compile ctx name nodes).result ↔
        bareElsesOf nodes = 0) := by
  refine ⟨length_bytecode_eraseComments nodes, fun h => ?_, fun h => ?_⟩
  · have hlength := length_eq_of_result_compile_eq h
    have hadd := @length_bytecode_eraseComments ctx nodes
    omega
  · have hcode : bytecode ctx (eraseComments nodes) = bytecode ctx nodes := by
      rw [bytecode, bytecode, codeOf_eraseComments h]
    rw [result_compile, result_compile, hcode]

/-- An else branch with a comment in it. -/
def bareElseNodes : List Node :=
  [.choice ⟨.flag, "door", .isSet, none⟩ [] [.comment "nobody is at home"]]

/-- The branch over an empty else branch leads to a jump, which leads to the end. -/
theorem not_eraseComments_bareElseNodes :
    (compile sampleContext "startup" bareElseNodes).result = .ok [8, 0, 7, 0, 1, 7, 0, 0] ∧
      (compile sampleContext "startup" (eraseComments bareElseNodes)).result =
        .ok [8, 0, 4, 0, 0] :=
  ⟨by rfl, by rfl⟩

end Code

end Cartridge.Script
