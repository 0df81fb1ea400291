/-!
# Totals

The sum of a list of numbers, for sizes, counts and depths that add up.
-/

namespace Cartridge

def total (ns : List Nat) : Nat := ns.foldr (· + ·) 0

@[simp] theorem total_nil : total [] = 0 := rfl

@[simp] theorem total_cons (n : Nat) (ns : List Nat) : total (n :: ns) = n + total ns := rfl

@[simp] theorem total_append (ms ns : List Nat) : total (ms ++ ns) = total ms + total ns := by
  induction ms with
  | nil => simp
  | cons m ms ih =>
    rw [List.cons_append, total_cons, total_cons, ih]
    omega

end Cartridge
