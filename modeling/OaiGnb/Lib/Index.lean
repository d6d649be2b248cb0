import Mathlib.Tactic.Linarith

/-!
# Index types

The numerals of `Fin n` need `NeZero n`.  The instances for the sizes of the model's arrays have
names, so that a numeral is the same term in every module.
-/

namespace OaiGnb

instance (priority := high) neZeroFour : NeZero 4 := ⟨Nat.succ_ne_zero 3⟩

instance (priority := high) neZeroSix : NeZero 6 := ⟨Nat.succ_ne_zero 5⟩

instance (priority := high) neZeroEight : NeZero 8 := ⟨Nat.succ_ne_zero 7⟩

end OaiGnb
