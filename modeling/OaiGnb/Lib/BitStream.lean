import OaiGnb.Lib.WordFields

/-!
# Streams of bits

A number as a stream of bits, the lowest bit first.  Fields follow each other in the stream, and of
each field the highest bit comes first.

* `holdsFields_of_reverse`: a word of fields from the top downwards, reversed, is such a stream.
* `Stream.push`: a field that was reversed by itself is appended.
-/

namespace OaiGnb.BitStream

open WordFields

/-! ### Fields of a stream -/

/-- From `pos` on the stream holds the `w` bits of `v`, the highest one first. -/
def HoldsField (x pos w v : ℕ) : Prop :=
  ∀ i < w, x.testBit (pos + i) = v.testBit (w - 1 - i)

/-- The fields, each given by its width and its value, follow each other from `pos` on. -/
def HoldsFields (x : ℕ) : ℕ → List (ℕ × ℕ) → Prop
  | _, [] => True
  | pos, f :: fs => HoldsField x pos f.1 f.2 ∧ HoldsFields x (pos + f.1) fs

variable {x : ℕ} {fs : List (ℕ × ℕ)}

theorem holdsFields_append {gs : List (ℕ × ℕ)} : ∀ {pos : ℕ},
    HoldsFields x pos (fs ++ gs) ↔ HoldsFields x pos fs ∧ HoldsFields x (pos + width fs) gs := by
  induction fs with
  | nil =>
    intro pos
    exact ⟨fun h => ⟨trivial, h⟩, fun h => h.2⟩
  | cons f fs ih =>
    intro pos
    rw [List.cons_append, HoldsFields, HoldsFields, ih, width, Nat.add_assoc]
    exact and_assoc.symm

variable {pos w v : ℕ}

theorem HoldsField.succ (h : HoldsField x pos (w + 1) v) :
    x.testBit pos = v.testBit w ∧ HoldsField x (pos + 1) w v := by
  refine ⟨h 0 (Nat.succ_pos w), ?_⟩
  intro i hi
  have hbit := h (i + 1) (Nat.succ_lt_succ hi)
  grind

/-! ### Reversed words -/

/-- The lower `n` bits of `x` in reversed order are `y`. -/
def IsReverse (y x n : ℕ) : Prop := ∀ j, y.testBit j = (decide (j < n) && x.testBit (n - 1 - j))

variable {y n : ℕ}

theorem IsReverse.lt (h : IsReverse y x n) : y < 2 ^ n := by
  refine Nat.lt_pow_two_of_testBit y ?_
  intro j hj
  rw [h j, decide_eq_false (Nat.not_lt.mpr hj), Bool.false_and]

variable {p : ℕ}

theorem testBit_slice {i : ℕ} (hi : i < w) : (slice x p w).testBit i = x.testBit (p + i) := by
  unfold slice
  simp_all

/-- **A word of fields, reversed**, is the stream of the fields. -/
theorem holdsFields_of_reverse (h : IsReverse y x n) {pos : ℕ} (hpos : pos ≤ n)
    (hcarries : Carries x (n - pos) fs) : HoldsFields y pos fs := by
  induction fs generalizing pos with
  | nil => trivial
  | cons f fs ih =>
    obtain ⟨⟨hw, hslice⟩, hrest⟩ := hcarries
    refine ⟨?_, ih (by omega) ?_⟩
    · intro i hi
      rw [h (pos + i), decide_eq_true (by omega), Bool.true_and, ← hslice, testBit_slice (by omega)]
      congr 1
      omega
    · grind

/-! ### Building a stream -/

theorem HoldsField.or (h : HoldsField x pos w v) (hp : pos + w ≤ p) (y : ℕ) :
    HoldsField (x ||| y <<< p) pos w v := by
  intro i hi
  rw [Nat.testBit_or, Nat.testBit_shiftLeft, decide_eq_false (by omega), Bool.false_and,
    Bool.or_false]
  exact h i hi

theorem HoldsFields.or (y : ℕ) {pos : ℕ} (h : HoldsFields x pos fs) (hp : pos + width fs ≤ p) :
    HoldsFields (x ||| y <<< p) pos fs := by
  induction fs generalizing pos with
  | nil => trivial
  | cons f fs ih =>
    rw [width] at hp
    exact ⟨h.1.or (by omega) y, ih h.2 (by omega)⟩

/-- A stream that holds the fields and nothing else. -/
structure Stream (x : ℕ) (fs : List (ℕ × ℕ)) : Prop where
  lt : x < 2 ^ width fs
  holds : HoldsFields x 0 fs

theorem stream_nil : Stream 0 [] := ⟨Nat.one_pos, trivial⟩

/-- **One more field.** -/
theorem Stream.push (h : Stream x fs) (hy : IsReverse y v w) :
    Stream (x ||| y <<< width fs) (fs ++ [(w, v)]) := by
  have hwidth : width (fs ++ [(w, v)]) = width fs + w := width_append _ _
  refine ⟨?_, holdsFields_append.mpr ⟨h.holds.or y (Nat.le_of_eq (Nat.zero_add _)), ?_, trivial⟩⟩
  · rw [hwidth]
    refine Nat.or_lt_two_pow ?_ (shiftLeft_lt hy.lt _)
    exact h.lt.trans_le (Nat.pow_le_pow_right (by decide) (Nat.le_add_right _ _))
  · intro i hi
    have habove : x.testBit (width fs + i) = false := by
      refine Nat.testBit_lt_two_pow (Nat.lt_of_lt_of_le h.lt ?_)
      exact Nat.pow_le_pow_right (by decide) (Nat.le_add_right _ _)
    show (x ||| y <<< width fs).testBit (0 + width fs + i) = v.testBit (w - 1 - i)
    rw [Nat.zero_add, Nat.testBit_or, habove, Bool.false_or, Nat.testBit_shiftLeft,
      decide_eq_true (Nat.le_add_right _ _), Bool.true_and, Nat.add_sub_cancel_left, hy i,
      decide_eq_true hi, Bool.true_and]

theorem Stream.zero (h : Stream x fs) (v : ℕ) :
    Stream x (fs ++ [(0, v)]) := by
  have hwidth : width (fs ++ [(0, v)]) = width fs := width_append _ _
  refine ⟨by rw [hwidth]; exact h.lt, holdsFields_append.mpr ⟨h.holds, ?_, trivial⟩⟩
  intro i hi
  omega

end OaiGnb.BitStream
