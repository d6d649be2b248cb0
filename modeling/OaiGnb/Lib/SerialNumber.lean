import OaiGnb.Lib.Index
import Mathlib.Tactic.Ring
import Mathlib.Data.Int.ModEq

/-!
# Serial numbers relative to a moving base

Sequence numbers live on a circle of `M` points and are compared by their distance
from a base point that moves forward.  `dist M base a` is that distance, written the
way a C program computes it: subtract, and add the modulus when the difference is
negative.  The lemmas say what happens to distances when the base moves (`dist_rebase`).
-/

namespace OaiGnb.SerialNumber

/-- `a` is one of the `M` points of the circle. -/
def InRange (M a : ℤ) : Prop := 0 ≤ a ∧ a < M

/-- The distance from `base` to `a`, going up around the circle. -/
def dist (M base a : ℤ) : ℤ := if a - base < 0 then a - base + M else a - base

/-- The point after `a`. -/
def next (M a : ℤ) : ℤ := (a + 1) % M

/-- The circle turned by `k`. -/
def turn (M k a : ℤ) : ℤ := (a + k) % M

variable {M a b c k : ℤ}

theorem emod_of_lt_two (h0 : 0 ≤ a) (h2 : a < 2 * M) :
    a % M = if a < M then a else a - M := by
  split
  next h =>
    exact Int.emod_eq_of_lt h0 h
  · rw [← Int.sub_emod_right]
    exact Int.emod_eq_of_lt (by omega) (by omega)

theorem next_eq (ha : InRange M a) : next M a = if a + 1 < M then a + 1 else 0 := by
  obtain ⟨h0, h1⟩ := ha
  rw [next, emod_of_lt_two (by omega) (by omega)]
  split <;> omega

theorem inRange_emod (hM : 0 < M) : InRange M (a % M) :=
  ⟨Int.emod_nonneg _ (by omega), Int.emod_lt_of_pos _ hM⟩

theorem inRange_turn (hM : 0 < M) : InRange M (turn M k a) := inRange_emod hM

theorem turn_eq (hk : InRange M k) (ha : InRange M a) :
    turn M k a = if a + k < M then a + k else a + k - M := by
  obtain ⟨h0, h1⟩ := ha
  obtain ⟨k0, k1⟩ := hk
  rw [turn, emod_of_lt_two (by omega) (by omega)]

@[simp] theorem dist_self (M a : ℤ) : dist M a a = 0 := by
  simp [dist]

theorem dist_add_emod {n : ℤ} (hb : InRange M b) (h0 : 0 ≤ n) (h1 : n < M) :
    dist M b ((b + n) % M) = n := by
  obtain ⟨_, _⟩ := hb
  rw [emod_of_lt_two (by omega) (by omega)]
  grind [dist]

section

variable (ha : InRange M a) (hb : InRange M b)

include ha hb

theorem dist_nonneg : 0 ≤ dist M b a := by
  obtain ⟨_, _⟩ := ha
  obtain ⟨_, _⟩ := hb
  unfold dist
  split <;> omega

theorem dist_lt : dist M b a < M := by
  obtain ⟨_, _⟩ := ha
  obtain ⟨_, _⟩ := hb
  unfold dist
  split <;> omega

theorem dist_eq_emod : dist M b a = (a - b) % M := by
  obtain ⟨_, _⟩ := ha
  obtain ⟨_, _⟩ := hb
  unfold dist
  split
  · rw [← Int.add_emod_right, Int.emod_eq_of_lt (by omega) (by omega)]
  · rw [Int.emod_eq_of_lt (by omega) (by omega)]

theorem dist_inj (h : dist M c a = dist M c b) : a = b := by
  obtain ⟨_, _⟩ := ha
  obtain ⟨_, _⟩ := hb
  grind [dist]

theorem dist_eq_zero : dist M b a = 0 ↔ a = b := by
  constructor
  · grind [dist_inj, dist_self]
  · simp_all

/-- **Moving the base.**  Seen from `b`, a point that lies at or above the new base `c`
comes closer by the distance moved; the others fall behind and wrap. -/
theorem dist_rebase (hc : InRange M c) :
    dist M c a =
      if dist M b c ≤ dist M b a then dist M b a - dist M b c
      else dist M b a - dist M b c + M := by
  obtain ⟨_, _⟩ := ha
  obtain ⟨_, _⟩ := hb
  obtain ⟨_, _⟩ := hc
  unfold dist
  split <;> split <;> split <;> split <;> omega

theorem add_dist_emod : (b + dist M b a) % M = a := by
  obtain ⟨_, _⟩ := ha
  obtain ⟨_, _⟩ := hb
  unfold dist
  split
  · rw [show b + (a - b + M) = a + M by ring, Int.add_emod_right]
    exact Int.emod_eq_of_lt (by omega) (by omega)
  · rw [show b + (a - b) = a by ring]
    exact Int.emod_eq_of_lt (by omega) (by omega)

theorem add_dist_sub_emod (hc : InRange M c) : (a + (dist M c b - dist M c a)) % M = b := by
  calc (a + (dist M c b - dist M c a)) % M
      = ((c + dist M c a) % M + (dist M c b - dist M c a)) % M := by rw [add_dist_emod ha hc]
    _ = (c + dist M c b) % M := by simp
    _ = b := add_dist_emod hb hc

theorem dist_add_emod_of_lt {n : ℤ} (h0 : 0 ≤ n) (h1 : dist M b a + n < M) :
    dist M b ((a + n) % M) = dist M b a + n := by
  have hd := dist_nonneg ha hb
  have he : (a + n) % M = (b + (dist M b a + n)) % M := by
    rw [← Int.add_assoc, Int.add_emod, ← Int.emod_add_emod (b + dist M b a), add_dist_emod ha hb,
      ← Int.add_emod]
  rw [he, dist_add_emod hb (by omega) h1]

end

/-! ### Turning the circle -/

theorem turn_inj (hk : InRange M k) (ha : InRange M a) (hb : InRange M b) :
    turn M k a = turn M k b ↔ a = b := by
  constructor
  · intro h
    rw [turn_eq hk ha, turn_eq hk hb] at h
    obtain ⟨_, _⟩ := ha
    obtain ⟨_, _⟩ := hb
    omega
  · rintro rfl
    rfl

theorem turn_add_emod (M k a n : ℤ) : (turn M k a + n) % M = turn M k ((a + n) % M) := by
  simp only [turn, Int.emod_add_emod]
  ring_nf

end OaiGnb.SerialNumber
