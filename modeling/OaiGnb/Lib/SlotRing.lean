import OaiGnb.Lib.Index
import Mathlib.Data.Nat.Count
import Mathlib.Data.Nat.Log
import Mathlib.Data.Nat.ModEq
import Mathlib.Tactic.Ring

/-!
# Rings of slots

Time is a natural number, and what is kept for a slot is stored in a ring at the number of the slot,
or at the number of marked slots before it, modulo the size of the ring.

* `mod_ne_of_lt`: slots that are closer than the size of the ring do not share an entry.
* `lt_mul_two_pow_clog`: a size that is rounded up to a power of two exceeds the look-ahead.
* `count_mod_ne`: the same for a ring of the slots that a periodic pattern marks.
* `wrapped_mod`: a ring whose size divides the period of the frame counter does not see it wrap.
-/

namespace OaiGnb.SlotRing

/-! ### All slots -/

theorem mod_ne_of_lt {a b size : ℕ} (hlt : a < b) (hclose : b < a + size) :
    a % size ≠ b % size := by
  intro h
  have hdvd : size ∣ b - a := (Nat.modEq_iff_dvd' (hlt.le)).mp h
  have hle := Nat.le_of_dvd (by omega) hdvd
  omega

/-- **A size that is rounded up to a power of two exceeds the look-ahead.** -/
theorem lt_mul_two_pow_clog {unit : ℕ} (hunit : 0 < unit) (ahead : ℕ) :
    ahead < unit * 2 ^ Nat.clog 2 (ahead / unit + 1) := by
  have hpow : ahead / unit + 1 ≤ 2 ^ Nat.clog 2 (ahead / unit + 1) :=
    Nat.le_pow_clog (by decide) _
  calc ahead < unit * (ahead / unit + 1) := Nat.lt_mul_div_succ ahead hunit
    _ ≤ unit * 2 ^ Nat.clog 2 (ahead / unit + 1) := Nat.mul_le_mul_left unit hpow

theorem wrapped (frames slots t : ℕ) :
    t / slots % frames * slots + t % slots = t % (slots * frames) := by
  rw [Nat.mod_mul, Nat.add_comm, Nat.mul_comm slots]

theorem wrapped_mod {frames slots size : ℕ} (hdvd : size ∣ slots * frames) (t : ℕ) :
    (t / slots % frames * slots + t % slots) % size = t % size := by
  rw [wrapped, Nat.mod_mod_of_dvd t hdvd]

/-! ### The slots of a periodic pattern -/

section Periodic

variable {marked : ℕ → Prop} [DecidablePred marked] {period : ℕ}

variable (hper : ∀ k, marked (k + period) ↔ marked k)

include hper

theorem count_add_mul (j k : ℕ) :
    Nat.count marked (k + j * period) = Nat.count marked k + j * Nat.count marked period := by
  induction j with
  | zero => simp
  | succ j ih =>
    have hone : ∀ n, Nat.count marked (n + period)
        = Nat.count marked n + Nat.count marked period := by
      intro n
      rw [Nat.count_add', Nat.add_right_cancel_iff]
      refine Nat.le_antisymm (Nat.count_mono_left ?_) (Nat.count_mono_left ?_)
      · exact fun k _ => (hper k).mp
      · exact fun k _ => (hper k).mpr
    calc Nat.count marked (k + (j + 1) * period)
        = Nat.count marked (k + j * period + period) := by rw [Nat.succ_mul, Nat.add_assoc]
      _ = Nat.count marked k + j * Nat.count marked period + Nat.count marked period := by
        rw [hone, ih]
      _ = Nat.count marked k + (j + 1) * Nat.count marked period := by
        rw [Nat.succ_mul, Nat.add_assoc]

theorem count_eq_div_mod (t : ℕ) :
    Nat.count marked t
      = t / period * Nat.count marked period + Nat.count marked (t % period) := by
  have h := count_add_mul hper (t / period) (t % period)
  grind [Nat.mul_comm, Nat.mod_add_div, Nat.add_comm]

theorem count_wrapped_mod {periods size : ℕ}
    (hdvd : size ∣ periods * Nat.count marked period) (t : ℕ) :
    Nat.count marked (t % (periods * period)) % size = Nat.count marked t % size := by
  have h := count_add_mul hper (t / (periods * period) * periods) (t % (periods * period))
  have ht : t % (periods * period) + t / (periods * period) * periods * period = t := by
    rw [Nat.mul_assoc, Nat.mul_comm, Nat.add_comm, Nat.div_add_mod' t]
  rw [ht, Nat.mul_assoc] at h
  rw [h, Nat.add_mod, Nat.mod_eq_zero_of_dvd (hdvd.mul_left _), Nat.add_zero, Nat.mod_mod]

/-- **Marked slots that are closer than the periods in the ring do not share an entry.** -/
theorem count_mod_ne {t u periods : ℕ}
    (ht : marked t) (hu : marked u) (hlt : t < u) (hclose : u < t + periods * period) :
    Nat.count marked t % (Nat.count marked period * periods)
      ≠ Nat.count marked u % (Nat.count marked period * periods) := by
  refine mod_ne_of_lt (Nat.count_strict_mono ht hlt) ?_
  calc Nat.count marked u < Nat.count marked (t + periods * period) :=
        Nat.count_strict_mono hu hclose
    _ = Nat.count marked t + Nat.count marked period * periods := by
      rw [count_add_mul hper, Nat.mul_comm periods]

end Periodic

end OaiGnb.SlotRing
