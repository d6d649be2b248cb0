import OaiGnb.Lib.Index
import Mathlib.Data.List.Nodup

/-!
# Buffers

A buffer is a function from positions; a write gives another one.

* `copy`, `fill`, `modify` : `memcpy`, `memset`, and a change of one element.
* `gather_block`, `gather_outside` : the loop that copies blocks of one length one after the other
  gives the blocks in order and changes nothing else.
-/

namespace OaiGnb.Buffer

variable {α : Type*}

/-- The elements `[src, src + len)` of another buffer are written at `dst`. -/
def copy (buf : ℕ → α) (dst : ℕ) (from_ : ℕ → α) (src len : ℕ) : ℕ → α :=
  fun i => if dst ≤ i ∧ i < dst + len then from_ (src + (i - dst)) else buf i

/-- The positions `[first, last)` are set. -/
def fill (buf : ℕ → α) (first last : ℕ) (a : α) : ℕ → α :=
  fun i => if first ≤ i ∧ i < last then a else buf i

theorem copy_inside (buf from_ : ℕ → α) {dst src len i : ℕ} (hi : i < len) :
    copy buf dst from_ src len (dst + i) = from_ (src + i) := by
  rw [copy, if_pos ⟨Nat.le_add_right .., Nat.add_lt_add_left hi dst⟩, Nat.add_sub_cancel_left]

theorem copy_outside (buf from_ : ℕ → α) {dst src len i : ℕ} (hi : i < dst ∨ dst + len ≤ i) :
    copy buf dst from_ src len i = buf i :=
  if_neg (by omega)

theorem copy_succ (buf from_ : ℕ → α) (dst src len : ℕ) :
    copy buf dst from_ src (len + 1)
      = Function.update (copy buf dst from_ src len) (dst + len) (from_ (src + len)) := by
  funext i
  by_cases hi : i = dst + len
  · rw [hi, Function.update_self, copy_inside _ _ (Nat.lt_succ_self len)]
  · grind [Function.update_of_ne, copy]

theorem fill_inside (buf : ℕ → α) {first last i : ℕ} (a : α) (hfirst : first ≤ i)
    (hlast : i < last) :
    fill buf first last a i = a :=
  if_pos ⟨hfirst, hlast⟩

theorem fill_outside (buf : ℕ → α) {first last i : ℕ} (a : α) (hi : i < first ∨ last ≤ i) :
    fill buf first last a i = buf i :=
  if_neg (by omega)

/-! ### Blocks one after the other -/

/-- The first `n` blocks, each of `len` elements, from the start of the buffer on. -/
def gather (buf : ℕ → α) (blocks : ℕ → ℕ → α) (len : ℕ) : ℕ → ℕ → α
  | 0 => buf
  | n + 1 => copy (gather buf blocks len n) (n * len) (blocks n) 0 len

theorem gather_outside (buf : ℕ → α) (blocks : ℕ → ℕ → α) (len n : ℕ) {i : ℕ} (hi : n * len ≤ i) :
    gather buf blocks len n i = buf i := by
  induction n with
  | zero => rfl
  | succ n ih =>
    rw [Nat.succ_mul] at hi
    rw [gather, copy_outside _ _ (Or.inr hi), ih (Nat.le_of_add_right_le hi)]

theorem gather_block (buf : ℕ → α) (blocks : ℕ → ℕ → α) {len n r i : ℕ} (hr : r < n)
    (hi : i < len) :
    gather buf blocks len n (r * len + i) = blocks r i := by
  induction n with
  | zero => omega
  | succ n ih =>
    rw [gather]
    rcases Nat.lt_succ_iff_lt_or_eq.mp hr with hlt | rfl
    · have hbefore : r * len + i < n * len := by
        calc r * len + i < (r + 1) * len := by rw [Nat.succ_mul]; omega
          _ ≤ n * len := Nat.mul_le_mul_right len hlt
      rw [copy_outside _ _ (Or.inl hbefore), ih hlt]
    · rw [copy_inside _ _ hi, Nat.zero_add]

end OaiGnb.Buffer
