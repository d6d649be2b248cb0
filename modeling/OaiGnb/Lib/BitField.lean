import OaiGnb.Lib.Index
import Mathlib.Data.Nat.Bitwise
import Mathlib.Tactic.Ring
import Mathlib.Tactic.IntervalCases

/-!
# Bit fields, most significant bit first

A packet header is a sequence of bit fields laid out without regard to byte
boundaries.  Both ends of a codec are related to the same object, the list of bits of
the packet:

* `fieldBits n v` — the `n` low bits of `v`, most significant first;
* `bitsVal` — the number a list of bits denotes, inverse to `fieldBits`;
* `bytesBits` — the bits of a byte string, and `packBits`, its inverse on lists whose
  length is a multiple of eight.

Nothing here refers to a particular packet format.
-/

namespace OaiGnb.BitField

/-- The `n` low bits of `v`, most significant bit first. -/
def fieldBits : ℕ → ℕ → List Bool
  | 0, _ => []
  | n + 1, v => v.testBit n :: fieldBits n v

/-- The number denoted by a list of bits, most significant bit first. -/
def bitsVal : List Bool → ℕ
  | [] => 0
  | b :: bs => b.toNat * 2 ^ bs.length + bitsVal bs

/-- The eight bits of a byte. -/
def byteBits (b : UInt8) : List Bool := fieldBits 8 b.toNat

/-- The bits of a byte string. -/
def bytesBits (l : List UInt8) : List Bool := l.flatMap byteBits

/-- Pack bits into bytes; an incomplete last byte is dropped. -/
def packBits : List Bool → List UInt8
  | b₇ :: b₆ :: b₅ :: b₄ :: b₃ :: b₂ :: b₁ :: b₀ :: bs =>
      UInt8.ofNat (bitsVal [b₇, b₆, b₅, b₄, b₃, b₂, b₁, b₀]) :: packBits bs
  | _ => []

/-! ### Fields and numbers -/

@[simp] theorem fieldBits_length (n v : ℕ) : (fieldBits n v).length = n := by
  induction n with
  | zero => rfl
  | succ n ih => rw [fieldBits, List.length_cons, ih]

theorem bitsVal_lt (bs : List Bool) : bitsVal bs < 2 ^ bs.length := by
  induction bs with
  | nil => simp [bitsVal]
  | cons b bs ih =>
    rw [bitsVal, List.length_cons, pow_succ]
    cases b <;> simp only [Bool.toNat_false, Bool.toNat_true] <;> omega

theorem bitsVal_append (as bs : List Bool) :
    bitsVal (as ++ bs) = bitsVal as * 2 ^ bs.length + bitsVal bs := by
  induction as with
  | nil => simp [bitsVal]
  | cons a as ih =>
    rw [List.cons_append, bitsVal, bitsVal, ih, List.length_append, pow_add]
    ring

theorem bitsVal_concat (bs : List Bool) (b : Bool) :
    bitsVal (bs ++ [b]) = bitsVal bs * 2 + b.toNat := by
  rw [bitsVal_append]
  simp [bitsVal]

theorem bitsVal_fieldBits (n v : ℕ) : bitsVal (fieldBits n v) = v % 2 ^ n := by
  induction n with
  | zero => simp [fieldBits, bitsVal, Nat.mod_one]
  | succ n ih =>
    rw [fieldBits, bitsVal, fieldBits_length, ih, Nat.mod_pow_succ, Nat.toNat_testBit]
    ring

theorem bitsVal_fieldBits_of_lt {n v : ℕ} (h : v < 2 ^ n) : bitsVal (fieldBits n v) = v := by
  rw [bitsVal_fieldBits, Nat.mod_eq_of_lt h]

theorem fieldBits_mod (n v : ℕ) : fieldBits n (v % 2 ^ n) = fieldBits n v := by
  have key : ∀ m, m ≤ n → fieldBits m (v % 2 ^ n) = fieldBits m v := by
    intro m
    induction m with
    | zero => intro _; rfl
    | succ m ih =>
      grind [fieldBits]
  exact key n le_rfl

theorem testBit_bitsVal_cons (b : Bool) (bs : List Bool) :
    (bitsVal (b :: bs)).testBit bs.length = b := by
  grind [bitsVal_lt, bitsVal, Nat.mul_comm, Nat.testBit_two_pow_mul_add]

theorem fieldBits_bitsVal (bs : List Bool) : fieldBits bs.length (bitsVal bs) = bs := by
  induction bs with
  | nil => rfl
  | cons b bs ih =>
    rw [List.length_cons, fieldBits, testBit_bitsVal_cons]
    rw [← fieldBits_mod, bitsVal, Nat.add_comm, Nat.add_mul_mod_self_right,
      Nat.mod_eq_of_lt (bitsVal_lt bs), ih]

theorem bitsVal_inj {as bs : List Bool} (hlen : as.length = bs.length)
    (h : bitsVal as = bitsVal bs) : as = bs := by
  rw [← fieldBits_bitsVal as, ← fieldBits_bitsVal bs, hlen, h]

@[simp] theorem fieldBits_zero (n : ℕ) : fieldBits n 0 = List.replicate n false := by
  induction n with
  | zero => rfl
  | succ n ih => rw [fieldBits, ih, Nat.zero_testBit, List.replicate_succ]

/-! ### Bytes and bits -/

@[simp] theorem byteBits_length (b : UInt8) : (byteBits b).length = 8 := fieldBits_length 8 _

@[simp] theorem bytesBits_nil : bytesBits [] = [] := rfl

@[simp] theorem bytesBits_cons (b : UInt8) (l : List UInt8) :
    bytesBits (b :: l) = byteBits b ++ bytesBits l := rfl

@[simp] theorem bytesBits_append (l l' : List UInt8) :
    bytesBits (l ++ l') = bytesBits l ++ bytesBits l' := by
  simp [bytesBits]

@[simp] theorem bytesBits_length (l : List UInt8) : (bytesBits l).length = 8 * l.length := by
  induction l with
  | nil => rfl
  | cons b l ih =>
    rw [bytesBits_cons, List.length_append, byteBits_length, ih, List.length_cons]
    ring

theorem byteBits_ofNat {v : ℕ} (h : v < 256) : byteBits (UInt8.ofNat v) = fieldBits 8 v := by
  rw [byteBits, UInt8.toNat_ofNat', Nat.mod_eq_of_lt (by simpa using h)]

theorem ofNat_bitsVal_byteBits (b : UInt8) : UInt8.ofNat (bitsVal (byteBits b)) = b := by
  rw [byteBits, bitsVal_fieldBits_of_lt (UInt8.toNat_lt b), UInt8.ofNat_toNat]

theorem bytesBits_drop (l : List UInt8) (n : ℕ) :
    bytesBits (l.drop n) = (bytesBits l).drop (8 * n) := by
  induction l generalizing n with
  | nil => simp
  | cons b l ih =>
    cases n with
    | zero => rfl
    | succ n =>
      rw [List.drop_succ_cons, ih, bytesBits_cons, show 8 * (n + 1) = 8 + 8 * n by ring,
        ← List.drop_drop, List.drop_left' (byteBits_length b)]

theorem packBits_byteBits_append (b : UInt8) (bs : List Bool) :
    packBits (byteBits b ++ bs) = b :: packBits bs := by
  have h : byteBits b = fieldBits 8 b.toNat := rfl
  simp only [fieldBits] at h
  rw [h]
  simp only [List.cons_append, List.nil_append, packBits]
  rw [← h, ofNat_bitsVal_byteBits]

/-- **Packing undoes unpacking.** -/
@[simp] theorem packBits_bytesBits (l : List UInt8) : packBits (bytesBits l) = l := by
  induction l with
  | nil => rfl
  | cons b l ih => rw [bytesBits_cons, packBits_byteBits_append, ih]

theorem bytesBits_injective {l l' : List UInt8} (h : bytesBits l = bytesBits l') : l = l' := by
  rw [← packBits_bytesBits l, h, packBits_bytesBits]

/-- **Unpacking undoes packing** on whole bytes. -/
theorem bytesBits_packBits (n : ℕ) (bs : List Bool) (h : bs.length = 8 * n) :
    bytesBits (packBits bs) = bs := by
  induction n generalizing bs with
  | zero => rw [List.length_eq_zero_iff.mp h]; rfl
  | succ n ih =>
    match bs, h with
    | b₇ :: b₆ :: b₅ :: b₄ :: b₃ :: b₂ :: b₁ :: b₀ :: bs, h =>
      have hlen : bs.length = 8 * n := by simp only [List.length_cons] at h; omega
      have hval : bitsVal [b₇, b₆, b₅, b₄, b₃, b₂, b₁, b₀] < 256 := by
        simpa using bitsVal_lt [b₇, b₆, b₅, b₄, b₃, b₂, b₁, b₀]
      rw [packBits, bytesBits_cons, ih bs hlen, byteBits_ofNat hval]
      exact congrArg (· ++ bs) (fieldBits_bitsVal [b₇, b₆, b₅, b₄, b₃, b₂, b₁, b₀])

theorem bytesBits_getElem? (l : List UInt8) (i : ℕ) :
    (bytesBits l)[i]? = (l[i / 8]?).map (fun b => b.toNat.testBit (7 - i % 8)) := by
  induction l generalizing i with
  | nil => simp
  | cons b l ih =>
    rw [bytesBits_cons]
    by_cases hi : i < 8
    · interval_cases i <;> rfl
    · rw [List.getElem?_append_right (by simpa using hi), byteBits_length, ih,
        show i / 8 = (i - 8) / 8 + 1 by omega, show i % 8 = (i - 8) % 8 by omega,
        List.getElem?_cons_succ]

theorem byteBits_or_pow (b : UInt8) (j : ℕ) (hj : j < 8) :
    byteBits (b ||| UInt8.ofNat (2 ^ j)) = (byteBits b).set (7 - j) true := by
  have hp : (UInt8.ofNat (2 ^ j)).toNat = 2 ^ j := by
    exact Nat.mod_eq_of_lt (Nat.pow_lt_pow_right (by decide) hj)
  simp only [byteBits, UInt8.toNat_or, hp, fieldBits, Nat.testBit_or, Nat.testBit_two_pow]
  interval_cases j <;> simp [List.set]

/-! ### Rewriting one field -/

/-- Replace the value of the field of `n` bits at position `pos`; bits that are too short to
hold the field stay as they are. -/
def mapField (pos n : ℕ) (f : ℕ → ℕ) (bs : List Bool) : List Bool :=
  if pos + n ≤ bs.length then
    bs.take pos ++ (fieldBits n (f (bitsVal ((bs.drop pos).take n))) ++ bs.drop (pos + n))
  else bs

@[simp] theorem mapField_length (pos n : ℕ) (f : ℕ → ℕ) (bs : List Bool) :
    (mapField pos n f bs).length = bs.length := by
  unfold mapField
  split
  · simp only [List.length_append, List.length_take, fieldBits_length, List.length_drop]
    omega
  · rfl

theorem take_mapField {pos n m : ℕ} (f : ℕ → ℕ) (bs : List Bool) (h : m ≤ pos) :
    (mapField pos n f bs).take m = bs.take m := by
  unfold mapField
  split
  · grind
  · rfl

theorem drop_mapField {pos n m : ℕ} (f : ℕ → ℕ) (bs : List Bool) (h : pos + n ≤ m) :
    (mapField pos n f bs).drop m = bs.drop m := by
  unfold mapField
  split
  · obtain ⟨j, rfl⟩ := Nat.exists_eq_add_of_le h
    have htake : (bs.take pos).length = pos := List.length_take_of_le (by omega)
    rw [← List.append_assoc, List.drop_append, List.length_append, htake, fieldBits_length,
      Nat.add_sub_cancel_left, List.drop_drop,
      List.drop_of_length_le (by simp_all),
      List.nil_append]
  · rfl

theorem bitsVal_mapField {pos n : ℕ} (f : ℕ → ℕ) {bs : List Bool} (h : pos + n ≤ bs.length) :
    bitsVal (((mapField pos n f bs).drop pos).take n)
      = f (bitsVal ((bs.drop pos).take n)) % 2 ^ n := by
  have htake : (bs.take pos).length = pos := List.length_take_of_le (by omega)
  rw [mapField, if_pos h, List.drop_left' htake, List.take_left' (fieldBits_length _ _),
    bitsVal_fieldBits]

end OaiGnb.BitField
