import OaiGnb.Lib.Index
import Mathlib.Data.List.Range

/-!
# Cyclic redundancy checks

The remainder of a stream of bits by a generator polynomial, in a register whose first bit is the
highest power, as the shift register computes it bit by bit.

* `feedBit_xor` : the register is linear in its contents and in the bits.
* `feed_eq_shift` : what lies in the register when bits come in acts like bits of the stream; this
  is what a table of the remainders of all words rests on.
* `feed_words` : a stream of words, word by word from such a table.
* `feed_top` : the first bits of one more word, from the same table.
-/

namespace OaiGnb.Crc

variable {w v : ℕ}

/-- One bit of the stream: the bit that leaves the register is the next one of the quotient. -/
def feedBit (poly crc : BitVec w) (b : Bool) : BitVec w :=
  if crc.msb ^^ b then (crc <<< 1) ^^^ poly else crc <<< 1

def feed (poly crc : BitVec w) (bits : List Bool) : BitVec w :=
  bits.foldl (feedBit poly) crc

/-- The remainder of a stream, multiplied by the power of the generator's degree. -/
def remainder (poly : BitVec w) (bits : List Bool) : BitVec w :=
  feed poly 0 bits

theorem feed_append (poly crc : BitVec w) (bits bits' : List Bool) :
    feed poly crc (bits ++ bits') = feed poly (feed poly crc bits) bits' :=
  List.foldl_append ..

theorem feed_snoc (poly crc : BitVec w) (bits : List Bool) (b : Bool) :
    feed poly crc (bits ++ [b]) = feedBit poly (feed poly crc bits) b :=
  feed_append ..

theorem feedBit_xor (poly x y : BitVec w) (a b : Bool) :
    feedBit poly (x ^^^ y) (a ^^ b) = feedBit poly x a ^^^ feedBit poly y b := by
  have hmsb : ((x ^^^ y).msb ^^ (a ^^ b)) = ((x.msb ^^ a) ^^ (y.msb ^^ b)) := by
    rw [BitVec.msb_xor]
    cases x.msb <;> cases y.msb <;> cases a <;> cases b <;> rfl
  rw [feedBit, feedBit, feedBit, hmsb, BitVec.shiftLeft_xor_distrib]
  grind

/-- The first `k` bits of the register. -/
def top (crc : BitVec w) (k : ℕ) : List Bool :=
  (List.range k).map crc.getMsbD

theorem top_length (crc : BitVec w) (k : ℕ) : (top crc k).length = k := by
  rw [top, List.length_map, List.length_range]

theorem top_succ (crc : BitVec w) (k : ℕ) : top crc (k + 1) = top crc k ++ [crc.getMsbD k] := by
  rw [top, List.range_succ, List.map_append, List.map_singleton, top]

theorem msb_shiftLeft (crc : BitVec w) (k : ℕ) : (crc <<< k).msb = crc.getMsbD k := by simp

theorem feedBit_shiftLeft (poly crc : BitVec w) (k : ℕ) :
    feedBit poly (crc <<< k) (crc.getMsbD k) = crc <<< (k + 1) := by
  rw [feedBit, msb_shiftLeft, Bool.xor_self, BitVec.shiftLeft_add]
  rfl

/-- **What lies in the register acts like bits of the stream.** -/
theorem feed_eq_shift (poly crc : BitVec w) (bits : List Bool) :
    feed poly crc bits = (crc <<< bits.length) ^^^
      remainder poly (List.zipWith (· ^^ ·) bits (top crc bits.length)) := by
  induction bits using List.reverseRecOn with
  | nil =>
    rw [List.length_nil, BitVec.shiftLeft_zero, List.zipWith_nil_left]
    exact (BitVec.xor_zero).symm
  | append_singleton bits b ih =>
    have hzip : List.zipWith (· ^^ ·) (bits ++ [b]) (top crc (bits.length + 1))
        = List.zipWith (· ^^ ·) bits (top crc bits.length) ++ [b ^^ crc.getMsbD bits.length] := by
      rw [top_succ, List.zipWith_append (by rw [top_length])]
      rfl
    have hbit : b = (crc.getMsbD bits.length ^^ (b ^^ crc.getMsbD bits.length)) := by
      cases b <;> cases crc.getMsbD bits.length <;> rfl
    rw [List.length_append, List.length_singleton, hzip, feed_snoc, remainder, feed_snoc, ih]
    conv_lhs => rw [hbit, feedBit_xor, feedBit_shiftLeft]
    rfl

/-! ### Words from a table -/

/-- The bits of a word, highest first. -/
def wordBits (x : BitVec v) : List Bool :=
  top x v

theorem wordBits_length (x : BitVec v) : (wordBits x).length = v :=
  top_length x v

theorem zipWith_top (x y : BitVec v) (k : ℕ) :
    List.zipWith (· ^^ ·) (top x k) (top y k) = top (x ^^^ y) k := by
  rw [top, top, top, List.zipWith_map_left, List.zipWith_map_right, List.zipWith_self]
  simp

/-- The first bits of the register, as a word. -/
def topWord (crc : BitVec w) (v : ℕ) : BitVec v :=
  (crc >>> (w - v)).setWidth v

theorem wordBits_topWord (crc : BitVec w) (hv : v ≤ w) : wordBits (topWord crc v) = top crc v := by
  refine List.map_congr_left fun i hi => ?_
  have hi := List.mem_range.mp hi
  rw [topWord, BitVec.getMsbD_eq_getLsbD, BitVec.getMsbD_eq_getLsbD, BitVec.getLsbD_setWidth,
    BitVec.getLsbD_ushiftRight, show w - v + (v - 1 - i) = w - 1 - i from by omega]
  grind

/-- **A word of the stream, from the table of all words' remainders.** -/
theorem feed_word (poly crc : BitVec w) (x : BitVec v) (hv : v ≤ w) :
    feed poly crc (wordBits x)
      = (crc <<< v) ^^^ remainder poly (wordBits (x ^^^ topWord crc v)) := by
  rw [feed_eq_shift, wordBits_length, ← wordBits_topWord crc hv]
  exact congrArg (fun bits => crc <<< v ^^^ remainder poly bits) (zipWith_top ..)

theorem feed_words (poly : BitVec w) (hv : v ≤ w) (words : List (BitVec v)) (crc : BitVec w) :
    words.foldl (fun (crc : BitVec w) x =>
      (crc <<< v) ^^^ remainder poly (wordBits (x ^^^ topWord crc v))) crc
      = feed poly crc (words.flatMap wordBits) := by
  induction words generalizing crc with
  | nil => rfl
  | cons x words ih =>
    rw [List.foldl_cons, ih, List.flatMap_cons, feed_append, feed_word poly crc x hv]

/-! ### A part of a word -/

theorem remainder_leading (poly : BitVec w) (k : ℕ) (bits : List Bool) :
    remainder poly (List.replicate k false ++ bits) = remainder poly bits := by
  induction k with
  | zero => rfl
  | succ k ih =>
    have hbit : feedBit poly 0#w false = 0#w := by
      rw [feedBit, BitVec.zero_shiftLeft, BitVec.msb_zero]
      rfl
    exact (congrArg (fun crc => feed poly crc _) hbit).trans ih

theorem getMsbD_part (x : BitVec w) {k i : ℕ} (hk : k ≤ v) (hv : v ≤ w) (hi : i < v) :
    ((x >>> (w - k)).setWidth v).getMsbD i
      = if v - k ≤ i then x.getMsbD (i - (v - k)) else false := by
  rw [BitVec.getMsbD_eq_getLsbD, BitVec.getLsbD_setWidth, BitVec.getLsbD_ushiftRight,
    decide_eq_true hi, decide_eq_true (show v - 1 - i < v from by omega), Bool.true_and,
    Bool.true_and]
  split_ifs with hle
  · rw [BitVec.getMsbD_eq_getLsbD, decide_eq_true (by omega), Bool.true_and,
      show w - k + (v - 1 - i) = w - 1 - (i - (v - k)) from by omega]
  · exact BitVec.getLsbD_of_ge _ _ (by omega)

theorem wordBits_part (crc : BitVec w) (x : BitVec v) {k : ℕ} (hk : k ≤ v) (hv : v ≤ w) :
    wordBits ((x >>> (v - k)) ^^^ (crc >>> (w - k)).setWidth v)
      = List.replicate (v - k) false ++ List.zipWith (· ^^ ·) (top x k) (top crc k) := by
  have hbit : ∀ i, i < v → ((x >>> (v - k)) ^^^ (crc >>> (w - k)).setWidth v).getMsbD i
      = if v - k ≤ i then x.getMsbD (i - (v - k)) ^^ crc.getMsbD (i - (v - k)) else false := by
    intro i hi
    have hx := getMsbD_part x hk le_rfl hi
    rw [BitVec.setWidth_eq] at hx
    rw [BitVec.getMsbD_xor, hx, getMsbD_part crc hk hv hi]
    split_ifs
    · rfl
    · rfl
  have hrange : List.range v = List.range (v - k) ++ (List.range k).map (v - k + ·) := by
    rw [← List.range_add, Nat.sub_add_cancel hk]
  rw [wordBits, top, hrange, List.map_append, List.map_map]
  refine congrArg₂ (· ++ ·) ?_ ?_
  · refine List.eq_replicate_iff.mpr ⟨by simp, ?_⟩
    grind
  · rw [top, top, List.zipWith_map_left, List.zipWith_map_right, List.zipWith_self]
    refine List.map_congr_left fun i hi => ?_
    have hi := List.mem_range.mp hi
    rw [Function.comp_apply, hbit _ (by omega), if_pos (Nat.le_add_right ..),
      Nat.add_sub_cancel_left]

/-- **The first bits of a word, from the table of all words' remainders.** -/
theorem feed_top (poly crc : BitVec w) (x : BitVec v) {k : ℕ} (hk : k ≤ v) (hv : v ≤ w) :
    feed poly crc (top x k) = (crc <<< k) ^^^
      remainder poly (wordBits ((x >>> (v - k)) ^^^ (crc >>> (w - k)).setWidth v)) := by
  rw [feed_eq_shift, top_length, wordBits_part crc x hk hv, remainder_leading]

end OaiGnb.Crc
