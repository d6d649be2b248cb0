import OaiGnb.Lib.Crc

/-!
# The CRC of octets

The check sums of transport blocks and code blocks, octet by octet from tables that are filled bit
by bit.

* `crcbit` : bit by bit, for the tables.
* `crcOctets` : octet by octet, for any polynomial; `crc24b` is its use, `crc11` and `crc6`
  have shorter tables.
* `crcOctets_eq` : this is the remainder of the bits, first bit first.
-/

namespace OaiGnb.Phy

open Crc

/-- A bit of a buffer of octets; the first one is in the MSB. -/
def bitAt (buf : ℕ → BitVec 8) (i : ℕ) : Bool :=
  (buf (i / 8)).getMsbD (i % 8)

def poly24b : BitVec 32 := 0x80006300#32
def poly11 : BitVec 32 := 0xc4200000#32
def poly6 : BitVec 32 := 0x84000000#32

/-! ### The code -/

/-- The inner loop of `crcbit`: 8 bits of an octet that is held in the first bits of `c`. -/
def crcbitOctet (poly crc : BitVec 32) (octet : BitVec 8) : BitVec 32 :=
  ((List.range 8).foldl (fun (crc, c) _ =>
    (if (c ^^^ crc).msb then (crc <<< 1) ^^^ poly else crc <<< 1, c <<< 1))
    (crc, (octet.setWidth 32) <<< 24)).1

def crcbit (input : List (BitVec 8)) (poly : BitVec 32) : BitVec 32 :=
  input.foldl (crcbitOctet poly) 0

/-- `crcTableInit`. -/
def crcTable (poly : BitVec 32) (c : BitVec 8) : BitVec 32 :=
  crcbit [c] poly

/-- The loop over the octets, and the last bits if there are any. -/
def crcOctets (poly : BitVec 32) (inptr : ℕ → BitVec 8) (bitlen : ℕ) : BitVec 32 :=
  let octetlen := bitlen / 8
  let resbit := bitlen % 8
  let crc := ((List.range octetlen).map inptr).foldl (fun (crc : BitVec 32) octet =>
    (crc <<< 8) ^^^ crcTable poly (octet ^^^ (crc >>> 24).setWidth 8)) 0
  if 0 < resbit then
    (crc <<< resbit) ^^^ crcTable poly
      ((inptr octetlen >>> (8 - resbit)) ^^^ (crc >>> (32 - resbit)).setWidth 8)
  else crc

/-- `crc24b`, in the variant without carry-less multiplication. -/
def crc24b (inptr : ℕ → BitVec 8) (bitlen : ℕ) : BitVec 32 :=
  crcOctets poly24b inptr bitlen

/-- The table of `crc11`, which has 16 bits of every remainder. -/
def crc11Table (c : BitVec 8) : BitVec 32 :=
  crcTable poly11 c >>> 16

def crc11 (inptr : ℕ → BitVec 8) (bitlen : ℕ) : BitVec 32 :=
  let octetlen := bitlen / 8
  let resbit := bitlen % 8
  let crc := ((List.range octetlen).map inptr).foldl (fun (crc : BitVec 32) octet =>
    (crc <<< 8) ^^^ (crc11Table (octet ^^^ (crc >>> 24).setWidth 8) <<< 16)) 0
  if 0 < resbit then
    (crc <<< resbit) ^^^ (crc11Table
      ((inptr octetlen >>> (8 - resbit)) ^^^ (crc >>> (32 - resbit)).setWidth 8) <<< 16)
  else crc

/-- The table of `crc6`, which has 8 bits of every remainder. -/
def crc6Table (c : BitVec 8) : BitVec 32 :=
  crcTable poly6 c >>> 24

/-- Nothing of the register is left after an octet, so the loop does not shift it. -/
def crc6 (inptr : ℕ → BitVec 8) (bitlen : ℕ) : BitVec 32 :=
  let octetlen := bitlen / 8
  let resbit := bitlen % 8
  let crc := ((List.range octetlen).map inptr).foldl (fun (crc : BitVec 32) octet =>
    crc6Table (octet ^^^ (crc >>> 24).setWidth 8) <<< 24) 0
  if 0 < resbit then
    (crc <<< resbit) ^^^ (crc6Table
      ((inptr octetlen >>> (8 - resbit)) ^^^ (crc >>> (32 - resbit)).setWidth 8) <<< 24)
  else crc

/-! ### Octets are words of the stream -/

theorem crcbitOctet_eq (poly crc : BitVec 32) (octet : BitVec 8) :
    crcbitOctet poly crc octet = feed poly crc (wordBits octet) := by
  have hloop : ∀ k, k ≤ 8 → (List.range k).foldl (fun (s : BitVec 32 × BitVec 32) _ =>
      (if (s.2 ^^^ s.1).msb then (s.1 <<< 1) ^^^ poly else s.1 <<< 1, s.2 <<< 1))
      (crc, (octet.setWidth 32) <<< 24)
        = (feed poly crc (top octet k), ((octet.setWidth 32) <<< 24) <<< k) := by
    intro k
    induction k with
    | zero =>
      intro _
      rw [BitVec.shiftLeft_zero]
      rfl
    | succ k ih =>
      intro hk
      have hmsb : ((octet.setWidth 32 <<< 24) <<< k).msb = octet.getMsbD k := by
        rw [← BitVec.shiftLeft_add, msb_shiftLeft, BitVec.getMsbD_setWidth,
          decide_eq_true (by omega), Bool.true_and, show 24 + k + 8 - 32 = k from by omega]
      rw [List.range_succ, List.foldl_append, ih (by omega), top_succ, feed_snoc]
      simp only [List.foldl_cons, List.foldl_nil, BitVec.msb_xor, hmsb, feedBit,
        BitVec.shiftLeft_add, Bool.xor_comm]
  exact congrArg Prod.fst (hloop 8 le_rfl)

theorem crcTable_eq (poly : BitVec 32) (c : BitVec 8) :
    crcTable poly c = remainder poly (wordBits c) :=
  crcbitOctet_eq poly 0 c

theorem flatMap_wordBits (buf : ℕ → BitVec 8) (n : ℕ) :
    ((List.range n).map buf).flatMap wordBits = (List.range (8 * n)).map (bitAt buf) := by
  induction n with
  | zero => rfl
  | succ n ih =>
    have hlast : (List.range 8).map (fun i => bitAt buf (8 * n + i)) = wordBits (buf n) := by
      refine List.map_congr_left fun i hi => ?_
      have hi := List.mem_range.mp hi
      rw [bitAt, show (8 * n + i) / 8 = n from by omega, show (8 * n + i) % 8 = i from by omega]
    rw [List.range_succ, List.map_append, List.flatMap_append, ih, Nat.mul_succ, List.range_add,
      List.map_append, List.map_map, List.map_singleton, List.flatMap_singleton, ← hlast]
    rfl

/-- **The CRC is the remainder of the bits.** -/
theorem crcOctets_eq (poly : BitVec 32) (inptr : ℕ → BitVec 8) (bitlen : ℕ) :
    crcOctets poly inptr bitlen = remainder poly ((List.range bitlen).map (bitAt inptr)) := by
  have hoctets : ((List.range (bitlen / 8)).map inptr).foldl (fun (crc : BitVec 32) octet =>
      (crc <<< 8) ^^^ crcTable poly (octet ^^^ (crc >>> 24).setWidth 8)) 0
        = remainder poly ((List.range (8 * (bitlen / 8))).map (bitAt inptr)) := by
    simp only [crcTable_eq]
    rw [← flatMap_wordBits]
    exact feed_words poly (by decide) _ 0
  have hlast : (List.range (bitlen % 8)).map (fun i => bitAt inptr (8 * (bitlen / 8) + i))
      = top (inptr (bitlen / 8)) (bitlen % 8) := by
    refine List.map_congr_left fun i hi => ?_
    have hi := List.mem_range.mp hi
    rw [bitAt, show (8 * (bitlen / 8) + i) / 8 = bitlen / 8 from by omega,
      show (8 * (bitlen / 8) + i) % 8 = i from by omega]
  have hbits : (List.range bitlen).map (bitAt inptr)
      = (List.range (8 * (bitlen / 8))).map (bitAt inptr)
        ++ top (inptr (bitlen / 8)) (bitlen % 8) := by
    conv_lhs => rw [← Nat.div_add_mod bitlen 8, List.range_add, List.map_append, List.map_map]
    rw [← hlast]
    rfl
  rw [hbits, remainder, feed_append]
  simp only [crcOctets, hoctets]
  split_ifs with hres
  · rw [crcTable_eq]
    exact (feed_top poly _ _ (by omega) (by decide)).symm
  · rw [show bitlen % 8 = 0 from by omega]
    rfl

/-! ### The short tables lose nothing -/

theorem crc11Table_eq : ∀ c : BitVec 8,
    crc11Table c <<< 16 = crcTable poly11 c := by
  decide +kernel

theorem crc6Table_eq : ∀ c : BitVec 8,
    crc6Table c <<< 24 = crcTable poly6 c := by
  decide +kernel

theorem crc11_eq (inptr : ℕ → BitVec 8) (bitlen : ℕ) :
    crc11 inptr bitlen = remainder poly11 ((List.range bitlen).map (bitAt inptr)) := by
  rw [← crcOctets_eq]
  simp only [crc11, crc11Table_eq]
  rfl

theorem crc6_eq (inptr : ℕ → BitVec 8) (bitlen : ℕ) :
    crc6 inptr bitlen = remainder poly6 ((List.range bitlen).map (bitAt inptr)) := by
  have hshift : ∀ c : BitVec 8, crcTable poly6 c <<< 8 = 0 := by decide +kernel
  have hloop : ∀ octets : List (BitVec 8), ∀ crc : BitVec 32, crc <<< 8 = 0 →
      octets.foldl (fun (crc : BitVec 32) octet =>
        crcTable poly6 (octet ^^^ (crc >>> 24).setWidth 8)) crc
        = octets.foldl (fun (crc : BitVec 32) octet =>
          (crc <<< 8) ^^^ crcTable poly6 (octet ^^^ (crc >>> 24).setWidth 8)) crc := by
    intro octets
    induction octets with
    | nil => exact fun _ _ => rfl
    | cons octet octets ih =>
      simp_all
  rw [← crcOctets_eq]
  simp only [crc6, crc6Table_eq, hloop _ 0 rfl]
  rfl

end OaiGnb.Phy
