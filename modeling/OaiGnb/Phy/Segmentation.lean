import Mathlib.Tactic.Ring
import OaiGnb.Lib.Buffer
import OaiGnb.Phy.CrcByte

/-!
# Segmentation of transport blocks

A transport block with its CRC is cut into code blocks of one size, each with a CRC of its own if
there are several, and filled up to the size of the code.

* `nrComputeTbs` : the sizes of transport blocks; `nrComputeTbs_cuttable` says how they go with the
  base graph.
* `Segmented` : the blocks hold the bits of the transport block in order, CRCs and zeros.
* `segmentation_correct` : this holds for every size of `nrComputeTbs`, exactly if the bits of
  the last octet of each block that has less than 8 were zero before.
-/

namespace OaiGnb.Phy

open Buffer Crc

/-! ### Sizes of transport blocks -/

def tbstableNr : List ℕ :=
  [24, 32, 40, 48, 56, 64, 72, 80, 88, 96, 104, 112, 120, 128, 136, 144, 152, 160, 168,
    176, 184, 192, 208, 224, 240, 256, 272, 288, 304, 320, 336, 352, 368, 384, 408, 432, 456, 480,
    504, 528, 552, 576, 608, 640, 672, 704, 736, 768, 808, 848, 888, 928, 984, 1032, 1064, 1128,
    1160, 1192, 1224, 1256, 1288, 1320, 1352, 1416, 1480, 1544, 1608, 1672, 1736, 1800, 1864, 1928,
    2024, 2088, 2152, 2216, 2280, 2408, 2472, 2536, 2600, 2664, 2728, 2792, 2856, 2976, 3104, 3240,
    3368, 3496, 3624, 3752, 3824]

/-- `NR_MAX_PDSCH_TBS`. -/
def nrMaxPdschTbs : ℕ := 3824

def ceilidiv (a b : ℕ) : ℕ := (a + b - 1) / b

def roundidiv (a b : ℕ) : ℕ := (a * 2 + b) / (b * 2)

/-- The number of information bits, in 32 bits. -/
def tbsInfo (qm r nbRb nbSymbSch nbDmrsPrb nbRbOh tbScaling nl : ℕ) : ℕ :=
  let nbpRe := ((12 * nbSymbSch - nbDmrsPrb - nbRbOh : ℤ) % 2 ^ 32).toNat
  let nbRe := min 156 nbpRe * nbRb
  ((nbRe * (r / 5) * qm * nl % 2 ^ 32) >>> 11) >>> tbScaling

/-- The size for a small number of information bits, from the table.  The logarithm of 0 is below
any number. -/
def tbsSmall (ninfo : ℕ) : ℕ :=
  let n := max 3 (Nat.log2 ninfo - 6)
  let npInfo := max 24 ((ninfo >>> n) <<< n)
  (tbstableNr.find? fun tbs => npInfo ≤ tbs).getD 0

/-- The quantised number of information bits if it is not small. -/
def tbsQuantised (ninfo : ℕ) : ℕ :=
  let n := Nat.log2 (ninfo - 24) - 5
  max 3840 (roundidiv (ninfo - 24) (2 ^ n) <<< n)

/-- The size that `blocks` blocks of a multiple of 8 bits give. -/
def tbsBlocks (npInfo blocks : ℕ) : ℕ :=
  blocks * 8 * ceilidiv (npInfo + 24) (blocks * 8) - 24

/-- `nr_compute_tbs`; the rate `r` is in units of 1 / 10240. -/
def nrComputeTbs (qm r nbRb nbSymbSch nbDmrsPrb nbRbOh tbScaling nl : ℕ) : ℕ :=
  if qm = 0 ∨ r = 0 ∨ nbRb = 0 ∨ nl = 0 then 0
  else
    let ninfo := tbsInfo qm r nbRb nbSymbSch nbDmrsPrb nbRbOh tbScaling nl
    if ninfo ≤ nrMaxPdschTbs then tbsSmall ninfo
    else
      let npInfo := tbsQuantised ninfo
      if r ≤ 2560 then tbsBlocks npInfo (ceilidiv (npInfo + 24) 3816)
      else if 8424 < npInfo then tbsBlocks npInfo (ceilidiv (npInfo + 24) 8424)
      else ceilidiv (npInfo + 24) 8 * 8 - 24

/-- `get_BG`.  The comparisons of the rate, in floating point, come out as those of the fractions.
-/
def getBG (a r : ℕ) : ℕ :=
  if a ≤ 292 ∨ (a ≤ nrMaxPdschTbs ∧ r * 10000 ≤ 6667 * 10240) ∨ r * 4 ≤ 10240 then 2 else 1

/-- `lenWithCrc` of one segment. -/
def lenWithCrc (a : ℕ) : ℕ :=
  a + if nrMaxPdschTbs < a then 24 else 16

/-! ### Sizes of code blocks -/

/-- What `nr_segmentation` computes before it looks at the buffers. -/
structure Sizes where
  C : ℕ
  L : ℕ
  Kprime : ℕ
  Kb : ℕ
  Z : ℕ
  K : ℕ
  F : ℕ
deriving DecidableEq, Repr

def kcb (bg : ℕ) : ℕ := if bg = 1 then 8448 else 3840

/-- The number of blocks, and the length of their CRC. -/
def blockCount (b bg : ℕ) : ℕ × ℕ :=
  if b ≤ kcb bg then (1, 0)
  else
    let c := b / (kcb bg - 24)
    (if (kcb bg - 24) * c < b then c + 1 else c, 24)

def kbOf (b bg : ℕ) : ℕ :=
  if bg = 1 then 22
  else if 640 < b then 10
  else if 560 < b then 9
  else if 192 < b then 8
  else 6

/-- Rounded up to a multiple of `2 ^ n`. -/
def roundUp (z n : ℕ) : ℕ :=
  if (z >>> n) <<< n < z then (z >>> n) <<< n + 2 ^ n else (z >>> n) <<< n

def liftingSize (z : ℕ) : Option ℕ :=
  if z ≤ 2 then some 2
  else if z ≤ 16 then some z
  else if z ≤ 32 then some (roundUp z 1)
  else if z ≤ 64 then some (roundUp z 2)
  else if z ≤ 128 then some (roundUp z 3)
  else if z ≤ 256 then some (roundUp z 4)
  else if z ≤ 384 then some (roundUp z 5)
  else none

def codeSize (bg zc : ℕ) : ℕ := if bg = 1 then zc * 22 else zc * 10

/-- The first part of `nr_segmentation`; none is -1. -/
def segmentSizes (b bg : ℕ) : Option Sizes :=
  let (c, l) := blockCount b bg
  let kprime := (b + c * l) / c
  let kb := kbOf b bg
  let z := if 0 < kprime % kb then kprime / kb + 1 else kprime / kb
  (liftingSize z).map fun zc =>
    ⟨c, l, kprime, kb, zc, codeSize bg zc, codeSize bg zc - kprime⟩

/-! ### Octets -/

/-- The octet of a number that `((uint8_t*)&crc)[n]` reads. -/
def octetOf (x : BitVec 32) (n : ℕ) : BitVec 8 := (x >>> (8 * n)).setWidth 8

/-- The CRC of a block behind its bits. -/
def putCrc24b (block : ℕ → BitVec 8) (bitlen : ℕ) : ℕ → BitVec 8 :=
  let crc := crc24b block bitlen >>> 8
  let n := bitlen / 8
  fun i => if i = n then octetOf crc 2 else if i = 1 + n then octetOf crc 1
    else if i = 2 + n then octetOf crc 0 else block i

/-- One round of the loop over the blocks, from the octet `s` of the input on. -/
def segmentBlock (sizes : Sizes) (input : ℕ → BitVec 8) (s : ℕ) (block : ℕ → BitVec 8) :
    ℕ → BitVec 8 :=
  let block := copy block 0 input s ((sizes.Kprime - sizes.L) / 8)
  let block := if 1 < sizes.C then putCrc24b block (sizes.Kprime - sizes.L) else block
  if 0 < sizes.F then fill block (sizes.Kprime / 8) (sizes.K / 8) 0 else block

/-- The first `r` rounds: the buffers and the octets of the input that are used. -/
def segmentLoop (sizes : Sizes) (input : ℕ → BitVec 8) (output : ℕ → ℕ → BitVec 8) :
    ℕ → (ℕ → ℕ → BitVec 8) × ℕ
  | 0 => (output, 0)
  | r + 1 =>
      let (blocks, s) := segmentLoop sizes input output r
      (Function.update blocks r (segmentBlock sizes input s (blocks r)),
        s + (sizes.Kprime - sizes.L) / 8)

def nrSegmentation (input : ℕ → BitVec 8) (output : ℕ → ℕ → BitVec 8) (b bg : ℕ) :
    Option (Sizes × (ℕ → ℕ → BitVec 8)) :=
  (segmentSizes b bg).map fun sizes => (sizes, (segmentLoop sizes input output sizes.C).1)

/-! ### The receiver -/

/-- The length of a block that is copied, from the sizes that the receiver keeps. -/
def copyLength (sizes : Sizes) : ℕ :=
  sizes.K / 8 - sizes.F / 8 - if 1 < sizes.C then 3 else 0

/-- The first `r` rounds of the loop in `nr_ulsch_decoding` after the decoder. -/
def reassembleLoop (sizes : Sizes) (decodeSuccess : ℕ → Bool) (c : ℕ → ℕ → BitVec 8)
    (b : ℕ → BitVec 8) : ℕ → (ℕ → BitVec 8) × ℕ
  | 0 => (b, 0)
  | r + 1 =>
      let (b, offset) := reassembleLoop sizes decodeSuccess c b r
      (if decodeSuccess r then copy b offset (c r) 0 (copyLength sizes) else b,
        offset + copyLength sizes)

/-! ### What segmentation is for -/

/-- The lifting sizes of the code: eight odd parts, or 2, times powers of two. -/
def liftingSizes : List ℕ :=
  ([2, 3, 5, 7, 9, 11, 13, 15].flatMap fun a => (List.range 8).map fun j => a * 2 ^ j).filter
    (· ≤ 384)

/-- The sizes fit the transport block. -/
structure Sizes.Fit (sizes : Sizes) (b : ℕ) : Prop where
  crcLength : sizes.L = if 1 < sizes.C then 24 else 0
  crcInside : sizes.L ≤ sizes.Kprime
  octets : 8 ∣ sizes.Kprime - sizes.L
  total : sizes.C * (sizes.Kprime - sizes.L) = b
  lifting : sizes.Z ∈ liftingSizes
  lifted : sizes.Kprime ≤ sizes.Kb * sizes.Z
  least : ∀ z ∈ liftingSizes, sizes.Kprime ≤ sizes.Kb * z → sizes.Z ≤ z
  room : sizes.Kprime ≤ sizes.K
  fillers : sizes.F = sizes.K - sizes.Kprime

/-- The blocks hold the bits of the transport block in order, CRCs and zeros. -/
structure Segmented (input : ℕ → BitVec 8) (sizes : Sizes) (blocks : ℕ → ℕ → BitVec 8) :
    Prop where
  bits : ∀ r < sizes.C, ∀ i < sizes.Kprime - sizes.L,
    bitAt (blocks r) i = bitAt input (r * (sizes.Kprime - sizes.L) + i)
  crc : 1 < sizes.C → ∀ r < sizes.C, ∀ i < 24, bitAt (blocks r) (sizes.Kprime - 24 + i) =
    (remainder poly24b ((List.range (sizes.Kprime - 24)).map (bitAt (blocks r)))).getMsbD i
  zeros : ∀ r < sizes.C, ∀ i, sizes.Kprime ≤ i → i < sizes.K → bitAt (blocks r) i = false

/-- The receiver gets the `b` bits of the input back from blocks that hold the same bits. -/
def Reassembled (input : ℕ → BitVec 8) (sizes : Sizes) (blocks : ℕ → ℕ → BitVec 8) (b : ℕ) : Prop :=
  ∀ decodeSuccess c buf, (∀ r < sizes.C, decodeSuccess r = true) →
    (∀ r < sizes.C, ∀ i < sizes.Kprime - sizes.L, bitAt (c r) i = bitAt (blocks r) i) →
    let buf' := (reassembleLoop sizes decodeSuccess c buf sizes.C).1
    (∀ i < b, bitAt buf' i = bitAt input i) ∧ ∀ j, b / 8 ≤ j → buf' j = buf j

/-! ### Sizes of transport blocks go with the base graph -/

/-- One block, or blocks of the same number of octets. -/
def Cuttable (b bg : ℕ) : Prop :=
  8 ∣ b ∧ (b ≤ kcb bg ∨ kcb bg < b ∧ ∃ c, 1 < c ∧ 8 * c ∣ b ∧ (kcb bg - 24) * (c - 1) < b ∧
    b ≤ (kcb bg - 24) * c)

theorem tbstableNr_octets : ∀ tbs ∈ tbstableNr, 8 ∣ tbs ∧ tbs ≤ nrMaxPdschTbs := by decide

theorem tbsSmall_octets (ninfo : ℕ) : 8 ∣ tbsSmall ninfo ∧ tbsSmall ninfo ≤ nrMaxPdschTbs := by
  rw [tbsSmall]
  cases hfind : tbstableNr.find? _ with
  | none => simp
  | some tbs => exact tbstableNr_octets tbs (List.mem_of_find?_eq_some hfind)

variable {a bg i j : ℕ}

theorem ceilidiv_le {b q : ℕ} (hb : 0 < b) : ceilidiv a b ≤ q ↔ a ≤ q * b := by
  rw [ceilidiv, ← Nat.lt_succ_iff, Nat.div_lt_iff_lt_mul hb, Nat.succ_mul]
  omega

theorem lt_ceilidiv {b q : ℕ} (hb : 0 < b) : q < ceilidiv a b ↔ q * b < a := by
  rw [← Nat.not_le, ceilidiv_le hb, Nat.not_le]

theorem le_mul_ceilidiv (a : ℕ) {b : ℕ} (hb : 0 < b) : a ≤ ceilidiv a b * b :=
  (ceilidiv_le hb).mp le_rfl

theorem tbsBlocks_cut (npInfo size : ℕ) (h8 : 0 < size) (hoctets : 8 ∣ size)
    (hmany : size < npInfo + 24) :
    let c := ceilidiv (npInfo + 24) size
    let b := tbsBlocks npInfo c + 24
    1 < c ∧ 8 * c ∣ b ∧ size * (c - 1) < b ∧ b ≤ size * c ∧ npInfo + 24 ≤ b := by
  obtain ⟨unit, rfl⟩ := hoctets
  intro c b
  have hc : 1 < c := (lt_ceilidiv h8).mpr (by omega)
  have hc8 : 0 < c * 8 := by omega
  have hle : npInfo + 24 ≤ ceilidiv (npInfo + 24) (c * 8) * (c * 8) := le_mul_ceilidiv _ hc8
  have hb : b = 8 * c * ceilidiv (npInfo + 24) (c * 8) := by
    show tbsBlocks npInfo c + 24 = _
    rw [tbsBlocks, Nat.mul_comm c 8]
    rw [Nat.mul_comm c 8, Nat.mul_comm _ (8 * c)] at hle
    omega
  have hlow : npInfo + 24 ≤ b := by
    rw [hb, Nat.mul_comm, Nat.mul_comm 8 c]
    exact hle
  refine ⟨hc, ⟨_, hb⟩, ?_, ?_, hlow⟩
  · have := (lt_ceilidiv (a := npInfo + 24) (q := c - 1) h8).mp (by omega)
    grind
  · have hquot : ceilidiv (npInfo + 24) (c * 8) ≤ unit := by
      rw [ceilidiv_le hc8, show unit * (c * 8) = c * (8 * unit) from by ring]
      exact le_mul_ceilidiv _ h8
    calc b = 8 * c * ceilidiv (npInfo + 24) (c * 8) := hb
      _ ≤ 8 * c * unit := Nat.mul_le_mul_left _ hquot
      _ = 8 * unit * c := by ring

theorem tbsQuantised_ge (ninfo : ℕ) : 3840 ≤ tbsQuantised ninfo := Nat.le_max_left ..

theorem cuttable_small (h8 : 8 ∣ a) (ha : a ≤ nrMaxPdschTbs) :
    Cuttable (lenWithCrc a) bg := by
  rw [nrMaxPdschTbs] at ha
  rw [lenWithCrc, nrMaxPdschTbs, if_neg (by omega)]
  refine ⟨by omega, Or.inl ?_⟩
  rw [kcb]
  split <;> omega

theorem lenWithCrc_large (ha : nrMaxPdschTbs < a) : lenWithCrc a = a + 24 := by
  rw [lenWithCrc, if_pos ha]

theorem getBG_low {r : ℕ} (hr : r ≤ 2560) : getBG a r = 2 :=
  if_pos (Or.inr (Or.inr (by omega)))

theorem getBG_high {r : ℕ} (ha : nrMaxPdschTbs < a) (hr : 2560 < r) : getBG a r = 1 := by
  rw [nrMaxPdschTbs] at ha
  rw [getBG, nrMaxPdschTbs, if_neg (by omega)]

/-- **Every size of a transport block can be cut with the base graph that goes with it.** -/
theorem nrComputeTbs_cuttable (qm r nbRb nbSymbSch nbDmrsPrb nbRbOh tbScaling nl : ℕ) :
    let a := nrComputeTbs qm r nbRb nbSymbSch nbDmrsPrb nbRbOh tbScaling nl
    Cuttable (lenWithCrc a) (getBG a r) := by
  intro a
  by_cases hnull : qm = 0 ∨ r = 0 ∨ nbRb = 0 ∨ nl = 0
  · have ha : a = 0 := if_pos hnull
    rw [ha]
    exact cuttable_small (Nat.dvd_zero 8) (Nat.zero_le _)
  · have ha : a = if tbsInfo qm r nbRb nbSymbSch nbDmrsPrb nbRbOh tbScaling nl ≤ nrMaxPdschTbs
        then _ else _ := if_neg hnull
    generalize tbsInfo qm r nbRb nbSymbSch nbDmrsPrb nbRbOh tbScaling nl = ninfo at ha
    by_cases hsmall : ninfo ≤ nrMaxPdschTbs
    · grind [cuttable_small, tbsSmall_octets]
    · rw [if_neg hsmall] at ha
      have hq := tbsQuantised_ge ninfo
      generalize tbsQuantised ninfo = npInfo at ha hq
      by_cases hlow : r ≤ 2560
      · rw [if_pos hlow] at ha
        obtain ⟨hc, hdvd, hgt, hle, hnp⟩ := tbsBlocks_cut npInfo 3816 (by decide) (by decide)
          (by omega)
        have hlarge : nrMaxPdschTbs < a := by rw [ha, nrMaxPdschTbs]; omega
        rw [lenWithCrc_large hlarge, getBG_low hlow, ha]
        refine ⟨(Nat.dvd_mul_right 8 _).trans hdvd, Or.inr ⟨?_, _, hc, hdvd, hgt, hle⟩⟩
        exact (show 3840 < npInfo + 24 by omega).trans_le hnp
      · rw [if_neg hlow] at ha
        by_cases hmany : 8424 < npInfo
        · rw [if_pos hmany] at ha
          obtain ⟨hc, hdvd, hgt, hle, hnp⟩ :=
            tbsBlocks_cut npInfo 8424 (by decide) (by decide) (by omega)
          have hlarge : nrMaxPdschTbs < a := by rw [ha, nrMaxPdschTbs]; omega
          rw [lenWithCrc_large hlarge, getBG_high hlarge (by omega), ha]
          refine ⟨(Nat.dvd_mul_right 8 _).trans hdvd, Or.inr ⟨?_, _, hc, hdvd, hgt, hle⟩⟩
          exact (show 8448 < npInfo + 24 by omega).trans_le hnp
        · rw [if_neg hmany] at ha
          have hge := le_mul_ceilidiv (npInfo + 24) (show 0 < 8 by decide)
          have hle : ceilidiv (npInfo + 24) 8 ≤ 1056 := (ceilidiv_le (by decide)).mpr (by omega)
          have hlarge : nrMaxPdschTbs < a := by rw [ha, nrMaxPdschTbs]; omega
          rw [lenWithCrc_large hlarge, getBG_high hlarge (by omega), ha]
          refine ⟨⟨ceilidiv (npInfo + 24) 8, by omega⟩, Or.inl ?_⟩
          rw [show kcb 1 = 8448 from rfl]
          omega

/-! ### The sizes fit -/

theorem quotientUp_le {s b t : ℕ} (hs : 0 < s) :
    (if s * (b / s) < b then b / s + 1 else b / s) ≤ t ↔ b ≤ s * t := by
  have hle : s * (b / s) ≤ b := Nat.mul_div_le b s
  split
  · rw [Nat.succ_le_iff, Nat.div_lt_iff_lt_mul hs, Nat.mul_comm t s]
    refine ⟨Nat.le_of_lt, fun h => Nat.lt_of_le_of_ne h ?_⟩
    intro heq
    simp_all
  · have heq : b = s * (b / s) := by omega
    constructor
    · intro h
      rw [heq]
      exact Nat.mul_le_mul_left s h
    · intro h
      exact Nat.div_le_of_le_mul h

theorem mod_pos_iff (k kb : ℕ) : 0 < k % kb ↔ kb * (k / kb) < k := by
  have := Nat.div_add_mod k kb
  omega

theorem kcb_large (bg : ℕ) : 3840 ≤ kcb bg := by
  rw [kcb]
  split <;> omega

theorem blockCount_many {b c : ℕ} (hlarge : kcb bg < b) (hlow : (kcb bg - 24) * (c - 1) < b)
    (hhigh : b ≤ (kcb bg - 24) * c) : blockCount b bg = (c, 24) := by
  have hs : 0 < kcb bg - 24 := by have := kcb_large bg; omega
  rw [blockCount, if_neg (by omega)]
  have hle := (quotientUp_le (t := c) hs).mpr hhigh
  have hnot := (quotientUp_le (t := c - 1) hs).not.mpr (not_le.mpr hlow)
  grind

theorem kbOf_pos (b bg : ℕ) : 0 < kbOf b bg := by grind [kbOf]

theorem kbOf_mul_le (b bg zc : ℕ) : kbOf b bg * zc ≤ codeSize bg zc := by
  rw [kbOf, codeSize]
  split_ifs <;> omega

theorem le_kbOf_mul {k b : ℕ} (hk : k ≤ kcb bg) (hb : k ≤ b ∨ 640 < b) :
    k ≤ kbOf b bg * 384 := by grind [kcb, kbOf]

theorem liftingSizes_multiples : ∀ y ∈ liftingSizes, ∀ n < 6, 8 * 2 ^ n < y → 2 ^ n ∣ y := by decide

theorem multiples_liftingSizes :
    ∀ n < 6, ∀ k < 17, 8 < k ∧ 2 ^ n * k ≤ 384 → 2 ^ n * k ∈ liftingSizes := by decide +kernel

theorem two_le_liftingSizes : ∀ y ∈ liftingSizes, 2 ≤ y := by decide

theorem liftingSizes_first : ∀ z < 17, 1 < z → z ∈ liftingSizes := by decide

/-- The least lifting size that is not below `z`. -/
def LeastLifting (z zc : ℕ) : Prop :=
  zc ∈ liftingSizes ∧ z ≤ zc ∧ ∀ y ∈ liftingSizes, z ≤ y → zc ≤ y

theorem roundUp_least {z n : ℕ} (hn : n < 6) (hlow : 8 * 2 ^ n < z) (hhigh : z ≤ 16 * 2 ^ n)
    (hmax : z ≤ 384) : LeastLifting z (roundUp z n) := by
  obtain ⟨q, hround, hq⟩ : ∃ q, roundUp z n = 2 ^ n * q ∧ ∀ t, q ≤ t ↔ z ≤ 2 ^ n * t := by
    refine ⟨_, ?_, fun t => quotientUp_le (b := z) (t := t) (Nat.two_pow_pos n)⟩
    grind [roundUp, Nat.shiftRight_eq_div_pow, Nat.shiftLeft_eq, Nat.mul_comm, Nat.mul_succ]
  have hceil : z ≤ 2 ^ n * q := (hq q).mp le_rfl
  have hq16 : q ≤ 16 := (hq 16).mpr (by rwa [Nat.mul_comm])
  have hq8 : 8 < q := by
    rw [← Nat.not_le, hq, Nat.mul_comm]
    omega
  have hq384 : 2 ^ n * q ≤ 384 := by
    obtain ⟨m, hm⟩ : 2 ^ n ∣ 384 := (Nat.pow_dvd_pow 2 (by omega : n ≤ 7)).trans (by decide)
    rw [hm]
    exact Nat.mul_le_mul_left _ ((hq m).mpr (hm ▸ hmax))
  rw [LeastLifting, hround]
  refine ⟨multiples_liftingSizes n hn q (by omega) ⟨hq8, hq384⟩, hceil, fun y hy hzy => ?_⟩
  obtain ⟨m, rfl⟩ := liftingSizes_multiples y hy n hn (by omega)
  exact Nat.mul_le_mul_left _ ((hq m).mpr hzy)

theorem liftingSize_least {z : ℕ} (hmax : z ≤ 384) :
    ∃ zc, liftingSize z = some zc ∧ LeastLifting z zc := by
  rw [liftingSize]
  split_ifs
  · exact ⟨2, rfl, by decide, by omega, fun y hy _ => two_le_liftingSizes y hy⟩
  · exact ⟨z, rfl, liftingSizes_first z (by omega) (by omega), le_rfl, fun _ _ h => h⟩
  all_goals exact ⟨_, rfl, roundUp_least (by decide) (by omega) (by omega) hmax⟩

/-- **The sizes fit every transport block that can be cut.** -/
theorem segmentSizes_fit {b : ℕ} (h : Cuttable b bg) :
    ∃ sizes, segmentSizes b bg = some sizes ∧ sizes.Fit b := by
  obtain ⟨c, l, m, hcount, hl, hc, hb, hK, hsmall⟩ : ∃ c l m, blockCount b bg = (c, l) ∧
      l = (if 1 < c then 24 else 0) ∧ 0 < c ∧ b = c * (8 * m) ∧ 8 * m + l ≤ kcb bg ∧
      (8 * m + l ≤ b ∨ 640 < b) := by
    rcases h with ⟨⟨m, hm⟩, hone | ⟨hlarge, c, hc, ⟨m, hm⟩, hlow, hhigh⟩⟩
    · refine ⟨1, 0, m, if_pos hone, rfl, by decide, by omega, by omega, by omega⟩
    · have := kcb_large bg
      refine ⟨c, 24, m, blockCount_many hlarge hlow hhigh, (if_pos hc).symm, by omega, ?_, ?_, ?_⟩
      · rw [hm]
        ring
      · have hle : c * (8 * m) ≤ c * (kcb bg - 24) := by
          rw [Nat.mul_comm c (kcb bg - 24), ← show b = c * (8 * m) from by rw [hm]; ring]
          exact hhigh
        have := Nat.le_of_mul_le_mul_left hle (by omega : 0 < c)
        omega
      · omega
  have hkprime : (b + c * l) / c = 8 * m + l := by
    rw [hb, ← Nat.mul_add, Nat.mul_div_cancel_left _ hc]
  have hkb := kbOf_pos b bg
  have hup : ∀ t, (if 0 < (8 * m + l) % kbOf b bg then (8 * m + l) / kbOf b bg + 1
      else (8 * m + l) / kbOf b bg) ≤ t ↔ 8 * m + l ≤ kbOf b bg * t := by
    intro t
    simp only [mod_pos_iff]
    exact quotientUp_le hkb
  obtain ⟨zc, hzc, hmem, hge, hleast⟩ := liftingSize_least
    ((hup 384).mpr (le_kbOf_mul hK hsmall))
  refine ⟨⟨c, l, 8 * m + l, kbOf b bg, zc, codeSize bg zc, codeSize bg zc - (8 * m + l)⟩, ?_, ?_⟩
  · grind [segmentSizes]
  · have hlifted : 8 * m + l ≤ kbOf b bg * zc := (hup zc).mp hge
    have hsub : 8 * m + l - l = 8 * m := Nat.add_sub_cancel ..
    exact {
      crcLength := hl
      crcInside := Nat.le_add_left ..
      octets := ⟨m, hsub⟩
      total := by rw [hsub, hb]
      lifting := hmem
      lifted := hlifted
      least := fun z hz hle => hleast z hz ((hup z).mpr hle)
      room := hlifted.trans (kbOf_mul_le b bg zc)
      fillers := rfl }

/-! ### The octets of a block -/

theorem bitAt_octet (buf : ℕ → BitVec 8) (n : ℕ) :
    bitAt buf (8 * n + i) = (buf (n + i / 8)).getMsbD (i % 8) := by grind [bitAt]

theorem octetOf_getMsbD (x : BitVec 32) (hi : i < 24) :
    (octetOf (x >>> 8) (2 - i / 8)).getMsbD (i % 8) = x.getMsbD i := by
  rw [octetOf, BitVec.getMsbD_eq_getLsbD, BitVec.getMsbD_eq_getLsbD, BitVec.getLsbD_setWidth,
    BitVec.getLsbD_ushiftRight, BitVec.getLsbD_ushiftRight,
    show 8 + (8 * (2 - i / 8) + (8 - 1 - i % 8)) = 32 - 1 - i from by omega]
  grind

theorem putCrc24b_before (block : ℕ → BitVec 8) {bitlen : ℕ} (hj : j < bitlen / 8) :
    putCrc24b block bitlen j = block j := by
  simp only [putCrc24b]
  grind

theorem putCrc24b_after (block : ℕ → BitVec 8) {bitlen : ℕ} (hj : bitlen / 8 + 3 ≤ j) :
    putCrc24b block bitlen j = block j := by
  simp only [putCrc24b]
  grind

theorem putCrc24b_crc (block : ℕ → BitVec 8) (bitlen : ℕ) {k : ℕ} (hk : k < 3) :
    putCrc24b block bitlen (bitlen / 8 + k) = octetOf (crc24b block bitlen >>> 8) (2 - k) := by
  simp only [putCrc24b]
  grind

/-- A block before its fillers. -/
def crcBlock (sizes : Sizes) (input : ℕ → BitVec 8) (s : ℕ) (block : ℕ → BitVec 8) :
    ℕ → BitVec 8 :=
  if 1 < sizes.C then
    putCrc24b (copy block 0 input s ((sizes.Kprime - sizes.L) / 8)) (sizes.Kprime - sizes.L)
  else copy block 0 input s ((sizes.Kprime - sizes.L) / 8)

section Block

variable (sizes : Sizes) (input : ℕ → BitVec 8) (s : ℕ) (block : ℕ → BitVec 8)

theorem segmentBlock_eq : segmentBlock sizes input s block =
    if 0 < sizes.F then fill (crcBlock sizes input s block) (sizes.Kprime / 8) (sizes.K / 8) 0
    else crcBlock sizes input s block := rfl

theorem segmentBlock_before (hj : j < sizes.Kprime / 8) :
    segmentBlock sizes input s block j = crcBlock sizes input s block j := by
  rw [segmentBlock_eq]
  grind [fill_outside]

theorem crcBlock_data (hj : j < (sizes.Kprime - sizes.L) / 8) :
    crcBlock sizes input s block j = input (s + j) := by
  have hcopy : copy block 0 input s ((sizes.Kprime - sizes.L) / 8) j = input (s + j) := by
    rw [copy, if_pos ⟨Nat.zero_le j, by omega⟩, Nat.sub_zero]
  rw [crcBlock]
  grind [putCrc24b_before]

theorem segmentBlock_data (hj : j < (sizes.Kprime - sizes.L) / 8) :
    segmentBlock sizes input s block j = input (s + j) := by
  grind [segmentBlock_before, crcBlock_data]

variable {sizes} {b : ℕ} (hfit : sizes.Fit b)

include hfit

theorem Sizes.Fit.octetCount : sizes.Kprime - sizes.L = 8 * ((sizes.Kprime - sizes.L) / 8) := by
  have := hfit.octets
  omega

theorem Sizes.Fit.kprime_octets :
    sizes.Kprime / 8 = (sizes.Kprime - sizes.L) / 8 + (if 1 < sizes.C then 3 else 0) ∧
      sizes.Kprime % 8 = 0 := by
  have hl := hfit.crcLength
  have h8 := hfit.octets
  have hle := hfit.crcInside
  split at hl <;> split <;> omega

theorem segmentBlock_bits (hi : i < sizes.Kprime - sizes.L) :
    bitAt (segmentBlock sizes input s block) i = bitAt input (8 * s + i) := by
  have := hfit.octetCount
  rw [bitAt_octet, bitAt, segmentBlock_data sizes input s block (by omega)]

theorem segmentBlock_crc (hmany : 1 < sizes.C) (hi : i < 24) :
    bitAt (segmentBlock sizes input s block) (sizes.Kprime - 24 + i) =
      (remainder poly24b ((List.range (sizes.Kprime - 24)).map
        (bitAt (segmentBlock sizes input s block)))).getMsbD i := by
  have hl : sizes.L = 24 := by rw [hfit.crcLength, if_pos hmany]
  have hcount := hfit.octetCount
  obtain ⟨hlast, -⟩ := hfit.kprime_octets
  rw [if_pos hmany] at hlast
  rw [← hl]
  have hoctet : segmentBlock sizes input s block ((sizes.Kprime - sizes.L) / 8 + i / 8)
      = octetOf (crc24b (copy block 0 input s ((sizes.Kprime - sizes.L) / 8))
          (sizes.Kprime - sizes.L) >>> 8) (2 - i / 8) := by
    rw [segmentBlock_before sizes input s block (by omega), crcBlock, if_pos hmany]
    exact putCrc24b_crc _ _ (by omega)
  have hsame : (List.range (sizes.Kprime - sizes.L)).map (bitAt (segmentBlock sizes input s block))
      = (List.range (sizes.Kprime - sizes.L)).map
          (bitAt (copy block 0 input s ((sizes.Kprime - sizes.L) / 8))) := by
    refine List.map_congr_left fun k hk => ?_
    have hk := List.mem_range.mp hk
    rw [bitAt, bitAt, segmentBlock_data sizes input s block (by omega), copy,
      if_pos ⟨Nat.zero_le _, by omega⟩, Nat.sub_zero]
  rw [hsame, ← crcOctets_eq poly24b]
  conv_lhs => rw [hcount, bitAt_octet, hoctet]
  exact octetOf_getMsbD _ hi

/-- The fillers: whole octets are cleared, the bits behind them stay. -/
theorem segmentBlock_fillers (hfirst : sizes.Kprime ≤ i) (hlast : i < sizes.K) :
    bitAt (segmentBlock sizes input s block) i =
      if i / 8 < sizes.K / 8 then false else bitAt block i := by
  obtain ⟨hkprime, h8⟩ := hfit.kprime_octets
  have hfillers : 0 < sizes.F := by rw [hfit.fillers]; omega
  rw [segmentBlock_eq, if_pos hfillers]
  by_cases hi : i / 8 < sizes.K / 8
  · grind [bitAt, fill_inside]
  · rw [if_neg hi, bitAt, fill_outside _ _ (Or.inr (by omega)), bitAt, crcBlock]
    split
    next hmany =>
      rw [if_pos hmany] at hkprime
      rw [putCrc24b_after _ (by omega), copy_outside _ _ (Or.inr (by omega))]
    · rw [copy_outside _ _ (Or.inr (by omega))]

end Block

/-! ### All blocks -/

theorem segmentLoop_succ (sizes : Sizes) (input : ℕ → BitVec 8) (output : ℕ → ℕ → BitVec 8)
    (n : ℕ) :
    segmentLoop sizes input output (n + 1) =
      (Function.update (segmentLoop sizes input output n).1 n
        (segmentBlock sizes input (segmentLoop sizes input output n).2
          ((segmentLoop sizes input output n).1 n)),
        (segmentLoop sizes input output n).2 + (sizes.Kprime - sizes.L) / 8) := rfl

theorem segmentLoop_used (sizes : Sizes) (input : ℕ → BitVec 8) (output : ℕ → ℕ → BitVec 8)
    (n : ℕ) :
    (segmentLoop sizes input output n).2 = n * ((sizes.Kprime - sizes.L) / 8) := by
  induction n with
  | zero => rw [Nat.zero_mul]; rfl
  | succ n ih => rw [segmentLoop_succ, ih, Nat.succ_mul]

theorem segmentLoop_block (sizes : Sizes) (input : ℕ → BitVec 8) (output : ℕ → ℕ → BitVec 8)
    (n r : ℕ) : (segmentLoop sizes input output n).1 r =
      if r < n then segmentBlock sizes input (r * ((sizes.Kprime - sizes.L) / 8)) (output r)
      else output r := by
  induction n with
  | zero => rfl
  | succ n ih =>
    have hself := segmentLoop_used sizes input output n
    rw [segmentLoop_succ]
    grind

variable {sizes : Sizes}

theorem segmentLoop_segmented_iff {b : ℕ} (hfit : sizes.Fit b) (input : ℕ → BitVec 8)
    (output : ℕ → ℕ → BitVec 8) :
    Segmented input sizes (segmentLoop sizes input output sizes.C).1 ↔
      ∀ r < sizes.C, ∀ i, sizes.K / 8 * 8 ≤ i → i < sizes.K → bitAt (output r) i = false := by
  have hblock : ∀ r < sizes.C, (segmentLoop sizes input output sizes.C).1 r
      = segmentBlock sizes input (r * ((sizes.Kprime - sizes.L) / 8)) (output r) := by
    intro r hr
    rw [segmentLoop_block, if_pos hr]
  constructor
  · intro hseg r hr i hfirst hlast
    have hkprime := hfit.kprime_octets.2
    have hroom := hfit.room
    have hzero := hseg.zeros r hr i (by omega) hlast
    rwa [hblock r hr, segmentBlock_fillers input _ _ hfit (by omega) hlast, if_neg (by omega)]
      at hzero
  · intro hclear
    refine ⟨fun r hr i hi => ?_, fun hmany r hr i hi => ?_, fun r hr i hfirst hlast => ?_⟩
    · have hstart : 8 * (r * ((sizes.Kprime - sizes.L) / 8)) = r * (sizes.Kprime - sizes.L) := by
        conv_rhs => rw [hfit.octetCount]
        ring
      rw [hblock r hr, segmentBlock_bits input _ _ hfit hi, hstart]
    · grind [segmentBlock_crc]
    · rw [hblock r hr, segmentBlock_fillers input _ _ hfit hfirst hlast]
      split
      · rfl
      · exact hclear r hr i (by omega) hlast

/-! ### The receiver puts the bits together -/

theorem copyLength_eq {b : ℕ} (hfit : sizes.Fit b) :
    copyLength sizes = (sizes.Kprime - sizes.L) / 8 := by
  obtain ⟨hkprime, h8⟩ := hfit.kprime_octets
  have hroom := hfit.room
  rw [copyLength, hfit.fillers]
  omega

theorem reassembleLoop_eq {decodeSuccess : ℕ → Bool} (c : ℕ → ℕ → BitVec 8)
    (buf : ℕ → BitVec 8) {n : ℕ} (hsuccess : ∀ r < n, decodeSuccess r = true) :
    reassembleLoop sizes decodeSuccess c buf n
      = (gather buf c (copyLength sizes) n, n * copyLength sizes) := by
  induction n with
  | zero => rw [Nat.zero_mul]; rfl
  | succ n ih =>
    rw [reassembleLoop, ih fun r hr => hsuccess r (by omega)]
    simp only [hsuccess n (Nat.lt_succ_self n), if_true, gather, Nat.succ_mul]

theorem segmented_reassembled {input : ℕ → BitVec 8} {blocks : ℕ → ℕ → BitVec 8}
    {b : ℕ} (hfit : sizes.Fit b) (hseg : Segmented input sizes blocks) :
    Reassembled input sizes blocks b := by
  intro decodeSuccess c buf hsuccess hsame buf'
  have hbuf : buf' = gather buf c (copyLength sizes) sizes.C :=
    congrArg Prod.fst (reassembleLoop_eq c buf hsuccess)
  have hcount := hfit.octetCount
  have htotal := hfit.total
  rw [copyLength_eq hfit] at hbuf
  generalize (sizes.Kprime - sizes.L) / 8 = n at hbuf hcount
  rw [hcount] at htotal hsame
  rw [hbuf]
  constructor
  · intro i hi
    have hn : 0 < 8 * n := by
      rcases Nat.eq_zero_or_pos (8 * n) with hzero | hpos
      · grind
      · exact hpos
    have hr : i / (8 * n) < sizes.C := by
      rw [Nat.div_lt_iff_lt_mul hn, htotal]
      exact hi
    have hi' := Nat.mod_lt i hn
    have hbits := hseg.bits (i / (8 * n)) hr (i % (8 * n)) (by omega)
    have hsplit : i / (8 * n) * (8 * n) + i % (8 * n) = i := Nat.div_add_mod' i (8 * n)
    rw [hcount, hsplit] at hbits
    rw [← hbits, ← hsame _ hr _ hi']
    conv_lhs => rw [← hsplit, show i / (8 * n) * (8 * n) = 8 * (i / (8 * n) * n) from by ring,
      bitAt_octet, gather_block buf c hr (by omega)]
    rfl
  · grind [gather_outside]

/-- **When segmentation cuts a transport block as it should.**  For every size of a transport block
that is computed, with the base graph that goes with it, the blocks hold its bits in order, CRCs and
zeros, the lifting size is the least one, and the receiver gets the bits back, exactly if the last
bits of each buffer that do not fill an octet were zero. -/
theorem segmentation_correct {qm r nbRb nbSymbSch nbDmrsPrb nbRbOh tbScaling nl a : ℕ}
    (ha : nrComputeTbs qm r nbRb nbSymbSch nbDmrsPrb nbRbOh tbScaling nl = a)
    (input : ℕ → BitVec 8) (output : ℕ → ℕ → BitVec 8) :
    (∃ sizes blocks, nrSegmentation input output (lenWithCrc a) (getBG a r) = some (sizes, blocks) ∧
      sizes.Fit (lenWithCrc a) ∧ Segmented input sizes blocks ∧
      Reassembled input sizes blocks (lenWithCrc a)) ↔
    ∀ sizes, segmentSizes (lenWithCrc a) (getBG a r) = some sizes →
      ∀ n < sizes.C, ∀ i, sizes.K / 8 * 8 ≤ i → i < sizes.K → bitAt (output n) i = false := by
  have hcut := nrComputeTbs_cuttable qm r nbRb nbSymbSch nbDmrsPrb nbRbOh tbScaling nl
  rw [ha] at hcut
  obtain ⟨sizes, hsizes, hfit⟩ := segmentSizes_fit hcut
  have hiff := segmentLoop_segmented_iff hfit input output
  rw [nrSegmentation, hsizes, Option.map_some]
  constructor
  · rintro ⟨_, _, hsome, -, hseg, -⟩ _ hsome'
    simp only [Option.some.injEq, Prod.mk.injEq] at hsome
    obtain ⟨rfl, rfl⟩ := hsome
    obtain rfl := Option.some.inj hsome'
    exact hiff.mp hseg
  · intro hclear
    have hseg := hiff.mpr (hclear sizes rfl)
    exact ⟨sizes, _, rfl, hfit, hseg, segmented_reassembled hfit hseg⟩

/-- A transport block of 6792 bits, cut into two blocks, in buffers of zeros. -/
theorem segmentation_correct_sample :
    nrComputeTbs 2 1200 200 12 0 0 0 1 = 6792 ∧
    ∃ sizes blocks, nrSegmentation (fun i => BitVec.ofNat 8 i) (fun _ _ => 0) (lenWithCrc 6792)
        (getBG 6792 1200) = some (sizes, blocks) ∧ sizes.Fit (lenWithCrc 6792) ∧
      Segmented (fun i => BitVec.ofNat 8 i) sizes blocks ∧
      Reassembled (fun i => BitVec.ofNat 8 i) sizes blocks (lenWithCrc 6792) :=
  ⟨by decide +kernel, (@segmentation_correct 2 1200 200 12 0 0 0 1 6792 (by decide +kernel)
    (fun i => BitVec.ofNat 8 i) (fun _ _ => 0)).mpr fun _ _ _ _ _ _ _ => BitVec.getMsbD_zero⟩

/-- **The last fillers are not cleared.**  A block of 70 bits with 30 fillers keeps the last 6 of
them as they were in the buffer. -/
theorem not_segmentation_correct :
    ¬ ∀ (qm r nbRb nbSymbSch nbDmrsPrb nbRbOh tbScaling nl a : ℕ),
      nrComputeTbs qm r nbRb nbSymbSch nbDmrsPrb nbRbOh tbScaling nl = a →
      ∀ (input : ℕ → BitVec 8) (output : ℕ → ℕ → BitVec 8), ∃ sizes blocks,
        nrSegmentation input output (lenWithCrc a) (getBG a r) = some (sizes, blocks) ∧
        sizes.Fit (lenWithCrc a) ∧ Segmented input sizes blocks ∧
        Reassembled input sizes blocks (lenWithCrc a) := by
  intro hall
  obtain ⟨sizes, blocks, hsizes, -, hseg, -⟩ := hall 2 1200 1 1 0 0 0 1 24 (by decide +kernel)
    (fun _ => 0) (fun _ _ => 0xff)
  have hobserved : (nrSegmentation (fun _ => 0) (fun _ _ => 0xff) (lenWithCrc 24)
      (getBG 24 1200)).map (fun r => (r.1.C, r.1.Kprime, r.1.K, bitAt (r.2 0) 64))
        = some (1, 40, 70, true) := by
    decide +kernel
  rw [hsizes, Option.map_some] at hobserved
  simp only [Option.some.injEq, Prod.mk.injEq] at hobserved
  obtain ⟨hC, hKprime, hK, hbit⟩ := hobserved
  have hzero := hseg.zeros 0 (by omega) 64 (by omega) (by omega)
  exact absurd (hbit.symm.trans hzero) (by decide)

end OaiGnb.Phy
