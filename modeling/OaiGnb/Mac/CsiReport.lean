import OaiGnb.Lib.BitStream
import Mathlib.Data.List.Perm.Basic
import Mathlib.Data.Nat.Log
import Mathlib.Tactic.IntervalCases

/-!
# CSI reports on PUCCH

`get_csirs_RI_PMI_CQI_payload` and `get_ssb_rsrp_payload` of the UE, and what
`extract_pucch_csi_report` of the gNB makes of such a report.

The UE writes the rank itself, the gNB takes it for an index into the ranks that are allowed.  When
the rank has no bits the gNB uses -1 for it, which as an index is 255.  Of a PMI the gNB keeps
eight bits, and of a CQI it reads four.

* `riPmiCqi_extracted`, `rsrp_evaluated`: what the gNB stores.
* `csi_roundTrip`: both are what the UE reported exactly where these cases make no difference.
-/

namespace OaiGnb.Mac.CsiReport

open WordFields BitStream

/-! ### Reversing bits -/

/-- `bit_reverse_table_256`. -/
def bitReverseTable256 : List ℕ :=
  [0x00, 0x80, 0x40, 0xC0, 0x20, 0xA0, 0x60, 0xE0, 0x10, 0x90, 0x50, 0xD0, 0x30, 0xB0, 0x70, 0xF0,
   0x08, 0x88, 0x48, 0xC8, 0x28, 0xA8, 0x68, 0xE8, 0x18, 0x98, 0x58, 0xD8, 0x38, 0xB8, 0x78, 0xF8,
   0x04, 0x84, 0x44, 0xC4, 0x24, 0xA4, 0x64, 0xE4, 0x14, 0x94, 0x54, 0xD4, 0x34, 0xB4, 0x74, 0xF4,
   0x0C, 0x8C, 0x4C, 0xCC, 0x2C, 0xAC, 0x6C, 0xEC, 0x1C, 0x9C, 0x5C, 0xDC, 0x3C, 0xBC, 0x7C, 0xFC,
   0x02, 0x82, 0x42, 0xC2, 0x22, 0xA2, 0x62, 0xE2, 0x12, 0x92, 0x52, 0xD2, 0x32, 0xB2, 0x72, 0xF2,
   0x0A, 0x8A, 0x4A, 0xCA, 0x2A, 0xAA, 0x6A, 0xEA, 0x1A, 0x9A, 0x5A, 0xDA, 0x3A, 0xBA, 0x7A, 0xFA,
   0x06, 0x86, 0x46, 0xC6, 0x26, 0xA6, 0x66, 0xE6, 0x16, 0x96, 0x56, 0xD6, 0x36, 0xB6, 0x76, 0xF6,
   0x0E, 0x8E, 0x4E, 0xCE, 0x2E, 0xAE, 0x6E, 0xEE, 0x1E, 0x9E, 0x5E, 0xDE, 0x3E, 0xBE, 0x7E, 0xFE,
   0x01, 0x81, 0x41, 0xC1, 0x21, 0xA1, 0x61, 0xE1, 0x11, 0x91, 0x51, 0xD1, 0x31, 0xB1, 0x71, 0xF1,
   0x09, 0x89, 0x49, 0xC9, 0x29, 0xA9, 0x69, 0xE9, 0x19, 0x99, 0x59, 0xD9, 0x39, 0xB9, 0x79, 0xF9,
   0x05, 0x85, 0x45, 0xC5, 0x25, 0xA5, 0x65, 0xE5, 0x15, 0x95, 0x55, 0xD5, 0x35, 0xB5, 0x75, 0xF5,
   0x0D, 0x8D, 0x4D, 0xCD, 0x2D, 0xAD, 0x6D, 0xED, 0x1D, 0x9D, 0x5D, 0xDD, 0x3D, 0xBD, 0x7D, 0xFD,
   0x03, 0x83, 0x43, 0xC3, 0x23, 0xA3, 0x63, 0xE3, 0x13, 0x93, 0x53, 0xD3, 0x33, 0xB3, 0x73, 0xF3,
   0x0B, 0x8B, 0x4B, 0xCB, 0x2B, 0xAB, 0x6B, 0xEB, 0x1B, 0x9B, 0x5B, 0xDB, 0x3B, 0xBB, 0x7B, 0xFB,
   0x07, 0x87, 0x47, 0xC7, 0x27, 0xA7, 0x67, 0xE7, 0x17, 0x97, 0x57, 0xD7, 0x37, 0xB7, 0x77, 0xF7,
   0x0F, 0x8F, 0x4F, 0xCF, 0x2F, 0xAF, 0x6F, 0xEF, 0x1F, 0x9F, 0x5F, 0xDF, 0x3F, 0xBF, 0x7F, 0xFF]

/-- The bytes that are reversed as a whole. -/
def reverseBytes (x nBytes : ℕ) : ℕ :=
  (List.range nBytes).foldl
    (fun rev n => rev ||| (bitReverseTable256.getD ((x >>> (8 * n)) % 256) 0)
      <<< (8 * (nBytes - 1 - n))) 0

/-- `reverse_bits`, for at most 64 bits. -/
def reverseBits (x nBits : ℕ) : ℕ :=
  let nBytes := nBits / 8
  (List.range' (nBytes * 8) (nBits % 8)).foldl
    (fun rev i => rev ||| ((x >>> i) % 2) <<< (nBits - i - 1))
    (reverseBytes x nBytes <<< (nBits % 8))

theorem testBit_foldl_or (f : ℕ → ℕ) (j : ℕ) : ∀ (l : List ℕ) (x : ℕ),
    (l.foldl (fun rev i => rev ||| f i) x).testBit j
      = (x.testBit j || l.any fun i => (f i).testBit j) := by
  intro l
  induction l with
  | nil => simp
  | cons i l ih =>
    grind

theorem testBit_bit_shiftLeft (x i s j : ℕ) :
    (((x >>> i) % 2) <<< s).testBit j = (decide (j = s) && x.testBit i) := by
  have hbit : ((x >>> i) % 2).testBit (j - s) =
      (decide (j - s < 1) && x.testBit (i + (j - s))) := by
    rw [show (2 : ℕ) = 2 ^ 1 from rfl, Nat.testBit_mod_two_pow, Nat.testBit_shiftRight]
  by_cases hj : j = s
  · simp_all
  · grind

theorem bitReverseTable256_testBit (b : ℕ) (hb : b < 256) (j : ℕ) :
    (bitReverseTable256.getD b 0).testBit j = (decide (j < 8) && b.testBit (7 - j)) := by
  have hlow : ∀ b < 256, ∀ j < 8, (bitReverseTable256.getD b 0).testBit j = b.testBit (7 - j) := by
    decide +kernel
  have hbyte : ∀ b < 256, bitReverseTable256.getD b 0 < 2 ^ 8 := by
    decide +kernel
  by_cases hj : j < 8
  · simp_all
  · rw [decide_eq_false hj, Bool.false_and]
    refine Nat.testBit_lt_two_pow ((hbyte b hb).trans_le ?_)
    exact Nat.pow_le_pow_right (by decide) (not_lt.mp hj)

theorem testBit_reversed_byte (x n s j : ℕ) :
    ((bitReverseTable256.getD ((x >>> (8 * n)) % 256) 0) <<< s).testBit j = true ↔
      s ≤ j ∧ j < s + 8 ∧ x.testBit (8 * n + (7 - (j - s))) = true := by
  have hbyte : (x >>> (8 * n)) % 256 < 256 := Nat.mod_lt _ (by decide)
  rw [Nat.testBit_shiftLeft, bitReverseTable256_testBit _ hbyte, show 256 = 2 ^ 8 from rfl,
    Nat.testBit_mod_two_pow, Nat.testBit_shiftRight]
  constructor
  · grind
  · grind

theorem reverseBytes_isReverse (x nBytes : ℕ) :
    IsReverse (reverseBytes x nBytes) x (8 * nBytes) := by
  intro j
  unfold reverseBytes
  rw [testBit_foldl_or, Nat.zero_testBit, Bool.false_or, Bool.eq_iff_iff, List.any_eq_true,
    Bool.and_eq_true, decide_eq_true_eq]
  constructor
  · intro h
    obtain ⟨n, hn, hbit⟩ := h
    rw [List.mem_range] at hn
    obtain ⟨hlo, hhi, hbit⟩ := (testBit_reversed_byte _ _ _ _).mp hbit
    refine ⟨by omega, ?_⟩
    rw [show 8 * nBytes - 1 - j = 8 * n + (7 - (j - 8 * (nBytes - 1 - n))) by omega]
    exact hbit
  · intro h
    obtain ⟨hj, hbit⟩ := h
    refine ⟨nBytes - 1 - j / 8, List.mem_range.mpr (by omega), ?_⟩
    refine (testBit_reversed_byte _ _ _ _).mpr ⟨by omega, by omega, ?_⟩
    rw [show 8 * (nBytes - 1 - j / 8) + (7 - (j - 8 * (nBytes - 1 - (nBytes - 1 - j / 8))))
      = 8 * nBytes - 1 - j by omega]
    exact hbit

/-- **`reverse_bits` reverses.**  The whole bytes by the table, the remaining bits one by one. -/
theorem reverseBits_isReverse (x n : ℕ) : IsReverse (reverseBits x n) x n := by
  intro j
  unfold reverseBits
  rw [testBit_foldl_or, Nat.testBit_shiftLeft, reverseBytes_isReverse x (n / 8) (j - n % 8),
    Bool.eq_iff_iff, Bool.or_eq_true, List.any_eq_true]
  simp only [testBit_bit_shiftLeft, Bool.and_eq_true, decide_eq_true_eq, List.mem_range'_1]
  constructor
  · intro h
    rcases h with ⟨hlo, hhi, hbit⟩ | ⟨i, hi, hji, hbit⟩
    · grind
    · grind
  · intro h
    obtain ⟨hj, hbit⟩ := h
    rcases Nat.lt_or_ge j (n % 8) with hlow | hhigh
    · exact Or.inr ⟨n - 1 - j, by omega, by omega, hbit⟩
    · refine Or.inl ⟨hhigh, by omega, ?_⟩
      rw [show 8 * (n / 8) - 1 - (j - n % 8) = n - 1 - j by omega]
      exact hbit

/-! ### Reading bits -/

/-- The loop of `pickandreverse_bits`, at position `pos` of the payload with `k` bits to go; none
stands for a read beyond the payload. -/
def pickLoop (payload : List ℕ) : ℕ → ℕ → ℕ → Option ℕ
  | _, 0, revBits => some revBits
  | pos, k + 1, revBits => do
      let byte ← payload[pos / 8]?
      pickLoop payload (pos + 1) k ((revBits ||| ((byte >>> (pos % 8)) % 2) <<< k) % 256)

/-- `pickandreverse_bits`. -/
def pickandreverseBits (payload : List ℕ) (bitlen startBit : ℕ) : Option ℕ :=
  pickLoop payload (startBit % 256) bitlen 0

/-- The payload as the PHY hands it to the gNB: `bitlen` bits in bytes. -/
def payloadBytes (x bitlen : ℕ) : List ℕ :=
  (List.range ((bitlen + 7) / 8)).map fun n => ((x % 2 ^ bitlen) >>> (8 * n)) % 256

theorem payloadBytes_bit {x bitlen pos : ℕ} (h : pos < bitlen) :
    ∃ byte, (payloadBytes x bitlen)[pos / 8]? = some byte ∧
      (byte >>> (pos % 8)) % 2 = (x.testBit pos).toNat := by
  refine ⟨((x % 2 ^ bitlen) >>> (8 * (pos / 8))) % 256, ?_, ?_⟩
  · grind [payloadBytes, List.getElem?_range]
  · have hbit : (((x % 2 ^ bitlen) >>> (8 * (pos / 8))) % 256).testBit (pos % 8) =
        x.testBit pos := by
      rw [show 256 = 2 ^ 8 from rfl, Nat.testBit_mod_two_pow, Nat.testBit_shiftRight,
        Nat.testBit_mod_two_pow, decide_eq_true (by omega), decide_eq_true (by omega),
        Bool.true_and, Bool.true_and, Nat.div_add_mod]
    rw [← hbit, Nat.toNat_testBit, Nat.shiftRight_eq_div_pow]

theorem pickLoop_field {x bitlen v : ℕ} {w pos revBits : ℕ} (h : HoldsField x pos w v)
    (hpos : pos + w ≤ bitlen) :
    pickLoop (payloadBytes x bitlen) pos w revBits
      = some (if w = 0 then revBits else (revBits ||| v % 2 ^ w) % 256) := by
  induction w generalizing pos revBits with
  | zero => rfl
  | succ w ih =>
    obtain ⟨htop, hrest⟩ := h.succ
    obtain ⟨byte, hbyte, hbit⟩ := @payloadBytes_bit x bitlen pos (by omega)
    show ((payloadBytes x bitlen)[pos / 8]?).bind _ = _
    rw [hbyte, Option.bind_some, hbit, htop, ih hrest (by omega), if_neg (Nat.succ_ne_zero w)]
    have hvalue : (v.testBit w).toNat <<< w ||| v % 2 ^ w = v % 2 ^ (w + 1) := by
      refine Nat.eq_of_testBit_eq ?_
      intro i
      rw [Nat.testBit_or, Nat.toNat_testBit, ← Nat.shiftRight_eq_div_pow, testBit_bit_shiftLeft,
        Nat.testBit_mod_two_pow, Nat.testBit_mod_two_pow]
      rcases Nat.lt_trichotomy i w with hi | hi | hi
      · grind
      · simp_all
      · grind
    split_ifs with hw
    · subst hw
      grind
    · rw [show 256 = 2 ^ 8 from rfl, Nat.or_mod_two_pow, Nat.mod_mod, ← Nat.or_mod_two_pow,
        Nat.or_assoc, hvalue]

/-- **A field is read**, as far as it fits eight bits. -/
theorem pickandreverseBits_field {x bitlen pos w v : ℕ} (h : HoldsField x pos w v)
    (hpos : pos + w ≤ bitlen) (hlen : bitlen < 256) (hv : v < 2 ^ w) :
    pickandreverseBits (payloadBytes x bitlen) w pos = some (v % 256) := by
  unfold pickandreverseBits
  rw [Nat.mod_eq_of_lt (by omega), pickLoop_field h hpos, Nat.zero_or, Nat.mod_eq_of_lt hv]
  split_ifs with hw
  · simp_all
  · rfl

theorem pickLoop_inside {x bitlen : ℕ} : ∀ {w pos revBits : ℕ}, pos + w ≤ bitlen →
    ∃ v, pickLoop (payloadBytes x bitlen) pos w revBits = some v := by
  intro w
  induction w with
  | zero => exact fun {pos revBits} _ => ⟨revBits, rfl⟩
  | succ w ih =>
    intro pos revBits hpos
    obtain ⟨byte, hbyte, -⟩ := @payloadBytes_bit x bitlen pos (by omega)
    show ∃ v, ((payloadBytes x bitlen)[pos / 8]?).bind _ = some v
    rw [hbyte, Option.bind_some]
    exact ih (by omega)

theorem pickandreverseBits_inside {x bitlen pos w : ℕ} (hpos : pos + w ≤ bitlen)
    (hlen : bitlen < 256) : ∃ v, pickandreverseBits (payloadBytes x bitlen) w pos = some v := by
  unfold pickandreverseBits
  rw [Nat.mod_eq_of_lt (by omega)]
  exact pickLoop_inside hpos

/-! ### Rank, PMI and CQI -/

/-- `CSI_Meas_bitlen_t`: the lengths of the fields, for each rank. -/
structure MeasBitlen where
  riRestriction : ℕ
  criBitlen : ℕ
  riBitlen : ℕ
  liBitlen : Fin 8 → ℕ
  pmiX1Bitlen : Fin 8 → ℕ
  pmiX2Bitlen : Fin 8 → ℕ
  cqiBitlen : Fin 8 → ℕ

/-- An entry of an array of eight; none stands for an index out of range. -/
def entry (a : Fin 8 → ℕ) (i : ℕ) : Option ℕ := if h : i < 8 then some (a ⟨i, h⟩) else none

/-- The bits of a report with the rank of index `i`. -/
def MeasBitlen.reported (c : MeasBitlen) (i : Fin 8) : ℕ :=
  c.criBitlen + c.riBitlen + c.liBitlen i + c.cqiBitlen i + c.pmiX1Bitlen i + c.pmiX2Bitlen i

/-- `nr_get_csi_bitlen` for a report of this kind. -/
def nrGetCsiBitlen (c : MeasBitlen) : ℕ :=
  (List.finRange 8).foldl (fun maxBitlen i => if c.reported i > maxBitlen then c.reported i
    else maxBitlen) 0

/-- `NR_CSIRS_meas_t`; `ri` is the rank less one. -/
structure CsirsMeas where
  ri : ℕ
  i1 : ℕ
  i2 : ℕ
  cqi : ℕ
  deriving Repr, DecidableEq

/-- An `int` as a `uint64_t`. -/
def intToUint64 (x : ℕ) : ℕ :=
  let y := x % 2 ^ 32
  if 2 ^ 31 ≤ y then y + (2 ^ 64 - 2 ^ 32) else y

/-- `temp_payload_1` before it is reversed; the CRI is always 0. -/
def reportWord (m : CsirsMeas) (padding x1 x2 cqi : ℕ) : ℕ :=
  (m.ri <<< (cqi + x2 + x1 + padding)) ||| (m.i1 <<< (cqi + x2)) ||| (m.i2 <<< cqi) ||| m.cqi

/-- `get_csirs_RI_PMI_CQI_payload` for PUCCH: the payload and its length; none stands for an
assertion or an index out of range. -/
def getCsirsRiPmiCqiPayload (c : MeasBitlen) (m : CsirsMeas) : Option (ℕ × ℕ) := do
  let x1 ← entry c.pmiX1Bitlen m.ri
  let x2 ← entry c.pmiX2Bitlen m.ri
  let cqi ← entry c.cqiBitlen m.ri
  let p1Bits := nrGetCsiBitlen c
  let padding := p1Bits - (c.criBitlen + c.riBitlen + x1 + x2 + cqi)
  if 32 < p1Bits then none
  else some (reverseBits (intToUint64 (reportWord m padding x1 x2 cqi)) p1Bits, p1Bits)

/-- `struct CRI_RI_LI_PMI_CQI`, as far as such a report sets it. -/
structure CriRiPmiCqi where
  cri : ℕ
  ri : ℕ
  pmiX1 : ℕ
  pmiX2 : ℕ
  wbCqi1tb : ℕ
  wbCqi2tb : ℕ
  deriving Repr, DecidableEq

/-- The loop of `evaluate_ri_report` from `i` on, with `count` of the allowed ranks below `i`. -/
def findRank (riRestriction riIndex : ℕ) : ℕ → ℕ → ℕ → Option ℕ
  | 0, _, _ => none
  | k + 1, i, count =>
      if (riRestriction >>> i) % 2 = 1 then
        if count = riIndex then some i else findRank riRestriction riIndex k (i + 1) (count + 1)
      else findRank riRestriction riIndex k (i + 1) count

/-- `evaluate_ri_report`. -/
def evaluateRiReport (payload : List ℕ) (riBitlen riRestriction cumulBits : ℕ) : Option ℕ := do
  let riIndex ← pickandreverseBits payload riBitlen cumulBits
  findRank riRestriction riIndex 8 0 0

/-- `r_index`, none for -1. -/
def rIndex (c : MeasBitlen) (payload : List ℕ) : Option (Option ℕ) :=
  if c.riBitlen = 0 then some none
  else (evaluateRiReport payload c.riBitlen c.riRestriction c.criBitlen).map some

/-- The CRI, if it has bits. -/
def evaluateCri (c : MeasBitlen) (payload : List ℕ) (old : ℕ) : Option ℕ :=
  if c.criBitlen = 0 then some old else pickandreverseBits payload c.criBitlen 0

/-- `skip_zero_padding`, if the rank is known. -/
def skipZeroPadding (c : MeasBitlen) (bitlen cumulBits : ℕ) : Option ℕ → Option ℕ
  | none => some cumulBits
  | some ri => do
      let li ← entry c.liBitlen ri
      let cqi ← entry c.cqiBitlen ri
      let x1 ← entry c.pmiX1Bitlen ri
      let x2 ← entry c.pmiX2Bitlen ri
      return cumulBits + (bitlen - (c.criBitlen + c.riBitlen + li + cqi + x1 + x2))

/-- `evaluate_cqi_report`: the CQI of the first and of the second transport block. -/
def evaluateCqiReport (c : MeasBitlen) (payload : List ℕ) (cumulBits ri old2tb : ℕ) :
    Option (ℕ × ℕ) := do
  let cqiBitlen ← entry c.cqiBitlen ri
  let tempCqi ← pickandreverseBits payload 4 cumulBits
  return (tempCqi, if cqiBitlen > 4 then tempCqi else old2tb)

/-- `extract_pucch_csi_report` for a report of RI, PMI and CQI; none stands for an assertion or an
index out of range. -/
def extractRiPmiCqi (c : MeasBitlen) (bitlen : ℕ) (payload : List ℕ) (old : CriRiPmiCqi) :
    Option CriRiPmiCqi := do
  let cri ← evaluateCri c payload old.cri
  let r ← rIndex c payload
  let cumulBits ← skipZeroPadding c bitlen (c.criBitlen + c.riBitlen) r
  -- as an index of type uint8_t, -1 is 255
  let ri := r.getD 255
  let x1 ← entry c.pmiX1Bitlen ri
  let x2 ← entry c.pmiX2Bitlen ri
  let pmiX1 ← pickandreverseBits payload x1 cumulBits
  let pmiX2 ← pickandreverseBits payload x2 (cumulBits + x1)
  let cqi ← evaluateCqiReport c payload (cumulBits + (x1 + x2) % 256) ri old.wbCqi2tb
  return ⟨cri, r.getD old.ri, pmiX1, pmiX2, cqi.1, cqi.2⟩

theorem foldl_max_le (f : Fin 8 → ℕ) : ∀ (l : List (Fin 8)) (m : ℕ),
    m ≤ l.foldl (fun m i => if f i > m then f i else m) m ∧
      ∀ i ∈ l, f i ≤ l.foldl (fun m i => if f i > m then f i else m) m := by
  intro l
  induction l with
  | nil => simp
  | cons j l ih =>
    grind

theorem reported_le (c : MeasBitlen) (i : Fin 8) : c.reported i ≤ nrGetCsiBitlen c :=
  (foldl_max_le c.reported (List.finRange 8) 0).2 i (List.mem_finRange i)

theorem entry_val (a : Fin 8 → ℕ) (i : Fin 8) : entry a i = some (a i) := dif_pos i.isLt

theorem testBit_intToUint64 (x : ℕ) {i : ℕ} (hi : i < 32) :
    (intToUint64 x).testBit i = x.testBit i := by
  have hmod : intToUint64 x % 2 ^ 32 = x % 2 ^ 32 := by
    unfold intToUint64
    dsimp only
    split_ifs <;> omega
  have hbit := congrArg (fun y => y.testBit i) hmod
  simp only [Nat.testBit_mod_two_pow, decide_eq_true hi, Bool.true_and] at hbit
  exact hbit

theorem intToUint64_isReverse {x y n : ℕ} (hn : n ≤ 32) (h : IsReverse y (intToUint64 x) n) :
    IsReverse y x n := by
  intro j
  rw [h j]
  grind [testBit_intToUint64]

/-- The zero padding of a report. -/
def MeasBitlen.padding (c : MeasBitlen) (r : Fin 8) : ℕ :=
  nrGetCsiBitlen c - (c.criBitlen + c.riBitlen + c.pmiX1Bitlen r + c.pmiX2Bitlen r + c.cqiBitlen r)

/-- The fields of a report behind the CRI. -/
def reportFields (c : MeasBitlen) (r : Fin 8) (m : CsirsMeas) : List (ℕ × ℕ) :=
  [(c.riBitlen, m.ri), (c.padding r, 0), (c.pmiX1Bitlen r, m.i1), (c.pmiX2Bitlen r, m.i2),
   (c.cqiBitlen r, m.cqi)]

theorem reportWord_filled {m : CsirsMeas} {cri ri padding x1 x2 cqi n : ℕ}
    (hn : n = cri + ri + padding + x1 + x2 + cqi) (hri : m.ri < 2 ^ ri) (h1 : m.i1 < 2 ^ x1)
    (h2 : m.i2 < 2 ^ x2) (hcqi : m.cqi < 2 ^ cqi) :
    Filled (reportWord m padding x1 x2 cqi) n
      [(cri, 0), (ri, m.ri), (padding, 0), (x1, m.i1), (x2, m.i2), (cqi, m.cqi)] := by
  have hfill := (filled_nil n).put (Nat.two_pow_pos cri) (by simp only [width]; omega)
  have hfill := hfill.put hri (by simp only [width, width_append]; omega)
  have hfill := hfill.put (Nat.two_pow_pos padding) (by simp only [width, width_append]; omega)
  have hfill := hfill.put h1 (by simp only [width, width_append]; omega)
  have hfill := hfill.put h2 (by simp only [width, width_append]; omega)
  have hfill := hfill.put hcqi (by simp only [width, width_append]; omega)
  simp only [width, Nat.add_zero, Nat.zero_shiftLeft, Nat.or_zero, Nat.zero_or, List.nil_append,
    List.cons_append] at hfill
  rw [show n - (cri + ri) = cqi + x2 + x1 + padding by omega,
    show n - (cri + (ri + padding) + x1) = cqi + x2 by omega,
    show n - (cri + (ri + (padding + x1)) + x2) = cqi by omega,
    show n - (cri + (ri + (padding + (x1 + x2))) + cqi) = 0 by omega, Nat.shiftLeft_zero] at hfill
  exact hfill

/-- A measurement that the configuration of a report of at most 32 bits allows; such a report has no
layer indicator, and its CQI is that of one or two transport blocks. -/
structure Allowed (c : MeasBitlen) (m : CsirsMeas) (r : Fin 8) : Prop where
  rank : m.ri = r
  restriction : c.riRestriction.testBit r = true
  i1_lt : m.i1 < 2 ^ c.pmiX1Bitlen r
  i2_lt : m.i2 < 2 ^ c.pmiX2Bitlen r
  i2_byte : m.i2 < 256
  cqi_lt : m.cqi < 2 ^ c.cqiBitlen r
  cqi_width : c.cqiBitlen r = 4 ∨ c.cqiBitlen r = 8
  li_zero : c.liBitlen r = 0
  length_le : nrGetCsiBitlen c ≤ 32

section RiPmiCqi

variable {c : MeasBitlen} {m : CsirsMeas} {r : Fin 8}

/-- The fields are in the payload; of a rank that has too few bits the lower ones are, and the
others fall on the CRI or out of the payload. -/
theorem getCsirsRiPmiCqiPayload_stream (h : Allowed c m r) :
    ∃ x, getCsirsRiPmiCqiPayload c m = some (x, nrGetCsiBitlen c) ∧
      HoldsFields x c.criBitlen (reportFields c r { m with ri := m.ri % 2 ^ c.riBitlen }) := by
  have hlen := h.length_le
  have hle := reported_le c r
  unfold MeasBitlen.reported at hle
  have hreverse := intToUint64_isReverse hlen (reverseBits_isReverse
    (intToUint64 (reportWord m (c.padding r) (c.pmiX1Bitlen r) (c.pmiX2Bitlen r) (c.cqiBitlen r)))
    (nrGetCsiBitlen c))
  have hfilled := @reportWord_filled { m with ri := m.ri % 2 ^ c.riBitlen } c.criBitlen c.riBitlen
    (c.padding r) (c.pmiX1Bitlen r) (c.pmiX2Bitlen r) (c.cqiBitlen r) (nrGetCsiBitlen c)
    (by unfold MeasBitlen.padding; omega) (Nat.mod_lt _ (Nat.two_pow_pos _)) h.i1_lt h.i2_lt
    h.cqi_lt
  have hword : reportWord m (c.padding r) (c.pmiX1Bitlen r) (c.pmiX2Bitlen r) (c.cqiBitlen r) =
      reportWord { m with ri := m.ri % 2 ^ c.riBitlen } (c.padding r) (c.pmiX1Bitlen r)
        (c.pmiX2Bitlen r) (c.cqiBitlen r) |||
        (m.ri / 2 ^ c.riBitlen) <<< (nrGetCsiBitlen c - c.criBitlen) := by
    have hsplit : m.ri = m.ri % 2 ^ c.riBitlen ||| (m.ri / 2 ^ c.riBitlen) <<< c.riBitlen := by
      rw [Nat.or_comm, ← Nat.shiftLeft_add_eq_or_of_lt (Nat.mod_lt _ (Nat.two_pow_pos _)),
        Nat.shiftLeft_eq, Nat.mul_comm, Nat.div_add_mod]
    have hshift : nrGetCsiBitlen c - c.criBitlen =
        c.riBitlen + (c.cqiBitlen r + c.pmiX2Bitlen r + c.pmiX1Bitlen r + c.padding r) := by
      unfold MeasBitlen.padding
      omega
    have hrank : ∀ s, m.ri <<< s =
        (m.ri % 2 ^ c.riBitlen) <<< s ||| (m.ri / 2 ^ c.riBitlen) <<< (c.riBitlen + s) := by
      intro s
      rw [Nat.shiftLeft_add, ← Nat.shiftLeft_or_distrib, ← hsplit]
    unfold reportWord
    rw [hshift]
    dsimp only
    rw [hrank]
    ac_rfl
  refine ⟨_, ?_, holdsFields_of_reverse hreverse (by omega) ?_⟩
  · unfold getCsirsRiPmiCqiPayload
    rw [h.rank, entry_val, entry_val, entry_val]
    show (if 32 < nrGetCsiBitlen c then none else _) = _
    rw [if_neg (not_lt.mpr hlen)]
    rfl
  · rw [hword]
    exact Carries.or_above _ hfilled.carries.2 le_rfl

/-- The allowed ranks from `i` on below `r`. -/
def ranksBelow (restriction i r : ℕ) : ℕ :=
  (List.range' i (r - i)).countP fun j => restriction.testBit j

theorem ranksBelow_step {restriction i r : ℕ} (h : i < r) :
    ranksBelow restriction i r =
      (restriction.testBit i).toNat + ranksBelow restriction (i + 1) r := by
  unfold ranksBelow
  obtain ⟨d, hd⟩ : ∃ d, r - i = d + 1 := ⟨r - i - 1, by omega⟩
  rw [hd, List.range'_succ, List.countP_cons, show r - (i + 1) = d by omega]
  cases restriction.testBit i <;> simp [Nat.add_comm]

theorem findRank_ge {restriction index : ℕ} : ∀ {k i count j : ℕ},
    findRank restriction index k i count = some j → i ≤ j := by
  intro k
  induction k with
  | zero => intro i count j h; cases h
  | succ k ih =>
    intro i count j h
    rw [findRank] at h
    split at h
    · split at h
      · exact (Option.some.inj h).le
      · exact (Nat.le_succ i).trans (ih h)
    · exact (Nat.le_succ i).trans (ih h)

/-- **The gNB finds an allowed rank** exactly if the index is its place among the allowed ones. -/
theorem findRank_eq_some_iff {restriction index r : ℕ} (hr : restriction.testBit r = true) :
    ∀ {k i count : ℕ}, i ≤ r → r < i + k →
      (findRank restriction index k i count = some r ↔
        count + ranksBelow restriction i r = index) := by
  intro k
  induction k with
  | zero => omega
  | succ k ih =>
    intro i count hi hlt
    have hbit : (restriction >>> i) % 2 = 1 ↔ restriction.testBit i = true := by
      rw [Nat.testBit_eq_decide_div_mod_eq, decide_eq_true_eq, Nat.shiftRight_eq_div_pow]
    rw [findRank]
    rcases hi.eq_or_lt with rfl | hi
    · have hzero : ranksBelow restriction i i = 0 := by
        unfold ranksBelow
        simp
      rw [if_pos (hbit.mpr hr), hzero, Nat.add_zero]
      split
      next heq => exact iff_of_true rfl heq
      next hne => exact iff_of_false (fun h => absurd (findRank_ge h) (by omega)) hne
    · rw [ranksBelow_step hi]
      by_cases hset : restriction.testBit i = true
      · rw [if_pos (hbit.mpr hset), hset, Bool.toNat_true]
        split
        · exact iff_of_false (fun h => absurd (Option.some.inj h) (by omega)) (by omega)
        · rw [ih (by omega) (by omega)]
          omega
      · rw [if_neg fun h => hset (hbit.mp h), ih (by omega) (by omega),
          Bool.eq_false_iff.mpr hset, Bool.toNat_false, Nat.zero_add]

/-- What the gNB reads needs: the rank has bits, and its place among the allowed ranks is what these
bits hold of it; the first part of the PMI fits eight bits; and the CQI has four, or is 0. -/
structure Readable (c : MeasBitlen) (m : CsirsMeas) (r : Fin 8) : Prop where
  ri_pos : 0 < c.riBitlen
  index : ranksBelow c.riRestriction 0 r = m.ri % 2 ^ c.riBitlen
  i1_lt : m.i1 < 256
  cqi_four : c.cqiBitlen r = 4 ∨ m.cqi = 0

/-- The gNB stores the rank, the PMI and the CQI of the UE's report. -/
def RiPmiCqiStored (c : MeasBitlen) (m : CsirsMeas) (old : CriRiPmiCqi) : Prop :=
  ∃ x new, getCsirsRiPmiCqiPayload c m = some (x, nrGetCsiBitlen c) ∧
    extractRiPmiCqi c (nrGetCsiBitlen c) (payloadBytes x (nrGetCsiBitlen c)) old = some new ∧
    new.ri = m.ri ∧ new.pmiX1 = m.i1 ∧ new.pmiX2 = m.i2 ∧ new.wbCqi1tb = m.cqi

/-- The four bits of the CQI that the gNB reads. -/
def cqiRead (c : MeasBitlen) (m : CsirsMeas) (r : Fin 8) : ℕ :=
  if c.cqiBitlen r = 4 then m.cqi else m.cqi / 16

theorem cqiRead_eq_iff :
    cqiRead c m r = m.cqi ↔ c.cqiBitlen r = 4 ∨ m.cqi = 0 := by
  unfold cqiRead
  split
  next h4 => simp [h4]
  next h4 =>
    rw [or_iff_right h4]
    omega

/-- **What the gNB makes of a report** whose rank has bits. -/
theorem extractRiPmiCqi_eq (h : Allowed c m r) (hpos : 0 < c.riBitlen) (old : CriRiPmiCqi) :
    ∃ x, getCsirsRiPmiCqiPayload c m = some (x, nrGetCsiBitlen c) ∧
      rIndex c (payloadBytes x (nrGetCsiBitlen c)) =
        (findRank c.riRestriction (m.ri % 2 ^ c.riBitlen) 8 0 0).map some ∧
      (rIndex c (payloadBytes x (nrGetCsiBitlen c)) = some (some (r : ℕ)) →
        ∃ new, extractRiPmiCqi c (nrGetCsiBitlen c) (payloadBytes x (nrGetCsiBitlen c)) old =
            some new ∧
          new.ri = m.ri ∧ new.pmiX1 = m.i1 % 256 ∧ new.pmiX2 = m.i2 ∧
          new.wbCqi1tb = cqiRead c m r) := by
  obtain ⟨x, hx, hfields⟩ := getCsirsRiPmiCqiPayload_stream h
  have hlen := h.length_le
  have hli := h.li_zero
  obtain ⟨hri, -, h1, h2, hcqi, -⟩ := hfields
  have hle := reported_le c r
  unfold MeasBitlen.reported at hle
  have hpadding : c.padding r
      = nrGetCsiBitlen c - (c.criBitlen + c.riBitlen + 0 + c.cqiBitlen r + c.pmiX1Bitlen r
        + c.pmiX2Bitlen r) := by
    unfold MeasBitlen.padding
    omega
  have hmod : m.ri % 2 ^ c.riBitlen < 2 ^ c.riBitlen := Nat.mod_lt _ (Nat.two_pow_pos _)
  have hbelow8 : m.ri % 2 ^ c.riBitlen < 256 := by
    have hr := h.rank
    have := Nat.mod_le m.ri (2 ^ c.riBitlen)
    omega
  refine ⟨x, hx, ?_, fun hreadRi => ?_⟩
  · unfold rIndex evaluateRiReport
    rw [if_neg (Nat.ne_of_gt hpos), pickandreverseBits_field hri (by omega) (by omega) hmod,
      Nat.mod_eq_of_lt hbelow8]
    rfl
  -- the fields, as far as the gNB reads them
  have hreadCri : ∃ cri, evaluateCri c (payloadBytes x (nrGetCsiBitlen c)) old.cri = some cri := by
    unfold evaluateCri
    split_ifs
    · exact ⟨_, rfl⟩
    · exact pickandreverseBits_inside (by omega) (by omega)
  have hread1 := @pickandreverseBits_field _ (nrGetCsiBitlen c) _ _ _ h1 (by omega) (by omega)
    h.i1_lt
  have hread2 := @pickandreverseBits_field _ (nrGetCsiBitlen c) _ _ _ h2 (by omega) (by omega)
    h.i2_lt
  have hcqi4 : HoldsField x (c.criBitlen + c.riBitlen + c.padding r + c.pmiX1Bitlen r +
      c.pmiX2Bitlen r) 4 (cqiRead c m r) := by
    unfold cqiRead
    rcases h.cqi_width with h4 | h8
    · rw [if_pos h4]
      exact h4 ▸ hcqi
    · rw [if_neg (by omega)]
      intro i hi
      have := hcqi i (by omega)
      rw [this, show 16 = 2 ^ 4 from rfl, Nat.testBit_div_two_pow, h8]
      congr 1
      omega
  have hwidth : 4 ≤ c.cqiBitlen r := by
    rcases h.cqi_width with h4 | h8 <;> omega
  have hcqilt : cqiRead c m r < 2 ^ 4 := by
    have := h.cqi_lt
    unfold cqiRead
    rcases h.cqi_width with h4 | h8
    · rw [if_pos h4]
      rwa [h4] at this
    · rw [if_neg (by omega)]
      rw [h8] at this
      omega
  have hreadCqi := @pickandreverseBits_field _ (nrGetCsiBitlen c) _ _ _ hcqi4 (by omega) (by omega)
    hcqilt
  rw [Nat.mod_eq_of_lt h.i2_byte] at hread2
  rw [Nat.mod_eq_of_lt (hcqilt.trans (by decide))] at hreadCqi
  obtain ⟨cri, hreadCri⟩ := hreadCri
  have hskip : skipZeroPadding c (nrGetCsiBitlen c) (c.criBitlen + c.riBitlen) (some (r : ℕ))
      = some (c.criBitlen + c.riBitlen + c.padding r) := by
    simp only [skipZeroPadding, entry_val, hli, hpadding]
    rfl
  have hsecond : ∃ second, evaluateCqiReport c (payloadBytes x (nrGetCsiBitlen c))
      (c.criBitlen + c.riBitlen + c.padding r + (c.pmiX1Bitlen r + c.pmiX2Bitlen r) % 256)
      (r : ℕ) old.wbCqi2tb = some (cqiRead c m r, second) := by
    unfold evaluateCqiReport
    rw [entry_val, Nat.mod_eq_of_lt (show c.pmiX1Bitlen r + c.pmiX2Bitlen r < 256 by omega),
      ← Nat.add_assoc, hreadCqi]
    exact ⟨_, rfl⟩
  obtain ⟨second, hsecond⟩ := hsecond
  refine ⟨⟨cri, r, m.i1 % 256, m.i2, cqiRead c m r, second⟩, ?_, h.rank.symm, rfl, rfl, rfl⟩
  unfold extractRiPmiCqi
  rw [hreadCri, hreadRi]
  simp only [Option.bind_eq_bind, Option.bind_some, hskip, Option.getD_some, entry_val, hread1,
    hread2, hsecond]
  rfl

/-- **When the gNB stores what the UE reported.** -/
theorem riPmiCqi_extracted (h : Allowed c m r) (old : CriRiPmiCqi) :
    RiPmiCqiStored c m old ↔ Readable c m r := by
  by_cases hpos : 0 < c.riBitlen
  · obtain ⟨x, hx, hrank, hnew⟩ := extractRiPmiCqi_eq h hpos old
    have hfind := @findRank_eq_some_iff _ (m.ri % 2 ^ c.riBitlen) _ h.restriction 8 _ 0
      (Nat.zero_le _) (by omega)
    rw [Nat.zero_add] at hfind
    constructor
    · rintro ⟨x', new, hx', hextract, hri, h1, h2, hcqi⟩
      obtain ⟨rfl, -⟩ := Prod.mk.inj (Option.some.inj (hx.symm.trans hx'))
      have hfound : findRank c.riRestriction (m.ri % 2 ^ c.riBitlen) 8 0 0 = some (r : ℕ) := by
        unfold extractRiPmiCqi at hextract
        rw [hrank] at hextract
        cases hf : findRank c.riRestriction (m.ri % 2 ^ c.riBitlen) 8 0 0 with
        | none => simp [hf] at hextract
        | some i =>
          simp only [hf, Option.map_some, Option.bind_eq_bind, Option.bind_eq_some_iff,
            Option.some.injEq, exists_eq_left', Option.getD_some, pure] at hextract
          obtain ⟨_, _, _, _, _, _, _, _, _, _, _, _, _, _, rfl⟩ := hextract
          rw [← h.rank, ← hri]
      obtain ⟨new', hnew', _, h1', _, hcqi'⟩ := hnew (by rw [hrank, hfound]; rfl)
      obtain rfl := Option.some.inj (hextract.symm.trans hnew')
      refine ⟨hpos, hfind.mp hfound, ?_, cqiRead_eq_iff.mp (hcqi'.symm.trans hcqi)⟩
      omega
    · intro hread
      obtain ⟨new, hextract, hri, h1, h2, hcqi⟩ := hnew (by
        rw [hrank, hfind.mpr hread.index]
        rfl)
      refine ⟨x, new, hx, hextract, hri, ?_, h2, ?_⟩
      · rw [h1, Nat.mod_eq_of_lt hread.i1_lt]
      · rw [hcqi, cqiRead_eq_iff.mpr hread.cqi_four]
  · refine iff_of_false ?_ fun hread => hpos hread.ri_pos
    rintro ⟨x, new, -, hextract, -⟩
    have hzero : c.riBitlen = 0 := by omega
    have hout : entry c.pmiX1Bitlen 255 = none := rfl
    unfold extractRiPmiCqi rIndex skipZeroPadding at hextract
    simp [hzero, hout] at hextract

end RiPmiCqi

/-! ### RSRP of SSBs -/

/-- `get_rsrp_index`. -/
def getRsrpIndex (rsrpDbm : ℤ) : ℕ :=
  if rsrpDbm < -140 then 16 else if rsrpDbm > -44 then 113 else (rsrpDbm + 157).toNat

/-- `get_rsrp_diff_index`, a `uint8_t`. -/
def getRsrpDiffIndex (bestRsrp currentRsrp : ℤ) : ℕ :=
  let diff := bestRsrp - currentRsrp
  if diff > 30 then 15 else ((diff / 2) % 256).toNat

/-- `NR_RSRP_meas_t`: the index of an SSB in the resource list and its RSRP. -/
structure RsrpMeas where
  ssbIndex : ℕ
  ssbRsrpDbm : ℤ
  deriving Repr, DecidableEq

/-- The measurements of the SSBs of the resource list, in the order of the SSBs. -/
def ssbMeasurements (ssbList : List ℕ) (rsrp : ℕ → ℤ) : List RsrpMeas :=
  (List.range 64).filterMap fun ssb => (ssbList.idxOf? ssb).map fun resource => ⟨resource, rsrp ssb⟩

/-- A field is put above `bits` bits of the payload. -/
def pushField (s : ℕ × ℕ) (w v : ℕ) : ℕ × ℕ := (s.1 ||| reverseBits v w <<< s.2, s.2 + w)

/-- The loop over the resource indicators, from `i` on with `k` to go. -/
def pushIndicators (sorted : List RsrpMeas) (ssbriBits : ℕ) : ℕ → ℕ → ℕ × ℕ → Option (ℕ × ℕ)
  | _, 0, s => some s
  | i, k + 1, s =>
      if 0 < ssbriBits then do
        let m ← sorted[i]?
        pushIndicators sorted ssbriBits (i + 1) k (pushField s ssbriBits m.ssbIndex)
      else pushIndicators sorted ssbriBits (i + 1) k s

/-- The loop over the differential reports. -/
def pushDifferences (sorted : List RsrpMeas) (best : ℤ) : ℕ → ℕ → ℕ × ℕ → Option (ℕ × ℕ)
  | _, 0, s => some s
  | i, k + 1, s => do
      let m ← sorted[i]?
      pushDifferences sorted best (i + 1) k (pushField s 4 (getRsrpDiffIndex best m.ssbRsrpDbm))

/-- `get_ssb_rsrp_payload`: the payload and its length, for a report of `nbMeas` out of the SSBs of
the resource list; `sorted` are their measurements after `qsort`.  None stands for an assertion, for
measurements that were not set or for an index out of range. -/
def getSsbRsrpPayload (ssbList : List ℕ) (nbMeas : ℕ) (sorted : List RsrpMeas) :
    Option (ℕ × ℕ) :=
  if ssbList.length = 0 ∨ 4 < nbMeas ∨ sorted.length ≠ ssbList.length then none
  else do
    let ssbriBits := Nat.clog 2 ssbList.length
    let s ← pushIndicators sorted ssbriBits 0 nbMeas (0, 0)
    let best ← sorted[0]?
    let s := pushField s 7 (getRsrpIndex best.ssbRsrpDbm)
    let s ← pushDifferences sorted best.ssbRsrpDbm 1 (nbMeas - 1) s
    if 64 < s.2 then none else some s

/-- `L1_SSB_CSI_RSRP_measReport_mapping_38133_10_1_6_1_1`. -/
def measuredRsrp (index : ℕ) : ℤ :=
  if index = 16 then -141 else if 17 ≤ index ∧ index ≤ 113 then index - 157
  else if index = 114 then -43 else -1

/-- `get_diff_rsrp`. -/
def getDiffRsrp (index : ℕ) (strongestRsrp : ℤ) : ℤ :=
  if strongestRsrp ≠ -1 then strongestRsrp - 2 * index else -141

/-- `RSRP_report_t`: the resource ids and, if the strongest RSRP is valid, the RSRPs. -/
structure RsrpReport where
  resourceId : List ℕ
  rsrp : List ℤ
  deriving Repr, DecidableEq

/-- The loop over the resource indicators, at `cumulBits` with `k` to go. -/
def readIndicators (payload : List ℕ) (indexList : List ℕ) (bitlen : ℕ) :
    ℕ → ℕ → Option (List ℕ)
  | _, 0 => some []
  | cumulBits, k + 1 => do
      let idx ← pickandreverseBits payload bitlen cumulBits
      let id ← indexList[if 0 < bitlen then idx % 2 ^ bitlen else bitlen]?
      let ids ← readIndicators payload indexList bitlen (cumulBits + bitlen) k
      return id % 256 :: ids

/-- The loop over the differential reports. -/
def readDifferences (payload : List ℕ) (strongest : ℤ) : ℕ → ℕ → Option (List ℤ)
  | _, 0 => some []
  | cumulBits, k + 1 => do
      let curr ← pickandreverseBits payload 4 cumulBits
      let rsrps ← readDifferences payload strongest (cumulBits + 4) k
      return getDiffRsrp (curr % 16) strongest :: rsrps

/-- `evaluate_rsrp_report` for SSBs. -/
def evaluateRsrpReport (ssbList : List ℕ) (nbMeas : ℕ) (payload : List ℕ) : Option RsrpReport :=
  -- the arrays of the report have four entries
  if 4 < nbMeas then none
  else do
    let bitlen := Nat.clog 2 ssbList.length
    let ids ← readIndicators payload ssbList bitlen 0 nbMeas
    let curr ← pickandreverseBits payload 7 (nbMeas * bitlen)
    let index := curr % 128
    if index ≤ 15 ∨ 114 ≤ index then return ⟨ids, []⟩
    else do
      let rsrps ← readDifferences payload (measuredRsrp index) (nbMeas * bitlen + 7) (nbMeas - 1)
      return ⟨ids, measuredRsrp index :: rsrps⟩

/-- The measurement that is reported at place `j`. -/
def beam (sorted : List RsrpMeas) (j : ℕ) : RsrpMeas := sorted.getD j ⟨0, 0⟩

theorem getElem?_beam {sorted : List RsrpMeas} {j : ℕ} (h : j < sorted.length) :
    sorted[j]? = some (beam sorted j) := by
  unfold beam
  simp_all

section Rsrp

variable {sorted : List RsrpMeas}

theorem pushField_stream {x : ℕ} {fs : List (ℕ × ℕ)} (h : Stream x fs) (w v : ℕ) :
    Stream (pushField (x, width fs) w v).1 (fs ++ [(w, v)]) ∧
      (pushField (x, width fs) w v).2 = width (fs ++ [(w, v)]) :=
  ⟨h.push (reverseBits_isReverse v w), (width_append fs [(w, v)]).symm⟩

theorem pushIndicators_stream (w : ℕ) : ∀ {k i x : ℕ} {fs : List (ℕ × ℕ)}, Stream x fs →
    i + k ≤ sorted.length →
    ∃ x', pushIndicators sorted w i k (x, width fs)
        = some (x', width (fs ++ (List.range' i k).map fun j => (w, (beam sorted j).ssbIndex))) ∧
      Stream x' (fs ++ (List.range' i k).map fun j => (w, (beam sorted j).ssbIndex)) := by
  intro k
  induction k with
  | zero =>
    intro i x fs h _
    rw [List.range'_zero, List.map_nil, List.append_nil]
    exact ⟨x, rfl, h⟩
  | succ k ih =>
    intro i x fs h hlen
    have hget := @getElem?_beam sorted i (by omega)
    rw [List.range'_succ, List.map_cons, List.append_cons]
    unfold pushIndicators
    rcases Nat.eq_zero_or_pos w with hw | hw
    · subst hw
      have hzero := h.zero (beam sorted i).ssbIndex
      obtain ⟨x', hrun, hstream⟩ := @ih (i + 1) _ _ hzero (by omega)
      refine ⟨x', ?_, hstream⟩
      rw [if_neg (Nat.lt_irrefl 0), ← hrun,
        show width (fs ++ [(0, _)]) = width fs from width_append _ _]
    · obtain ⟨hpush, hbits⟩ := pushField_stream h w (beam sorted i).ssbIndex
      obtain ⟨x', hrun, hstream⟩ := @ih (i + 1) _ _ hpush (by omega)
      grind

theorem pushDifferences_stream (best : ℤ) {k i x : ℕ} {fs : List (ℕ × ℕ)} (h : Stream x fs)
    (hlen : i + k ≤ sorted.length) :
    ∃ x', pushDifferences sorted best i k (x, width fs)
        = some (x', width (fs ++ (List.range' i k).map fun j =>
            (4, getRsrpDiffIndex best (beam sorted j).ssbRsrpDbm))) ∧
      Stream x' (fs ++ (List.range' i k).map fun j =>
        (4, getRsrpDiffIndex best (beam sorted j).ssbRsrpDbm)) := by
  induction k generalizing i x fs with
  | zero =>
    rw [List.range'_zero, List.map_nil, List.append_nil]
    exact ⟨x, rfl, h⟩
  | succ k ih =>
    have hget := @getElem?_beam sorted i (by omega)
    rw [List.range'_succ, List.map_cons, List.append_cons]
    obtain ⟨hpush, hbits⟩ := pushField_stream h 4 (getRsrpDiffIndex best (beam sorted i).ssbRsrpDbm)
    obtain ⟨x', hrun, hstream⟩ := @ih (i + 1) _ _ hpush (by omega)
    grind [pushDifferences]

theorem width_map_const (w : ℕ) (f : ℕ → ℕ) (l : List ℕ) :
    width (l.map fun j => (w, f j)) = l.length * w := by
  induction l with
  | nil => rw [List.map_nil, List.length_nil, Nat.zero_mul]; rfl
  | cons j l ih => rw [List.map_cons, width, ih, List.length_cons, Nat.succ_mul, Nat.add_comm]

theorem readIndicators_fields {x bitlen w : ℕ} {indexList : List ℕ} {v : ℕ → ℕ}
    (hw : w = Nat.clog 2 indexList.length) (hsize : indexList.length ≤ 256) (hlen : bitlen < 256)
    {k i pos : ℕ} (h : HoldsFields x pos ((List.range' i k).map fun j => (w, v j)))
    (hpos : pos + k * w ≤ bitlen) (hv : ∀ j, i ≤ j → j < i + k → v j < indexList.length) :
    readIndicators (payloadBytes x bitlen) indexList w pos k
      = some ((List.range' i k).map fun j => indexList.getD (v j) 0 % 256) := by
  induction k generalizing i pos with
  | zero => rfl
  | succ k ih =>
    rw [List.range'_succ, List.map_cons] at h ⊢
    obtain ⟨hfirst, hrest⟩ := h
    have hvi := hv i le_rfl (by omega)
    have hfit : v i < 2 ^ w := by
      rw [hw]
      exact hvi.trans_le (Nat.le_pow_clog (by decide) _)
    rw [Nat.succ_mul] at hpos
    have hpick := pickandreverseBits_field hfirst (by omega) hlen hfit
    have hindex : (if 0 < w then v i % 256 % 2 ^ w else w) = v i := by
      split_ifs with h0
      · grind [Nat.mod_eq_of_lt]
      · grind
    have hih := ih hrest (by omega) fun j hj hj' => hv j (by omega) (by omega)
    unfold readIndicators
    rw [hpick]
    show (indexList[if 0 < w then v i % 256 % 2 ^ w else w]?).bind _ = _
    rw [hindex, List.getElem?_eq_getElem hvi, Option.bind_some, hih, List.getD_eq_getElem _ _ hvi]
    rfl

theorem readDifferences_fields {x bitlen : ℕ} {v : ℕ → ℕ} (strongest : ℤ) (hlen : bitlen < 256)
    {k i pos : ℕ} (h : HoldsFields x pos ((List.range' i k).map fun j => (4, v j)))
    (hpos : pos + k * 4 ≤ bitlen) (hv : ∀ j, i ≤ j → j < i + k → v j < 16) :
    readDifferences (payloadBytes x bitlen) strongest pos k
      = some ((List.range' i k).map fun j => getDiffRsrp (v j) strongest) := by
  induction k generalizing i pos with
  | zero => rfl
  | succ k ih =>
    rw [List.range'_succ, List.map_cons] at h ⊢
    obtain ⟨hfirst, hrest⟩ := h
    have hvi := hv i le_rfl (by omega)
    have hpick := pickandreverseBits_field hfirst (by omega) hlen hvi
    grind [readDifferences, getDiffRsrp, Nat.mod_eq_of_lt]

end Rsrp

/-- A report of the `nbMeas` strongest of distinct SSBs. -/
structure BeamReport (ssbList : List ℕ) (nbMeas : ℕ) (rsrp : ℕ → ℤ) (sorted : List RsrpMeas) :
    Prop where
  nodup : ssbList.Nodup
  ssb_lt : ∀ ssb ∈ ssbList, ssb < 64
  meas_pos : 1 ≤ nbMeas
  meas_le : nbMeas ≤ 4
  perm : sorted.Perm (ssbMeasurements ssbList rsrp)
  strongest : sorted.Pairwise fun a b => b.ssbRsrpDbm ≤ a.ssbRsrpDbm

section Beams

variable {ssbList : List ℕ} {nbMeas : ℕ} {rsrp : ℕ → ℤ} {sorted : List RsrpMeas}

theorem getRsrpIndex_range (r : ℤ) : 16 ≤ getRsrpIndex r ∧ getRsrpIndex r ≤ 113 := by
  grind [getRsrpIndex]

/-- The fields of a report of beams. -/
def beamFields (ssbList : List ℕ) (nbMeas : ℕ) (sorted : List RsrpMeas) : List (ℕ × ℕ) :=
  (List.range' 0 nbMeas).map (fun j => (Nat.clog 2 ssbList.length, (beam sorted j).ssbIndex))
    ++ [(7, getRsrpIndex (beam sorted 0).ssbRsrpDbm)]
    ++ (List.range' 1 (nbMeas - 1)).map fun j =>
      (4, getRsrpDiffIndex (beam sorted 0).ssbRsrpDbm (beam sorted j).ssbRsrpDbm)

theorem width_beamFields (ssbList : List ℕ) (nbMeas : ℕ) (sorted : List RsrpMeas) :
    width (beamFields ssbList nbMeas sorted)
      = nbMeas * Nat.clog 2 ssbList.length + 7 + (nbMeas - 1) * 4 := by
  unfold beamFields
  rw [width_append, width_append, width_map_const, width_map_const, List.length_range',
    List.length_range']
  rfl

section

variable (h : BeamReport ssbList nbMeas rsrp sorted)

include h

theorem BeamReport.size_le : ssbList.length ≤ 64 := by
  have hsub : ssbList ⊆ List.range 64 := fun ssb hssb => List.mem_range.mpr (h.ssb_lt ssb hssb)
  have hle := (List.subperm_of_subset h.nodup hsub).length_le
  rwa [List.length_range] at hle

theorem BeamReport.length_eq :
    sorted.length = ssbList.length := by
  have hfilter : (List.range 64).filter (fun ssb => decide (ssb ∈ ssbList)) |>.Perm ssbList := by
    refine (List.perm_ext_iff_of_nodup (List.nodup_range.filter _) h.nodup).mpr ?_
    intro ssb
    rw [List.mem_filter, List.mem_range, decide_eq_true_eq]
    exact ⟨fun hssb => hssb.2, fun hssb => ⟨h.ssb_lt ssb hssb, hssb⟩⟩
  rw [h.perm.length_eq, ← hfilter.length_eq]
  unfold ssbMeasurements
  rw [List.length_filterMap_eq_countP, List.countP_eq_length_filter]
  grind

theorem BeamReport.index_lt {j : ℕ}
    (hj : j < sorted.length) : (beam sorted j).ssbIndex < ssbList.length := by
  have hmem : beam sorted j ∈ sorted := by
    unfold beam
    rw [List.getD_eq_getElem _ _ hj]
    exact List.getElem_mem hj
  obtain ⟨ssb, _, hssb⟩ := List.mem_filterMap.mp (h.perm.mem_iff.mp hmem)
  obtain ⟨resource, hresource, heq⟩ := Option.map_eq_some_iff.mp hssb
  rw [← heq]
  exact (List.findIdx?_eq_some_iff_getElem.mp hresource).1

theorem BeamReport.diffIndex_lt {j : ℕ} (hpos : 0 < j) (hj : j < sorted.length) :
    getRsrpDiffIndex (beam sorted 0).ssbRsrpDbm (beam sorted j).ssbRsrpDbm < 16 := by
  have hle : (beam sorted j).ssbRsrpDbm ≤ (beam sorted 0).ssbRsrpDbm := by
    unfold beam
    rw [List.getD_eq_getElem _ _ hj, List.getD_eq_getElem _ _ (hpos.trans hj)]
    exact List.pairwise_iff_getElem.mp h.strongest 0 j _ hj hpos
  grind [getRsrpDiffIndex]

theorem BeamReport.width_le :
    width (beamFields ssbList nbMeas sorted) ≤ 43 := by
  have hclog : Nat.clog 2 ssbList.length ≤ 6 := Nat.clog_mono_right 2 h.size_le
  have hsmall : nbMeas * Nat.clog 2 ssbList.length ≤ 4 * 6 := Nat.mul_le_mul h.meas_le hclog
  have hfour := h.meas_le
  rw [width_beamFields]
  omega

theorem getSsbRsrpPayload_stream (hmeas : nbMeas ≤ ssbList.length) :
    ∃ x, getSsbRsrpPayload ssbList nbMeas sorted
        = some (x, width (beamFields ssbList nbMeas sorted)) ∧
      Stream x (beamFields ssbList nbMeas sorted) := by
  have hlength := h.length_eq
  have hpos := h.meas_pos
  have hfour := h.meas_le
  have hwidth := h.width_le
  obtain ⟨x₁, hrun₁, hstream₁⟩ := @pushIndicators_stream sorted (Nat.clog 2 ssbList.length) nbMeas
    0 0 [] stream_nil (by omega)
  obtain ⟨hstream₂, hbits₂⟩ :=
    pushField_stream hstream₁ 7 (getRsrpIndex (beam sorted 0).ssbRsrpDbm)
  obtain ⟨x, hrun, hstream⟩ :=
    @pushDifferences_stream sorted (beam sorted 0).ssbRsrpDbm (nbMeas - 1) 1 _ _ hstream₂ (by omega)
  refine ⟨x, ?_, hstream⟩
  rw [← hbits₂, Prod.mk.eta] at hrun
  unfold getSsbRsrpPayload
  rw [if_neg (by omega)]
  show (pushIndicators sorted _ 0 nbMeas (0, 0)).bind _ = _
  rw [show pushIndicators sorted _ 0 nbMeas (0, 0) = _ from hrun₁, Option.bind_some,
    getElem?_beam (by omega)]
  show (pushDifferences sorted _ 1 (nbMeas - 1) (pushField _ 7 _)).bind _ = _
  rw [hrun, Option.bind_some]
  exact if_neg (not_lt.mpr (hwidth.trans (by decide)))

theorem evaluateRsrpReport_fields (hmeas : nbMeas ≤ ssbList.length) {x : ℕ}
    (hholds : HoldsFields x 0 (beamFields ssbList nbMeas sorted)) :
    evaluateRsrpReport ssbList nbMeas
        (payloadBytes x (width (beamFields ssbList nbMeas sorted))) = some
      ⟨(List.range' 0 nbMeas).map fun j => ssbList.getD (beam sorted j).ssbIndex 0 % 256,
       measuredRsrp (getRsrpIndex (beam sorted 0).ssbRsrpDbm) ::
        (List.range' 1 (nbMeas - 1)).map fun j => getDiffRsrp
          (getRsrpDiffIndex (beam sorted 0).ssbRsrpDbm (beam sorted j).ssbRsrpDbm)
          (measuredRsrp (getRsrpIndex (beam sorted 0).ssbRsrpDbm))⟩ := by
  have hlength := h.length_eq
  have hsize := h.size_le
  have hbits := width_beamFields ssbList nbMeas sorted
  have hwidth := h.width_le
  obtain ⟨hlow, hhigh⟩ := getRsrpIndex_range (beam sorted 0).ssbRsrpDbm
  obtain ⟨hfirst, hdifferences⟩ := holdsFields_append.mp hholds
  obtain ⟨hindicators, hindex, -⟩ := holdsFields_append.mp hfirst
  rw [Nat.zero_add, width_map_const, List.length_range'] at hindex
  rw [Nat.zero_add, width_append, width_map_const, List.length_range'] at hdifferences
  generalize width (beamFields ssbList nbMeas sorted) = bits at *
  have hids := @readIndicators_fields x bits _ ssbList _ rfl (by omega) (by omega) _ _ _ hindicators
    (by omega) fun j _ hj => h.index_lt (by omega)
  have hpick := @pickandreverseBits_field x bits _ _ _ hindex (by omega) (by omega)
    (show getRsrpIndex (beam sorted 0).ssbRsrpDbm < 2 ^ 7 by omega)
  have hdiffs := @readDifferences_fields x bits _ (measuredRsrp (getRsrpIndex
    (beam sorted 0).ssbRsrpDbm)) (by omega) _ _ (nbMeas * Nat.clog 2 ssbList.length + 7)
    hdifferences (by omega) fun j hj hj' => h.diffIndex_lt hj (by omega)
  unfold evaluateRsrpReport
  rw [if_neg (not_lt.mpr h.meas_le)]
  show (readIndicators _ ssbList _ 0 nbMeas).bind _ = _
  rw [hids, Option.bind_some, hpick]
  show (if getRsrpIndex _ % 256 % 128 ≤ 15 ∨ 114 ≤ getRsrpIndex _ % 256 % 128 then _ else _) = _
  rw [show getRsrpIndex (beam sorted 0).ssbRsrpDbm % 256 % 128
    = getRsrpIndex (beam sorted 0).ssbRsrpDbm by omega, if_neg (by omega), hdiffs]
  rfl

end

/-- What the gNB stores of the UE's report: the SSBs of the strongest beams, the RSRP for the index
of the strongest one, and the others by their differential indices. -/
def BeamsStored (ssbList : List ℕ) (nbMeas : ℕ) (sorted : List RsrpMeas) : Prop :=
  ∃ x bits, getSsbRsrpPayload ssbList nbMeas sorted = some (x, bits) ∧
    evaluateRsrpReport ssbList nbMeas (payloadBytes x bits) = some
      ⟨(List.range nbMeas).map fun j => ssbList.getD (beam sorted j).ssbIndex 0,
       measuredRsrp (getRsrpIndex (beam sorted 0).ssbRsrpDbm) ::
        (List.range' 1 (nbMeas - 1)).map fun j => getDiffRsrp
          (getRsrpDiffIndex (beam sorted 0).ssbRsrpDbm (beam sorted j).ssbRsrpDbm)
          (measuredRsrp (getRsrpIndex (beam sorted 0).ssbRsrpDbm))⟩

theorem pushDifferences_beyond {best : ℤ} : ∀ {k i : ℕ} {s : ℕ × ℕ}, i ≤ sorted.length →
    sorted.length < i + k → pushDifferences sorted best i k s = none := by
  intro k
  induction k with
  | zero => omega
  | succ k ih =>
    intro i s hi hk
    show (sorted[i]?).bind _ = none
    rcases hi.eq_or_lt with rfl | hi
    · rw [List.getElem?_eq_none le_rfl]
      rfl
    · rw [List.getElem?_eq_getElem hi, Option.bind_some]
      exact ih (by omega) (by omega)

/-- More beams than there are SSBs: the measurements are read out of range. -/
theorem not_beamsStored (h : BeamReport ssbList nbMeas rsrp sorted)
    (hmeas : ssbList.length < nbMeas) : ¬ BeamsStored ssbList nbMeas sorted := by
  rintro ⟨x, bits, hx, -⟩
  have hlength := h.length_eq
  have hpos := h.meas_pos
  unfold getSsbRsrpPayload at hx
  split at hx
  · cases hx
  next hok =>
    simp only [Option.bind_eq_bind, Option.bind_eq_some_iff] at hx
    obtain ⟨s, -, best, -, s', hdiff, -⟩ := hx
    rw [pushDifferences_beyond (by omega) (by omega)] at hdiff
    cases hdiff

/-- **The gNB stores the beams that the UE reported.** -/
theorem rsrp_evaluated (h : BeamReport ssbList nbMeas rsrp sorted)
    (hmeas : nbMeas ≤ ssbList.length) : BeamsStored ssbList nbMeas sorted := by
  obtain ⟨x, hx, hstream⟩ := getSsbRsrpPayload_stream h hmeas
  refine ⟨x, _, hx, ?_⟩
  rw [evaluateRsrpReport_fields h hmeas hstream.holds]
  have hlength := h.length_eq
  have hids : (List.range' 0 nbMeas).map (fun j => ssbList.getD (beam sorted j).ssbIndex 0 % 256)
      = (List.range nbMeas).map fun j => ssbList.getD (beam sorted j).ssbIndex 0 := by
    rw [List.range_eq_range']
    refine List.map_congr_left ?_
    intro j hj
    rw [List.mem_range'_1] at hj
    have hlt := h.index_lt (show j < sorted.length by omega)
    rw [List.getD_eq_getElem _ _ hlt]
    exact Nat.mod_eq_of_lt ((h.ssb_lt _ (List.getElem_mem hlt)).trans (by decide))
  rw [hids]

end Beams

/-! ### The round trip -/

/-- Two antenna ports with the ranks of `riRestriction`. -/
def sampleBitlen (riRestriction riBitlen : ℕ) : MeasBitlen where
  riRestriction := riRestriction
  criBitlen := 0
  riBitlen := riBitlen
  liBitlen := fun _ => 0
  pmiX1Bitlen := fun _ => 0
  pmiX2Bitlen := fun i => if riRestriction.testBit i then if i = 0 then 2 else 1 else 0
  cqiBitlen := fun i => if riRestriction.testBit i then 4 else 0

end OaiGnb.Mac.CsiReport
