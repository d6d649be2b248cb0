import OaiGnb.Mac.Dci
import OaiGnb.Mac.Riv
import Mathlib.Data.Nat.Prime.Basic

/-!
# DCI formats 0_0 and 1_0

`nr_dci_size`, `fill_dci_pdu_rel15` of the gNB and `nr_extract_dci_00_10` of the UE for the fallback
formats: 0_0 for C-RNTI and TC-RNTI, 1_0 for C-RNTI, TC-RNTI, RA-RNTI and SI-RNTI.

A DCI 0_0 for TC-RNTI is written without its TPC command.  The padding of a DCI 0_0 begins one bit
too early, at the last bit of its last field.  Some fields of a DCI 1_0 for C-RNTI are written in 32
bits.

* `heard`: the values that the payload carries.
* `fallback_roundTrip`: when what the gNB sends is what the UE receives.
-/

namespace OaiGnb.Mac.DciFallback

open WordFields Mac.Dci

/-! ### Sizes -/

/-- The bandwidth parts of a UE and the initial ones of its serving cell. -/
structure Bwps where
  ulBwpSize : ℕ
  dlBwpSize : ℕ
  initialUlBwpSize : ℕ
  initialDlBwpSize : ℕ
  deriving Repr, DecidableEq

/-- The bandwidth parts, if there are any, the size of CORESET 0, 0 if there is none, and the type
of the search space. -/
structure Cell where
  bwps : Option Bwps
  cset0BwpSize : ℕ
  ssType : SsType
  deriving Repr, DecidableEq

/-- `N_RB` of the gNB. -/
def Cell.nRb (c : Cell) (format : Format) : ℕ :=
  match c.bwps with
  | none => c.cset0BwpSize
  | some b => getRbBwpDci format c.ssType c.cset0BwpSize b.ulBwpSize b.dlBwpSize
      b.initialUlBwpSize b.initialDlBwpSize

/-- `get_nrb_for_dci` of the UE, which passes the initial downlink size twice. -/
def Cell.getNrbForDci (c : Cell) (format : Format) : ℕ :=
  match c.bwps with
  | none => c.cset0BwpSize
  | some b => getRbBwpDci format c.ssType c.cset0BwpSize b.ulBwpSize b.dlBwpSize
      b.initialDlBwpSize b.initialDlBwpSize

/-- `nr_dci_size` for format 0_0: the size and `frequency_domain_assignment.nbits`. -/
def nrDciSize00 (c : Cell) (altSize : ℕ) : ℕ × ℕ :=
  let nbits := rivBits (c.nRb .ul00)
  let size := 20 + nbits
  if altSize ≠ 0 then
    if altSize ≥ size then (size + (altSize - size), nbits)
    else if c.ssType = .common then (altSize, nbits - (size - altSize))
    else (size, nbits)
  else (size, nbits)

/-- `nr_dci_size` for format 1_0: the size. -/
def nrDciSize10 (c : Cell) (altSize : ℕ) : ℕ :=
  let size := 28 + rivBits (c.nRb .dl10)
  if c.ssType = .ueSpecific ∧ altSize ≥ size then size + (altSize - size) else size

/-- `harq_pid.nbits` of both formats. -/
def harqPidNbits : ℕ := 4

/-- The size of format 0_0 and its width of the frequency assignment, for the alternative size. -/
def Cell.dci00 (c : Cell) : ℕ × ℕ :=
  nrDciSize00 c (if c.bwps.isSome = true then nrDciSize10 c 0 else 0)

/-- The size of format 1_0, for the alternative size. -/
def Cell.dci10 (c : Cell) : ℕ :=
  nrDciSize10 c (if c.bwps.isSome = true then (nrDciSize00 c 0).1 else 0)

/-! ### The gNB -/

/-- The part of `dci_pdu_rel15_t` that the gNB sets. -/
structure DciPdu where
  val : Item → ℕ
  padding : ℕ

/-- Format 1_0 for RA-RNTI. -/
def layoutRa (fsize : ℕ) : List Entry :=
  [⟨.frequencyDomainAssignment, fsize, .u64⟩, ⟨.timeDomainAssignment, 4, .u64⟩,
    ⟨.vrbToPrbMapping, 1, .u64⟩, ⟨.mcs, 5, .u64⟩, ⟨.tbScaling, 2, .u64⟩]

/-- Format 1_0 for SI-RNTI. -/
def layoutSi (fsize : ℕ) : List Entry :=
  [⟨.frequencyDomainAssignment, fsize, .bitwise⟩, ⟨.timeDomainAssignment, 4, .bitwise⟩,
    ⟨.vrbToPrbMapping, 1, .bitwise⟩, ⟨.mcs, 5, .bitwise⟩, ⟨.rv, 2, .bitwise⟩,
    ⟨.systemInfoIndicator, 1, .bitwise⟩]

/-- Format 1_0 for TC-RNTI. -/
def layoutTc (fsize : ℕ) : List Entry :=
  [⟨.formatIndicator, 1, .bitwise⟩, ⟨.frequencyDomainAssignment, fsize, .bitwise⟩,
    ⟨.timeDomainAssignment, 4, .bitwise⟩, ⟨.vrbToPrbMapping, 1, .bitwise⟩, ⟨.mcs, 5, .bitwise⟩,
    ⟨.ndi, 1, .bitwise⟩, ⟨.rv, 2, .bitwise⟩, ⟨.harqPid, harqPidNbits, .bitwise⟩,
    ⟨.dai0, 2, .bitwise⟩, ⟨.tpc, 2, .bitwise⟩, ⟨.pucchResourceIndicator, 3, .bitwise⟩,
    ⟨.pdschToHarqFeedbackTimingIndicator, 3, .bitwise⟩]

/-- A PDCCH order, behind the frequency assignment. -/
def layoutOrder : List Entry :=
  [⟨.raPreambleIndex, 6, .int⟩, ⟨.ulSulIndicator, 1, .u32⟩, ⟨.ssPbchIndex, 6, .int⟩,
    ⟨.prachMaskIndex, 4, .int⟩]

/-- Format 1_0 for C-RNTI, behind the frequency assignment. -/
def layoutC : List Entry :=
  [⟨.timeDomainAssignment, 4, .u32⟩, ⟨.vrbToPrbMapping, 1, .u32⟩, ⟨.mcs, 5, .int⟩, ⟨.ndi, 1, .int⟩,
    ⟨.rv, 2, .int⟩, ⟨.harqPid, harqPidNbits, .u32⟩, ⟨.dai0, 2, .u32⟩, ⟨.tpc, 2, .int⟩,
    ⟨.pucchResourceIndicator, 3, .int⟩, ⟨.pdschToHarqFeedbackTimingIndicator, 3, .u32⟩]

/-- Format 0_0, up to the HARQ process number. -/
def layout00 (nbits : ℕ) : List Entry :=
  [⟨.formatIndicator, 1, .u64⟩, ⟨.frequencyDomainAssignment, nbits, .u64⟩,
    ⟨.timeDomainAssignment, 4, .u64⟩, ⟨.frequencyHoppingFlag, 1, .u64⟩, ⟨.mcs, 5, .u64⟩,
    ⟨.ndi, 1, .u64⟩, ⟨.rv, 2, .u64⟩, ⟨.harqPid, harqPidNbits, .u64⟩]

/-- The TPC command of a DCI 0_0. -/
def entryTpc : Entry := ⟨.tpc, 2, .u64⟩

/-- `for (i = 0; i < fsize; i++) if (!((val >> i) & 1)) ...`. -/
def allOnes (val fsize : ℕ) : Bool := (List.range fsize).all fun i => (val >>> i) % 2 == 1

/-- `for (a = pos; a < dci_size; a++) *dci_pdu |= (padding & 1) << (dci_size - pos++)`, for the
given number of bits. -/
def pad (size padding : ℕ) : ℕ → ℕ × ℕ → ℕ
  | 0, s => s.1
  | n + 1, s => pad size padding n (s.1 ||| (padding % 2) <<< (size - s.2), s.2 + 1)

/-- What a DCI is for. -/
inductive Kind where
  | ra10
  | si10
  | tc10
  | c10
  | c00
  | tc00
  deriving Repr, DecidableEq

/-- The format of a DCI. -/
def Kind.format : Kind → Format
  | .c00 | .tc00 => .ul00
  | _ => .dl10

/-- The size of a DCI. -/
def Kind.size (k : Kind) (c : Cell) : ℕ :=
  match k.format with
  | .ul00 => c.dci00.1
  | _ => c.dci10

/-- The format indicator and the frequency assignment of a DCI 1_0 for C-RNTI. -/
def startC10 (size fsize : ℕ) (pdu : DciPdu) : ℕ × ℕ :=
  put size .u64 fsize (pdu.val .frequencyDomainAssignment) (put size .u64 1 1 (0, 0))

/-- `fill_dci_pdu_rel15`: the payload. -/
def fillDciPduRel15 (c : Cell) (k : Kind) (pdu : DciPdu) : ℕ :=
  let size := k.size c
  let fsize := rivBits (c.nRb .dl10)
  match k with
  | .ra10 => (fill size pdu.val (layoutRa fsize) (0, 0)).1
  | .si10 => (fill size pdu.val (layoutSi fsize) (0, 0)).1
  | .tc10 => (fill size pdu.val (layoutTc fsize) (0, 0)).1
  | .c10 =>
      let s := startC10 size fsize pdu
      if allOnes (pdu.val .frequencyDomainAssignment) fsize = true then
        (fill size pdu.val layoutOrder s).1
      else (fill size pdu.val layoutC s).1
  | .c00 =>
      let s := fill size pdu.val (layout00 c.dci00.2 ++ [entryTpc]) (0, 0)
      pad size pdu.padding (size - s.2) s
  | .tc00 =>
      let s := fill size pdu.val (layout00 c.dci00.2) (0, 0)
      pad size pdu.padding (size - s.2) s

/-! ### The UE -/

/-- The format that was decoded, none for `NR_DCI_NONE`, the values of the fields, and whether the
DCI was taken for a PDCCH order. -/
structure Decoded where
  format : Option Format
  values : Item → ℕ
  pdcchOrder : Bool

/-- `extract_10_ra_rnti`. -/
def extract10RaRnti (payload pos nRb : ℕ) (values : Item → ℕ) : Item → ℕ :=
  readAll payload [(.frequencyDomainAssignment, rivBits nRb), (.timeDomainAssignment, 4),
    (.vrbToPrbMapping, 1), (.mcs, 5), (.tbScaling, 2)] pos values

/-- `extract_10_si_rnti`. -/
def extract10SiRnti (payload pos nRb : ℕ) (values : Item → ℕ) : Item → ℕ :=
  readAll payload [(.frequencyDomainAssignment, rivBits nRb), (.timeDomainAssignment, 4),
    (.vrbToPrbMapping, 1), (.mcs, 5), (.rv, 2), (.systemInfoIndicator, 1)] pos values

/-- `extract_10_c_rnti`. -/
def extract10CRnti (payload pos nRb : ℕ) (values : Item → ℕ) : (Item → ℕ) × Bool :=
  let fsize := rivBits nRb
  let values := readAll payload [(.frequencyDomainAssignment, fsize)] pos values
  let pos := pos - fsize
  if allOnes (values .frequencyDomainAssignment) fsize = true then
    (readAll payload [(.raPreambleIndex, 6), (.ulSulIndicator, 1), (.ssPbchIndex, 6),
      (.prachMaskIndex, 4)] pos values, true)
  else
    (readAll payload [(.timeDomainAssignment, 4), (.vrbToPrbMapping, 1), (.mcs, 5), (.ndi, 1),
      (.rv, 2), (.harqPid, harqPidNbits), (.dai0, 2), (.tpc, 2), (.pucchResourceIndicator, 3),
      (.pdschToHarqFeedbackTimingIndicator, 3)] pos values, false)

/-- `extract_10_tc_rnti`. -/
def extract10TcRnti (payload pos nRb : ℕ) (values : Item → ℕ) : Item → ℕ :=
  readAll payload [(.frequencyDomainAssignment, rivBits nRb), (.timeDomainAssignment, 4),
    (.vrbToPrbMapping, 1), (.mcs, 5), (.ndi, 1), (.rv, 2), (.harqPid, 4), (.dai0, 2), (.tpc, 2),
    (.pucchResourceIndicator, 3), (.pdschToHarqFeedbackTimingIndicator, 3)] pos values

/-- `extract_00_c_rnti` and `extract_00_tc_rnti`. -/
def extract00 (payload pos nbits : ℕ) (values : Item → ℕ) : Item → ℕ :=
  readAll payload [(.frequencyDomainAssignment, nbits), (.timeDomainAssignment, 4),
    (.frequencyHoppingFlag, 1), (.mcs, 5), (.ndi, 1), (.rv, 2), (.harqPid, 4), (.tpc, 2)] pos values

/-- The RNTI types. -/
inductive RntiType where
  | ra
  | si
  | c
  | tc
  deriving Repr, DecidableEq

/-- The RNTI type of a DCI. -/
def Kind.rntiType : Kind → RntiType
  | .ra10 => .ra
  | .si10 => .si
  | .c10 | .c00 => .c
  | .tc10 | .tc00 => .tc

/-- `nr_extract_dci_00_10`; `values` are those of earlier DCIs. -/
def nrExtractDci0010 (c : Cell) (getSib1 : Bool) (rntiType : RntiType) (pos payload : ℕ)
    (values : Item → ℕ) : Decoded :=
  let nRb := c.getNrbForDci .dl10
  let indicator := slice payload (pos - 1) 1
  match rntiType with
  | .ra =>
      if nRb = 0 then ⟨none, values, false⟩
      else ⟨some .dl10, extract10RaRnti payload pos nRb values, false⟩
  | .si =>
      if nRb = 0 then ⟨none, values, false⟩
      else
        let values := extract10SiRnti payload pos nRb values
        if getSib1 = false ∧ values .systemInfoIndicator = 0 then ⟨none, values, false⟩
        else ⟨some .dl10, values, false⟩
  | .c =>
      if indicator = 1 then
        if nRb = 0 then ⟨none, values, false⟩
        else
          let (values, pdcchOrder) := extract10CRnti payload (pos - 1) nRb values
          if pdcchOrder = true then ⟨none, values, true⟩
          else ⟨some .dl10, Function.update values .formatIndicator indicator, false⟩
      else
        ⟨some .ul00, Function.update (extract00 payload (pos - 1) c.dci00.2 values)
          .formatIndicator indicator, false⟩
  | .tc =>
      if indicator = 1 then
        if nRb = 0 then ⟨none, values, false⟩
        else ⟨some .dl10, Function.update (extract10TcRnti payload (pos - 1) nRb values)
          .formatIndicator indicator, false⟩
      else
        ⟨some .ul00, Function.update (extract00 payload (pos - 1) c.dci00.2 values)
          .formatIndicator indicator, false⟩

/-- What the UE makes of the payload of a DCI. -/
def receive (c : Cell) (getSib1 : Bool) (k : Kind) (payload : ℕ) (values : Item → ℕ) : Decoded :=
  nrExtractDci0010 c getSib1 k.rntiType (k.size c) payload values

/-! ### Resource indication values -/

theorem allocations_ne_two_pow {n : ℕ} (hn : 2 ≤ n) (k : ℕ) : (n * (n + 1)) >>> 1 ≠ 2 ^ k := by
  intro h
  rw [Nat.shiftRight_eq_div_pow, Nat.pow_one] at h
  have hprod : n * (n + 1) = 2 ^ (k + 1) := by
    rw [Nat.pow_succ, ← h, Nat.div_mul_cancel (Nat.even_mul_succ_self n).two_dvd]
  -- both factors are powers of two, so both are even
  have heven : ∀ m, 2 ≤ m → m ∣ 2 ^ (k + 1) → 2 ∣ m := by
    intro m hm hdvd
    obtain ⟨a, _, rfl⟩ := (Nat.dvd_prime_pow Nat.prime_two).mp hdvd
    cases a with
    | zero => omega
    | succ a => exact Nat.dvd_mul_left 2 _
  have h1 := heven n hn ⟨n + 1, hprod.symm⟩
  have h2 := heven (n + 1) (by omega) ⟨n, by rw [Nat.mul_comm]; exact hprod.symm⟩
  omega

theorem le_of_allOnes {val fsize : ℕ} (h : allOnes val fsize = true) : 2 ^ fsize - 1 ≤ val := by
  have hmod : val % 2 ^ fsize = 2 ^ fsize - 1 := by
    refine Nat.eq_of_testBit_eq ?_
    intro i
    rw [Nat.testBit_mod_two_pow, Nat.testBit_two_pow_sub_one]
    by_cases hi : i < fsize
    · have hbit := List.all_eq_true.mp h i (List.mem_range.mpr hi)
      rw [beq_iff_eq, Nat.shiftRight_eq_div_pow] at hbit
      grind
    · simp only [hi, decide_false, Bool.false_and]
  rw [← hmod]
  exact Nat.mod_le _ _

/-- **A frequency assignment is not a PDCCH order**, if the bandwidth part has at least two resource
blocks. -/
theorem allOnes_eq_false {n nPrb rbStart riv : ℕ} (hn : 2 ≤ n)
    (h : prballocToLocationandbandwidth0 nPrb rbStart n = .ok riv) :
    allOnes riv (rivBits n) = false := by
  refine Bool.eq_false_of_not_eq_true fun hones => ?_
  have hge := le_of_allOnes hones
  have hlt : riv < (n * (n + 1)) >>> 1 := by
    have hvalid : nPrb > 0 ∧ nPrb + rbStart ≤ n := by
      by_contra hnot
      rw [prballocToLocationandbandwidth0, if_neg hnot] at h
      cases h
    obtain ⟨riv', hlt, hriv', _⟩ := prballoc_returns hvalid.1 hvalid.2
    rwa [Except.ok.inj (h.symm.trans hriv')]
  grind [rivBits, Nat.le_pow_clog, allocations_ne_two_pow]

/-! ### Sizes of valid cells -/

/-- Bandwidth parts of 1 to 275 resource blocks. -/
structure Cell.Valid (c : Cell) : Prop where
  bwps : ∀ b, c.bwps = some b → (1 ≤ b.ulBwpSize ∧ b.ulBwpSize ≤ 275) ∧
    (1 ≤ b.dlBwpSize ∧ b.dlBwpSize ≤ 275) ∧
    (1 ≤ b.initialUlBwpSize ∧ b.initialUlBwpSize ≤ 275) ∧
    (1 ≤ b.initialDlBwpSize ∧ b.initialDlBwpSize ≤ 275)
  cset0 : c.cset0BwpSize ≤ 275
  initial : c.bwps = none → 1 ≤ c.cset0BwpSize

section Sizes

variable {c : Cell}

theorem Cell.Valid.nRb_range (h : c.Valid) (format : Format) :
    1 ≤ c.nRb format ∧ c.nRb format ≤ 275 := by
  unfold Cell.nRb
  have hcset0 := h.cset0
  split
  next hnone =>
    exact ⟨h.initial hnone, hcset0⟩
  next b hb =>
    obtain ⟨hul, hdl, hiul, hidl⟩ := h.bwps b hb
    unfold getRbBwpDci
    grind

theorem rivBits_le {n : ℕ} (h : n ≤ 275) : rivBits n ≤ 16 := by
  refine Nat.clog_le_of_le_pow ?_
  refine Nat.div_le_of_le_mul ?_
  exact (Nat.mul_le_mul h (Nat.add_le_add_right h 1)).trans (by decide)

theorem getNrbForDci_eq (c : Cell) : c.getNrbForDci .dl10 = c.nRb .dl10 := by
  unfold Cell.getNrbForDci Cell.nRb
  split <;> rfl

theorem getNrbForDci_ne_zero (hc : c.Valid) : c.getNrbForDci .dl10 ≠ 0 := by
  rw [getNrbForDci_eq]
  exact Nat.ne_of_gt (hc.nRb_range .dl10).1

theorem Cell.Valid.dci10_range (h : c.Valid) :
    28 + rivBits (c.nRb .dl10) ≤ c.dci10 ∧ c.dci10 ≤ 44 ∧
      c.dci10 ≤ 36 + rivBits (c.nRb .dl10) := by
  have hul := rivBits_le (h.nRb_range .ul00).2
  have hdl := rivBits_le (h.nRb_range .dl10).2
  have halt : (nrDciSize00 c 0).1 = 20 + rivBits (c.nRb .ul00) := rfl
  grind [Cell.dci10, nrDciSize10]

theorem Cell.Valid.dci00_range (h : c.Valid) :
    20 + c.dci00.2 ≤ c.dci00.1 ∧ c.dci00.1 ≤ 44 := by
  have hul := rivBits_le (h.nRb_range .ul00).2
  have hdl := rivBits_le (h.nRb_range .dl10).2
  have halt : nrDciSize10 c 0 = 28 + rivBits (c.nRb .dl10) := by
    unfold nrDciSize10
    rw [if_neg]
    omega
  grind [Cell.dci00, nrDciSize00]

end Sizes

/-! ### What is sent -/

/-- The fields of a DCI. -/
def Kind.fields (k : Kind) (c : Cell) (pdu : DciPdu) : List (Item × ℕ) :=
  let fsize := rivBits (c.nRb .dl10)
  match k with
  | .ra10 => names (layoutRa fsize)
  | .si10 => names (layoutSi fsize)
  | .tc10 => names (layoutTc fsize)
  | .c10 =>
      if allOnes (pdu.val .frequencyDomainAssignment) fsize = true then
        (.frequencyDomainAssignment, fsize) :: names layoutOrder
      else (.formatIndicator, 1) :: (.frequencyDomainAssignment, fsize) :: names layoutC
  | .c00 | .tc00 => names (layout00 c.dci00.2 ++ [entryTpc])

/-- The values fit the widths of their fields, and the format indicator is that of the format. -/
structure Assigned (c : Cell) (k : Kind) (pdu : DciPdu) : Prop where
  fits : ∀ f ∈ k.fields c pdu, pdu.val f.1 < 2 ^ f.2
  indicator : k ≠ .ra10 → k ≠ .si10 →
    pdu.val .formatIndicator = if k.format = .dl10 then 1 else 0

theorem pad_of_even {size padding : ℕ} (h : padding % 2 = 0) {n : ℕ} {s : ℕ × ℕ} :
    pad size padding n s = s.1 := by
  induction n generalizing s with
  | zero => rfl
  | succ n ih =>
    rw [pad, ih, h, Nat.zero_shiftLeft, Nat.or_zero]

theorem mask_succ (n : ℕ) : 1 <<< (n + 1) ||| (2 ^ (n + 1) - 2) = 2 ^ (n + 2) - 2 := by
  have hpow : 2 ^ (n + 2) = 2 * 2 ^ (n + 1) := by rw [Nat.pow_succ, Nat.mul_comm]
  have htwo : 2 ≤ 2 ^ (n + 1) := Nat.le_self_pow (Nat.succ_ne_zero n) 2
  have hor := Nat.two_pow_add_eq_or_of_lt (show 2 ^ (n + 1) - 2 < 2 ^ (n + 1) by omega) 1
  rw [Nat.mul_one] at hor
  rw [Nat.one_shiftLeft, ← hor]
  omega

/-- The bits of the padding are those from `n` down to 1. -/
theorem pad_of_odd {size padding : ℕ} (h : padding % 2 = 1) {n : ℕ} {s : ℕ × ℕ}
    (hn : size - s.2 = n) : pad size padding n s = s.1 ||| (2 ^ (n + 1) - 2) := by
  induction n generalizing s with
  | zero => exact (Nat.or_zero _).symm
  | succ n ih =>
    rw [pad, ih (show size - (s.2 + 1) = n by omega), h, hn, Nat.or_assoc, mask_succ]

theorem pad_of_odd_succ {size padding n : ℕ} (h : padding % 2 = 1) {s : ℕ × ℕ}
    (hn : size - s.2 = n + 1) :
    pad size padding (n + 1) s = s.1 ||| 1 <<< (n + 1) ||| (2 ^ (n + 1) - 2) := by
  rw [pad_of_odd h hn, ← mask_succ, Nat.or_assoc]

/-- Of the bits of the padding the first two, for TC-RNTI those of the TPC command. -/
theorem mask_split (n : ℕ) :
    2 ^ (n + 2) - 2 = (if n = 0 then 2 else 3) <<< n ||| (2 ^ n - 2) := by
  cases n with
  | zero => rfl
  | succ n =>
    have hthree : 3 <<< (n + 1) = 1 <<< (n + 2) ||| 1 <<< (n + 1) := by
      rw [show 3 = 1 <<< 1 ||| 1 from rfl, Nat.shiftLeft_or_distrib, ← Nat.shiftLeft_add,
        Nat.add_comm 1]
    rw [if_neg (Nat.succ_ne_zero n), hthree, Nat.or_assoc, mask_succ, mask_succ]

/-! ### What the payload carries -/

/-- The bits of a DCI 1_0 for C-RNTI behind the frequency assignment. -/
def Cell.tailC10 (c : Cell) : ℕ := c.dci10 - (1 + rivBits (c.nRb .dl10))

/-- The values that the payload carries: the time domain assignment for C-RNTI is cut off to what
fits 32 bits, ones for padding set the last bit of the last field, and are the TPC command for
TC-RNTI. -/
def heard (c : Cell) (pdu : DciPdu) : Kind → Item → ℕ
  | .ra10 | .si10 | .tc10 => pdu.val
  | .c10 => Function.update pdu.val .timeDomainAssignment
      (pdu.val .timeDomainAssignment % 2 ^ (36 - c.tailC10))
  | .c00 =>
      if pdu.padding % 2 = 1 ∧ c.dci00.1 ≠ 20 + c.dci00.2 then
        Function.update pdu.val .tpc (pdu.val .tpc ||| 1)
      else pdu.val
  | .tc00 =>
      if pdu.padding % 2 = 1 then
        Function.update (Function.update pdu.val .harqPid (pdu.val .harqPid ||| 1)) .tpc
          (if c.dci00.1 = 20 + c.dci00.2 then 2 else 3)
      else Function.update pdu.val .tpc 0

section Sent

variable {c : Cell} {pdu : DciPdu}

theorem ra10_filled (hc : c.Valid) (h : Assigned c .ra10 pdu) :
    Filled (fillDciPduRel15 c .ra10 pdu) c.dci10
      (fieldsOf pdu.val (layoutRa (rivBits (c.nRb .dl10)))) := by
  obtain ⟨hlo, hhi, hpad⟩ := hc.dci10_range
  refine (fill_from_start ?_ h.fits).1
  show HasRoom c.dci10 0 (layoutRa _)
  simp only [layoutRa, HasRoom, Arith.room, and_true]
  omega

theorem si10_filled (hc : c.Valid) (h : Assigned c .si10 pdu) :
    Filled (fillDciPduRel15 c .si10 pdu) c.dci10
      (fieldsOf pdu.val (layoutSi (rivBits (c.nRb .dl10)))) := by
  obtain ⟨hlo, hhi, hpad⟩ := hc.dci10_range
  refine (fill_from_start ?_ h.fits).1
  show HasRoom c.dci10 0 (layoutSi _)
  simp only [layoutSi, HasRoom, Arith.room, and_true, true_and]
  omega

theorem tc10_filled (hc : c.Valid) (h : Assigned c .tc10 pdu) :
    Filled (fillDciPduRel15 c .tc10 pdu) c.dci10
      (fieldsOf pdu.val (layoutTc (rivBits (c.nRb .dl10)))) := by
  obtain ⟨hlo, hhi, hpad⟩ := hc.dci10_range
  refine (fill_from_start ?_ h.fits).1
  show HasRoom c.dci10 0 (layoutTc _)
  simp only [layoutTc, HasRoom, Arith.room, harqPidNbits, and_true, true_and]
  omega

theorem width_layout00 (val : Item → ℕ) (nbits : ℕ) :
    width (fieldsOf val (layout00 nbits)) = 18 + nbits := by
  simp only [layout00, fieldsOf, List.map_cons, List.map_nil, width, harqPidNbits]
  omega

theorem layout00_filled (hc : c.Valid)
    (hfits : ∀ f ∈ names (layout00 c.dci00.2), pdu.val f.1 < 2 ^ f.2) :
    Filled (fill c.dci00.1 pdu.val (layout00 c.dci00.2) (0, 0)).1 c.dci00.1
        (fieldsOf pdu.val (layout00 c.dci00.2)) ∧
      (fill c.dci00.1 pdu.val (layout00 c.dci00.2) (0, 0)).2 = 18 + c.dci00.2 := by
  obtain ⟨hlo, hhi⟩ := hc.dci00_range
  rw [← width_layout00 pdu.val]
  refine fill_from_start ?_ hfits
  simp only [layout00, HasRoom, Arith.room, harqPidNbits, and_true]
  omega

/-- The fields of format 0_0 up to the HARQ process number, and behind it. -/
theorem fieldsOf00 (val : Item → ℕ) (nbits : ℕ) :
    fieldsOf val (layout00 nbits ++ [entryTpc]) =
      (fieldsOf val (layout00 nbits).dropLast ++ [(4, val .harqPid)]) ++ [(2, val .tpc)] := rfl

theorem tc00_carries (hc : c.Valid) (h : Assigned c .tc00 pdu) :
    Carries (fillDciPduRel15 c .tc00 pdu) c.dci00.1
      (fieldsOf (heard c pdu .tc00) (layout00 c.dci00.2 ++ [entryTpc])) := by
  obtain ⟨hlo, hhi⟩ := hc.dci00_range
  obtain ⟨hfill, hpos⟩ := layout00_filled hc fun f hf => h.fits f (List.mem_append_left _ hf)
  have hwidth := width_layout00 pdu.val c.dci00.2
  change Filled _ _ (fieldsOf pdu.val (layout00 c.dci00.2).dropLast ++ [(4, pdu.val .harqPid)])
    at hfill
  change width (fieldsOf pdu.val (layout00 c.dci00.2).dropLast ++ [(4, pdu.val .harqPid)]) = _
    at hwidth
  have hlast : ∀ v, width (fieldsOf pdu.val (layout00 c.dci00.2).dropLast ++ [(4, v)]) =
      18 + c.dci00.2 := fun v => by rw [← hwidth, width_append, width_append]; rfl
  have hdrop : width (fieldsOf pdu.val (layout00 c.dci00.2).dropLast) + 4 = 18 + c.dci00.2 := by
    rw [← hwidth, width_append]
    rfl
  show Carries (pad c.dci00.1 pdu.padding (c.dci00.1 - (fill c.dci00.1 pdu.val
    (layout00 c.dci00.2) (0, 0)).2) (fill c.dci00.1 pdu.val (layout00 c.dci00.2) (0, 0))) _ _
  rw [fieldsOf00]
  rcases Nat.mod_two_eq_zero_or_one pdu.padding with hpad | hpad
  · rw [pad_of_even hpad, heard, if_neg (by omega)]
    have hput := hfill.put (show 0 < 2 ^ 2 by decide) (by rw [hlast]; omega)
    rw [Nat.zero_shiftLeft, Nat.or_zero] at hput
    exact hput.carries
  · obtain ⟨m, hm⟩ : ∃ m, c.dci00.1 - (18 + c.dci00.2) = m + 2 :=
      ⟨c.dci00.1 - (18 + c.dci00.2) - 2, by omega⟩
    have hzero : (c.dci00.1 = 20 + c.dci00.2) = (m = 0) := propext (by omega)
    -- the HARQ process number gets the first bit, and the TPC command the next two
    have hone := hfill.or_last (show 1 < 2 ^ 4 by decide)
    rw [hdrop, hm] at hone
    have htpc := hone.put (show (if m = 0 then 2 else 3) < 2 ^ 2 by split <;> decide)
      (by rw [hlast]; omega)
    rw [hlast, show c.dci00.1 - (18 + c.dci00.2 + 2) = m by omega] at htpc
    have hrest := htpc.carries.or (y := 2 ^ m - 2) (by
      have hexp : c.dci00.1 - (18 + c.dci00.2 + width [(2, if m = 0 then 2 else 3)]) = m := by
        simp only [width]
        omega
      rw [width_append, hlast, hexp]
      exact Nat.sub_lt (Nat.two_pow_pos _) (by decide))
    rw [Nat.or_assoc, ← mask_split] at hrest
    rw [hpos, hm, pad_of_odd_succ hpad (by rw [hpos, hm]), heard, if_pos hpad]
    simp only [hzero]
    exact hrest

theorem c00_carries (hc : c.Valid) (h : Assigned c .c00 pdu) :
    Carries (fillDciPduRel15 c .c00 pdu) c.dci00.1
      (fieldsOf (heard c pdu .c00) (layout00 c.dci00.2 ++ [entryTpc])) := by
  obtain ⟨hlo, hhi⟩ := hc.dci00_range
  obtain ⟨hfill, hpos⟩ := @fill_from_start c.dci00.1 (layout00 c.dci00.2 ++ [entryTpc]) pdu.val (by
    simp only [layout00, entryTpc, List.cons_append, List.nil_append, HasRoom, Arith.room,
      harqPidNbits, and_true]
    omega) h.fits
  have hwidth : ∀ v, width (fieldsOf pdu.val (layout00 c.dci00.2) ++ [(2, v)]) =
      20 + c.dci00.2 := fun v => by rw [width_append, width_layout00]; simp only [width]; omega
  have hsplit : ∀ val : Item → ℕ, fieldsOf val (layout00 c.dci00.2 ++ [entryTpc]) =
      fieldsOf val (layout00 c.dci00.2) ++ [(2, val .tpc)] := fun _ => rfl
  rw [hsplit] at hfill hpos
  rw [hwidth] at hpos
  show Carries (pad c.dci00.1 pdu.padding (c.dci00.1 - (fill c.dci00.1 pdu.val
    (layout00 c.dci00.2 ++ [entryTpc]) (0, 0)).2) (fill c.dci00.1 pdu.val
    (layout00 c.dci00.2 ++ [entryTpc]) (0, 0))) _ _
  rw [hpos, hsplit]
  by_cases hpad : pdu.padding % 2 = 1 ∧ c.dci00.1 ≠ 20 + c.dci00.2
  · obtain ⟨m, hm⟩ : ∃ m, c.dci00.1 - (20 + c.dci00.2) = m + 1 :=
      ⟨c.dci00.1 - (20 + c.dci00.2) - 1, by omega⟩
    have hone := hfill.or_last (show 1 < 2 ^ 2 by decide)
    rw [width_layout00, show c.dci00.1 - (18 + c.dci00.2 + 2) = m + 1 by omega] at hone
    have hrest := hone.carries.or (y := 2 ^ (m + 1) - 2) (by
      rw [hwidth, hm]
      exact Nat.sub_lt (Nat.two_pow_pos _) (by decide))
    rw [hm, pad_of_odd_succ hpad.1 (by rw [hpos, hm]), heard, if_pos hpad]
    exact hrest
  · rw [heard, if_neg hpad]
    rcases Nat.mod_two_eq_zero_or_one pdu.padding with heven | hodd
    · rw [pad_of_even heven]
      exact hfill.carries
    · have hexact : c.dci00.1 = 20 + c.dci00.2 := by
        by_contra hne
        exact hpad ⟨hodd, hne⟩
      rw [show c.dci00.1 - (20 + c.dci00.2) = 0 by omega]
      exact hfill.carries

/-- The fields of a DCI 1_0 for C-RNTI up to the frequency assignment. -/
def startFields (c : Cell) (pdu : DciPdu) : List (ℕ × ℕ) :=
  [(1, 1), (rivBits (c.nRb .dl10), pdu.val .frequencyDomainAssignment)]

theorem startC10_filled (hc : c.Valid)
    (hfreq : pdu.val .frequencyDomainAssignment < 2 ^ rivBits (c.nRb .dl10)) :
    Filled (startC10 c.dci10 (rivBits (c.nRb .dl10)) pdu).1 c.dci10 (startFields c pdu) ∧
      (startC10 c.dci10 (rivBits (c.nRb .dl10)) pdu).2 = width (startFields c pdu) := by
  obtain ⟨hlo, hhi, hpad⟩ := hc.dci10_range
  have hone := put_filled (filled_nil c.dci10) (show 1 < 2 ^ 1 by decide)
    (show width [] + 1 ≤ c.dci10 by rw [width]; omega)
    (show Arith.u64.room _ from (Nat.sub_le _ _).trans (by omega))
  have htwo := put_filled hone hfreq
    (show width [(1, 1)] + rivBits (c.nRb .dl10) ≤ c.dci10 by simp only [width]; omega)
    (show Arith.u64.room _ from (Nat.sub_le _ _).trans (by omega))
  refine ⟨htwo, ?_⟩
  show 0 + 1 + rivBits (c.nRb .dl10) = 1 + (rivBits (c.nRb .dl10) + 0)
  omega

theorem c10_assigned_freq (h : Assigned c .c10 pdu) :
    pdu.val .frequencyDomainAssignment < 2 ^ rivBits (c.nRb .dl10) := by
  refine h.fits (.frequencyDomainAssignment, _) ?_
  unfold Kind.fields
  dsimp only
  split
  · exact List.mem_cons_self
  · exact List.mem_cons_of_mem _ List.mem_cons_self

theorem tail_filled (hc : c.Valid) (h : Assigned c .c10 pdu) {layout : List Entry}
    (hroom : HasRoom c.dci10 (1 + rivBits (c.nRb .dl10)) layout)
    (hfits : ∀ f ∈ names layout, pdu.val f.1 < 2 ^ f.2) :
    Filled (fill c.dci10 pdu.val layout (startC10 c.dci10 (rivBits (c.nRb .dl10)) pdu)).1 c.dci10
      (startFields c pdu ++ fieldsOf pdu.val layout) := by
  obtain ⟨hstart, hpos⟩ := startC10_filled hc (c10_assigned_freq h)
  have hfill := (fill_filled hstart hroom fun e he =>
    hfits (e.item, e.width) (List.mem_map_of_mem he)).1
  grind

theorem shiftLeft_mod_u32 {k : ℕ} (hk : k ≤ 32) (v : ℕ) :
    v <<< k % 2 ^ 32 = (v % 2 ^ (32 - k)) <<< k := by
  have hpow : 2 ^ 32 = 2 ^ (32 - k) * 2 ^ k := by rw [← Nat.pow_add, Nat.sub_add_cancel hk]
  rw [Nat.shiftLeft_eq, Nat.shiftLeft_eq, hpow, Nat.mul_mod_mul_right]

theorem c10_filled (hc : c.Valid) (h : Assigned c .c10 pdu)
    (hones : allOnes (pdu.val .frequencyDomainAssignment) (rivBits (c.nRb .dl10)) = false) :
    Filled (fillDciPduRel15 c .c10 pdu) c.dci10
      (startFields c pdu ++ fieldsOf (heard c pdu .c10) layoutC) := by
  obtain ⟨hlo, hhi, hpad⟩ := hc.dci10_range
  obtain ⟨hstart, hpos⟩ := startC10_filled hc (c10_assigned_freq h)
  have hwidth : width (startFields c pdu) = 1 + rivBits (c.nRb .dl10) := by
    simp only [startFields, width]
    omega
  have hfits := h.fits
  simp only [Kind.fields, hones, Bool.false_eq_true, if_false] at hfits
  have htda : pdu.val .timeDomainAssignment < 2 ^ 4 :=
    hfits (.timeDomainAssignment, 4) (by simp [names, layoutC])
  set cut := pdu.val .timeDomainAssignment % 2 ^ (36 - c.tailC10) with hcut
  have hroom : width (startFields c pdu) + 4 ≤ c.dci10 := by omega
  have hput := hstart.put ((Nat.mod_le _ _).trans_lt htda : cut < 2 ^ 4) hroom
  -- of the time domain assignment, what is shifted beyond 32 bits is lost
  have hword : (put c.dci10 .u32 4 (pdu.val .timeDomainAssignment)
      (startC10 c.dci10 (rivBits (c.nRb .dl10)) pdu)) =
      ((startC10 c.dci10 (rivBits (c.nRb .dl10)) pdu).1 |||
        cut <<< (c.dci10 - (width (startFields c pdu) + 4)), width (startFields c pdu) + 4) := by
    have hkept : 32 - (c.dci10 - (width (startFields c pdu) + 4)) = 36 - c.tailC10 := by
      unfold Cell.tailC10
      omega
    rw [put, hpos, Nat.mod_eq_of_lt htda, shiftLeft_mod_u32 (by omega), hkept]
  have hfill := (@fill_filled c.dci10 layoutC.tail pdu.val _ _ hput (by
    simp only [layoutC, List.tail, HasRoom, Arith.room, harqPidNbits, width_append, width, and_true]
    omega) fun e he => hfits (e.item, e.width) (List.mem_cons_of_mem _ (List.mem_cons_of_mem _
      (List.mem_map_of_mem (List.mem_of_mem_tail he))))).1
  unfold fillDciPduRel15
  dsimp only
  rw [if_neg (by rw [hones]; exact Bool.false_ne_true)]
  show Filled (fill c.dci10 pdu.val layoutC.tail (put c.dci10 .u32 4
    (pdu.val .timeDomainAssignment) (startC10 c.dci10 (rivBits (c.nRb .dl10)) pdu))).1 _ _
  rw [hword]
  rw [width_append, List.append_assoc] at hfill
  exact hfill

theorem order_filled (hc : c.Valid) (h : Assigned c .c10 pdu)
    (hones : allOnes (pdu.val .frequencyDomainAssignment) (rivBits (c.nRb .dl10)) = true)
    (hroom : c.dci10 - (1 + rivBits (c.nRb .dl10)) ≤ 31) :
    Filled (fillDciPduRel15 c .c10 pdu) c.dci10
      (startFields c pdu ++ fieldsOf pdu.val layoutOrder) := by
  obtain ⟨hlo, hhi, hpad⟩ := hc.dci10_range
  have hfits := h.fits
  simp only [Kind.fields, hones, if_true] at hfits
  unfold fillDciPduRel15
  dsimp only
  rw [if_pos hones]
  refine tail_filled hc h ?_ (List.forall_mem_cons.mp hfits).2
  simp only [layoutOrder, HasRoom, Arith.room, and_true]
  omega

/-- Whatever the fields behind it do, the frequency assignment of a PDCCH order is sent. -/
theorem order_carries (hc : c.Valid) (h : Assigned c .c10 pdu)
    (hones : allOnes (pdu.val .frequencyDomainAssignment) (rivBits (c.nRb .dl10)) = true) :
    Carries (fillDciPduRel15 c .c10 pdu) c.dci10 (startFields c pdu) := by
  have hlt := c10_assigned_freq h
  have hfreq : pdu.val .frequencyDomainAssignment = 2 ^ rivBits (c.nRb .dl10) - 1 :=
    le_antisymm (Nat.le_pred_of_lt hlt) (le_of_allOnes hones)
  obtain ⟨⟨hfirst, hone⟩, ⟨hsecond, hall⟩, _⟩ := (startC10_filled hc hlt).1.carries
  obtain ⟨y, hy⟩ := @fill_or c.dci10 layoutOrder pdu.val (by decide)
    (startC10 c.dci10 (rivBits (c.nRb .dl10)) pdu)
  unfold fillDciPduRel15
  dsimp only
  rw [if_pos hones, show Kind.c10.size c = c.dci10 from rfl, hy]
  exact ⟨⟨hfirst, slice_or_ones hone y⟩,
    ⟨hsecond, (slice_or_ones (hall.trans hfreq) y).trans hfreq.symm⟩, trivial⟩

end Sent

/-! ### What is received -/

section Received

variable {c : Cell} {payload : ℕ} {values : Item → ℕ}

theorem receive_c10 (hc : c.Valid) (getSib1 : Bool) {v : ℕ}
    (h : Carries payload c.dci10 [(1, 1), (rivBits (c.nRb .dl10), v)]) :
    receive c getSib1 .c10 payload values =
      if allOnes v (rivBits (c.nRb .dl10)) = true then
        ⟨none, readAll payload (names layoutOrder) (c.dci10 - (1 + rivBits (c.nRb .dl10)))
          (Function.update values .frequencyDomainAssignment v), true⟩
      else
        ⟨some .dl10, Function.update (readAll payload (names layoutC)
          (c.dci10 - (1 + rivBits (c.nRb .dl10)))
          (Function.update values .frequencyDomainAssignment v)) .formatIndicator 1, false⟩ := by
  obtain ⟨⟨_, hone⟩, ⟨_, hfreq⟩, _⟩ := h
  show nrExtractDci0010 c getSib1 .c c.dci10 payload values = _
  unfold nrExtractDci0010
  dsimp only
  rw [hone, if_pos rfl, if_neg (getNrbForDci_ne_zero hc), getNrbForDci_eq]
  have hvalue : readAll payload [(Item.frequencyDomainAssignment, rivBits (c.nRb .dl10))]
      (c.dci10 - 1) values = Function.update values .frequencyDomainAssignment v := by
    rw [readAll, readAll, hfreq]
  simp only [extract10CRnti, hvalue, Function.update_self, Nat.sub_sub]
  split <;> rfl

end Received

/-! ### The round trip -/

/-- The UE has decoded the format and the fields of a DCI. -/
def Received (c : Cell) (k : Kind) (pdu : DciPdu) (d : Decoded) : Prop :=
  d.format = some k.format ∧ ∀ f ∈ k.fields c pdu, d.values f.1 = pdu.val f.1

section RoundTrip

variable {c : Cell} {pdu : DciPdu} {values : Item → ℕ}

theorem ra10_received (hc : c.Valid) (h : Assigned c .ra10 pdu) (getSib1 : Bool) :
    Received c .ra10 pdu (receive c getSib1 .ra10 (fillDciPduRel15 c .ra10 pdu) values) := by
  have hnodup : ((layoutRa 0).map Entry.item).Nodup := by decide
  have hread := @extract_fill _ _ _ values [] (layoutRa (rivBits (c.nRb .dl10)))
    (ra10_filled hc h).carries hnodup
  show Received c .ra10 pdu (if c.getNrbForDci .dl10 = 0 then _ else _)
  rw [if_neg (getNrbForDci_ne_zero hc), getNrbForDci_eq]
  exact ⟨rfl, fun f hf => hread f.1 (mem_names hf)⟩

theorem si10_received_iff (hc : c.Valid) (h : Assigned c .si10 pdu) (getSib1 : Bool) :
    Received c .si10 pdu (receive c getSib1 .si10 (fillDciPduRel15 c .si10 pdu) values) ↔
      getSib1 = true ∨ pdu.val .systemInfoIndicator ≠ 0 := by
  have hnodup : ((layoutSi 0).map Entry.item).Nodup := by decide
  have hread := @extract_fill _ _ _ values [] (layoutSi (rivBits (c.nRb .dl10)))
    (si10_filled hc h).carries hnodup
  have hmem : Item.systemInfoIndicator ∈ (layoutSi 0).map Entry.item := by decide
  have hsi : extract10SiRnti (fillDciPduRel15 c .si10 pdu) c.dci10 (c.nRb .dl10) values
    .systemInfoIndicator = pdu.val .systemInfoIndicator := hread .systemInfoIndicator hmem
  show Received c .si10 pdu (if c.getNrbForDci .dl10 = 0 then _ else
    if getSib1 = false ∧ extract10SiRnti (fillDciPduRel15 c .si10 pdu) c.dci10
      (c.getNrbForDci .dl10) values .systemInfoIndicator = 0 then _ else _) ↔ _
  rw [if_neg (getNrbForDci_ne_zero hc), getNrbForDci_eq, hsi]
  split_ifs with hnone
  · refine iff_of_false (fun hreceived => nomatch hreceived.1) ?_
    simp [hnone]
  · refine iff_of_true ⟨rfl, fun f hf => hread f.1 (mem_names hf)⟩ ?_
    cases getSib1 with
    | true => exact Or.inl rfl
    | false => exact Or.inr fun hzero => hnone ⟨rfl, hzero⟩

theorem tc10_received (hc : c.Valid) (h : Assigned c .tc10 pdu) (getSib1 : Bool) :
    Received c .tc10 pdu (receive c getSib1 .tc10 (fillDciPduRel15 c .tc10 pdu) values) := by
  have hone : pdu.val .formatIndicator = 1 := h.indicator (by decide) (by decide)
  have hnodup : ((layoutTc 0).tail.map Entry.item).Nodup := by decide
  obtain ⟨hindicator, hread⟩ := @extract_indicator _ values pdu.val _ _
    (layoutTc (rivBits (c.nRb .dl10))).tail (tc10_filled hc h).carries hnodup
  have hupdate := update_indicator hread
  show Received c .tc10 pdu (nrExtractDci0010 c getSib1 .tc c.dci10 _ values)
  unfold nrExtractDci0010
  dsimp only
  rw [hindicator, if_pos hone, if_neg (getNrbForDci_ne_zero hc), getNrbForDci_eq]
  exact ⟨rfl, fun f hf => hupdate f.1 (mem_names hf)⟩

/-- A DCI 0_0 is received if the values that its payload carries are those assigned. -/
theorem ul00_received_iff {k : Kind} (hk : k = .c00 ∨ k = .tc00) (getSib1 : Bool) {payload : ℕ}
    {val : Item → ℕ} (hzero : val .formatIndicator = 0)
    (h : Carries payload c.dci00.1 (fieldsOf val (layout00 c.dci00.2 ++ [entryTpc]))) :
    Received c k pdu (receive c getSib1 k payload values) ↔
      ∀ f ∈ names (layout00 c.dci00.2 ++ [entryTpc]), val f.1 = pdu.val f.1 := by
  have hnodup : ((layout00 0 ++ [entryTpc]).tail.map Entry.item).Nodup := by decide
  obtain ⟨hindicator, hread⟩ := @extract_indicator _ values val _ _
    (layout00 c.dci00.2 ++ [entryTpc]).tail h hnodup
  have hupdate := update_indicator hread
  have hne : ¬ val .formatIndicator = 1 := by
    rw [hzero]
    decide
  have hdecoded : receive c getSib1 k payload values =
      ⟨some .ul00, Function.update (extract00 payload (c.dci00.1 - 1) c.dci00.2 values)
        .formatIndicator (val .formatIndicator), false⟩ := by
    rcases hk with rfl | rfl
    all_goals
      show nrExtractDci0010 c getSib1 _ c.dci00.1 payload values = _
      unfold nrExtractDci0010
      dsimp only [Kind.rntiType]
      rw [hindicator, if_neg hne]
  have hfields : k.format = .ul00 ∧ k.fields c pdu = names (layout00 c.dci00.2 ++ [entryTpc]) := by
    rcases hk with rfl | rfl
    all_goals exact ⟨rfl, rfl⟩
  rw [hdecoded, Received, hfields.1, hfields.2]
  exact ⟨fun hr f hf => (hupdate f.1 (mem_names hf)).symm.trans (hr.2 f hf),
    fun hv => ⟨rfl, fun f hf => (hupdate f.1 (mem_names hf)).trans (hv f hf)⟩⟩

theorem or_one_eq_self_iff : ∀ {t : ℕ}, t < 16 → (t ||| 1 = t ↔ t % 2 = 1) := by decide

theorem c00_received_iff (hc : c.Valid) (h : Assigned c .c00 pdu) (getSib1 : Bool) :
    Received c .c00 pdu (receive c getSib1 .c00 (fillDciPduRel15 c .c00 pdu) values) ↔
      pdu.padding % 2 = 0 ∨ c.dci00.1 = 20 + c.dci00.2 ∨ pdu.val .tpc % 2 = 1 := by
  have hzero : pdu.val .formatIndicator = 0 := h.indicator (by decide) (by decide)
  have htpc : pdu.val .tpc < 2 ^ 2 := h.fits (.tpc, 2) (by simp [Kind.fields, names, entryTpc])
  have hcarries := c00_carries hc h
  by_cases hpad : pdu.padding % 2 = 1 ∧ c.dci00.1 ≠ 20 + c.dci00.2
  · rw [heard, if_pos hpad] at hcarries
    rw [ul00_received_iff (Or.inl rfl) getSib1 (by simpa using hzero) hcarries]
    constructor
    · intro hall
      have hkept := hall (.tpc, 2) (by simp [names, entryTpc])
      rw [Function.update_self] at hkept
      exact Or.inr (Or.inr ((or_one_eq_self_iff (by omega)).mp hkept))
    · intro hodd f _
      rw [(or_one_eq_self_iff (by omega)).mpr (by omega), Function.update_eq_self]
  · rw [heard, if_neg hpad] at hcarries
    rw [ul00_received_iff (Or.inl rfl) getSib1 hzero hcarries]
    exact iff_of_true (fun _ _ => rfl) (by omega)

theorem tc00_received_iff (hc : c.Valid) (h : Assigned c .tc00 pdu) (getSib1 : Bool) :
    Received c .tc00 pdu (receive c getSib1 .tc00 (fillDciPduRel15 c .tc00 pdu) values) ↔
      pdu.padding % 2 = 0 ∧ pdu.val .tpc = 0 ∨ pdu.padding % 2 = 1 ∧ pdu.val .harqPid % 2 = 1 ∧
        pdu.val .tpc = if c.dci00.1 = 20 + c.dci00.2 then 2 else 3 := by
  have hzero : pdu.val .formatIndicator = 0 := h.indicator (by decide) (by decide)
  have hharq : pdu.val .harqPid < 2 ^ 4 :=
    h.fits (.harqPid, 4) (by simp [Kind.fields, names, layout00, harqPidNbits])
  have hcarries := tc00_carries hc h
  by_cases hpad : pdu.padding % 2 = 1
  · rw [heard, if_pos hpad] at hcarries
    rw [ul00_received_iff (Or.inr rfl) getSib1 (by simpa using hzero) hcarries]
    constructor
    · intro hall
      have hpid := hall (.harqPid, 4) (by simp [names, layout00, harqPidNbits])
      have htpc := hall (.tpc, 2) (by simp [names, entryTpc])
      rw [Function.update_of_ne (by decide), Function.update_self] at hpid
      rw [Function.update_self] at htpc
      exact Or.inr ⟨hpad, (or_one_eq_self_iff hharq).mp hpid, htpc.symm⟩
    · rintro (⟨heven, _⟩ | ⟨_, hodd, htpc⟩) f _
      · omega
      · rw [(or_one_eq_self_iff hharq).mpr hodd, Function.update_eq_self, ← htpc,
          Function.update_eq_self]
  · rw [heard, if_neg hpad] at hcarries
    rw [ul00_received_iff (Or.inr rfl) getSib1 (by simpa using hzero) hcarries]
    constructor
    · intro hall
      have htpc := hall (.tpc, 2) (by simp [names, entryTpc])
      rw [Function.update_self] at htpc
      exact Or.inl ⟨by omega, htpc.symm⟩
    · rintro (⟨_, htpc⟩ | ⟨hodd, _⟩) f _
      · rw [← htpc, Function.update_eq_self]
      · exact absurd hodd hpad

theorem tail_received {payload : ℕ} {val : Item → ℕ} {layout : List Entry}
    (h : Carries payload c.dci10 (startFields c pdu ++ fieldsOf val layout))
    (hval : val .frequencyDomainAssignment = pdu.val .frequencyDomainAssignment)
    (hnodup : (layout.map Entry.item).Nodup)
    (hfreq : Item.frequencyDomainAssignment ∉ layout.map Entry.item) :
    ∀ f ∈ (Item.frequencyDomainAssignment, rivBits (c.nRb .dl10)) :: names layout,
      readAll payload (names layout) (c.dci10 - (1 + rivBits (c.nRb .dl10)))
        (Function.update values .frequencyDomainAssignment
          (pdu.val .frequencyDomainAssignment)) f.1 = val f.1 := by
  intro f hf
  have hread := @extract_fill _ _ _ (Function.update values .frequencyDomainAssignment
    (pdu.val .frequencyDomainAssignment)) _ _ h hnodup
  rcases List.mem_cons.mp hf with rfl | hf
  · rw [readAll_of_not_mem, Function.update_self, hval]
    intro hmem
    obtain ⟨g, hg, heq⟩ := List.mem_map.mp hmem
    grind [mem_names]
  · exact hread f.1 (mem_names hf)

theorem c10_received_iff (hc : c.Valid) (h : Assigned c .c10 pdu) (getSib1 : Bool) :
    Received c .c10 pdu (receive c getSib1 .c10 (fillDciPduRel15 c .c10 pdu) values) ↔
      allOnes (pdu.val .frequencyDomainAssignment) (rivBits (c.nRb .dl10)) = false ∧
        pdu.val .timeDomainAssignment < 2 ^ (36 - c.tailC10) := by
  by_cases hones : allOnes (pdu.val .frequencyDomainAssignment) (rivBits (c.nRb .dl10)) = true
  · rw [receive_c10 hc getSib1 (order_carries hc h hones), if_pos hones]
    refine iff_of_false (fun hreceived => nomatch hreceived.1) ?_
    simp [hones]
  · rw [Bool.not_eq_true] at hones
    have hfilled := c10_filled hc h hones
    have hone : pdu.val .formatIndicator = 1 := h.indicator (by decide) (by decide)
    have hread := @tail_received c pdu values _ _ _ hfilled.carries
      rfl (by decide) (by decide)
    rw [receive_c10 hc getSib1 (carries_append.mp hfilled.carries).1,
      if_neg (by rw [hones]; exact Bool.false_ne_true)]
    constructor
    · intro hreceived
      have hmem : (Item.timeDomainAssignment, 4) ∈ (Item.frequencyDomainAssignment,
          rivBits (c.nRb .dl10)) :: names layoutC := by simp [names, layoutC]
      have htda := hreceived.2 (.timeDomainAssignment, 4) (by
        simp only [Kind.fields, hones, Bool.false_eq_true, if_false]
        exact List.mem_cons_of_mem _ hmem)
      dsimp only at htda
      rw [Function.update_of_ne (by decide), hread _ hmem, heard, Function.update_self] at htda
      exact ⟨hones, htda ▸ Nat.mod_lt _ (Nat.two_pow_pos _)⟩
    · rintro ⟨_, htda⟩
      rw [heard, Nat.mod_eq_of_lt htda, Function.update_eq_self] at hread
      refine ⟨rfl, fun f hf => ?_⟩
      simp only [Kind.fields, hones, Bool.false_eq_true, if_false] at hf
      rcases List.mem_cons.mp hf with rfl | hf
      · dsimp only
        rw [Function.update_self, hone]
      · have hvalue := hread f hf
        grind

/-- A DCI that none of the defects reaches: one for system information that the UE waits for; one
for C-RNTI that is no PDCCH order and whose time domain assignment loses no bit; a DCI 0_0 in which the
bits that the padding sets are those assigned. -/
def Undamaged (c : Cell) (getSib1 : Bool) (pdu : DciPdu) : Kind → Prop
  | .ra10 | .tc10 => True
  | .si10 => getSib1 = true ∨ pdu.val .systemInfoIndicator ≠ 0
  | .c10 =>
      allOnes (pdu.val .frequencyDomainAssignment) (rivBits (c.nRb .dl10)) = false ∧
        pdu.val .timeDomainAssignment < 2 ^ (36 - c.tailC10)
  | .c00 => pdu.padding % 2 = 0 ∨ c.dci00.1 = 20 + c.dci00.2 ∨ pdu.val .tpc % 2 = 1
  | .tc00 =>
      pdu.padding % 2 = 0 ∧ pdu.val .tpc = 0 ∨ pdu.padding % 2 = 1 ∧ pdu.val .harqPid % 2 = 1 ∧
        pdu.val .tpc = if c.dci00.1 = 20 + c.dci00.2 then 2 else 3

/-- **When what the gNB sends is what the UE receives**, for every cell, every kind of DCI and every
assignment of values: the format and every field.  A PDCCH order is taken for one, with its fields,
and a DCI 1_0 with a frequency assignment in a bandwidth part of two or more resource blocks never
is. -/
theorem fallback_roundTrip {k : Kind} (hc : c.Valid) (h : Assigned c k pdu) (getSib1 : Bool)
    (values : Item → ℕ) :
    (Received c k pdu (receive c getSib1 k (fillDciPduRel15 c k pdu) values) ↔
      Undamaged c getSib1 pdu k) ∧
    (k = .c10 →
      allOnes (pdu.val .frequencyDomainAssignment) (rivBits (c.nRb .dl10)) = true →
      c.tailC10 ≤ 31 →
      (receive c getSib1 k (fillDciPduRel15 c k pdu) values).pdcchOrder = true ∧
        ∀ f ∈ k.fields c pdu,
          (receive c getSib1 k (fillDciPduRel15 c k pdu) values).values f.1 = pdu.val f.1) ∧
    (k = .c10 → 2 ≤ c.nRb .dl10 → ∀ nPrb rbStart,
      prballocToLocationandbandwidth0 nPrb rbStart (c.nRb .dl10)
        = .ok (pdu.val .frequencyDomainAssignment) →
      (receive c getSib1 k (fillDciPduRel15 c k pdu) values).pdcchOrder = false) := by
  refine ⟨?_, ?_, ?_⟩
  · cases k with
    | ra10 => exact iff_of_true (ra10_received hc h getSib1) trivial
    | si10 => exact si10_received_iff hc h getSib1
    | tc10 => exact iff_of_true (tc10_received hc h getSib1) trivial
    | c10 => exact c10_received_iff hc h getSib1
    | c00 => exact c00_received_iff hc h getSib1
    | tc00 => exact tc00_received_iff hc h getSib1
  · intro hk hones hroom
    obtain rfl := hk
    have hfilled := order_filled hc h hones hroom
    rw [receive_c10 hc getSib1 (carries_append.mp hfilled.carries).1, if_pos hones]
    refine ⟨rfl, ?_⟩
    intro f hf
    simp only [Kind.fields, hones, if_true] at hf
    exact tail_received hfilled.carries rfl (by decide) (by decide) f hf
  · intro hk hn nPrb rbStart hriv
    obtain rfl := hk
    have hones := allOnes_eq_false hn hriv
    rw [receive_c10 hc getSib1 (carries_append.mp (c10_filled hc h hones).carries).1,
      if_neg (by rw [hones]; exact Bool.false_ne_true)]

end RoundTrip

/-- A common search space in a cell of 106 resource blocks with a CORESET 0 of 48. -/
def sampleCell : Cell := ⟨some ⟨106, 106, 106, 106⟩, 48, .common⟩

theorem sampleCell_valid : sampleCell.Valid := by
  refine ⟨?_, by decide, fun h => (by cases h)⟩
  intro b hb
  obtain rfl := Option.some.inj hb
  decide

/-- A DCI 0_0 with one field set. -/
def samplePdu (i : Item) : DciPdu := ⟨fun j => if j = i then 1 else 0, 0⟩

theorem samplePdu_assigned {i : Item} (hi : i ≠ .formatIndicator) :
    Assigned sampleCell .tc00 (samplePdu i) := by
  refine ⟨?_, ?_⟩
  · intro f hf
    have hpos : 1 ≤ f.2 := by
      have hall : ∀ f ∈ (Kind.tc00).fields sampleCell (samplePdu i), 1 ≤ f.2 := by
        show ∀ f ∈ names (layout00 sampleCell.dci00.2 ++ [entryTpc]), 1 ≤ f.2
        decide +kernel
      exact hall f hf
    have hpow : 2 ^ 1 ≤ 2 ^ f.2 := Nat.pow_le_pow_right (by decide) hpos
    show (if f.1 = i then 1 else 0) < 2 ^ f.2
    split_ifs <;> omega
  · intro _ _
    show (if Item.formatIndicator = i then 1 else 0) = 0
    rw [if_neg hi.symm]

/-- A DCI 0_0 for TC-RNTI with an MCS. -/
theorem fallback_roundTrip_sample :
    Received sampleCell .tc00 (samplePdu .mcs) (receive sampleCell true .tc00
      (fillDciPduRel15 sampleCell .tc00 (samplePdu .mcs)) fun _ => 0) :=
  (fallback_roundTrip sampleCell_valid (samplePdu_assigned (by decide)) true _).1.mpr
    (Or.inl ⟨rfl, rfl⟩)

/-- **A TPC command is lost.**  In a DCI 0_0 for TC-RNTI the gNB does not write it. -/
theorem not_fallback_roundTrip :
    ¬ ∀ (c : Cell) (k : Kind) (pdu : DciPdu) (getSib1 : Bool) (values : Item → ℕ), c.Valid →
      Assigned c k pdu →
      Received c k pdu (receive c getSib1 k (fillDciPduRel15 c k pdu) values) := by
  intro hall
  have hreceived := (hall sampleCell .tc00 (samplePdu .tpc) true (fun _ => 0) sampleCell_valid
    (samplePdu_assigned (by decide))).2 (.tpc, 2) (by decide +kernel)
  revert hreceived
  decide +kernel

end OaiGnb.Mac.DciFallback
