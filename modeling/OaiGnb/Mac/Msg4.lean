import Mathlib.Data.Nat.Log
import OaiGnb.Lib.Run
import OaiGnb.Phy.Segmentation

/-!
# The transport block of Msg4 over its retransmissions

`nr_generate_Msg4_MsgB` searches the size of the block anew in every slot.

* `retransmission_same`: the same bytes are sent exactly in the slots in which the search ends at
  the size of the first transmission.
-/

namespace OaiGnb.Mac.Msg4

open Run Phy

/-- How the function can fail. -/
inductive Fault
  | assertFatal
  | loops
  deriving DecidableEq

/-- What the size depends on: `bwpSize`, the symbols of the TDA, `N_PRB_DMRS * N_DMRS_SLOT`, and
the modulation order and code rate of an MCS. -/
structure Grid where
  bwpSize : ℕ
  nrOfSymbols : ℕ
  dmrs : ℕ
  mcsTable : ℕ → ℕ × ℕ

/-- A slot: `finds` says whether resource blocks and a PUCCH occasion are found for `rbSize`, and
`malloc` is what a new buffer holds. -/
structure Slot extends Grid where
  finds : ℕ → Bool
  malloc : ℕ → UInt8

/-- `tb_size` with `rbSize` resource blocks and `mcsIndex`. -/
def Grid.tbSize (g : Grid) (c : ℕ × ℕ) : ℕ :=
  nrComputeTbs (g.mcsTable c.2).1 (g.mcsTable c.2).2 c.1 g.nrOfSymbols g.dmrs 0 0 1 >>> 3

/-- One more resource block, or the next MCS. -/
def Grid.next (g : Grid) (c : ℕ × ℕ) : ℕ × ℕ :=
  if c.1 < g.bwpSize then (c.1 + 1, c.2) else (c.1, c.2 + 1)

/-- The loop over `rbSize` and `mcsIndex`: the pair it ends with. -/
def Grid.search (g : Grid) (pduLength : ℕ) : ℕ → ℕ × ℕ → Option (ℕ × ℕ)
  | 0, _ => none
  | n + 1, c =>
      if g.tbSize (g.next c) < pduLength ∧ (g.next c).2 ≤ 28 then g.search pduLength n (g.next c)
      else some (g.next c)

/-- The buffer of the HARQ process, its `tb_size`, and `ra->mac_pdu_length`. -/
structure Process where
  buf : ℕ → UInt8
  len : ℕ
  tbSize : ℕ
  macPduLength : ℕ

/-- The size `allocate_transportBlock_buffer` reaches by doubling 32 KiB. -/
def bufferSize (needed : ℕ) : ℕ := 2 ^ max 15 (Nat.clog 2 needed)

/-- The padding subheader and the zeros up to the end of the block. -/
def pad (macPduLength tbSize : ℕ) (buf : ℕ → UInt8) (k : ℕ) : UInt8 :=
  if k < macPduLength ∨ tbSize ≤ k then buf k else if k = macPduLength then 0x3F else 0

/-- Sizing, writing and padding the buffer; `pdu` is what a first transmission writes. -/
def Process.fill (p : Process) (s : Slot) (pdu : Option (List UInt8)) (tbSize : ℕ) : Process :=
  let buf := if tbSize ≤ p.len then p.buf else s.malloc
  let length := (pdu.map List.length).getD p.macPduLength
  ⟨pad length tbSize fun k => (pdu.getD []).getD k (buf k),
    if tbSize ≤ p.len then p.len else bufferSize tbSize, tbSize, length⟩

/-- The new state and the bytes sent.  `pduLength` is what the block has to hold: the MAC SDU, its
subheader and 13 bytes in a first transmission, the old `tb_size` in a retransmission. -/
def nrGenerateMsg4MsgB (p : Process) (s : Slot) (pduLength : ℕ) (pdu : Option (List UInt8)) :
    Except Fault (Process × Option (List UInt8)) :=
  match s.search (pduLength % 2 ^ 16) (s.bwpSize + 30) (0, 0) with
  | none => .error .loops
  | some c =>
      if s.tbSize c < pduLength % 2 ^ 16 then .error .assertFatal
      else if s.finds c.1 = false then .ok (p, none)
      else if s.tbSize c = 0 then .error .assertFatal
      else
        let p' := p.fill s pdu (s.tbSize c)
        .ok (p', some ((List.range p'.tbSize).map p'.buf))

/-- A retransmission asks for the old `tb_size`. -/
def retransmit (p : Process) (s : Slot) : Except Fault (Process × Option (List UInt8)) :=
  nrGenerateMsg4MsgB p s p.tbSize none

/-- The sizes that are tried in turn: all resource blocks of the BWP, then the higher MCS. -/
def Grid.pair (g : Grid) (i : ℕ) : ℕ × ℕ :=
  if i < g.bwpSize then (i + 1, 0) else (g.bwpSize, i + 1 - g.bwpSize)

/-- The first size of the slot that holds a block of `t` bytes, which a `uint16_t` has to hold, is
`t` itself, or the slot has no room for it. -/
def Slot.Keeps (s : Slot) (t : ℕ) : Prop :=
  ∀ k ≤ s.bwpSize + 28, t % 2 ^ 16 ≤ s.tbSize (s.pair k) →
    (∀ j < k, s.tbSize (s.pair j) < t % 2 ^ 16) → s.finds (s.pair k).1 = true →
      s.tbSize (s.pair k) = t

theorem next_pair (g : Grid) (i : ℕ) : g.next (g.pair i) = g.pair (i + 1) := by
  grind [Grid.next, Grid.pair]

/-- **The search ends at the first size that is not smaller.** -/
theorem search_first {g : Grid} {l n i : ℕ} {c d : ℕ × ℕ} (hc : g.next c = g.pair i)
    (hi : i ≤ g.bwpSize + 28) (h : g.search l n c = some d) :
    ∃ k, d = g.pair k ∧ k ≤ g.bwpSize + 28 ∧ ∀ j, i ≤ j → j < k → g.tbSize (g.pair j) < l := by
  induction n generalizing c i with
  | zero => cases h
  | succ n ih =>
      rw [Grid.search, hc] at h
      split at h
      next hgo =>
        have hi' : i + 1 ≤ g.bwpSize + 28 := by grind [Grid.pair]
        obtain ⟨k, hd, hk, hless⟩ := ih (next_pair g i) hi' h
        refine ⟨k, hd, hk, fun j hij hjk => ?_⟩
        rcases Nat.lt_or_eq_of_le hij with hlt | rfl
        · exact hless j hlt hjk
        · exact hgo.1
      next =>
        cases h
        exact ⟨i, rfl, hi, fun j hij hjk => absurd hjk (by omega)⟩

theorem first_unique {g : Grid} {l j k : ℕ} (hj : l ≤ g.tbSize (g.pair j))
    (hk : l ≤ g.tbSize (g.pair k)) (hjless : ∀ i < j, g.tbSize (g.pair i) < l)
    (hkless : ∀ i < k, g.tbSize (g.pair i) < l) : j = k := by
  rcases Nat.lt_trichotomy j k with hlt | heq | hgt
  · exact absurd (hkless j hlt) (not_lt.mpr hj)
  · exact heq
  · exact absurd (hjless k hgt) (not_lt.mpr hk)

theorem fill_fill (p : Process) (s₀ s : Slot) (pdu : Option (List UInt8)) (t : ℕ) :
    (p.fill s₀ pdu t).fill s none t = p.fill s₀ pdu t := by
  have hlen : t ≤ (p.fill s₀ pdu t).len := by
    simp only [Process.fill, bufferSize]
    split
    · assumption
    · exact (Nat.le_pow_clog one_lt_two t).trans (Nat.pow_le_pow_right two_pos (le_max_right ..))
  have hpad : ∀ m buf, pad m t (pad m t buf) = pad m t buf := by
    intro m buf
    funext k
    simp only [pad]
    split_ifs <;> rfl
  rw [Process.fill, if_pos hlen, if_pos hlen]
  simp [Process.fill, hpad]

section

variable {p p₀ p₁ : Process} {s₀ s : Slot} {n : ℕ} {pdu sent₀ : List UInt8}

/-- What a retransmission comes to, for the block of a first transmission. -/
theorem retransmit_spec {p' : Process} {sent : Option (List UInt8)}
    (h₀ : nrGenerateMsg4MsgB p s₀ n (some pdu) = .ok (p₀, some sent₀))
    (h : retransmit p₀ s = .ok (p', sent)) :
    ((∀ bytes ∈ sent, p'.tbSize = p₀.tbSize ∧ bytes = sent₀) ↔ s.Keeps p₀.tbSize) ∧
      (s.Keeps p₀.tbSize → p' = p₀) := by
  obtain ⟨t, rfl, rfl⟩ : ∃ t, p₀ = p.fill s₀ (some pdu) t ∧
      sent₀ = (List.range p₀.tbSize).map p₀.buf := by
    unfold nrGenerateMsg4MsgB at h₀
    split at h₀
    · cases h₀
    · split_ifs at h₀
      all_goals cases h₀
      exact ⟨_, rfl, rfl⟩
  have ht : (p.fill s₀ (some pdu) t).tbSize = t := rfl
  rw [ht]
  rw [retransmit, nrGenerateMsg4MsgB, ht] at h
  split at h
  · cases h
  next c hsearch =>
    obtain ⟨k, rfl, hk, hless⟩ := @search_first _ _ _ 0 _ _ (by grind [Grid.next, Grid.pair])
      (by omega) hsearch
    split_ifs at h with hsmall hroom hzero
    · -- the slot has no room
      cases h
      refine ⟨iff_of_true (by simp) fun j _ hj hjless hfinds => ?_, fun _ => rfl⟩
      rw [first_unique hj (not_lt.mp hsmall) hjless fun i hi => hless i (Nat.zero_le i) hi] at hfinds
      exact absurd (hfinds.symm.trans hroom) (by decide)
    · cases h
      have hiff : s.Keeps t ↔ s.tbSize (s.pair k) = t := by
        constructor
        · intro hkeeps
          exact hkeeps k hk (not_lt.mp hsmall) (fun i hi => hless i (Nat.zero_le i) hi)
            (Bool.eq_true_of_not_eq_false hroom)
        · intro heq j _ hj hjless _
          rwa [first_unique hj (not_lt.mp hsmall) hjless fun i hi => hless i (Nat.zero_le i) hi]
      rw [hiff]
      refine ⟨⟨fun hall => (hall _ rfl).1, fun heq bytes hbytes => ?_⟩, fun heq => ?_⟩
      · rw [heq, fill_fill] at hbytes ⊢
        exact ⟨rfl, (Option.some.inj hbytes).symm⟩
      · rw [heq, fill_fill]

end

/-- A BWP of `bwpSize` resource blocks with 12 DMRS elements per block. -/
def slotOf (bwpSize nrOfSymbols : ℕ) : Slot :=
  ⟨⟨bwpSize, nrOfSymbols, 12, fun _ => (2, 1200)⟩, fun _ => true, fun _ => 0⟩

/-- A process without a block. -/
def idle : Process := ⟨fun _ => 0, 0, 0, 0⟩

/-- The contention resolution identity and a MAC SDU of two bytes. -/
def samplePdu : List UInt8 := [62, 1, 2, 3, 4, 5, 6, 0, 2, 0xaa, 0xbb]

end OaiGnb.Mac.Msg4
