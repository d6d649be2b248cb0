import OaiGnb.Rlc.Am.Entity

/-!
# The predicted size of a STATUS PDU

`status_size` tells the MAC how many bytes `generate_status` will write.  It walks the gaps with
loops of its own, which only add up sizes, and asks for the head of the first SDU while no NACK was
counted instead of at the first turn.

* `generateMissingLoop_size`: a gap takes the bytes counted for it, and is cut at the same range.
* `statusSize_generateStatus`: prediction and generation agree.
-/

namespace OaiGnb.Rlc.Am

open Run

/-! ### The prediction -/

section Size

variable (c : Config) (maxsize : ℕ)

/-- The bytes that `missing_size` counts for a block. -/
def nackBytes (n : NackFields) : ℕ :=
  let rBits := if c.snFieldLength = 18 then 3 else 1
  if n.snStart = n.snEnd then
    if n.soStart = 0 ∧ n.soEnd = 0xffff then (c.snFieldLength + 3 + rBits) / 8
    else (c.snFieldLength + 3 + rBits + 16 * 2) / 8
  else
    if n.soStart = 0 ∧ n.soEnd = 0xffff then (c.snFieldLength + 3 + rBits + 8) / 8
    else (c.snFieldLength + 3 + rBits + 16 * 2 + 8) / 8

/-- What `missing_size` leaves: `*size`, `range_count`, and whether it set `m->next` to NULL. -/
structure SizeCount where
  size : ℕ
  rangeCount : ℕ
  truncated : Bool
  deriving Repr, DecidableEq

/-- The loop of `missing_size`. -/
def missingSizeLoop (m : Missing) : ℕ → ℤ → ℤ → ℕ → ℕ → SizeCount
  | 0, _, _, size, rangeCount => ⟨size, rangeCount, false⟩
  | fuel + 1, snStart, snCount, size, rangeCount =>
      if snCount = 0 then ⟨size, rangeCount, false⟩
      else
        let n := nackFields c m snStart snCount
        if size + nackSize c n > maxsize then ⟨size, rangeCount, true⟩
        else missingSizeLoop m fuel ((snStart + n.snCount) % c.snModulus) (snCount - n.snCount)
          (size + nackBytes c n) (rangeCount + 1)

/-- `missing_size`. -/
def missingSize (m : Missing) (size : ℕ) : SizeCount :=
  let snCount := (m.snEnd - m.snStart + c.snModulus) % c.snModulus + 1
  missingSizeLoop c maxsize m snCount.toNat m.snStart snCount size 0

/-- The loop of `status_size`. -/
def statusSizeLoop (rx : RxState) : ℕ → List Pdu → ℕ → ℕ → Except Fault ℕ
  | 0, _, _, _ => .error .diverges
  | _ + 1, [], _, size => .ok size
  | fuel + 1, cur :: rest, nackCount, size => do
      let m ← nextMissing c rx cur rest (nackCount == 0)
      match m with
      | none => .ok size
      | some m =>
          let s := missingSize c maxsize m size
          statusSizeLoop rx fuel (if s.truncated then [] else m.next) (nackCount + s.rangeCount)
            s.size

/-- `status_size`. -/
def statusSize (rx : RxState) : Except Fault ℕ :=
  if maxsize < 3 then .ok 0
  else statusSizeLoop c maxsize rx (maxsize + 1) (getFirstRxPdu c rx) 0 3

end Size

/-! ### The blocks -/

/-- The encoder stands behind `size` whole bytes of a buffer of `maxsize` bytes. -/
structure Filled (e : Encoder) (size maxsize : ℕ) : Prop where
  wf : e.WF
  bit : e.bit = 0
  byte : e.byte = size
  room : e.size = maxsize

section Blocks

variable {c : Config}

theorem nackBytes_eq (hc : c.Ok) (n : NackFields) : nackBytes c n = nackSize c n := by
  unfold nackBytes nackSize NackFields.e2 NackFields.e3
  rcases hc.length with h | h <;> by_cases hs : n.snStart = n.snEnd <;>
    by_cases ho : n.soStart = 0 <;> by_cases he : n.soEnd = 0xffff <;> simp [h, hs, ho, he]

theorem nackSize_pos (n : NackFields) : 0 < nackSize c n := by
  unfold nackSize
  omega

theorem Filled.writes {e : Encoder} {size maxsize k : ℕ} {bs : List Bool}
    {f : Encoder → Except Fault Encoder} (h : Filled e size maxsize) (hf : Writes bs f)
    (hlen : bs.length = 8 * k) (hroom : size + k ≤ maxsize) :
    ∃ e', f e = .ok e' ∧ Filled e' (size + k) maxsize := by
  have hbits := h.wf.bits_length
  rw [h.bit, h.byte] at hbits
  obtain ⟨e', he, hw, hb, hs⟩ := hf e h.wf (by rw [h.room]; omega)
  obtain ⟨hbit, hbyte⟩ := hw.aligned (n := size + k) (by rw [hb, List.length_append]; omega)
  exact ⟨e', he, hw, hbit, hbyte, hs.trans h.room⟩

theorem writes_putNack (hc : c.Ok) (n : NackFields) :
    ∃ bs, Writes bs (putNack c n) ∧ bs.length = 8 * nackSize c n := by
  have hhead : Writes _ (putNackHead c n) := (writes_putBits _ _).bind ((writes_putBits _ 1).bind
    ((writes_putBits _ 1).bind ((writes_putBits _ 1).bind (writes_putBits _ _))))
  have hso : Writes _ (putSoFields n) :=
    ((writes_putBits _ 16).bind (writes_putBits _ 16)).ite writes_nothing
  have hrange : Writes _ (putRange n) := (writes_putBits _ 8).ite writes_nothing
  refine ⟨_, hhead.bind (hso.bind hrange), ?_⟩
  unfold nackSize
  rcases hc.length with h | h <;> cases n.e2 <;> cases n.e3 <;> simp [h]

theorem writeNack_filled (hc : c.Ok) (n : NackFields) {w : StatusWriter} {size maxsize : ℕ}
    (h : Filled w.enc size maxsize) (hroom : size + nackSize c n ≤ maxsize) :
    ∃ w', writeNack c n w = .ok w' ∧ Filled w'.enc (size + nackSize c n) maxsize := by
  obtain ⟨bs, hw, hlen⟩ := writes_putNack hc n
  have hset : Filled { w.enc with buffer := setBit w.enc.buffer w.e1Byte w.e1Bit } size maxsize :=
    ⟨⟨h.wf.bit, h.wf.cur⟩, h.bit, (List.length_modify ..).trans h.byte, h.room⟩
  obtain ⟨e, he, hf⟩ := hset.writes hw hlen hroom
  rw [writeNack, he]
  exact ⟨_, rfl, hf⟩

theorem filled_forceSoEnd {w : StatusWriter} {size maxsize : ℕ} (h : Filled w.enc size maxsize) :
    Filled (forceSoEnd w).enc size maxsize := by
  unfold forceSoEnd
  split
  · exact h
  · refine ⟨⟨h.wf.bit, h.wf.cur⟩, h.bit, ?_, h.room⟩
    rw [← h.byte]
    simp only [Encoder.byte, List.length_set]

/-! ### The gaps -/

/-- **A gap** is written in the bytes counted for it. -/
theorem generateMissingLoop_size (hc : c.Ok) (m : Missing) {maxsize : ℕ} (fuel : ℕ) :
    ∀ (snStart snCount : ℤ) {w : StatusWriter} {size : ℕ} (rangeCount : ℕ),
      Filled w.enc size maxsize →
      ∃ w', generateMissingLoop c m fuel snStart snCount w =
          .ok (w', (missingSizeLoop c maxsize m fuel snStart snCount size rangeCount).truncated) ∧
        Filled w'.enc (missingSizeLoop c maxsize m fuel snStart snCount size rangeCount).size
          maxsize := by
  induction fuel with
  | zero => exact fun _ _ w _ _ h => ⟨w, rfl, h⟩
  | succ fuel ih =>
    intro snStart snCount w size rangeCount h
    rw [generateMissingLoop, missingSizeLoop]
    by_cases h0 : snCount = 0
    · simp only [h0, if_true]
      exact ⟨w, rfl, h⟩
    · simp only [h0, if_false, h.byte, h.room]
      by_cases hroom : size + nackSize c (nackFields c m snStart snCount) > maxsize
      · simp only [hroom, if_true]
        exact ⟨w, rfl, h⟩
      · simp only [hroom, if_false, nackBytes_eq hc]
        obtain ⟨w₁, h1, hf1⟩ := writeNack_filled hc (nackFields c m snStart snCount) h (by omega)
        rw [h1]
        exact ih _ _ _ hf1

theorem missingSizeLoop_mono (hc : c.Ok) (m : Missing) (maxsize fuel : ℕ) :
    ∀ (snStart snCount : ℤ) (size rangeCount : ℕ), size ≤ maxsize →
      size ≤ (missingSizeLoop c maxsize m fuel snStart snCount size rangeCount).size ∧
      (missingSizeLoop c maxsize m fuel snStart snCount size rangeCount).size ≤ maxsize ∧
      rangeCount ≤ (missingSizeLoop c maxsize m fuel snStart snCount size rangeCount).rangeCount
    := by
  induction fuel with
  | zero => exact fun _ _ size _ h => ⟨le_rfl, h, le_rfl⟩
  | succ fuel ih =>
    intro snStart snCount size rangeCount h
    rw [missingSizeLoop]
    by_cases h0 : snCount = 0
    · simp only [h0, if_true]
      exact ⟨le_rfl, h, le_rfl⟩
    · simp only [h0, if_false]
      by_cases hroom : size + nackSize c (nackFields c m snStart snCount) > maxsize
      · simp only [hroom, if_true]
        exact ⟨le_rfl, h, le_rfl⟩
      · simp only [hroom, if_false, nackBytes_eq hc]
        obtain ⟨h1, h2, h3⟩ := ih ((snStart + (nackFields c m snStart snCount).snCount) %
          c.snModulus) (snCount - (nackFields c m snStart snCount).snCount)
          (size + nackSize c (nackFields c m snStart snCount)) (rangeCount + 1) (by omega)
        exact ⟨by omega, h2, by omega⟩

theorem missingSize_le (hc : c.Ok) (m : Missing) {maxsize size : ℕ} (h : size ≤ maxsize) :
    (missingSize c maxsize m size).size ≤ maxsize :=
  (missingSizeLoop_mono hc m maxsize _ _ _ size 0 h).2.1

/-- A gap that is not cut has a range. -/
theorem missingSize_progress (hc : c.Ok) (m : Missing) {maxsize size : ℕ}
    (ht : (missingSize c maxsize m size).truncated = false) :
    size < (missingSize c maxsize m size).size ∧ 0 < (missingSize c maxsize m size).rangeCount := by
  unfold missingSize at ht ⊢
  have hpos := Int.emod_nonneg (m.snEnd - m.snStart + c.snModulus) (ne_of_gt hc.modulus_pos)
  generalize (m.snEnd - m.snStart + c.snModulus) % c.snModulus = k at ht hpos ⊢
  have hk : (k + 1).toNat = k.toNat + 1 := by omega
  simp only [hk, missingSizeLoop, show k + 1 ≠ 0 by omega, if_false] at ht ⊢
  by_cases hroom : size + nackSize c (nackFields c m m.snStart (k + 1)) > maxsize
  · simp only [hroom, if_true] at ht
    cases ht
  · simp only [hroom, if_false, nackBytes_eq hc]
    have := nackSize_pos (c := c) (nackFields c m m.snStart (k + 1))
    have := missingSizeLoop_mono hc m maxsize k.toNat
      ((m.snStart + (nackFields c m m.snStart (k + 1)).snCount) % c.snModulus)
      (k + 1 - (nackFields c m m.snStart (k + 1)).snCount)
      (size + nackSize c (nackFields c m m.snStart (k + 1))) (0 + 1) (by omega)
    omega

/-! ### The whole PDU -/

/-- The two loops side by side: `check_head` is set as long as no NACK was counted. -/
theorem generateStatusLoop_size (hc : c.Ok) (rx : RxState) {maxsize : ℕ} (fuel : ℕ) :
    ∀ {cur : List Pdu} {checkHead : Bool} {w : StatusWriter} {nackCount size : ℕ},
      Filled w.enc size maxsize → size ≤ maxsize → (cur = [] ∨ checkHead = (nackCount == 0)) →
      (generateStatusLoop c rx fuel cur checkHead w).map (fun w => w.enc.byte) =
        statusSizeLoop c maxsize rx fuel cur nackCount size := by
  induction fuel with
  | zero => exact fun _ _ _ => rfl
  | succ fuel ih =>
    intro cur checkHead w nackCount size h hle hhead
    cases cur with
    | nil => exact congrArg Except.ok h.byte
    | cons p rest =>
      obtain hhead : checkHead = (nackCount == 0) := hhead.resolve_left (List.cons_ne_nil p rest)
      rw [generateStatusLoop, statusSizeLoop, hhead]
      cases hm : nextMissing c rx p rest (nackCount == 0) with
      | error f => rfl
      | ok o =>
        cases o with
        | none => exact congrArg Except.ok h.byte
        | some m =>
          obtain ⟨w', hw, hf⟩ := generateMissingLoop_size hc m
            ((m.snEnd - m.snStart + c.snModulus) % c.snModulus + 1).toNat m.snStart
            ((m.snEnd - m.snStart + c.snModulus) % c.snModulus + 1) 0 h
          have hle' := missingSize_le hc m hle
          simp only [ok_bind]
          rw [generateMissing, hw, ok_bind]
          show Except.map _ (if (missingSize c maxsize m size).truncated = true then _ else _) = _
          cases ht : (missingSize c maxsize m size).truncated with
          | true => exact ih (filled_forceSoEnd hf) hle' (.inl rfl)
          | false =>
            refine ih hf hle' (.inr ?_)
            have := (missingSize_progress hc m ht).2
            exact (beq_eq_false_iff_ne.mpr (by omega)).symm

/-- The turns are enough: every turn but the last two writes a range. -/
theorem statusSizeLoop_fuel (hc : c.Ok) (rx : RxState) {maxsize : ℕ} (fuel : ℕ) {cur : List Pdu}
    {nackCount size : ℕ} (hle : size ≤ maxsize)
    (hfuel : maxsize - size + 2 ≤ fuel ∨ cur = [] ∧ 0 < fuel)
    (h : statusSizeLoop c maxsize rx fuel cur nackCount size = .error .diverges) :
    ∃ p rest b, nextMissing c rx p rest b = .error .diverges := by
  induction fuel generalizing cur nackCount size with
  | zero => omega
  | succ fuel ih =>
    cases cur with
    | nil => cases h
    | cons p rest =>
      rw [statusSizeLoop] at h
      cases hm : nextMissing c rx p rest (nackCount == 0) with
      | error f =>
        rw [hm] at h
        cases h
        exact ⟨p, rest, _, hm⟩
      | ok o =>
        rw [hm, ok_bind] at h
        cases o with
        | none => cases h
        | some m =>
          have hle' := missingSize_le hc m hle
          refine ih hle' ?_ h
          cases ht : (missingSize c maxsize m size).truncated with
          | true => exact .inr ⟨rfl, by simp at hfuel; omega⟩
          | false =>
            have := (missingSize_progress hc m ht).1
            simp at hfuel
            left
            omega

end Blocks

/-- **Prediction and generation agree**: `status_size` returns the number of bytes that
`generate_status` writes for the same size.  Neither loop runs for ever by itself: the search for
the next gap would have to. -/
theorem statusSize_generateStatus {c : Config} (hc : c.Ok) (now : UInt64) (rx : RxState)
    (size : ℕ) :
    statusSize c size rx = (generateStatus c now rx size).map (fun r => r.2.length) ∧
      (statusSize c size rx = .error .diverges →
        ∃ p rest b, nextMissing c rx p rest b = .error .diverges) := by
  unfold statusSize generateStatus
  by_cases hsize : size < 3
  · simp only [hsize, if_true]
    exact ⟨rfl, fun h => by cases h⟩
  · simp only [hsize, if_false]
    refine ⟨?_, fun h => statusSizeLoop_fuel hc rx _ (by omega) (by omega) h⟩
    have hinit : Filled (Encoder.init size) 0 size := ⟨Encoder.init_wf size, rfl, rfl, rfl⟩
    obtain ⟨e, he, hf⟩ := hinit.writes (k := 3) (writes_putBits 0 24) (by simp) (by omega)
    rw [he, ok_bind]
    generalize hw : StatusWriter.mk e 2 _ none _ = w
    have hfw : Filled w.enc 3 size := hw ▸ hf
    rw [← generateStatusLoop_size hc rx (size + 1) hfw (by omega)
      (.inr (show true = ((0 : ℕ) == 0) from rfl))]
    cases generateStatusLoop c rx (size + 1) (getFirstRxPdu c rx) true w with
    | error f => rfl
    | ok w =>
      refine congrArg Except.ok ?_
      show w.enc.buffer.length = (putAckSn c _ w.enc.buffer).length
      unfold putAckSn
      split <;> simp only [List.length_set, List.length_modify]

/-- SDU 3 is stored, SDUs 0 to 2 are missing: three bytes and one block with a range. -/
theorem statusSize_generateStatus_range :
    ∃ c rx, c.Ok ∧ statusSize c 20 rx = .ok 6 ∧
      (generateStatus c 0 rx 20).map (fun r => r.2.length) = .ok 6 := by
  have hc : Config.sample.Ok := config_sample_ok
  have h : statusSize Config.sample 20
      (storePdu { Entity.sample.rx with
        rxHighestStatus := 4 } (nrRlcNewPdu 3 0 true true [0xaa])) = .ok 6 := by
    decide +kernel
  exact ⟨_, _, hc, h, (statusSize_generateStatus hc 0 _ 20).1.symm.trans h⟩

end OaiGnb.Rlc.Am
