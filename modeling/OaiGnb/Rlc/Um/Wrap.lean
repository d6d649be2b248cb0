import OaiGnb.Rlc.Turn
import OaiGnb.Rlc.Um.Receive

/-!
# Wrap-around of the UM sequence number

An entity that starts with its receive variables at `k` and receives PDUs whose SN fields are
increased by `k` should behave like the entity that starts at 0.

* `receptionActions_turn`, `recvPdu_turn`: reception commutes with the turn of the SN circle.
* `MissesRestart`: the expiry of `t_reassembly` at which the test without a modulus fails.
* `run_turned`: without such an expiry, whole runs commute with the turn.
-/

namespace OaiGnb.Rlc.Um

open BitField Run SerialNumber

/-! ### PDUs with an increased SN -/

/-- The SN increased by `k`. -/
def turnSn (c : Config) (k : ℤ) (sn : ℕ) : ℕ := (turn c.snModulus k sn).toNat

/-- The PDU with its SN field increased by `k`.  A complete SDU is sent without an SN. -/
def turnPdu (c : Config) (k : ℤ) (pdu : List UInt8) : List UInt8 :=
  match decodeSi (Decoder.init pdu) with
  | none => pdu
  | some (isFirst, isLast, _) =>
      if isFirst && isLast then pdu
      else packBits (mapField (snPosition c) c.snFieldLength (turnSn c k) (bytesBits pdu))

variable {c : Config}

theorem Config.Sane.turnSn_lt (h : c.Sane) (k : ℤ) (sn : ℕ) :
    turnSn c k sn < 2 ^ c.snFieldLength := by
  obtain ⟨h0, h1⟩ := inRange_turn (k := k) (a := sn) h.pos
  rw [h.modulus] at h0 h1
  have h3 : ((2 ^ c.snFieldLength : ℕ) : ℤ) = 2 ^ c.snFieldLength := by norm_cast
  rw [turnSn, h.modulus]
  omega

theorem Config.Sane.turnSn_cast (h : c.Sane) (k : ℤ) (sn : ℕ) :
    ((turnSn c k sn : ℕ) : ℤ) = turn c.snModulus k sn :=
  Int.toNat_of_nonneg (inRange_turn h.pos).1

theorem Config.Sane.fieldAt_inRange (h : c.Sane) (pos : ℕ) (bs : List Bool) :
    InRange c.snModulus (fieldAt pos c.snFieldLength bs : ℕ) := by
  have hlt := bitsVal_lt ((bs.drop pos).take c.snFieldLength)
  have hle : 2 ^ ((bs.drop pos).take c.snFieldLength).length ≤ 2 ^ c.snFieldLength :=
    Nat.pow_le_pow_right (by decide) (List.length_take_le _ _)
  refine ⟨Int.natCast_nonneg _, ?_⟩
  rw [h.modulus, fieldAt]
  exact_mod_cast hlt.trans_le hle

theorem headerOf_mapField (hc : c.Sane) (k : ℤ) (isFirst isLast : Bool) (bs : List Bool) :
    headerOf c isFirst isLast (mapField (snPosition c) c.snFieldLength (turnSn c k) bs) =
      (headerOf c isFirst isLast bs).map (fun h => { h with sn := turnSn c k h.sn }) := by
  unfold headerOf
  dsimp only
  rw [mapField_length]
  split
  next hlen =>
    have hsn : fieldAt (snPosition c) c.snFieldLength
        (mapField (snPosition c) c.snFieldLength (turnSn c k) bs)
        = turnSn c k (fieldAt (snPosition c) c.snFieldLength bs) := by
      rw [fieldAt, bitsVal_mapField _ hlen, fieldAt, Nat.mod_eq_of_lt (hc.turnSn_lt k _)]
    have hso : fieldAt (snPosition c + c.snFieldLength) 16
        (mapField (snPosition c) c.snFieldLength (turnSn c k) bs)
        = fieldAt (snPosition c + c.snFieldLength) 16 bs := by
      rw [fieldAt, drop_mapField _ _ le_rfl, fieldAt]
    grind
  · rfl

theorem turnPdu_bits (c : Config) (f : ℕ → ℕ) (pdu : List UInt8) :
    bytesBits (packBits (mapField (snPosition c) c.snFieldLength f (bytesBits pdu)))
      = mapField (snPosition c) c.snFieldLength f (bytesBits pdu) :=
  bytesBits_packBits pdu.length _ (by simp)

/-! ### The receive state -/

/-- The receive state with every SN turned by `k`. -/
def RxState.turn (M k : ℤ) (rx : RxState) : RxState :=
  { rx with
    rxNextHighest := SerialNumber.turn M k rx.rxNextHighest
    rxNextReassembly := SerialNumber.turn M k rx.rxNextReassembly
    rxTimerTrigger := SerialNumber.turn M k rx.rxTimerTrigger
    rxList := rx.rxList.map (Pdu.turn M k) }

theorem RxState.turn_highest (M k : ℤ) (rx : RxState) :
    (rx.turn M k).rxNextHighest = SerialNumber.turn M k rx.rxNextHighest := rfl

theorem RxState.turn_reassembly (M k : ℤ) (rx : RxState) :
    (rx.turn M k).rxNextReassembly = SerialNumber.turn M k rx.rxNextReassembly := rfl

theorem RxState.turn_trigger (M k : ℤ) (rx : RxState) :
    (rx.turn M k).rxTimerTrigger = SerialNumber.turn M k rx.rxTimerTrigger := rfl

theorem RxState.turn_start (M k : ℤ) (rx : RxState) :
    (rx.turn M k).tReassemblyStart = rx.tReassemblyStart := rfl

/-- All SNs of the receive state are SNs. -/
structure RxState.InRange (M : ℤ) (rx : RxState) : Prop where
  highest : SerialNumber.InRange M rx.rxNextHighest
  reassembly : SerialNumber.InRange M rx.rxNextReassembly
  trigger : SerialNumber.InRange M rx.rxTimerTrigger
  list : ∀ p ∈ rx.rxList, SerialNumber.InRange M p.sn

theorem modulusRx_eq (c : Config) (rx : RxState) (a : ℤ) :
    modulusRx c rx a = (a - rx.rxNextHighest + c.windowSize) % c.snModulus := by
  unfold modulusRx
  dsimp only
  split
  · rw [Int.add_emod_right]
    ring_nf
  · ring_nf

variable {M x : ℤ} {rx' : RxState} {ev : List Event} {now : UInt64} {buffer : List UInt8}
  {e : Entity}

section Turn

variable {c : Config} {rx : RxState} {k : ℤ}

theorem modulusRx_turn (c : Config) (rx : RxState) (k a : ℤ) :
    modulusRx c (rx.turn c.snModulus k) (turn c.snModulus k a) = modulusRx c rx a := by
  rw [modulusRx_eq, modulusRx_eq]
  show (turn c.snModulus k a - turn c.snModulus k rx.rxNextHighest
    + c.windowSize) % c.snModulus = _
  rw [turn, turn, Int.add_emod, Int.sub_emod, Int.emod_emod, Int.emod_emod, ← Int.sub_emod,
    ← Int.add_emod]
  ring_nf

theorem snCompareRx_turn (c : Config) (rx : RxState) (k a b : ℤ) :
    snCompareRx c (rx.turn c.snModulus k) (turn c.snModulus k a) (turn c.snModulus k b)
      = snCompareRx c rx a b := by
  rw [snCompareRx, snCompareRx, modulusRx_turn, modulusRx_turn]

/-! #### The PDUs of one SDU -/

variable {l : List Pdu}

theorem pdusOf_turn {sn : ℤ} (hk : InRange M k)
    (hl : ∀ p ∈ l, InRange M p.sn) (hsn : InRange M sn) :
    pdusOf (turn M k sn) (l.map (Pdu.turn M k)) = (pdusOf sn l).map (Pdu.turn M k) := by
  unfold pdusOf
  rw [dropWhile_map_of (q := fun p => decide (p.sn ≠ sn)), takeWhile_map_of]
  · intro p hp
    have hin := hl p ((List.dropWhile_suffix _).subset hp)
    exact decide_eq_decide.mpr (turn_inj hk hin hsn)
  · intro p hp
    exact decide_eq_decide.mpr (not_congr (turn_inj hk (hl p hp) hsn))

theorem consumeSdu_turn {sn : ℤ} (hk : InRange M k)
    (hl : ∀ p ∈ l, InRange M p.sn) (hsn : InRange M sn) :
    consumeSdu (turn M k sn) (l.map (Pdu.turn M k)) = (consumeSdu sn l).map (Pdu.turn M k) := by
  have hne : ∀ p ∈ l, decide ((p.turn M k).sn ≠ turn M k sn) = decide (p.sn ≠ sn) :=
    fun p hp => decide_eq_decide.mpr (not_congr (turn_inj hk (hl p hp) hsn))
  unfold consumeSdu
  rw [pdusOf_turn hk hl hsn, takeWhile_map_of hne, dropWhile_map_of hne,
    dropWhile_map_of (q := fun p => decide (p.sn = sn))]
  · simp only [List.map_append, List.map_map]
    rfl
  · grind [List.dropWhile_suffix, turn_inj]

section Turned

variable (hk : InRange c.snModulus k) (hr : rx.InRange c.snModulus)
include hk hr

theorem sduFull_turn {sn : ℤ} (hsn : InRange c.snModulus sn) :
    sduFull (rx.turn c.snModulus k) (turn c.snModulus k sn) = sduFull rx sn := by
  exact (congrArg pdusFull (pdusOf_turn hk hr.list hsn)).trans (pdusFull_turn _)

theorem sduDelivered_turn {sn : ℤ} (hsn : InRange c.snModulus sn) :
    sduDelivered (rx.turn c.snModulus k) (turn c.snModulus k sn) = sduDelivered rx sn := by
  exact (congrArg headConsumed (pdusOf_turn hk hr.list hsn)).trans (headConsumed_turn _)

theorem sduHasMissingBytes_turn {sn : ℤ} (hsn : InRange c.snModulus sn) :
    sduHasMissingBytes (rx.turn c.snModulus k) (turn c.snModulus k sn)
      = sduHasMissingBytes rx sn := by
  exact (congrArg pdusMissing (pdusOf_turn hk hr.list hsn)).trans (pdusMissing_turn _)

theorem skipDelivered_turn (hM : 0 < c.snModulus) {sn : ℤ} (hsn : InRange c.snModulus sn) :
    skipDelivered c (rx.turn c.snModulus k) (turn c.snModulus k sn)
      = (skipDelivered c rx sn).map (turn c.snModulus k) :=
  advanceWhile_turn hM (fun _ h => sduDelivered_turn hk hr h) _ sn hsn

theorem reassembleAndDeliver_turn {sn : ℤ} (hsn : InRange c.snModulus sn) :
    reassembleAndDeliver (rx.turn c.snModulus k) (turn c.snModulus k sn) =
      ((reassembleAndDeliver rx sn).1.turn c.snModulus k, (reassembleAndDeliver rx sn).2) := by
  have hpdus : pdusOf (turn c.snModulus k sn) (rx.turn c.snModulus k).rxList
      = (pdusOf sn rx.rxList).map (Pdu.turn c.snModulus k) := pdusOf_turn hk hr.list hsn
  have hcons : consumeSdu (turn c.snModulus k sn) (rx.turn c.snModulus k).rxList
      = (consumeSdu sn rx.rxList).map (Pdu.turn c.snModulus k) := consumeSdu_turn hk hr.list hsn
  simp only [reassembleAndDeliver, hpdus, hcons, reassembleLoop_turn, pdusSize_turn]
  rfl

end Turned

theorem discardOutOfWindow_turn (rx : RxState) (l : List Pdu) : ∀ size : ℤ,
    discardOutOfWindow c (rx.turn c.snModulus k) (l.map (Pdu.turn c.snModulus k)) size =
      ((discardOutOfWindow c rx l size).1.map (Pdu.turn c.snModulus k),
        (discardOutOfWindow c rx l size).2) := by
  induction l with
  | nil => intro size; rfl
  | cons p l ih =>
    intro size
    have hcmp : snCompareRx c (rx.turn c.snModulus k) (p.turn c.snModulus k).sn
        (rx.turn c.snModulus k).rxNextHighest = snCompareRx c rx p.sn rx.rxNextHighest :=
      snCompareRx_turn c rx k p.sn rx.rxNextHighest
    rw [List.map_cons, discardOutOfWindow, discardOutOfWindow, hcmp]
    split
    · exact ih _
    · rfl

theorem discardBelow_turn (rx : RxState) (l : List Pdu) :
    discardBelow c (rx.turn c.snModulus k) (l.map (Pdu.turn c.snModulus k))
      = (discardBelow c rx l).map (Pdu.turn c.snModulus k) := by
  induction l with
  | nil => rfl
  | cons p l ih =>
    have hcmp : snCompareRx c (rx.turn c.snModulus k) (p.turn c.snModulus k).sn
        (rx.turn c.snModulus k).rxNextReassembly = snCompareRx c rx p.sn rx.rxNextReassembly :=
      snCompareRx_turn c rx k p.sn rx.rxNextReassembly
    grind [discardBelow]

end Turn

/-! ### SNs stay in range -/

variable {h : Header}

section Range

variable {c : Config} {rx : RxState}

theorem reassembleAndDeliver_inRange (hr : rx.InRange M) (sn : ℤ) :
    (reassembleAndDeliver rx sn).1.InRange M := by
  refine ⟨hr.highest, hr.reassembly, hr.trigger, ?_⟩
  intro p hp
  rcases mem_consumeSdu hp with h | ⟨q, hq, rfl⟩
  · exact hr.list p h
  · exact hr.list q (mem_pdusOf hq)

theorem RxState.moved_inRange (hM : 0 < c.snModulus) (hr : rx.InRange c.snModulus) (x : ℤ) :
    (rx.moved c x).InRange c.snModulus :=
  ⟨inRange_emod hM, hr.reassembly, hr.trigger,
    fun p hp => hr.list p ((discardOutOfWindow_suffix _ _ _ _).subset hp)⟩

theorem receptionDeliver_inRange (hM : 0 < c.snModulus)
    (hr : rx.InRange c.snModulus) (h : receptionDeliver c rx x = .ok (rx', ev)) :
    rx'.InRange c.snModulus := by
  have h1 := reassembleAndDeliver_inRange hr x
  have h2 := RxState.moved_inRange hM hr x
  rw [receptionDeliver_eq] at h
  split at h
  · split at h
    · obtain ⟨sn, hs, he⟩ := map_returns.mp h
      obtain ⟨rfl, _⟩ := Prod.mk.inj he
      exact ⟨h1.highest, advanceWhile_inRange hM _ hr.reassembly hs, h1.trigger, h1.list⟩
    · simp_all
  · split at h
    · split at h
      · obtain ⟨sn, hs, he⟩ := map_returns.mp h
        obtain ⟨rfl, _⟩ := Prod.mk.inj he
        exact ⟨h2.highest, advanceWhile_inRange hM _ (inRange_emod hM) hs, h2.trigger, h2.list⟩
      · simp_all
    · simp_all

theorem stopTimer_inRange (hr : rx.InRange M) : (stopTimer c rx).InRange M := by
  unfold stopTimer
  split
  · exact ⟨hr.highest, hr.reassembly, hr.trigger, hr.list⟩
  · exact hr

theorem startTimer_inRange (now : UInt64) (hr : rx.InRange M) :
    (startTimer c now rx).InRange M := by
  unfold startTimer
  split
  · exact ⟨hr.highest, hr.reassembly, hr.highest, hr.list⟩
  · exact hr

theorem receptionActions_inRange (hM : 0 < c.snModulus) (hr : rx.InRange c.snModulus)
    (h : receptionActions c now rx x = .ok (rx', ev)) : rx'.InRange c.snModulus := by
  obtain ⟨⟨rx₁, ev₁⟩, h1, rfl, _⟩ := bind_pair_inj h
  exact startTimer_inRange now (stopTimer_inRange (receptionDeliver_inRange hM hr h1))

theorem RxState.stored_inRange (data : List UInt8) (dataSize : ℤ)
    (hr : rx.InRange c.snModulus) (hsn : SerialNumber.InRange c.snModulus h.sn) :
    (rx.stored c h data dataSize).InRange c.snModulus := by
  refine ⟨hr.highest, hr.reassembly, hr.trigger, ?_⟩
  intro p hp
  rcases SortedList.mem_insertBefore.mp hp with rfl | hp
  · exact hsn
  · exact hr.list p hp

theorem recvSegment_inRange {hd : Header} (hM : 0 < c.snModulus) (hr : rx.InRange c.snModulus)
    (hsn : InRange c.snModulus hd.sn)
    (h : recvSegment c now rx buffer hd = .ok (rx', ev)) : rx'.InRange c.snModulus := by
  have hsame : (Except.ok (rx, []) : Except Fault (RxState × List Event)) = .ok (rx', ev) →
      rx'.InRange c.snModulus := by
    intro he
    obtain ⟨rfl, _⟩ := ok_inj he
    exact hr
  unfold recvSegment at h
  dsimp only at h
  split at h
  · exact hsame h
  · split at h
    · exact hsame h
    · split at h
      · exact hsame h
      · exact receptionActions_inRange hM (RxState.stored_inRange _ _ hr hsn) h

end Range

/-! ### Reception commutes with the turn -/

section Turned

variable {c : Config} {rx : RxState} {k : ℤ}

theorem RxState.moved_turn (c : Config) (rx : RxState) (k x : ℤ) :
    (rx.turn c.snModulus k).moved c (SerialNumber.turn c.snModulus k x)
      = (rx.moved c x).turn c.snModulus k := by
  have hnext : { rx.turn c.snModulus k with
      rxNextHighest := (SerialNumber.turn c.snModulus k x + 1) % c.snModulus }
      = ({ rx with rxNextHighest := (x + 1) % c.snModulus } : RxState).turn c.snModulus k := by
    rw [turn_add_emod]
    rfl
  have hdisc := discardOutOfWindow_turn (c := c) (k := k)
    { rx with rxNextHighest := (x + 1) % c.snModulus } rx.rxList rx.rxSize
  unfold RxState.moved
  dsimp only
  rw [hnext]
  rw [show (rx.turn c.snModulus k).rxList = rx.rxList.map (Pdu.turn c.snModulus k) from rfl,
    show (rx.turn c.snModulus k).rxSize = rx.rxSize from rfl, hdisc, turn_add_emod]
  rfl

theorem receptionDeliver_turn (hM : 0 < c.snModulus) (hk : InRange c.snModulus k)
    (hr : rx.InRange c.snModulus) (hx : InRange c.snModulus x) :
    receptionDeliver c (rx.turn c.snModulus k) (turn c.snModulus k x) =
      (receptionDeliver c rx x).map (fun r => (r.1.turn c.snModulus k, r.2)) := by
  have h1 := reassembleAndDeliver_inRange hr x
  have h2 := RxState.moved_inRange hM hr x
  have hbase : ∀ a : ℤ, (turn c.snModulus k a - c.windowSize + c.snModulus) % c.snModulus
      = turn c.snModulus k ((a - c.windowSize + c.snModulus) % c.snModulus) := by
    intro a
    have hsum : ∀ b : ℤ, b - c.windowSize + c.snModulus = b + (c.snModulus - c.windowSize) := by
      intro b
      ring
    rw [hsum, hsum, turn_add_emod]
  rw [receptionDeliver_eq, receptionDeliver_eq, sduFull_turn hk hr hx, RxState.moved_turn,
    reassembleAndDeliver_turn hk hr hx]
  simp only [RxState.turn_highest, RxState.turn_reassembly, snCompareRx_turn, hbase,
    turn_inj hk hx hr.reassembly, skipDelivered_turn hk h1 hM hr.reassembly,
    skipDelivered_turn hk h2 hM (inRange_emod hM)]
  split
  · split
    · cases skipDelivered c (reassembleAndDeliver rx x).1 rx.rxNextReassembly <;> rfl
    · rfl
  · split
    · split
      · cases skipDelivered c (rx.moved c x)
          (((rx.moved c x).rxNextHighest - c.windowSize + c.snModulus) % c.snModulus) <;> rfl
      · rfl
    · rfl

theorem stopTimer_turn (hM : 0 < c.snModulus) (hk : InRange c.snModulus k)
    (hr : rx.InRange c.snModulus) :
    stopTimer c (rx.turn c.snModulus k) = (stopTimer c rx).turn c.snModulus k := by
  unfold stopTimer
  simp only [RxState.turn_highest, RxState.turn_reassembly, RxState.turn_trigger,
    RxState.turn_start, snCompareRx_turn, turn_add_emod,
    sduHasMissingBytes_turn hk hr hr.reassembly, turn_inj hk hr.highest (inRange_emod hM)]
  split <;> rfl

theorem startTimer_turn (now : UInt64) (hM : 0 < c.snModulus)
    (hk : InRange c.snModulus k) (hr : rx.InRange c.snModulus) :
    startTimer c now (rx.turn c.snModulus k) = (startTimer c now rx).turn c.snModulus k := by
  unfold startTimer
  simp only [RxState.turn_highest, RxState.turn_reassembly, RxState.turn_start, snCompareRx_turn,
    turn_add_emod, sduHasMissingBytes_turn hk hr hr.reassembly,
    turn_inj hk hr.highest (inRange_emod hM)]
  split <;> rfl

/-- **`reception_actions` commutes with the turn.** -/
theorem receptionActions_turn (now : UInt64) (hM : 0 < c.snModulus)
    (hk : InRange c.snModulus k) (hr : rx.InRange c.snModulus) (hx : InRange c.snModulus x) :
    receptionActions c now (rx.turn c.snModulus k) (turn c.snModulus k x) =
      (receptionActions c now rx x).map (fun r => (r.1.turn c.snModulus k, r.2)) := by
  unfold receptionActions
  rw [receptionDeliver_turn hM hk hr hx]
  refine map_bind_eq ?_
  intro r hdel
  obtain ⟨rx₁, ev⟩ := r
  have h1 := receptionDeliver_inRange hM hr hdel
  show Except.ok (receptionTimer c now (rx₁.turn c.snModulus k), ev) = _
  rw [receptionTimer, stopTimer_turn hM hk h1, startTimer_turn now hM hk (stopTimer_inRange h1)]
  rfl

theorem RxState.stored_turn (data : List UInt8) (dataSize : ℤ) (hc : c.Sane)
    (hk : SerialNumber.InRange c.snModulus k) (hr : rx.InRange c.snModulus)
    (hsn : SerialNumber.InRange c.snModulus h.sn) :
    (rx.turn c.snModulus k).stored c { h with sn := turnSn c k h.sn } data dataSize
      = (rx.stored c h data dataSize).turn c.snModulus k := by
  have hadd := nrRlcPduListAdd_turn hk (snCompareRx_turn c rx k) hr.list
    (p := nrRlcNewPdu h.sn h.so h.isFirst h.isLast data) hsn
  unfold RxState.stored
  rw [hc.turnSn_cast]
  exact congrArg (fun l => ({ rx.turn c.snModulus k with
    rxSize := rx.rxSize + dataSize
    rxList := l } : RxState)) hadd

theorem recvSegment_turn (now : UInt64) (hc : c.Sane) (hk : InRange c.snModulus k)
    (hr : rx.InRange c.snModulus) {buffer' : List UInt8}
    (hsn : InRange c.snModulus h.sn) (hlen : buffer'.length = buffer.length)
    (hdrop : buffer'.drop h.byte = buffer.drop h.byte) :
    recvSegment c now (rx.turn c.snModulus k) buffer' { h with sn := turnSn c k h.sn } =
      (recvSegment c now rx buffer h).map (fun r => (r.1.turn c.snModulus k, r.2)) := by
  have hact := receptionActions_turn now hc.pos hk
    (RxState.stored_inRange (buffer.drop h.byte) (buffer.length - h.byte) hr hsn) hsn
  rw [← RxState.stored_turn _ _ hc hk hr hsn, ← hc.turnSn_cast] at hact
  have hcmp : snCompareRx c (rx.turn c.snModulus k) (turnSn c k h.sn : ℕ)
      (rx.turn c.snModulus k).rxNextReassembly = snCompareRx c rx h.sn rx.rxNextReassembly := by
    rw [hc.turnSn_cast]
    exact snCompareRx_turn c rx k _ _
  unfold recvSegment
  dsimp only
  rw [hlen, hdrop, hcmp, show (rx.turn c.snModulus k).rxSize = rx.rxSize from rfl]
  split
  · rfl
  · split
    · rfl
    · split
      · rfl
      · exact hact

theorem headerOf_spec (hc : c.Sane) {isFirst isLast : Bool} {bs : List Bool}
    (hh : headerOf c isFirst isLast bs = some h) :
    InRange c.snModulus h.sn ∧ snPosition c + c.snFieldLength ≤ 8 * h.byte := by
  have hlen := hc.length
  have hfield := hc.fieldAt_inRange (snPosition c) bs
  grind [snPosition, headerOf]

theorem recvPdu_inRange
    (hc : c.Sane) (hr : rx.InRange c.snModulus) (h : recvPdu c now rx buffer = .ok (rx', ev)) :
    rx'.InRange c.snModulus := by
  by_cases hnil : buffer = []
  · subst hnil
    obtain ⟨rfl, _⟩ := ok_inj h
    exact hr
  obtain ⟨d, hs, hsi⟩ := decodeSi_init hnil
  have hlen : 2 ≤ (bytesBits buffer).length := by
    have := List.length_pos_of_ne_nil hnil
    rw [bytesBits_length]
    omega
  simp only [recvPdu, hsi] at h
  split at h
  · split at h
    · simp_all
    · simp_all
  · split at h
    · simp_all
    next hd hh =>
      rw [decodeHeader_bits hs hlen] at hh
      exact recvSegment_inRange hc.pos hr (headerOf_spec hc hh).1 h

/-- **`recv_pdu` commutes with the turn.** -/
theorem recvPdu_turn (now : UInt64) (hc : c.Sane) (hk : InRange c.snModulus k)
    (hr : rx.InRange c.snModulus) (buffer : List UInt8) :
    recvPdu c now (rx.turn c.snModulus k) (turnPdu c k buffer) =
      (recvPdu c now rx buffer).map (fun r => (r.1.turn c.snModulus k, r.2)) := by
  by_cases hnil : buffer = []
  · subst hnil
    rfl
  obtain ⟨d, hs, hsi⟩ := decodeSi_init hnil
  generalize hf : (!(fieldAt 0 2 (bytesBits buffer)).testBit 1) = isFirst at hsi
  generalize hl : (!(fieldAt 0 2 (bytesBits buffer)).testBit 0) = isLast at hsi
  have hlen : 2 ≤ (bytesBits buffer).length := by
    have := List.length_pos_of_ne_nil hnil
    rw [bytesBits_length]
    omega
  cases hfl : (isFirst && isLast) with
  | true => simp only [recvPdu, turnPdu, hsi, hfl, if_true]; split <;> rfl
  | false =>
    -- the PDU with the increased SN field, as bits
    have hbits := turnPdu_bits c (turnSn c k) buffer
    have hturn : turnPdu c k buffer = packBits
        (mapField (snPosition c) c.snFieldLength (turnSn c k) (bytesBits buffer)) := by
      simp only [turnPdu, hsi, hfl, Bool.false_eq_true, if_false]
    rw [← hturn] at hbits
    have hlen' : (turnPdu c k buffer).length = buffer.length := by
      have h8 := congrArg List.length hbits
      rw [mapField_length, bytesBits_length, bytesBits_length] at h8
      omega
    have hnil' : turnPdu c k buffer ≠ [] := by
      intro he
      rw [he, List.length_nil] at hlen'
      exact hnil (List.eq_nil_of_length_eq_zero hlen'.symm)
    obtain ⟨d', hs', hsi'⟩ := decodeSi_init hnil'
    have hpos2 : 2 ≤ snPosition c := by unfold snPosition; split <;> omega
    have hsame : fieldAt 0 2 (bytesBits (turnPdu c k buffer)) = fieldAt 0 2 (bytesBits buffer) := by
      rw [hbits, fieldAt, List.drop_zero, take_mapField _ _ hpos2, fieldAt, List.drop_zero]
    rw [hsame, hf, hl] at hsi'
    have hdec := decodeHeader_bits (c := c) hs hlen isFirst isLast
    have hdec' := decodeHeader_bits (c := c) hs' (by rw [hbits, mapField_length]; exact hlen)
      isFirst isLast
    rw [hbits, headerOf_mapField hc, ← hdec] at hdec'
    simp only [recvPdu, hsi, hsi', hfl, Bool.false_eq_true, if_false, hdec']
    cases hh : decodeHeader c isFirst isLast d with
    | none => rfl
    | some h =>
      obtain ⟨hsn, hbyte⟩ := headerOf_spec hc (hdec ▸ hh)
      refine recvSegment_turn now hc hk hr hsn hlen' ?_
      grind [bytesBits_injective, bytesBits_drop, drop_mapField]

end Turned

/-! ### The expiry of `t_reassembly` -/

/-- **The expiry that the missing modulus mishandles.**  The reassembly window ends at SN 0, the
SDUs from the one that triggered the timer to the last but one SN have been delivered, and the
SDU with the last SN has missing bytes: `t_reassembly` should be restarted for it, but
`rx_next_highest` is 0 and `rx_next_reassembly + 1` is `sn_modulus`. -/
def MissesRestart (c : Config) (now : UInt64) (rx : RxState) : Prop :=
  tReassemblyExpired c now rx = true ∧ rx.rxNextHighest = 0 ∧
    (∀ sn, rx.rxTimerTrigger ≤ sn → sn < c.snModulus - 1 → sduDelivered rx sn = true) ∧
    sduHasMissingBytes rx (c.snModulus - 1) = true

theorem dropWhile_dropWhile_of_imp {α : Type} {q r : α → Bool} {l : List α}
    (h : ∀ a ∈ l, q a = true → r a = true) : (l.dropWhile q).dropWhile r = l.dropWhile r := by
  induction l with
  | nil => rfl
  | cons a l ih =>
    cases hq : q a with
    | true => simp_all
    | false => rw [List.dropWhile_cons_of_neg (by simp [hq])]

theorem pdusOf_expired (c : Config) (rx : RxState) (sn : ℤ) :
    pdusOf sn (rx.expired c sn).rxList = pdusOf sn rx.rxList := by
  unfold pdusOf RxState.expired
  dsimp only
  rw [discardBelow_eq, dropWhile_dropWhile_of_imp]
  intro p _ hp
  simp only [decide_eq_true_eq] at hp ⊢
  intro he
  rw [he, snCompareRx, Int.sub_self] at hp
  exact absurd hp (Int.lt_irrefl 0)

section Expiry

variable {c : Config} {rx : RxState} {k sn : ℤ}

theorem RxState.expired_inRange (hr : rx.InRange M) (hsn : SerialNumber.InRange M sn) :
    (rx.expired c sn).InRange M :=
  ⟨hr.highest, hsn, hr.trigger, fun p hp => hr.list p ((discardBelow_suffix _ _ _).subset hp)⟩

theorem RxState.expired_turn (c : Config) (rx : RxState) (k sn : ℤ) :
    (rx.turn c.snModulus k).expired c (SerialNumber.turn c.snModulus k sn)
      = (rx.expired c sn).turn c.snModulus k :=
  congrArg (fun l => ({ rx.turn c.snModulus k with
    tReassemblyStart := 0
    rxNextReassembly := SerialNumber.turn c.snModulus k sn
    rxList := l } : RxState))
    (discardBelow_turn { rx with tReassemblyStart := 0, rxNextReassembly := sn } rx.rxList)

theorem restartTimer_eq (hM : 0 < c.snModulus) (hr : rx.InRange c.snModulus)
    (hexp : tReassemblyExpired c now rx = true)
    (hskip : skipDelivered c rx rx.rxTimerTrigger = .ok sn) (hno : ¬ MissesRestart c now rx) :
    restartTimer c now (rx.expired c sn) = startTimer c now (rx.expired c sn) := by
  have hsn := advanceWhile_inRange hM _ hr.trigger hskip
  have htrig : rx.rxTimerTrigger % c.snModulus = rx.rxTimerTrigger :=
    Int.emod_eq_of_lt hr.trigger.1 hr.trigger.2
  have hmiss : sduHasMissingBytes (rx.expired c sn) sn = sduHasMissingBytes rx sn :=
    congrArg pdusMissing (pdusOf_expired c rx sn)
  have hiff : (rx.rxNextHighest = sn + 1 ∧ sduHasMissingBytes (rx.expired c sn) sn = true) ↔
      (rx.rxNextHighest = (sn + 1) % c.snModulus ∧
        sduHasMissingBytes (rx.expired c sn) sn = true) := by
    refine and_congr_left ?_
    intro hm
    rw [hmiss] at hm
    rw [show (sn + 1) % c.snModulus = next c.snModulus sn from rfl, next_eq hsn]
    split
    · exact Iff.rfl
    · have hlast : sn = c.snModulus - 1 := by have := hsn.2; omega
      refine ⟨fun h => by have := hr.highest.2; omega, ?_⟩
      -- the restart is missed: every SDU on the way has been delivered
      intro hzero
      rw [skipDelivered, ← htrig] at hskip
      obtain ⟨_, j, hj, hdel⟩ := advanceWhile_spec hskip
      refine absurd ⟨hexp, hzero, ?_, hlast ▸ hm⟩ hno
      intro s h1 h2
      have hjs : (s - rx.rxTimerTrigger).toNat < j := by
        by_contra hge
        rw [Int.emod_eq_of_lt (by have := hr.trigger.1; omega) (by omega)] at hj
        omega
      have := hdel _ hjs
      rwa [show rx.rxTimerTrigger + ((s - rx.rxTimerTrigger).toNat : ℤ) = s by omega,
        Int.emod_eq_of_lt (by have := hr.trigger.1; omega) (by omega)] at this
  refine if_congr ?_ rfl rfl
  exact ⟨fun h => ⟨rfl, h.imp id hiff.mp⟩, fun h => h.2.imp id hiff.mpr⟩

/-- **`set_time` commutes with the turn**, where neither side misses a restart. -/
theorem checkTReassembly_turn (hM : 0 < c.snModulus)
    (hk : InRange c.snModulus k) (hr : rx.InRange c.snModulus)
    (hno : ¬ MissesRestart c now rx) (hno' : ¬ MissesRestart c now (rx.turn c.snModulus k)) :
    checkTReassembly c now (rx.turn c.snModulus k) =
      (checkTReassembly c now rx).map (RxState.turn c.snModulus k) := by
  have hr' : (rx.turn c.snModulus k).InRange c.snModulus :=
    ⟨inRange_turn hM, inRange_turn hM, inRange_turn hM, fun p hp => by
      obtain ⟨q, _, rfl⟩ := List.mem_map.mp hp
      exact inRange_turn hM⟩
  have hskip : skipDelivered c (rx.turn c.snModulus k) (rx.turn c.snModulus k).rxTimerTrigger
      = (skipDelivered c rx rx.rxTimerTrigger).map (turn c.snModulus k) :=
    skipDelivered_turn hk hr hM hr.trigger
  rw [checkTReassembly_eq, checkTReassembly_eq,
    show tReassemblyExpired c now (rx.turn c.snModulus k) = tReassemblyExpired c now rx from rfl]
  split
  next hexp =>
    show (skipDelivered c (rx.turn c.snModulus k) (rx.turn c.snModulus k).rxTimerTrigger).map _
      = ((skipDelivered c rx rx.rxTimerTrigger).map _).map _
    cases hs : skipDelivered c rx rx.rxTimerTrigger with
    | error e =>
      rw [hskip, hs]
      rfl
    | ok sn =>
      rw [hs] at hskip
      have hsn := advanceWhile_inRange hM _ hr.trigger hs
      rw [hskip]
      show Except.ok (restartTimer c now ((rx.turn c.snModulus k).expired c (turn _ k sn)))
        = Except.ok ((restartTimer c now (rx.expired c sn)).turn c.snModulus k)
      rw [restartTimer_eq hM hr hexp hs hno, restartTimer_eq hM hr' hexp hskip hno',
        RxState.expired_turn, startTimer_turn now hM hk (RxState.expired_inRange hr hsn)]
  · rfl

theorem checkTReassembly_inRange (hM : 0 < c.snModulus)
    (hr : rx.InRange c.snModulus) (h : checkTReassembly c now rx = .ok rx') :
    rx'.InRange c.snModulus := by
  rw [checkTReassembly_eq] at h
  split at h
  · obtain ⟨sn, hs, rfl⟩ := map_returns.mp h
    have h1 := RxState.expired_inRange (c := c) hr (advanceWhile_inRange hM _ hr.trigger hs)
    unfold restartTimer
    split
    · exact ⟨h1.highest, h1.reassembly, h1.highest, h1.list⟩
    · exact h1
  · simp_all

end Expiry

/-! ### Runs -/

/-- The entity with the SNs of its receiving side turned by `k`. -/
def Entity.turn (k : ℤ) (e : Entity) : Entity := { e with rx := e.rx.turn e.cfg.snModulus k }

/-- The entity with its receive variables at `k`. -/
def Entity.startAt (e : Entity) (k : ℤ) : Entity :=
  { e with
    rx := { e.rx with
      rxNextHighest := k
      rxNextReassembly := k
      rxTimerTrigger := k } }

/-- The call with the SN field of a received PDU increased by `k`. -/
def turnInput (c : Config) (k : ℤ) : Input → Input
  | .recvPdu buffer => .recvPdu (turnPdu c k buffer)
  | i => i

/-- The calls of a receiving user: `recv_pdu` and `set_time`. -/
def Receives : Input → Prop
  | .recvPdu _ => True
  | .setTime _ => True
  | _ => False

/-- The call is an expiry after which the restart of `t_reassembly` is missed. -/
def CallMissesRestart (e : Entity) : Input → Prop
  | .setTime now => MissesRestart e.cfg now e.rx
  | _ => False

/-- The invariant of the receiving side. -/
structure WrapInv (c : Config) (e : Entity) : Prop where
  cfg : e.cfg = c
  range : e.rx.InRange c.snModulus

variable {i : Input}

theorem step_wrapInv (hc : c.Sane) {e' : Entity} {o : Output}
    (hi : WrapInv c e) (hrec : Receives i) (h : step e i = .ok (e', o)) : WrapInv c e' := by
  obtain ⟨rfl, hr⟩ := hi
  cases i with
  | recvPdu buffer =>
    obtain ⟨⟨rx, ev⟩, h1, rfl, _⟩ := bind_pair_inj h
    exact ⟨rfl, recvPdu_inRange hc hr h1⟩
  | setTime now =>
    obtain ⟨rx, h1, rfl, _⟩ := bind_pair_inj h
    exact ⟨rfl, checkTReassembly_inRange hc.pos hr h1⟩
  | recvSdu | generatePdu | discardSdu | reestablishment => exact hrec.elim

/-- **One call commutes with the turn.** -/
theorem step_turn (hc : c.Sane) {k : ℤ} (hk : InRange c.snModulus k)
    (hi : WrapInv c e) (hrec : Receives i)
    (hno : ¬ CallMissesRestart e i) (hno' : ¬ CallMissesRestart (e.turn k) (turnInput c k i)) :
    step (e.turn k) (turnInput c k i) = (step e i).map (fun r => (r.1.turn k, r.2)) := by
  obtain ⟨rfl, hr⟩ := hi
  cases i with
  | recvPdu buffer =>
    show (recvPdu e.cfg e.tCurrent (e.rx.turn e.cfg.snModulus k) (turnPdu e.cfg k buffer) >>= _) = _
    rw [recvPdu_turn e.tCurrent hc hk hr buffer]
    exact map_bind_eq fun _ _ => rfl
  | setTime now =>
    show (checkTReassembly e.cfg now (e.rx.turn e.cfg.snModulus k) >>= _) = _
    rw [checkTReassembly_turn hc.pos hk hr hno hno']
    exact map_bind_eq fun _ _ => rfl
  | recvSdu | generatePdu | discardSdu | reestablishment => exact hrec.elim

theorem newNrRlcEntityUm_sane {rxMaxsize txMaxsize : ℤ} {tReassembly : UInt64} {snFieldLength : ℕ}
    (h : newNrRlcEntityUm rxMaxsize txMaxsize tReassembly snFieldLength = .ok e) :
    e.cfg.Sane ∧ e.rx = RxState.new := by
  obtain ⟨hlen, rfl⟩ := newNrRlcEntityUm_eq h
  exact ⟨⟨hlen, rfl⟩, rfl⟩

theorem Entity.startAt_eq {k : ℤ} (hk : SerialNumber.InRange e.cfg.snModulus k)
    (he : e.rx = RxState.new) : e.startAt k = e.turn k := by
  have hturn : SerialNumber.turn e.cfg.snModulus k 0 = k := by
    rw [SerialNumber.turn, Int.zero_add]
    exact Int.emod_eq_of_lt hk.1 hk.2
  grind [Entity.startAt, Entity.turn, RxState.turn, RxState.new]

/-- **Wrap-around is transparent**, in every run in which neither entity misses a restart of
`t_reassembly`.  After every number `n` of calls the entity that started at `k` and received
PDUs with increased SN fields is the entity that started at 0 with its SNs turned: it has
returned the same, and so it holds the same PDUs and its timer has the same start. -/
theorem run_turned {rxMaxsize txMaxsize : ℤ} {tReassembly : UInt64} {snFieldLength : ℕ}
    {e₀ : Entity} (hnew : newNrRlcEntityUm rxMaxsize txMaxsize tReassembly snFieldLength = .ok e₀)
    {k : ℤ} (hk : 0 ≤ k ∧ k < e₀.cfg.snModulus) {inputs : List Input}
    (hrec : ∀ i ∈ inputs, Receives i)
    (hok : RunMeets step (fun e i => ¬ CallMissesRestart e i) e₀ inputs)
    (hok' : RunMeets step (fun e i => ¬ CallMissesRestart e i) (e₀.startAt k)
      (inputs.map (turnInput e₀.cfg k))) (n : ℕ) :
    run step (e₀.startAt k) ((inputs.take n).map (turnInput e₀.cfg k)) =
      (run step e₀ (inputs.take n)).map (fun r => (r.1.turn k, r.2)) := by
  obtain ⟨hc, hrx⟩ := newNrRlcEntityUm_sane hnew
  have hinv : WrapInv e₀.cfg e₀ := by
    refine ⟨rfl, ?_⟩
    rw [hrx]
    have h0 : InRange e₀.cfg.snModulus 0 := ⟨Int.le_refl 0, hc.pos⟩
    exact ⟨h0, h0, h0, List.forall_mem_nil _⟩
  rw [Entity.startAt_eq hk hrx] at hok' ⊢
  have hrec' : ∀ i ∈ inputs.map (turnInput e₀.cfg k), Receives i := by
    intro i hi
    obtain ⟨j, hj, rfl⟩ := List.mem_map.mp hi
    have := hrec j hj
    cases j <;> exact this
  refine run_map (fun e i => Receives i ∧ ¬ CallMissesRestart e i) (WrapInv e₀.cfg)
    (Entity.turn k) (turnInput e₀.cfg k) ?_ ?_ (inputs.take n) e₀ hinv ?_ ?_
  · grind [step_wrapInv]
  · intro e i hi hg hg'
    exact step_turn hc hk hi hg.1 hg.2 hg'.2
  · exact (hok.and_mem hrec).take n
  · rw [List.map_take]
    exact (hok'.and_mem hrec').take n

/-- Two halves of SDU 0, received under SN 0 and under SN 63. -/
theorem run_turned_halves :
    run step ((Entity.new (Config.new 1000 1000 10 6)).startAt 63)
        (([.recvPdu [64, 1], .recvPdu [128, 0, 1, 2]].take 2).map
          (turnInput (Config.new 1000 1000 10 6) 63)) =
      (run step (Entity.new (Config.new 1000 1000 10 6))
        ([.recvPdu [64, 1], .recvPdu [128, 0, 1, 2]].take 2)).map
        (fun r => (r.1.turn 63, r.2)) := by
  have hnew : newNrRlcEntityUm 1000 1000 10 6 = .ok (Entity.new (Config.new 1000 1000 10 6)) := rfl
  refine run_turned hnew ⟨by decide, by decide⟩ ?_ ?_ ?_ 2
  · simp [Receives]
  · intro is₁ i is₂ s' os he _
    have hi : i ∈ is₁ ++ i :: is₂ := by simp
    rw [← he] at hi
    simp only [List.mem_cons, List.not_mem_nil, or_false] at hi
    rcases hi with rfl | rfl <;> exact id
  · intro is₁ i is₂ s' os he _
    have hi : i ∈ is₁ ++ i :: is₂ := by simp
    rw [← he] at hi
    simp only [List.map_cons, List.map_nil, turnInput, List.mem_cons, List.not_mem_nil,
      or_false] at hi
    rcases hi with rfl | rfl <;> exact id

/-- Middle segments of two SDUs, the second one still incomplete when the timer of the first
expires. -/
def lateInputs : List Input :=
  [.setTime 1, .recvPdu [192, 0, 5, 1], .recvPdu [193, 0, 5, 1], .setTime 20]

/-- **Started at 62, the restart of `t_reassembly` is missed.** -/
theorem not_turned_after_expiry :
    ¬ ∀ k : ℤ, 0 ≤ k → k < 64 → ∀ inputs : List Input, (∀ i ∈ inputs, Receives i) → ∀ n : ℕ,
      run step ((Entity.new (Config.new 1000 1000 10 6)).startAt k)
          ((inputs.take n).map (turnInput (Config.new 1000 1000 10 6) k)) =
        (run step (Entity.new (Config.new 1000 1000 10 6)) (inputs.take n)).map
          (fun r => (r.1.turn k, r.2)) := by
  intro h
  have hrun := h 62 (by decide) (by decide) lateInputs (by simp [lateInputs, Receives]) 4
  have hobs := congrArg (fun x => x.toOption.map (fun r => r.1.rx.tReassemblyStart)) hrun
  revert hobs
  decide +kernel

end OaiGnb.Rlc.Um
