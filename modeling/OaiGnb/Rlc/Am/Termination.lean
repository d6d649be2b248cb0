import OaiGnb.Rlc.Am.DataPdu
import OaiGnb.Rlc.Am.RxAccounting

/-!
# The loops of the reception

`reception_actions` has two loops over delivered SDUs.  The one that frees them empties a slot in
every turn.  The one that advances `rx_highest_status` changes nothing it looks at: when the PDU
completes SDU `rx_next` and nothing else is missing, it goes round the ring for ever.

* `advanceWhile_returns`, `freeDelivered_returns`: when the loops end.
* `reachable_receptionTerminates`: every data PDU but the one that closes the window.
-/

namespace OaiGnb.Rlc.Am

open Run SerialNumber BitField

/-! ### The loops -/

theorem advanceWhile_returns {p : ℤ → Bool} {M : ℤ} {fuel : ℕ} : ∀ {sn : ℤ} {k : ℕ}, k < fuel →
    p ((sn + k) % M) = false → ∃ r, advanceWhile p M fuel (sn % M) = .ok r := by
  induction fuel with
  | zero => omega
  | succ fuel ih =>
    intro sn k hk hp
    rw [advanceWhile]
    split
    next hsn =>
      cases k with
      | zero => simp_all
      | succ k =>
        rw [Int.emod_add_emod]
        refine ih (k := k) (by omega) ?_
        grind
    · exact ⟨_, rfl⟩

theorem advanceWhile_diverges {p : ℤ → Bool} {M : ℤ} (hp : ∀ sn, p (sn % M) = true) (fuel : ℕ) :
    ∀ sn, advanceWhile p M fuel (sn % M) = .error .diverges := by
  induction fuel with
  | zero => exact fun _ => rfl
  | succ fuel ih =>
    intro sn
    rw [advanceWhile, if_pos (hp sn)]
    exact ih _

/-- The freeing loop ends at an empty slot. -/
theorem freeDeliveredLoop_returns {c : Config} {fuel : ℕ} : ∀ {m : RxManager} {r n : ℤ} {k : ℕ},
    k < fuel → getPduFromSn m ((r + k) % c.snModulus) = [] →
    ∃ x, freeDeliveredLoop c fuel m (r % c.snModulus) n = .ok x := by
  induction fuel with
  | zero => omega
  | succ fuel ih =>
    intro m r n k hk hempty
    rw [freeDeliveredLoop]
    split
    next hhead =>
      cases k with
      | zero =>
        rw [Nat.cast_zero, Int.add_zero] at hempty
        rw [hempty] at hhead
        cases hhead
      | succ k =>
        rw [Int.emod_add_emod]
        refine ih (k := k) (by omega) ?_
        grind [Int.add_assoc, Int.add_comm, Nat.cast_succ, clearPdu, getPduFromSn_setPdus]
    · exact ⟨_, rfl⟩

theorem freeDelivered_returns {c : Config} {rx : RxState} (hc : c.Ok) (hb : RxBase c rx) :
    ∃ rx', freeDelivered c rx = .ok rx' := by
  have hW := hc.window_ge
  have hsize := hb.size
  have hM : c.snModulus = 2 * rx.rx.size := by rw [hsize]; exact hc.modulus_eq
  have hloop : ∃ x, freeDeliveredLoop c (rx.rx.size.toNat + 1) rx.rx rx.rxNext 0 = .ok x := by
    rw [freeDeliveredLoop]
    split
    · -- the slot that the first turn has emptied is met again after `size` turns
      refine freeDeliveredLoop_returns (k := rx.rx.size.toNat - 1) (by omega) ?_
      rw [clearPdu, getPduFromSn_setPdus, if_pos]
      have := getPos_offset_add_size hM rx.rxNext 0
      rw [Int.add_zero, Int.emod_eq_of_lt hb.rxNext.1 hb.rxNext.2] at this
      rw [← this]
      congr 2
      omega
    · exact ⟨_, rfl⟩
  obtain ⟨x, hx⟩ := hloop
  exact ⟨_, by rw [freeDelivered, hx]; rfl⟩

/-! ### One data PDU -/

/-- The call completes the SDU `rx_next`, with `rx_highest_status` = `rx_next`, while all other SNs
of the window have been delivered. -/
def ClosesWindow (e : Entity) (buffer : List UInt8) (h : Header) : Prop :=
  discardsPdu e.cfg e.rx buffer h = false ∧ h.sn = e.rx.rxNext ∧
    e.rx.rxHighestStatus = e.rx.rxNext ∧ sduFull (storePdu e.rx (h.pdu buffer)) h.sn = true ∧
    ∀ j : ℕ, 0 < j → (j : ℤ) < e.cfg.windowSize →
      sduDelivered e.rx ((e.rx.rxNext + j) % e.cfg.snModulus) = true

/-- The receiving side when `reception_actions` looks for an SDU to deliver. -/
def stored (e : Entity) (buffer : List UInt8) (h : Header) : RxState :=
  receptionHighest e.cfg (storePdu e.rx (h.pdu buffer)) h.sn

/-- The call returns, and the loop over delivered SNs that it runs stops within `window_size`
iterations. -/
def ReceptionTerminates (e : Entity) (buffer : List UInt8) (h : Header) : Prop :=
  (∃ r, step e (.recvPdu buffer) = .ok r) ∧
  (discardsPdu e.cfg e.rx buffer h = false → sduFull (stored e buffer h) h.sn = true →
    h.sn = e.rx.rxHighestStatus →
    ∃ sn, advanceWhile (sduDelivered (reassembleAndDeliver (stored e buffer h) h.sn).1)
      e.cfg.snModulus (e.cfg.windowSize.toNat + 1) e.rx.rxHighestStatus = .ok sn)

section

variable {c : Config} {rx : RxState} {x : ℤ}

/-- Within `window_size` turns the loop meets an SN that has not been delivered. -/
theorem exists_undelivered (hc : c.Ok) (hi : RxInv c rx) (hx : InRange c.snModulus x)
    (hw : modulusRx c rx x < c.windowSize) (hf : sduFull rx x = true)
    (hopen : x = rx.rxNext → ∃ j : ℕ, 0 < j ∧ (j : ℤ) < c.windowSize ∧
      sduDelivered rx ((rx.rxNext + j) % c.snModulus) = false) :
    ∃ k ≤ c.windowSize.toNat,
      sduDelivered (reassembleAndDeliver rx x).1 ((x + k) % c.snModulus) = false := by
  have hW := hc.window_ge
  have hM : c.snModulus = 2 * rx.rx.size := by rw [hi.size]; exact hc.modulus_eq
  have hsz := hi.size
  by_cases hn : x = rx.rxNext
  · obtain ⟨j, h0, hj, hdel⟩ := hopen hn
    refine ⟨j, by omega, ?_⟩
    rw [sduDelivered_reassemble hf, hn, if_neg, hdel]
    have hpos := getPos_offset_eq_iff hM rx.rxNext j 0
    rw [Int.add_zero, Int.emod_eq_of_lt hi.rxNext.1 hi.rxNext.2] at hpos
    rw [hpos, Int.sub_zero, Int.emod_eq_of_lt (by omega) (by omega)]
    omega
  · -- after `window_size` SNs from `rx_next` on comes the slot of `rx_next` again
    have h0 := modulusRx_nonneg hi.rxNext hx
    refine ⟨(c.windowSize - modulusRx c rx x).toNat, by omega, ?_⟩
    have hslot : getPos rx.rx ((x + (c.windowSize - modulusRx c rx x).toNat) % c.snModulus)
        = getPos rx.rx rx.rxNext := by
      have hpos := getPos_offset_add_size hM rx.rxNext 0
      rw [Int.add_zero, Int.emod_eq_of_lt hi.rxNext.1 hi.rxNext.2] at hpos
      have hsum := rxNext_add_modulusRx hi.rxNext hx
      generalize modulusRx c rx x = d at hsum hw h0 ⊢
      rw [← hpos, ← hsum, Int.emod_add_emod]
      congr 2
      omega
    have hne : getPos rx.rx rx.rxNext ≠ getPos rx.rx x := fun he =>
      hn (eq_of_getPos_eq hc hi.toRxBase hx hi.rxNext hw
        (by rw [modulusRx_eq, dist_self]; omega) he.symm)
    rw [sduDelivered_reassemble hf, hslot, if_neg hne, sduDelivered, getPduFromSn, hslot]
    exact hi.nextUndelivered

theorem receptionDeliver_returns (hc : c.Ok) (hi : RxInv c rx) (hx : InRange c.snModulus x)
    (hw : modulusRx c rx x < c.windowSize)
    (hopen : sduFull rx x = true → x = rx.rxHighestStatus → ∃ k ≤ c.windowSize.toNat,
      sduDelivered (reassembleAndDeliver rx x).1 ((x + k) % c.snModulus) = false) :
    ∃ r, receptionDeliver c rx x = .ok r := by
  have hM := hc.modulus_eq
  have hW := hc.window_ge
  rw [receptionDeliver]
  split
  next hf =>
    have hd := reassemble_delivering hc hi hx hw hf
    have hstatus : ∃ rx₁, advanceHighestStatus c (reassembleAndDeliver rx x).1 x = .ok rx₁ := by
      rw [advanceHighestStatus]
      split
      next hs =>
        obtain ⟨k, hk, hdel⟩ := hopen hf hs
        obtain ⟨sn, hsn⟩ := @advanceWhile_returns _ _ c.snModulus.toNat _ k (by omega) hdel
        rw [Int.emod_eq_of_lt hx.1 hx.2] at hsn
        exact ⟨_, by rw [← hs, skipDelivered, hsn]; rfl⟩
      · exact ⟨_, rfl⟩
    obtain ⟨rx₁, h₁⟩ := hstatus
    have hb := (advanceHighestStatus_inv hc hd h₁).1.toRxBase
    have hnext : ∃ rx₂, advanceRxNext c rx₁ x = .ok rx₂ := by
      rw [advanceRxNext]
      split
      · exact freeDelivered_returns hc hb
      · exact ⟨_, rfl⟩
    obtain ⟨rx₂, h₂⟩ := hnext
    simp_all
  · exact ⟨_, rfl⟩

theorem dataHeader_some {buffer : List UInt8} {h : Header} (hh : dataHeader c buffer = some h) :
    ∃ dc d p d', getBits (Decoder.init buffer) 1 = some (dc, d) ∧ dc ≠ 0 ∧
      getBits d 1 = some (p, d') ∧ decodeHeader c d' = some h := by
  grind [dataHeader, Option.bind_eq_bind, Option.bind_eq_some_iff]

theorem dataHeader_inRange (hc : c.Ok) {buffer : List UInt8} {h : Header}
    (hh : dataHeader c buffer = some h) : InRange c.snModulus h.sn := by
  obtain ⟨dc, d, p, d', hdc, _, hp, hh⟩ := dataHeader_some hh
  have hb := (getBits_spec (Nat.zero_lt_succ 7) hdc).1.bit
  exact decodeHeader_sn hc (getBits_spec hb hp).1.bit hh

theorem step_recvPdu {e : Entity} {buffer : List UInt8} {h : Header}
    (hh : dataHeader e.cfg buffer = some h) : ∃ p, step e (.recvPdu buffer) =
      (recvData e.cfg e.tCurrent e.rx buffer h).map
        (fun r => ({ e with rx := pollStatus p r.1 }, ⟨r.2, []⟩)) := by
  obtain ⟨dc, d, p, d', hdc, hne, hp, hh⟩ := dataHeader_some hh
  refine ⟨p == 1, ?_⟩
  show recvPdu e buffer = _
  rw [recvPdu, hdc]
  dsimp only
  rw [if_neg hne, recvDataPdu, hp]
  dsimp only
  rw [hh]
  dsimp only
  cases recvData e.cfg e.tCurrent e.rx buffer h <;> rfl

end

/-- **Reception terminates** for every data PDU but one that closes the window. -/
theorem reachable_receptionTerminates {e₀ e : Entity} (h₀ : Created e₀)
    (h : Reachable step (fun _ i => (∃ buffer, i = .recvPdu buffer) ∨ ∃ now, i = .setTime now) e₀ e)
    {buffer : List UInt8} {hd : Header} (hh : dataHeader e.cfg buffer = some hd)
    (hopen : ¬ ClosesWindow e buffer hd) : ReceptionTerminates e buffer hd := by
  have hi : EntityRxInv e := by
    obtain ⟨_, _, _, _, _, _, _, _, _, h₀⟩ := h₀
    exact reachable_rxInv (entityRxInv_new (newNrRlcEntityAm_eq h₀)) h
  have hx := dataHeader_inRange hi.cfg hh
  obtain ⟨p, hstep⟩ := step_recvPdu hh
  by_cases hdis : discardsPdu e.cfg e.rx buffer hd = true
  · refine ⟨?_, fun hkeep => absurd hdis (by rw [hkeep]; exact Bool.false_ne_true)⟩
    rw [hstep, recvData, if_pos hdis]
    exact ⟨_, rfl⟩
  · have hw := modulusRx_lt_of_kept hdis
    have hst : RxInv e.cfg (stored e buffer hd) := storePdu_inv hi.cfg hi.rx rfl hx hw
    have hfields : (stored e buffer hd).rxNext = e.rx.rxNext ∧
        (stored e buffer hd).rxHighestStatus = e.rx.rxHighestStatus ∧
        ∀ sn, sduDelivered (stored e buffer hd) sn = sduDelivered e.rx sn ∧
          sduFull (stored e buffer hd) sn = sduFull (storePdu e.rx (hd.pdu buffer)) sn := by
      rw [stored, receptionHighest_storePdu]
      exact ⟨rfl, rfl, fun sn => ⟨sduDelivered_storePdu rfl hi.rx.head sn, rfl⟩⟩
    obtain ⟨hnext, hstatus, hsdus⟩ := hfields
    have hw' : modulusRx e.cfg (stored e buffer hd) hd.sn < e.cfg.windowSize := by
      rw [modulusRx_eq, hnext]
      exact hw
    have hundelivered : sduFull (stored e buffer hd) hd.sn = true →
        (hd.sn : ℤ) = (stored e buffer hd).rxHighestStatus → ∃ k ≤ e.cfg.windowSize.toNat,
        sduDelivered (reassembleAndDeliver (stored e buffer hd) hd.sn).1
          ((hd.sn + k) % e.cfg.snModulus) = false := by
      intro hf hs
      refine exists_undelivered hi.cfg hst hx hw' hf ?_
      intro hn
      by_contra hall
      refine hopen ⟨Bool.eq_false_iff.mpr hdis, hn.trans hnext, ?_, ?_, ?_⟩
      · rw [← hstatus, ← hs, hn, hnext]
      · rw [← (hsdus _).2]
        exact hf
      · simp_all
    constructor
    · obtain ⟨r, hr⟩ := receptionDeliver_returns hi.cfg hst hx hw' hundelivered
      rw [stored, Header.pdu] at hr
      rw [hstep, recvData, if_neg hdis, receptionActions, hr]
      exact ⟨_, rfl⟩
    · intro _ hf hs
      obtain ⟨k, hk, hdel⟩ := hundelivered hf (hs.trans hstatus.symm)
      obtain ⟨sn, hsn⟩ := advanceWhile_returns (Nat.lt_succ_of_le hk) hdel
      rw [Int.emod_eq_of_lt hx.1 hx.2] at hsn
      exact ⟨sn, by rw [← hs]; exact hsn⟩

/-! ### The closed window -/

/-- A whole SDU of one byte. -/
theorem exists_wholeSdu (sn : ℕ) (hsn : sn < 4096) :
    ∃ buffer, buffer.length = 3 ∧ dataHeader Config.sample buffer = some ⟨true, true, sn, 0, 2⟩ := by
  obtain ⟨buffer, _, hbits⟩ := @serializeSdu_eq Config.sample
    { Heap.empty with sdu := fun _ => { Heap.empty.sdu 0 with sn := sn, data := [0] } }
    ⟨0, 0, 1, 0, true, true⟩ 3 config_sample_ok (by decide) false
  have hbits' : (Decoder.init buffer).rest = fieldBits 1 1 ++ (fieldBits 1 0 ++ (fieldBits 2 0 ++
      (fieldBits 12 sn ++ bytesBits [0]))) := hbits
  have hlen := congrArg List.length hbits'
  obtain ⟨d₁, hs₁, hr₁, hg₁⟩ := getBits_field (Nat.zero_lt_succ 7) hbits' (by decide)
  obtain ⟨d₂, hs₂, hr₂, hg₂⟩ := getBits_field hs₁.bit hr₁ (by decide)
  obtain ⟨d₃, hs₃, hr₃, hg₃⟩ := getBits_field hs₂.bit hr₂ (by decide)
  obtain ⟨d₄, hs₄, _, hg₄⟩ := getBits_field hs₃.bit hr₃ hsn
  have hbyte : d₄.byte = 2 := by
    rw [(((hs₁.trans hs₂).trans hs₃).trans hs₄).byte, Decoder.init_pos]
  refine ⟨buffer, ?_, ?_⟩
  · rw [Decoder.init_rest, bytesBits_length] at hlen
    simp only [List.length_append, fieldBits_length, bytesBits_length, List.length_singleton]
      at hlen
    omega
  · have hdec : decodeHeader Config.sample d₂ = some ⟨true, true, sn, 0, d₄.byte⟩ := by
      simp only [decodeHeader, hg₃, Option.bind_eq_bind, Option.bind_some]
      show (getBits d₃ 12).bind _ = _
      rw [hg₄]
      rfl
    simp only [dataHeader, hg₁, Option.bind_eq_bind, Option.bind_some, if_neg Nat.one_ne_zero]
    rw [hg₂, Option.bind_some, hdec, hbyte]

/-- The SDUs 1 to `n` have been delivered and nothing else has been received. -/
structure DeliveredUpTo (n : ℕ) (e : Entity) : Prop where
  inv : EntityRxInv e
  cfg : e.cfg = Config.sample
  next : e.rx.rxNext = 0
  status : e.rx.rxHighestStatus = 0
  size : e.rx.rxSize = 0
  delivered : ∀ sn : ℕ, 0 < sn → sn ≤ n → sduDelivered e.rx sn = true
  empty : ∀ sn : ℕ, sn < 2048 → sn = 0 ∨ n < sn → getPduFromSn e.rx.rx sn = []

section

variable {n sn : ℕ} {e : Entity} {buffer : List UInt8}

theorem DeliveredUpTo.getPos_inj (h : DeliveredUpTo n e) {y : ℕ} (hy : y < 2048) (hsn : sn < 2048)
    (he : getPos e.rx.rx y = getPos e.rx.rx sn) : y = sn := by
  have hM : (4096 : ℤ) = 2 * e.rx.rx.size := by rw [h.inv.rx.size, h.cfg]; rfl
  have hpos := getPos_offset_inj (r := 0) (i := y) (j := sn) hM (by omega) (by omega)
  grind

/-- A whole SDU with a new SN is stored and complete. -/
theorem DeliveredUpTo.stores (h : DeliveredUpTo n e) (sn : ℕ) (hsn : sn < 2048)
    (hfree : sn = 0 ∨ n < sn) (hlen : buffer.length = 3) :
    discardsPdu e.cfg e.rx buffer ⟨true, true, sn, 0, 2⟩ = false ∧
    getPduFromSn (stored e buffer ⟨true, true, sn, 0, 2⟩).rx sn =
      [nrRlcNewPdu sn 0 true true (buffer.drop 2)] := by
  have hempty := h.empty sn hsn hfree
  constructor
  · have hmod : modulusRx Config.sample e.rx sn = sn := by
      rw [modulusRx, h.next, Int.sub_zero]
      exact if_neg (by omega)
    rw [h.cfg, discardsPdu, hlen, h.size, snInRecvWindow, hmod, segmentAlreadyReceived, hempty]
    simp only [Bool.or_eq_false_iff, decide_eq_false_iff_not, Bool.not_eq_false', decide_eq_true_eq]
    exact ⟨⟨⟨by decide, by decide⟩, Int.ofNat_lt.mpr hsn⟩, by decide⟩
  · rw [stored, receptionHighest_storePdu]
    show getPduFromSn (setPdus e.rx.rx sn _) sn = _
    rw [getPduFromSn_setPdus_self]
    show SortedList.insertBefore _ _ (getPduFromSn e.rx.rx sn) = _
    rw [hempty]
    rfl

/-- The ring after the SDU has been delivered. -/
theorem DeliveredUpTo.slots (h : DeliveredUpTo n e) (hsn : sn < 2048) {y : ℕ} (hy : y < 2048)
    (hne : y ≠ sn) :
    getPduFromSn (reassembleAndDeliver (stored e buffer ⟨true, true, sn, 0, 2⟩) sn).1.rx y
      = getPduFromSn e.rx.rx y := by
  have hpos : getPos e.rx.rx y ≠ getPos e.rx.rx sn := fun he => hne (h.getPos_inj hy hsn he)
  rw [stored, receptionHighest_storePdu]
  show getPduFromSn (setPdus (setPdus e.rx.rx sn _) sn _) y = _
  rw [getPduFromSn_setPdus, setPdus_getPos, setPdus_getPos, if_neg hpos, getPduFromSn_setPdus,
    if_neg hpos]

theorem DeliveredUpTo.next_step (h : DeliveredUpTo n e) (hn : n + 1 < 2048) :
    ∃ buffer e' o, step e (.recvPdu buffer) = .ok (e', o) ∧ DeliveredUpTo (n + 1) e' := by
  obtain ⟨buffer, hlen, hh⟩ := exists_wholeSdu (n + 1) (by omega)
  rw [← h.cfg] at hh
  obtain ⟨hkeep, hslot⟩ := h.stores _ hn (Or.inr (Nat.lt_succ_self n)) hlen
  obtain ⟨p, hstep⟩ := step_recvPdu hh
  set st := stored e buffer ⟨true, true, n + 1, 0, 2⟩ with hst
  have hfields : st.rxNext = 0 ∧ st.rxHighestStatus = 0 ∧ st.rxSize = 1 := by
    rw [hst, stored, receptionHighest_storePdu]
    refine ⟨h.next, h.status, ?_⟩
    show e.rx.rxSize + ((buffer.drop 2).length : ℤ) = 1
    rw [h.size, List.length_drop, hlen]
    rfl
  obtain ⟨hnext, hstatus, hsize⟩ := hfields
  have hfull : sduFull st (n + 1 : ℕ) = true := by
    rw [sduFull, hslot]
    rfl
  have hne : ¬ ((n + 1 : ℕ) : ℤ) = 0 := by omega
  have hs : ¬ ((n + 1 : ℕ) : ℤ) = (reassembleAndDeliver st (n + 1 : ℕ)).1.rxHighestStatus :=
    fun he => hne (he.trans hstatus)
  have hx : ¬ ((n + 1 : ℕ) : ℤ) = (reassembleAndDeliver st (n + 1 : ℕ)).1.rxNext :=
    fun he => hne (he.trans hnext)
  have hdel : receptionDeliver e.cfg st (n + 1 : ℕ) =
      .ok (reassembleAndDeliver st (n + 1 : ℕ)) := by
    rw [receptionDeliver, if_pos hfull]
    dsimp only
    rw [advanceHighestStatus, if_neg hs, pure_bind, advanceRxNext, if_neg hx, pure_bind]
    rfl
  obtain ⟨start, trigger, htimer⟩ := receptionTimer_eq e.cfg e.tCurrent
    (reassembleAndDeliver st (n + 1 : ℕ)).1
  rw [recvData, if_neg (by rw [hkeep]; exact Bool.false_ne_true), receptionActions] at hstep
  change _ = Except.map _ (receptionDeliver e.cfg st (n + 1 : ℕ) >>= _) at hstep
  rw [hdel, ok_bind] at hstep
  change _ = Except.ok ({ e with rx := pollStatus p (receptionTimer e.cfg e.tCurrent
    (reassembleAndDeliver st (n + 1 : ℕ)).1) }, _) at hstep
  rw [htimer] at hstep
  refine ⟨buffer, _, _, hstep, ?_⟩
  have hinv := step_entityRxInv h.inv hstep
  have hring : ∀ rx : RxState, (pollStatus p rx).rx = rx.rx ∧ (pollStatus p rx).rxNext = rx.rxNext ∧
      (pollStatus p rx).rxHighestStatus = rx.rxHighestStatus ∧
      (pollStatus p rx).rxSize = rx.rxSize := by
    intro rx
    cases p <;> exact ⟨rfl, rfl, rfl, rfl⟩
  refine ⟨hinv, h.cfg, (hring _).2.1.trans hnext, (hring _).2.2.1.trans hstatus, ?_, ?_, ?_⟩
  · rw [(hring _).2.2.2]
    show st.rxSize - pdusSize (getPduFromSn st.rx (n + 1 : ℕ)) = 0
    rw [hsize, hslot]
    show (1 : ℤ) - (((buffer.drop 2).length : ℤ) + 0) = 0
    rw [List.length_drop, hlen]
    rfl
  · intro sn h0 hle
    rw [sduDelivered, (hring _).1]
    by_cases hsn : sn = n + 1
    · rw [hsn]
      show headConsumed (getPduFromSn (setPdus st.rx (n + 1 : ℕ) _) (n + 1 : ℕ)) = true
      rw [getPduFromSn_setPdus_self, hslot]
      rfl
    · rw [h.slots hn (by omega) hsn]
      exact h.delivered sn h0 (by omega)
  · intro sn hlt hfree
    rw [(hring _).1, h.slots hn hlt (by omega)]
    exact h.empty sn hlt (by omega)

/-- With the SDU 0 completed, every SN counts as delivered. -/
theorem DeliveredUpTo.closes (h : DeliveredUpTo 2047 e) (hlen : buffer.length = 3) (sn : ℤ) :
    sduDelivered (reassembleAndDeliver (stored e buffer ⟨true, true, 0, 0, 2⟩) (0 : ℕ)).1
      (sn % 4096) = true := by
  set r := (reassembleAndDeliver (stored e buffer ⟨true, true, 0, 0, 2⟩) (0 : ℕ)).1 with hr
  have hpos : getPos r.rx (sn % 4096) = getPos r.rx ((sn % 2048).toNat : ℤ) := by
    have hsize : r.rx.size = 2048 := by
      rw [hr, stored, receptionHighest_storePdu]
      exact h.inv.rx.size.trans (by rw [h.cfg]; rfl)
    rw [getPos_eq, getPos_eq, hsize]
    omega
  rw [sduDelivered, getPduFromSn, hpos, ← getPduFromSn]
  by_cases h0 : (sn % 2048).toNat = 0
  · rw [h0]
    show headConsumed (getPduFromSn (setPdus _ (0 : ℕ) _) (0 : ℕ)) = true
    rw [getPduFromSn_setPdus_self, (h.stores 0 (by decide) (Or.inl rfl) hlen).2]
    rfl
  · rw [hr, h.slots (by decide) (by omega) h0]
    exact h.delivered _ (by omega) (by omega)

end

theorem deliveredUpTo_reachable {n : ℕ} (hn : n < 2048) :
    ∃ e, Reachable step (fun _ i => (∃ buffer, i = .recvPdu buffer) ∨ ∃ now, i = .setTime now)
      Entity.sample e ∧ DeliveredUpTo n e := by
  induction n with
  | zero =>
    refine ⟨_, .start, ⟨config_sample_ok, entityNew_rxInv config_sample_ok⟩, rfl, rfl, rfl, rfl, ?_,
      fun _ _ _ => rfl⟩
    intro sn h0 hle
    omega
  | succ n ih =>
    obtain ⟨e, hr, h⟩ := ih (by omega)
    obtain ⟨buffer, e', o, hs, h'⟩ := h.next_step hn
    exact ⟨e', .step hr (Or.inl ⟨buffer, rfl⟩) hs, h'⟩

/-- The SDUs 1 to 2047 are delivered and SDU 0 is the last of the window: the loop over delivered
SNs never stops. -/
theorem not_receptionTerminates_closed_window : ¬ ∀ (e₀ e : Entity) (buffer : List UInt8)
    (hd : Header), Created e₀ →
    Reachable step (fun _ i => (∃ buffer, i = .recvPdu buffer) ∨ ∃ now, i = .setTime now) e₀ e →
    dataHeader e.cfg buffer = some hd → ReceptionTerminates e buffer hd := by
  intro hall
  obtain ⟨e, hr, h⟩ := deliveredUpTo_reachable (n := 2047) (by decide)
  obtain ⟨buffer, hlen, hh⟩ := exists_wholeSdu 0 (by decide)
  obtain ⟨hkeep, hslot⟩ := h.stores 0 (by decide) (Or.inl rfl) hlen
  have hfull : sduFull (stored e buffer ⟨true, true, 0, 0, 2⟩) (0 : ℕ) = true := by
    rw [sduFull, hslot]
    rfl
  rw [← h.cfg] at hh
  obtain ⟨sn, hsn⟩ := (hall _ e buffer _ ⟨1000, 1000, 45, 35, 0, -1, -1, 8, 12, rfl⟩ hr hh).2 hkeep
    hfull h.status.symm
  have hdiv := advanceWhile_diverges (p := sduDelivered
    (reassembleAndDeliver (stored e buffer ⟨true, true, 0, 0, 2⟩) (0 : ℕ)).1) (M := 4096)
    (h.closes hlen) (e.cfg.windowSize.toNat + 1) 0
  rw [h.status, h.cfg] at hsn
  rw [h.cfg] at hdiv
  cases hsn.symm.trans hdiv

/-- One SDU less than the window closes on: the SDUs 1 to 2046 are delivered, and SDU 0 comes. -/
theorem reachable_receptionTerminates_first : ∃ e buffer,
    DeliveredUpTo 2046 e ∧ dataHeader e.cfg buffer = some ⟨true, true, 0, 0, 2⟩ ∧
    ¬ ClosesWindow e buffer ⟨true, true, 0, 0, 2⟩ ∧
    ReceptionTerminates e buffer ⟨true, true, 0, 0, 2⟩ := by
  obtain ⟨e, hr, h⟩ := deliveredUpTo_reachable (n := 2046) (by decide)
  obtain ⟨buffer, _, hh⟩ := exists_wholeSdu 0 (by decide)
  rw [← h.cfg] at hh
  have hopen : ¬ ClosesWindow e buffer ⟨true, true, 0, 0, 2⟩ := by
    rintro ⟨_, _, _, _, hall⟩
    rw [h.cfg, h.next] at hall
    have hlast : sduDelivered e.rx (2047 : ℕ) = true := hall 2047 (by decide) (by decide)
    rw [sduDelivered, h.empty 2047 (by decide) (Or.inr (by decide))] at hlast
    cases hlast
  exact ⟨e, buffer, h, hh, hopen, reachable_receptionTerminates
    ⟨_, _, _, _, _, _, _, _, _, newNrRlcEntityAm_sample⟩ hr hh hopen⟩

end OaiGnb.Rlc.Am
