import OaiGnb.Rlc.Am.Entity
import OaiGnb.Rlc.Am.Ring

/-!
# The receiver's state variables stay ordered

`Ordered` states the order of `rx_next`, `rx_highest_status`, `rx_next_status_trigger` and
`rx_next_highest`, counted from `rx_next` modulo `sn_modulus`.  It follows from `RxInv`, which adds
what the order rests on: the slots from `rx_next_highest` on are empty, a delivered SDU keeps its
first PDU at the head of its slot, and `rx_highest_status` is not above the trigger of
`t_reassembly` unless everything in between has been delivered.

* `receptionActions_inv`: reception of a data PDU keeps `RxInv`.
* `checkTReassembly_inv`: so does an expiry of `t_reassembly`.
* `reachable_ordered`: the order holds in every reachable state, and `rx_next` and
  `rx_highest_status` never move backwards.
-/

namespace OaiGnb.Rlc.Am

open SerialNumber Run SortedList

/-! ### The invariant -/

/-- The first PDU of a delivered SDU starts at byte 0. -/
def HeadOk : List Pdu → Prop
  | [] => True
  | p :: _ => p.data.isNone = true → p.so = 0

/-- The ring and the SN variables, whatever has been delivered. -/
structure RxBase (c : Config) (rx : RxState) : Prop where
  size : rx.rx.size = c.windowSize
  snStart : rx.rx.snStart = rx.rxNext
  rxNext : InRange c.snModulus rx.rxNext
  trigger : InRange c.snModulus rx.rxNextStatusTrigger
  status : InRange c.snModulus rx.rxHighestStatus
  highest : InRange c.snModulus rx.rxNextHighest
  highest_le : modulusRx c rx rx.rxNextHighest ≤ c.windowSize
  status_le : modulusRx c rx rx.rxHighestStatus ≤ modulusRx c rx rx.rxNextHighest
  empty : ∀ sn, InRange c.snModulus sn → modulusRx c rx rx.rxNextHighest ≤ modulusRx c rx sn →
    modulusRx c rx sn < c.windowSize → getPduFromSn rx.rx sn = []
  head : ∀ sn, HeadOk (getPduFromSn rx.rx sn)

/-- `rx_highest_status` is not above the trigger, or all in between has been delivered. -/
def StatusBelowTrigger (c : Config) (rx : RxState) : Prop :=
  modulusRx c rx rx.rxHighestStatus ≤ modulusRx c rx rx.rxNextStatusTrigger ∨
  ∀ sn, InRange c.snModulus sn → modulusRx c rx rx.rxNextStatusTrigger ≤ modulusRx c rx sn →
    modulusRx c rx sn < modulusRx c rx rx.rxHighestStatus → sduDelivered rx sn = true

/-- **The invariant of the receiving side.** -/
structure RxInv (c : Config) (rx : RxState) : Prop extends RxBase c rx where
  nextUndelivered : sduDelivered rx rx.rxNext = false
  statusUndelivered : sduDelivered rx rx.rxHighestStatus = false
  timer : rx.tReassemblyStart ≠ 0 → 0 < modulusRx c rx rx.rxNextStatusTrigger ∧
    modulusRx c rx rx.rxNextStatusTrigger ≤ modulusRx c rx rx.rxNextHighest
  below : rx.tReassemblyStart ≠ 0 → StatusBelowTrigger c rx

/-- The invariant before `t_reassembly` is looked at: the trigger may have fallen behind
`rx_next`. -/
structure RxMoved (c : Config) (rx : RxState) : Prop extends RxBase c rx where
  nextUndelivered : sduDelivered rx rx.rxNext = false
  statusUndelivered : sduDelivered rx rx.rxHighestStatus = false
  timer : rx.tReassemblyStart ≠ 0 →
    (modulusRx c rx rx.rxNextStatusTrigger ≤ modulusRx c rx rx.rxNextHighest ∧
      StatusBelowTrigger c rx) ∨ c.windowSize < modulusRx c rx rx.rxNextStatusTrigger

/-- The invariant right after the SDU `x` has been reassembled. -/
structure RxDelivering (c : Config) (rx : RxState) (x : ℤ) : Prop extends RxBase c rx where
  delivered : sduDelivered rx x = true
  next : x ≠ rx.rxNext → sduDelivered rx rx.rxNext = false
  statusNext : x ≠ rx.rxHighestStatus → sduDelivered rx rx.rxHighestStatus = false ∨
    (x = rx.rxNext ∧ modulusRx c rx rx.rxHighestStatus = c.windowSize)
  timer : rx.tReassemblyStart ≠ 0 → 0 < modulusRx c rx rx.rxNextStatusTrigger ∧
    modulusRx c rx rx.rxNextStatusTrigger ≤ modulusRx c rx rx.rxNextHighest
  below : rx.tReassemblyStart ≠ 0 → StatusBelowTrigger c rx

section

variable {c : Config} {rx : RxState}

variable {a : ℤ}

theorem modulusRx_self (c : Config) (rx : RxState) : modulusRx c rx rx.rxNext = 0 := dist_self ..

theorem RxBase.modulus_eq (hb : RxBase c rx) (hc : c.Ok) : c.snModulus = 2 * rx.rx.size := by
  rw [hb.size]
  exact hc.modulus_eq

theorem modulusRx_nonneg (hn : InRange c.snModulus rx.rxNext) (ha : InRange c.snModulus a) :
    0 ≤ modulusRx c rx a := dist_nonneg ha hn

theorem rxNext_add_modulusRx (hn : InRange c.snModulus rx.rxNext)
    (ha : InRange c.snModulus a) : (rx.rxNext + modulusRx c rx a) % c.snModulus = a :=
  add_dist_emod ha hn

theorem eq_of_getPos_eq (hc : c.Ok) (hb : RxBase c rx) {b : ℤ} (ha : InRange c.snModulus a)
    (hb' : InRange c.snModulus b) (hla : modulusRx c rx a < c.windowSize)
    (hlb : modulusRx c rx b < c.windowSize) (h : getPos rx.rx a = getPos rx.rx b) : a = b := by
  have hM := hb.modulus_eq hc
  rw [← rxNext_add_modulusRx hb.rxNext ha, ← rxNext_add_modulusRx hb.rxNext hb'] at h
  have h0a := modulusRx_nonneg hb.rxNext ha
  have h0b := modulusRx_nonneg hb.rxNext hb'
  rw [← hb.size] at hla hlb
  have := getPos_offset_inj hM ⟨h0a, hla⟩ ⟨h0b, hlb⟩ h
  exact dist_inj ha hb' this

theorem getPos_of_modulusRx_eq_window (hc : c.Ok) (hb : RxBase c rx)
    (ha : InRange c.snModulus a) (h : modulusRx c rx a = c.windowSize) :
    getPos rx.rx a = getPos rx.rx rx.rxNext := by
  have hM := hb.modulus_eq hc
  have hr : rx.rxNext = (rx.rxNext + 0) % c.snModulus := by
    rw [Int.add_zero]
    exact (Int.emod_eq_of_lt hb.rxNext.1 hb.rxNext.2).symm
  rw [← rxNext_add_modulusRx hb.rxNext ha, h, ← hb.size]
  conv_rhs => rw [hr]
  have := getPos_offset_add_size hM rx.rxNext 0
  rwa [Int.zero_add] at this

end

/-! ### Storing a PDU -/

variable {l : List Pdu} {sn x y : ℤ} {m : RxManager} {ev : List Event} {e e' : Entity}

variable {pdu : Pdu}

theorem headOk_insert (hd : pdu.data.isNone = false) (h : HeadOk l) :
    HeadOk (insertBefore (fun cur => decide (cur.so > pdu.so)) pdu l) := by
  have hnew : pdu.data.isNone = true → pdu.so = 0 := by
    intro hn
    rw [hd] at hn
    cases hn
  cases l with
  | nil => exact hnew
  | cons q l =>
    rw [insertBefore]
    split
    · exact hnew
    · exact h

theorem headConsumed_insert (hd : pdu.data.isNone = false) (h : HeadOk l) :
    headConsumed (insertBefore (fun cur => decide (cur.so > pdu.so)) pdu l) = headConsumed l := by
  cases l with
  | nil => exact hd
  | cons q l =>
    rw [insertBefore]
    split
    next hstop =>
      have hso : q.so ≠ 0 := by
        have : q.so > pdu.so := by simpa using hstop
        omega
      show pdu.data.isNone = q.data.isNone
      rw [hd]
      cases hq : q.data.isNone with
      | false => rfl
      | true => exact absurd (h hq) hso
    · rfl

theorem sduDelivered_storePdu {rx : RxState} (hd : pdu.data.isNone = false)
    (hh : ∀ sn, HeadOk (getPduFromSn rx.rx sn)) (sn : ℤ) :
    sduDelivered (storePdu rx pdu) sn = sduDelivered rx sn := by
  show headConsumed (getPduFromSn (setPdus rx.rx pdu.sn _) sn) = headConsumed (getPduFromSn rx.rx sn)
  grind [getPduFromSn_setPdus, headConsumed_insert, getPduFromSn]

theorem headOk_setPdus (hl : HeadOk l) (h : ∀ sn, HeadOk (getPduFromSn m sn)) (sn' : ℤ) :
    HeadOk (getPduFromSn (setPdus m sn l) sn') := by grind [getPduFromSn_setPdus]

section

variable {c : Config} {rx : RxState}

theorem receptionHighest_modulus (hc : c.Ok) (hb : RxBase c rx)
    (hx : InRange c.snModulus x) (hw : modulusRx c rx x < c.windowSize) :
    InRange c.snModulus (receptionHighest c rx x).rxNextHighest ∧
    modulusRx c rx (receptionHighest c rx x).rxNextHighest
      = max (modulusRx c rx rx.rxNextHighest) (modulusRx c rx x + 1) := by
  have hM := hc.modulus_eq
  have hW := hc.window_ge
  unfold receptionHighest snCompareRx
  split
  · have hnext : modulusRx c rx ((x + 1) % c.snModulus) = modulusRx c rx x + 1 :=
      dist_add_emod_of_lt hx hb.rxNext (by omega)
        (by have := modulusRx_eq c rx x; omega)
    grind [inRange_emod, modulusRx]
  · exact ⟨hb.highest, by omega⟩

theorem receptionHighest_storePdu (c : Config) (rx : RxState) (pdu : Pdu) (x : ℤ) :
    receptionHighest c (storePdu rx pdu) x =
      { storePdu rx pdu with rxNextHighest := (receptionHighest c rx x).rxNextHighest } := by
  unfold receptionHighest
  change (if snCompareRx c rx x rx.rxNextHighest ≥ 0 then _ else _) = _
  split <;> rfl

/-- **A stored PDU.**  With `rx_next_highest` brought up to date the invariant holds again. -/
theorem storePdu_inv (hc : c.Ok) (hi : RxInv c rx) (hd : pdu.data.isNone = false)
    (hx : InRange c.snModulus pdu.sn) (hw : modulusRx c rx pdu.sn < c.windowSize) :
    RxInv c (receptionHighest c (storePdu rx pdu) pdu.sn) := by
  have hdel := sduDelivered_storePdu hd hi.head
  obtain ⟨hin, hmod⟩ := receptionHighest_modulus hc hi.toRxBase hx hw
  rw [receptionHighest_storePdu]
  generalize (receptionHighest c rx pdu.sn).rxNextHighest = nh at hin hmod ⊢
  refine ⟨⟨hi.size, hi.snStart, hi.rxNext, hi.trigger, hi.status, hin, ?_, ?_, ?_, ?_⟩, ?_, ?_,
    ?_, ?_⟩
  · show modulusRx c rx nh ≤ c.windowSize
    have := hi.highest_le
    omega
  · show modulusRx c rx rx.rxHighestStatus ≤ modulusRx c rx nh
    have := hi.status_le
    omega
  · intro sn hsn h1 h2
    change modulusRx c rx nh ≤ modulusRx c rx sn at h1
    have hne : getPos rx.rx sn ≠ getPos rx.rx pdu.sn := by
      intro he
      have := eq_of_getPos_eq hc hi.toRxBase hsn hx h2 hw he
      subst this
      omega
    show getPduFromSn (setPdus rx.rx pdu.sn _) sn = []
    rw [getPduFromSn_setPdus, if_neg hne]
    exact hi.empty sn hsn (by omega) h2
  · exact headOk_setPdus (headOk_insert hd (hi.head _)) hi.head
  · exact (hdel rx.rxNext).trans hi.nextUndelivered
  · exact (hdel rx.rxHighestStatus).trans hi.statusUndelivered
  · intro ht
    obtain ⟨h1, h2⟩ := hi.timer ht
    refine ⟨h1, ?_⟩
    show modulusRx c rx rx.rxNextStatusTrigger ≤ modulusRx c rx nh
    omega
  · intro ht
    rcases hi.below ht with h | h
    · exact Or.inl h
    · refine Or.inr ?_
      intro sn hsn h1 h2
      exact (hdel sn).trans (h sn hsn h1 h2)

end

/-! ### Delivery -/

theorem pdusFull_head (h : pdusFull l = true) :
    ∃ p ps, l = p :: ps ∧ p.so = 0 ∧ p.data.isNone = false := by
  obtain ⟨h1, h2⟩ := Bool.and_eq_true_iff.mp h
  cases l with
  | nil => cases h2
  | cons p ps =>
    refine ⟨p, ps, rfl, ?_, by simpa [headConsumed] using h1⟩
    grind [sduFullLoop]

section

variable {c : Config} {rx : RxState}

theorem sduDelivered_reassemble (hf : sduFull rx x = true) (sn : ℤ) :
    sduDelivered (reassembleAndDeliver rx x).1 sn =
      if getPos rx.rx sn = getPos rx.rx x then true else sduDelivered rx sn := by
  obtain ⟨p, ps, hl, _, _⟩ := pdusFull_head hf
  show headConsumed (getPduFromSn (setPdus rx.rx x ((getPduFromSn rx.rx x).map consume)) sn) = _
  rw [getPduFromSn_setPdus]
  split
  · rw [hl]
    rfl
  · rfl

/-- **After reassembly** the invariant holds except for the SNs that the delivered SDU may have
been. -/
theorem reassemble_delivering (hc : c.Ok) (hi : RxInv c rx) (hx : InRange c.snModulus x)
    (hw : modulusRx c rx x < c.windowSize) (hf : sduFull rx x = true) :
    RxDelivering c (reassembleAndDeliver rx x).1 x := by
  have hdel := sduDelivered_reassemble hf
  have hb := hi.toRxBase
  obtain ⟨p, ps, hl, hso, _⟩ := pdusFull_head hf
  have hW := hc.window_ge
  refine ⟨{ hi with empty := ?_, head := ?_ }, ?_, ?_, ?_, hi.timer, ?_⟩
  · intro sn hsn h1 h2
    have hemp := hi.empty sn hsn h1 h2
    show getPduFromSn (setPdus rx.rx x _) sn = []
    rw [getPduFromSn_setPdus, if_neg]
    · exact hemp
    · intro he
      have hslot : getPduFromSn rx.rx sn = getPduFromSn rx.rx x := congrArg rx.rx.rxList he
      simp_all
  · refine headOk_setPdus ?_ hi.head
    rw [hl]
    exact fun _ => hso
  · rw [hdel, if_pos rfl]
  · intro hne
    rw [hdel, if_neg]
    · exact hi.nextUndelivered
    · intro he
      refine hne (eq_of_getPos_eq hc hb hx hi.rxNext hw ?_ he.symm)
      rw [show (reassembleAndDeliver rx x).1.rxNext = rx.rxNext from rfl, modulusRx_self]
      omega
  · intro hne
    rw [hdel]
    by_cases hlt : modulusRx c rx rx.rxHighestStatus < c.windowSize
    · rw [if_neg]
      · exact Or.inl hi.statusUndelivered
      · intro he
        exact hne (eq_of_getPos_eq hc hb hx hi.status hw hlt he.symm)
    · have heq : modulusRx c rx rx.rxHighestStatus = c.windowSize := by
        have := hi.status_le
        have := hi.highest_le
        omega
      by_cases hxn : x = rx.rxNext
      · exact Or.inr ⟨hxn, heq⟩
      · rw [if_neg]
        · exact Or.inl hi.statusUndelivered
        · intro he
          change getPos rx.rx rx.rxHighestStatus = getPos rx.rx x at he
          rw [getPos_of_modulusRx_eq_window hc hb hi.status heq] at he
          refine hxn (eq_of_getPos_eq hc hb hx hi.rxNext hw ?_ he.symm)
          rw [modulusRx_self]
          omega
  · intro ht
    rcases hi.below ht with h | h
    · exact Or.inl h
    · refine Or.inr ?_
      intro sn hsn h1 h2
      rw [hdel]
      split
      · rfl
      · exact h sn hsn h1 h2

end

/-! ### `rx_highest_status` -/

variable {c : Config}

/-- **The SN at which the loop over delivered SDUs stops** lies between its start and
`rx_next_highest`, and everything it has passed has been delivered. -/
theorem skipDelivered_spec {rx : RxState} (hc : c.Ok) (hb : RxBase c rx) {r : ℤ}
    (hsn : InRange c.snModulus sn) (hle : modulusRx c rx sn ≤ modulusRx c rx rx.rxNextHighest)
    (hnext : sduDelivered rx rx.rxNext = false ∨ sn = rx.rxNext)
    (h : skipDelivered c rx sn = .ok r) :
    InRange c.snModulus r ∧ sduDelivered rx r = false ∧
    modulusRx c rx sn ≤ modulusRx c rx r ∧
    modulusRx c rx r ≤ modulusRx c rx rx.rxNextHighest ∧
    ∀ y, InRange c.snModulus y → modulusRx c rx sn ≤ modulusRx c rx y →
      modulusRx c rx y < modulusRx c rx r → sduDelivered rx y = true := by
  have hM := hc.modulus_eq
  have hW := hc.window_ge
  have hMr := hb.modulus_eq hc
  have hhl := hb.highest_le
  have h' : advanceWhile (sduDelivered rx) c.snModulus c.snModulus.toNat (sn % c.snModulus)
      = .ok r := by
    rw [Int.emod_eq_of_lt hsn.1 hsn.2]
    exact h
  obtain ⟨hr, j, hj, hpass⟩ := advanceWhile_spec h'
  -- the loop stops at `rx_next_highest` at the latest
  have hbound : modulusRx c rx sn + j ≤ modulusRx c rx rx.rxNextHighest := by
    by_contra hgt
    have hi : ((modulusRx c rx rx.rxNextHighest - modulusRx c rx sn).toNat : ℤ)
        = modulusRx c rx rx.rxNextHighest - modulusRx c rx sn := Int.toNat_of_nonneg (by omega)
    have hreach := hpass (modulusRx c rx rx.rxNextHighest - modulusRx c rx sn).toNat (by omega)
    rw [hi] at hreach
    have hsn' : (sn + (modulusRx c rx rx.rxNextHighest - modulusRx c rx sn)) % c.snModulus
        = rx.rxNextHighest := add_dist_sub_emod hsn hb.highest hb.rxNext
    rw [hsn'] at hreach
    by_cases hlt : modulusRx c rx rx.rxNextHighest < c.windowSize
    · rw [sduDelivered, hb.empty _ hb.highest le_rfl hlt] at hreach
      cases hreach
    · have heq : modulusRx c rx rx.rxNextHighest = c.windowSize := by omega
      have hpos := getPos_of_modulusRx_eq_window hc hb hb.highest heq
      have hdel : sduDelivered rx rx.rxNext = true := by
        rw [sduDelivered, getPduFromSn, ← hpos]
        exact hreach
      rcases hnext with hnext | rfl
      · simp_all
      · -- all slots are delivered: the loop would not have stopped
        have hz := modulusRx_self c rx
        have hback := hpass (j - rx.rx.size.toNat) (by omega)
        have hsame := getPos_offset_add_size hMr rx.rxNext (j - rx.rx.size)
        grind [sduDelivered, getPduFromSn]
  have hmod : modulusRx c rx r = modulusRx c rx sn + j := by
    rw [hj]
    exact dist_add_emod_of_lt hsn hb.rxNext (by omega)
      (by rw [← modulusRx_eq]; omega)
  refine ⟨by rw [hj]; exact inRange_emod hc.modulus_pos, hr, by omega, by omega, ?_⟩
  intro y hy h1 h2
  have hcast : ((modulusRx c rx y - modulusRx c rx sn).toNat : ℤ)
      = modulusRx c rx y - modulusRx c rx sn := Int.toNat_of_nonneg (by omega)
  have hthis := hpass (modulusRx c rx y - modulusRx c rx sn).toNat (by omega)
  rw [hcast] at hthis
  have hyy : (sn + (modulusRx c rx y - modulusRx c rx sn)) % c.snModulus = y :=
    add_dist_sub_emod hsn hy hb.rxNext
  rwa [hyy] at hthis

/-- `rx_highest_status` is not delivered, or it is a window above the SN `x` just delivered. -/
def StatusSettled (c : Config) (rx : RxState) (x : ℤ) : Prop :=
  sduDelivered rx rx.rxHighestStatus = false ∨
    (x = rx.rxNext ∧ modulusRx c rx rx.rxHighestStatus = c.windowSize)

variable {rx rx' : RxState}

theorem advanceHighestStatus_inv (hc : c.Ok)
    (hd : RxDelivering c rx x) (h : advanceHighestStatus c rx x = .ok rx') :
    RxDelivering c rx' x ∧ StatusSettled c rx' x ∧ rx'.rxNext = rx.rxNext ∧
      modulusRx c rx rx.rxHighestStatus ≤ modulusRx c rx rx'.rxHighestStatus := by
  unfold advanceHighestStatus at h
  split at h
  next hx =>
    obtain ⟨r, hr, rfl⟩ := bind_ok_inj h
    have hnext : sduDelivered rx rx.rxNext = false ∨ rx.rxHighestStatus = rx.rxNext := by
      by_cases hxn : x = rx.rxNext
      · exact Or.inr (hx.symm.trans hxn)
      · exact Or.inl (hd.next hxn)
    obtain ⟨hin, hund, hge, hle, hpass⟩ :=
      skipDelivered_spec hc hd.toRxBase hd.status hd.status_le hnext hr
    refine ⟨⟨{ hd with status := hin, status_le := hle }, hd.delivered, hd.next,
      fun _ => Or.inl hund, hd.timer, ?_⟩, Or.inl hund, rfl, hge⟩
    intro ht
    rcases hd.below ht with hb | hb
    · by_cases hcmp : modulusRx c rx r ≤ modulusRx c rx rx.rxNextStatusTrigger
      · exact Or.inl hcmp
      · refine Or.inr ?_
        intro y hy h1 h2
        change modulusRx c rx rx.rxNextStatusTrigger ≤ modulusRx c rx y at h1
        exact hpass y hy (by omega) h2
    · refine Or.inr ?_
      intro y hy h1 h2
      by_cases hcmp : modulusRx c rx y < modulusRx c rx rx.rxHighestStatus
      · exact hb y hy h1 hcmp
      · exact hpass y hy (by omega) h2
  next hx =>
    obtain rfl := Except.ok.inj h
    exact ⟨hd, hd.statusNext hx, rfl, le_rfl⟩

/-! ### `rx_next` -/

theorem freeDelivered_spec (hc : c.Ok) (hb : RxBase c rx) (h : freeDelivered c rx = .ok rx') :
    ∃ (a : ℕ) (m : RxManager), Freed c.snModulus rx.rx m rx.rxNext a ∧
      (∀ sn, getPduFromSn rx'.rx sn = getPduFromSn m sn) ∧
      rx' = { rx with
        rxNext := (rx.rxNext + a) % c.snModulus
        rx := advanceTo m a ((rx.rxNext + a) % c.snModulus) } := by
  have hM := hb.modulus_eq hc
  have hpos : 0 < rx.rx.size := by
    have := hc.window_ge
    rw [hb.size]
    omega
  obtain ⟨⟨m, r', n'⟩, h1, rfl⟩ := bind_ok_inj h
  rw [← Int.emod_eq_of_lt hb.rxNext.1 hb.rxNext.2] at h1
  obtain ⟨a, hr', hn', hf⟩ := freeDeliveredLoop_spec hM hpos h1
  subst hr'
  rw [Int.zero_add] at hn'
  subst hn'
  refine ⟨a, m, hf, ?_, rfl⟩
  intro sn
  have hM' : c.snModulus = 2 * m.size := by rw [hf.size]; exact hM
  have := getPduFromSn_advanceTo hM' a sn
  rw [hf.snStart, hb.snStart] at this
  exact this

section

variable {c : Config} {rx : RxState}

theorem modulusRx_moved (hc : c.Ok) (hb : RxBase c rx) {a : ℕ} (ha : (a : ℤ) ≤ c.windowSize)
    {rx' : RxState} (hr : rx'.rxNext = (rx.rxNext + a) % c.snModulus) (hy : InRange c.snModulus y) :
    modulusRx c rx' y = if (a : ℤ) ≤ modulusRx c rx y then modulusRx c rx y - a
      else modulusRx c rx y - a + c.snModulus := by
  have hM := hc.modulus_eq
  have hW := hc.window_ge
  have hin : InRange c.snModulus ((rx.rxNext + a) % c.snModulus) := inRange_emod hc.modulus_pos
  have hd : dist c.snModulus rx.rxNext ((rx.rxNext + a) % c.snModulus) = a :=
    dist_add_emod hb.rxNext (by omega) (by omega)
  rw [modulusRx_eq, hr, dist_rebase hy hb.rxNext hin, hd]
  rfl

theorem freed_delivered {a : ℕ} (hb : RxBase c rx)
    (hf : Freed c.snModulus rx.rx m rx.rxNext a) (hy : InRange c.snModulus y)
    (hlt : modulusRx c rx y < a) : sduDelivered rx y = true := by
  have h0 := modulusRx_nonneg hb.rxNext hy
  have hcast : ((modulusRx c rx y).toNat : ℤ) = modulusRx c rx y := Int.toNat_of_nonneg h0
  have := hf.delivered (modulusRx c rx y).toNat (by omega)
  rwa [hcast, rxNext_add_modulusRx hb.rxNext hy] at this

theorem freed_keeps (hc : c.Ok) {a : ℕ} (hb : RxBase c rx)
    (hf : Freed c.snModulus rx.rx m rx.rxNext a) (hy : InRange c.snModulus y)
    (hge : (a : ℤ) ≤ modulusRx c rx y) (hlt : modulusRx c rx y < c.windowSize) :
    getPduFromSn m y = getPduFromSn rx.rx y := by
  have hM := hb.modulus_eq hc
  rw [hf.slots, if_neg]
  rintro ⟨i, hi, he⟩
  rw [← rxNext_add_modulusRx hb.rxNext hy] at he
  have := getPos_offset_inj hM ⟨by omega, by rw [hb.size]; exact hlt⟩
    ⟨by omega, by rw [hb.size]; omega⟩ he
  omega

theorem freed_empty (hc : c.Ok) {a : ℕ} (hb : RxBase c rx)
    (hf : Freed c.snModulus rx.rx m rx.rxNext a) (hy : InRange c.snModulus y)
    (hge : c.windowSize ≤ modulusRx c rx y) (hlt : modulusRx c rx y < c.windowSize + a) :
    getPduFromSn m y = [] := by
  have hM := hb.modulus_eq hc
  rw [hf.slots, if_pos]
  have hcast : ((modulusRx c rx y - c.windowSize).toNat : ℤ) = modulusRx c rx y - c.windowSize :=
    Int.toNat_of_nonneg (by omega)
  refine ⟨(modulusRx c rx y - c.windowSize).toNat, by omega, ?_⟩
  have := getPos_offset_add_size hM rx.rxNext (modulusRx c rx y - c.windowSize)
  rw [hcast, ← this, hb.size, show modulusRx c rx y - c.windowSize + c.windowSize
    = modulusRx c rx y by ring, rxNext_add_modulusRx hb.rxNext hy]

end

/-- **Freeing the delivered SDUs.**  `rx_next` moves up to the first SDU that is not delivered and
keeps its place below the other variables; only the trigger may be left behind. -/
theorem freeDelivered_moved (hc : c.Ok)
    (hd : RxDelivering c rx rx.rxNext) (hs : StatusSettled c rx rx.rxNext)
    (h : freeDelivered c rx = .ok rx') :
    RxMoved c rx' ∧ modulusRx c rx rx'.rxNext ≤ c.windowSize := by
  have hb := hd.toRxBase
  have hM := hc.modulus_eq
  obtain ⟨a, m, hf, hslot, hrx'⟩ := freeDelivered_spec hc hb h
  have haW : (a : ℤ) ≤ c.windowSize := by
    have := hf.count
    rwa [hb.size] at this
  have hnext : rx'.rxNext = (rx.rxNext + a) % c.snModulus := by rw [hrx']
  have hmod : ∀ {y : ℤ}, InRange c.snModulus y → modulusRx c rx' y =
      if (a : ℤ) ≤ modulusRx c rx y then modulusRx c rx y - a
      else modulusRx c rx y - a + c.snModulus := modulusRx_moved hc hb haW hnext
  have hdel' : ∀ sn, sduDelivered rx' sn = headConsumed (getPduFromSn m sn) := by
    intro sn
    rw [sduDelivered, hslot]
  have ha : 1 ≤ a := by
    by_contra hlt
    obtain rfl : a = 0 := by omega
    have hstop := hf.stops
    rw [hf.slots, if_neg (by rintro ⟨i, hi, _⟩; omega)] at hstop
    have hz : (rx.rxNext + ((0 : ℕ) : ℤ)) % c.snModulus = rx.rxNext := by
      rw [Nat.cast_zero, Int.add_zero, Int.emod_eq_of_lt hb.rxNext.1 hb.rxNext.2]
    have hdn := hd.delivered
    rw [hz] at hstop
    rw [sduDelivered, hstop] at hdn
    cases hdn
  have hnh : (a : ℤ) ≤ modulusRx c rx rx.rxNextHighest := by
    by_contra hlt
    have := freed_delivered hb hf hb.highest (by omega)
    rw [sduDelivered, hb.empty _ hb.highest le_rfl (by omega)] at this
    cases this
  have hst : (a : ℤ) ≤ modulusRx c rx rx.rxHighestStatus := by
    by_contra hlt
    have hdst := freed_delivered hb hf hb.status (by omega)
    rcases hs with hs | ⟨_, hs⟩
    · simp_all
    · omega
  have hle := hb.highest_le
  have hsle := hb.status_le
  have hnh' : modulusRx c rx' rx'.rxNextHighest = modulusRx c rx rx.rxNextHighest - a := by
    rw [show rx'.rxNextHighest = rx.rxNextHighest by rw [hrx'], hmod hb.highest, if_pos hnh]
  have hst' : modulusRx c rx' rx'.rxHighestStatus = modulusRx c rx rx.rxHighestStatus - a := by
    rw [show rx'.rxHighestStatus = rx.rxHighestStatus by rw [hrx'], hmod hb.status, if_pos hst]
  have hin : InRange c.snModulus rx'.rxNext := by rw [hnext]; exact inRange_emod hc.modulus_pos
  have htrig : rx'.rxNextStatusTrigger = rx.rxNextStatusTrigger := by rw [hrx']
  refine ⟨⟨⟨?_, ?_, hin, ?_, ?_, ?_, by omega, by omega, ?_, ?_⟩, ?_, ?_, ?_⟩, ?_⟩
  · rw [hrx']
    exact hf.size.trans hb.size
  · rw [hrx']
    rfl
  · rw [htrig]
    exact hb.trigger
  · rw [hrx']
    exact hb.status
  · rw [hrx']
    exact hb.highest
  · intro sn hsn h1 h2
    have h0 := modulusRx_nonneg hb.rxNext hsn
    rw [hnh', hmod hsn] at h1
    rw [hmod hsn] at h2
    rw [hslot]
    split at h1
    · by_cases hw : modulusRx c rx sn < c.windowSize
      · rw [freed_keeps hc hb hf hsn (by omega) hw]
        exact hb.empty sn hsn (by omega) hw
      · grind [freed_empty]
    · omega
  · intro sn
    rw [hslot, hf.slots]
    split
    · exact trivial
    · exact hb.head sn
  · rw [hdel', hnext]
    exact hf.stops
  · rw [hdel', show rx'.rxHighestStatus = rx.rxHighestStatus by rw [hrx'], hf.slots]
    split
    · rfl
    next hno =>
      rcases hs with hs | ⟨_, hs⟩
      · exact hs
      · refine absurd ⟨0, by omega, ?_⟩ hno
        rw [getPos_of_modulusRx_eq_window hc hb hb.status hs, Nat.cast_zero, Int.add_zero,
          Int.emod_eq_of_lt hb.rxNext.1 hb.rxNext.2]
  · intro ht
    have ht' : rx.tReassemblyStart ≠ 0 := by rwa [hrx'] at ht
    obtain ⟨ht0, ht1⟩ := hd.timer ht'
    have htm := hmod hb.trigger
    rw [← htrig] at htm
    by_cases hbehind : (a : ℤ) ≤ modulusRx c rx rx.rxNextStatusTrigger
    · rw [htrig, if_pos hbehind] at htm
      refine Or.inl ⟨by rw [htrig]; omega, ?_⟩
      rcases hd.below ht' with hbe | hbe
      · exact Or.inl (by rw [htrig]; omega)
      · refine Or.inr ?_
        intro y hy h1 h2
        have h0 := modulusRx_nonneg hb.rxNext hy
        rw [htrig, htm, hmod hy] at h1
        rw [hst', hmod hy] at h2
        split at h1
        · rw [hdel', freed_keeps hc hb hf hy (by assumption) (by omega)]
          exact hbe y hy (by omega) (by omega)
        · omega
    · grind
  · rw [hnext]
    show dist c.snModulus rx.rxNext _ ≤ _
    rw [dist_add_emod hb.rxNext (by omega) (by omega)]
    exact haW

/-- `rx_next` and `rx_highest_status` do not move backwards: counted from the old `rx_next`, the
new values are within the window, and `rx_highest_status` is not below its old value. -/
structure MovesForward (c : Config) (rx rx' : RxState) : Prop where
  next : modulusRx c rx rx'.rxNext ≤ c.windowSize
  status : modulusRx c rx rx.rxHighestStatus ≤ modulusRx c rx rx'.rxHighestStatus
  statusWindow : modulusRx c rx rx'.rxHighestStatus ≤ c.windowSize

theorem MovesForward.refl (hc : c.Ok) (hb : RxBase c rx)
    (hn : rx'.rxNext = rx.rxNext) (hs : rx'.rxHighestStatus = rx.rxHighestStatus) :
    MovesForward c rx rx' := by
  refine ⟨?_, by rw [hs], ?_⟩
  · rw [hn, modulusRx_self]
    have := hc.window_ge
    omega
  · rw [hs]
    exact le_trans hb.status_le hb.highest_le

theorem advanceRxNext_moved (hc : c.Ok)
    (hd : RxDelivering c rx x) (hs : StatusSettled c rx x) (h : advanceRxNext c rx x = .ok rx') :
    RxMoved c rx' ∧ modulusRx c rx rx'.rxNext ≤ c.windowSize ∧
      rx'.rxHighestStatus = rx.rxHighestStatus := by
  unfold advanceRxNext at h
  split at h
  next hx =>
    subst hx
    obtain ⟨hm, hle⟩ := freeDelivered_moved hc hd hs h
    obtain ⟨a, m, _, _, hrx'⟩ := freeDelivered_spec hc hd.toRxBase h
    exact ⟨hm, hle, by rw [hrx']⟩
  next hx =>
    obtain rfl := Except.ok.inj h
    refine ⟨⟨hd.toRxBase, hd.next hx, ?_, ?_⟩, ?_, rfl⟩
    · rcases hs with hs | ⟨hs, _⟩
      · exact hs
      · exact absurd hs hx
    · intro ht
      exact Or.inl ⟨(hd.timer ht).2, hd.below ht⟩
    · rw [modulusRx_self]
      have := hc.window_ge
      omega

/-! ### `t_reassembly` -/

section

variable {c : Config} {rx : RxState}

theorem stopReassembly_inv (hc : c.Ok) (hm : RxMoved c rx) : RxInv c (stopReassembly c rx) := by
  have hM := hc.modulus_eq
  have hW := hc.window_ge
  unfold stopReassembly
  split
  · exact { hm with timer := fun ht => absurd rfl ht, below := fun ht => absurd rfl ht }
  next hno =>
    have hcase : rx.tReassemblyStart ≠ 0 → (0 < modulusRx c rx rx.rxNextStatusTrigger ∧
        modulusRx c rx rx.rxNextStatusTrigger ≤ modulusRx c rx rx.rxNextHighest) ∧
        StatusBelowTrigger c rx := by
      intro ht
      have hns : stopsReassembly c rx = false := by
        cases hst : stopsReassembly c rx with
        | false => rfl
        | true => exact absurd ⟨ht, hst⟩ hno
      simp only [stopsReassembly, Bool.or_eq_false_iff, Bool.and_eq_false_iff] at hns
      obtain ⟨⟨h1, _⟩, h3⟩ := hns
      rcases hm.timer ht with ⟨hle, hbe⟩ | hgt
      · refine ⟨⟨?_, hle⟩, hbe⟩
        have h0 := modulusRx_nonneg hm.rxNext hm.trigger
        by_contra hz
        have hz0 : dist c.snModulus rx.rxNext rx.rxNextStatusTrigger = 0 := by
          rw [← modulusRx_eq]
          omega
        exact (of_decide_eq_false h1) ((dist_eq_zero hm.trigger hm.rxNext).mp hz0)
      · rcases h3 with h3 | h3
        · grind [modulusRx, snInRecvWindow]
        · have heq : rx.rxNextStatusTrigger = (rx.rxNext + c.windowSize) % c.snModulus := by
            simpa using h3
          have : modulusRx c rx rx.rxNextStatusTrigger = c.windowSize := by
            rw [heq]
            exact dist_add_emod hm.rxNext (by omega) (by omega)
          omega
    exact ⟨hm.toRxBase, hm.nextUndelivered, hm.statusUndelivered, fun ht => (hcase ht).1,
      fun ht => (hcase ht).2⟩

theorem highest_pos_of_missing (hb : RxBase c rx) (hsn : InRange c.snModulus sn)
    (hlt : modulusRx c rx sn + 1 < c.snModulus) (h : hasMissingFrom c rx sn = true) :
    0 < modulusRx c rx rx.rxNextHighest := by
  have h0 := modulusRx_nonneg hb.rxNext hsn
  have hnext : modulusRx c rx ((sn + 1) % c.snModulus) = modulusRx c rx sn + 1 :=
    dist_add_emod_of_lt hsn hb.rxNext (by omega) hlt
  simp only [hasMissingFrom, Bool.or_eq_true, Bool.and_eq_true, decide_eq_true_eq, snCompareRx,
    hnext] at h
  grind

theorem startReassembly_inv (hi : RxInv c rx) (now : UInt64)
    (h : 0 < modulusRx c rx rx.rxNextHighest) : RxInv c (startReassembly now rx) :=
  { hi with
    trigger := hi.highest
    timer := fun _ => ⟨h, le_rfl⟩
    below := fun _ => Or.inl hi.status_le }

theorem receptionTimer_inv (hc : c.Ok) (hm : RxMoved c rx) (now : UInt64) :
    RxInv c (receptionTimer c now rx) := by
  have hi := stopReassembly_inv hc hm
  have hM := hc.modulus_eq
  have hW := hc.window_ge
  unfold receptionTimer
  dsimp only
  split
  next hmiss =>
    refine startReassembly_inv hi now (highest_pos_of_missing hi.toRxBase hi.rxNext ?_ hmiss.2)
    rw [modulusRx_self]
    omega
  · exact hi

theorem receptionTimer_eq (c : Config) (now : UInt64) (rx : RxState) :
    ∃ start trigger, receptionTimer c now rx =
      { rx with tReassemblyStart := start, rxNextStatusTrigger := trigger } := by
  unfold receptionTimer stopReassembly startReassembly
  split
  all_goals
    dsimp only
    split <;> exact ⟨_, _, rfl⟩

theorem checkTReassembly_inv (hc : c.Ok) (hi : RxInv c rx) {now : UInt64} {rx' : RxState}
    (h : checkTReassembly c now rx = .ok rx') : RxInv c rx' ∧ MovesForward c rx rx' := by
  have hM := hc.modulus_eq
  have hW := hc.window_ge
  unfold checkTReassembly at h
  split at h
  next hexp =>
    have ht : rx.tReassemblyStart ≠ 0 := by
      intro hz
      simp [tReassemblyExpired, hz] at hexp
    obtain ⟨r, hr, rfl⟩ := bind_ok_inj h
    obtain ⟨_, htle⟩ := hi.timer ht
    obtain ⟨hin, hund, hge, hle, hpass⟩ := skipDelivered_spec hc hi.toRxBase hi.trigger htle
      (Or.inl hi.nextUndelivered) hr
    -- `rx_highest_status` is not passed backwards: below the trigger, or the loop stops there
    have hfwd : modulusRx c rx rx.rxHighestStatus ≤ modulusRx c rx r := by
      rcases hi.below ht with hb | hb
      · omega
      · grind
    generalize hrx1 : ({ rx with
      tReassemblyStart := 0
      rxHighestStatus := r
      statusTriggered := true } : RxState) = rx₁
    have hi1 : RxInv c rx₁ := by
      rw [← hrx1]
      exact ⟨{ hi with status := hin, status_le := hle }, hi.nextUndelivered, hund,
        fun h0 => absurd rfl h0, fun h0 => absurd rfl h0⟩
    have hfwd1 : MovesForward c rx rx₁ := by
      rw [← hrx1]
      have hself : MovesForward c rx rx := MovesForward.refl hc hi.toRxBase rfl rfl
      exact ⟨hself.next, hfwd, le_trans hle hi.highest_le⟩
    unfold restartReassembly
    split
    next hmiss =>
      have hpos : 0 < modulusRx c rx₁ rx₁.rxNextHighest := by
        refine highest_pos_of_missing hi1.toRxBase hi1.status ?_ hmiss
        have h1 := hi1.status_le
        have h2 := hi1.highest_le
        omega
      exact ⟨startReassembly_inv hi1 now hpos, hfwd1.next, hfwd1.status, hfwd1.statusWindow⟩
    · exact ⟨hi1, hfwd1⟩
  · obtain rfl := Except.ok.inj h
    exact ⟨hi, MovesForward.refl hc hi.toRxBase rfl rfl⟩

end

/-! ### Reception of a PDU -/

section

variable {c : Config} {rx rx' : RxState} {now : UInt64}

/-- **Delivery.** -/
theorem receptionDeliver_moved (hc : c.Ok) (hi : RxInv c rx)
    (hx : InRange c.snModulus x) (hw : modulusRx c rx x < c.windowSize)
    (h : receptionDeliver c rx x = .ok (rx', ev)) : RxMoved c rx' ∧ MovesForward c rx rx' := by
  unfold receptionDeliver at h
  split at h
  next hf =>
    have hd := reassemble_delivering hc hi hx hw hf
    obtain ⟨rx₁, h1, h2⟩ := bind_returns.mp h
    obtain ⟨rx₂, h3, rfl, _⟩ := bind_pair_inj h2
    obtain ⟨hd1, hs1, hn1, hge⟩ := advanceHighestStatus_inv hc hd h1
    obtain ⟨hm, hle, hst⟩ := advanceRxNext_moved hc hd1 hs1 h3
    refine ⟨hm, ?_, ?_, ?_⟩
    · rwa [modulusRx_eq, hn1] at hle
    · rw [hst]
      exact hge
    · rw [hst]
      have := le_trans hd1.status_le hd1.highest_le
      rwa [modulusRx_eq, hn1] at this
  · obtain ⟨rfl, _⟩ := ok_inj h
    refine ⟨⟨hi.toRxBase, hi.nextUndelivered, hi.statusUndelivered, ?_⟩,
      MovesForward.refl hc hi.toRxBase rfl rfl⟩
    intro ht
    exact Or.inl ⟨(hi.timer ht).2, hi.below ht⟩

/-- **`reception_actions`** on a PDU that has been stored. -/
theorem receptionActions_inv (hc : c.Ok) (hi : RxInv c rx)
    (hd : pdu.data.isNone = false) (hx : InRange c.snModulus pdu.sn)
    (hw : modulusRx c rx pdu.sn < c.windowSize)
    (h : receptionActions c now (storePdu rx pdu) pdu.sn = .ok (rx', ev)) :
    RxInv c rx' ∧ MovesForward c rx rx' := by
  obtain ⟨⟨rx₁, ev₁⟩, h1, rfl, _⟩ := bind_pair_inj h
  have hi1 := storePdu_inv hc hi hd hx hw
  rw [receptionHighest_storePdu] at hi1 h1
  obtain ⟨hm, hfwd⟩ := receptionDeliver_moved hc hi1 hx hw h1
  refine ⟨receptionTimer_inv hc hm now, ?_⟩
  obtain ⟨start, trigger, ht⟩ := receptionTimer_eq c now rx₁
  rw [ht]
  exact ⟨hfwd.next, hfwd.status, hfwd.statusWindow⟩

variable {d : Decoder} {h : Header}

theorem decodeHeader_sn (hc : c.Ok) (hb : d.bit < 8)
    (hd : decodeHeader c d = some h) : InRange c.snModulus h.sn := by
  unfold decodeHeader at hd
  simp only [Option.bind_eq_bind, Option.bind_eq_some_iff, Option.pure_def, Option.some.injEq] at hd
  obtain ⟨⟨si, d₁⟩, h1, d₂, h2, ⟨sn, d₃⟩, h3, ⟨so, d₄⟩, _, rfl⟩ := hd
  have hs1 := (getBits_spec hb h1).1
  have hb2 : d₂.bit < 8 := by
    unfold skipReserved at h2
    split at h2
    · obtain ⟨⟨v, d'⟩, hg, rfl⟩ := Option.map_eq_some_iff.mp h2
      exact (getBits_spec hs1.bit hg).1.bit
    · obtain rfl := Option.some.inj h2
      exact hs1.bit
  have hlt := getBits_lt hb2 h3
  refine ⟨Int.natCast_nonneg _, ?_⟩
  rw [hc.modulus]
  exact_mod_cast hlt

variable {buffer : List UInt8}

theorem modulusRx_lt_of_kept (hdis : ¬ discardsPdu c rx buffer h = true) :
    modulusRx c rx h.sn < c.windowSize := by
  simp only [discardsPdu, Bool.or_eq_true, not_or, snInRecvWindow, Bool.not_eq_true',
    decide_eq_false_iff_not, not_not] at hdis
  exact hdis.1.2

theorem recvData_inv (hc : c.Ok) (hi : RxInv c rx) (hsn : InRange c.snModulus h.sn)
    (hr : recvData c now rx buffer h = .ok (rx', ev)) : RxInv c rx' ∧ MovesForward c rx rx' := by
  unfold recvData at hr
  split at hr
  · obtain ⟨rfl, _⟩ := ok_inj hr
    exact ⟨hi, MovesForward.refl hc hi.toRxBase rfl rfl⟩
  next hdis =>
    have hw := modulusRx_lt_of_kept hdis
    set pdu := nrRlcNewPdu h.sn h.so h.isFirst h.isLast (buffer.drop h.byte) with hpdu
    have hd : pdu.data.isNone = false := by rfl
    have hs : pdu.sn = h.sn := by rfl
    grind [receptionActions_inv]

theorem pollStatus_inv (hi : RxInv c rx) (p : Bool) : RxInv c (pollStatus p rx) := by
  cases p with
  | false => exact hi
  | true => exact { hi with }

theorem pollStatus_rxNext (p : Bool) (rx : RxState) :
    (pollStatus p rx).rxNext = rx.rxNext ∧
      (pollStatus p rx).rxHighestStatus = rx.rxHighestStatus := by
  cases p <;> exact ⟨rfl, rfl⟩

/-- **Reception of any data PDU.** -/
theorem recvDataPdu_inv (hc : c.Ok) (hi : RxInv c rx) (hb : d.bit < 8)
    (hr : recvDataPdu c now rx buffer d = .ok (rx', ev)) :
    RxInv c rx' ∧ MovesForward c rx rx' := by
  unfold recvDataPdu at hr
  split at hr
  · obtain ⟨rfl, _⟩ := ok_inj hr
    exact ⟨hi, MovesForward.refl hc hi.toRxBase rfl rfl⟩
  next p d₁ hp =>
    have hb1 := (getBits_spec hb hp).1.bit
    split at hr
    · obtain ⟨rfl, _⟩ := ok_inj hr
      have := pollStatus_rxNext (p == 1) rx
      exact ⟨pollStatus_inv hi _, MovesForward.refl hc hi.toRxBase this.1 this.2⟩
    next h hdec =>
      obtain ⟨⟨rx₁, ev₁⟩, h1, rfl, _⟩ := bind_pair_inj hr
      obtain ⟨hi1, hf1⟩ := recvData_inv hc hi (decodeHeader_sn hc hb1 hdec) h1
      obtain ⟨hn, hs⟩ := pollStatus_rxNext (p == 1) rx₁
      exact ⟨pollStatus_inv hi1 _, by rw [hn]; exact hf1.next, by rw [hs]; exact hf1.status,
        by rw [hs]; exact hf1.statusWindow⟩

end

/-! ### Runs -/

theorem generateStatus_rx {now : UInt64} {size : ℕ}
    {pdu : List UInt8} (h : generateStatus c now rx size = .ok (rx', pdu)) :
    ∃ triggered prohibit, rx' =
      { rx with statusTriggered := triggered, tStatusProhibitStart := prohibit } := by
  unfold generateStatus at h
  split at h
  · obtain ⟨rfl, _⟩ := ok_inj h
    exact ⟨_, _, rfl⟩
  · obtain ⟨enc, _, h⟩ := bind_returns.mp h
    obtain ⟨w, _, rfl, _⟩ := bind_pair_inj h
    exact ⟨_, _, rfl⟩

theorem rxInv_new (hc : c.Ok) {rx : RxState}
    (hm : m.rxList = fun _ => []) (hsize : m.size = c.windowSize) (hs : m.snStart = 0)
    (h : rx = { RxState.new m.size with rx := m }) : RxInv c rx := by
  subst h
  have hM := hc.modulus_pos
  have hW := hc.window_ge
  have h0 : InRange c.snModulus 0 := ⟨le_rfl, hM⟩
  have hempty : ∀ sn, getPduFromSn m sn = [] := by
    intro sn
    rw [getPduFromSn, hm]
  have hund : ∀ sn, headConsumed (getPduFromSn m sn) = false := by
    intro sn
    rw [hempty]
    rfl
  refine ⟨⟨hsize, hs, h0, h0, h0, h0, ?_, le_rfl, fun sn _ _ _ => hempty sn, ?_⟩, hund _,
    hund _, fun ht => absurd rfl ht, fun ht => absurd rfl ht⟩
  · show dist c.snModulus 0 0 ≤ _
    rw [dist_self]
    omega
  · grind [HeadOk, getPduFromSn]

theorem entityNew_rxInv (hc : c.Ok) : RxInv c (Entity.new c).rx := by
  have hsize : (2 ^ (c.snFieldLength - 1) : ℤ) = c.windowSize := by
    rw [hc.window]
    rcases hc.length with h | h <;> rw [h] <;> rfl
  exact rxInv_new hc (m := nrRlcNewRxManager (2 ^ (c.snFieldLength - 1))) rfl hsize rfl rfl

/-- **Every call keeps the invariant**, and only re-establishment moves backwards. -/
theorem step_rxInv {i : Input} {o : Output} (hc : e.cfg.Ok)
    (hi : RxInv e.cfg e.rx) (h : step e i = .ok (e', o)) :
    RxInv e.cfg e'.rx ∧ (i ≠ .reestablishment → MovesForward e.cfg e.rx e'.rx) := by
  have hidle : RxInv e.cfg e.rx ∧ (i ≠ .reestablishment → MovesForward e.cfg e.rx e.rx) :=
    ⟨hi, fun _ => MovesForward.refl hc hi.toRxBase rfl rfl⟩
  cases step_call h with
  | recvSdu _ => exact hidle
  | statusPdu _ hg =>
    obtain ⟨triggered, prohibit, rfl⟩ := generateStatus_rx hg
    exact ⟨{ hi with }, fun _ => MovesForward.refl hc hi.toRxBase rfl rfl⟩
  | dataPdu _ _ => exact hidle
  | recvNothing _ => exact hidle
  | recvControl _ => exact hidle
  | recvData hdc _ hr =>
    obtain ⟨hi', hf⟩ := recvDataPdu_inv hc hi (getBits_spec (Nat.zero_lt_succ 7) hdc).1.bit hr
    exact ⟨hi', fun _ => hf⟩
  | setTime _ hr =>
    grind [checkTReassembly_inv]
  | discardSdu => exact hidle
  | reestablishment =>
    refine ⟨rxInv_new hc (m := nrRlcClearRxManager e.rx.rx) rfl hi.size rfl rfl, ?_⟩
    simp

/-- The invariant of an entity. -/
structure EntityRxInv (e : Entity) : Prop where
  cfg : e.cfg.Ok
  rx : RxInv e.cfg e.rx

theorem step_entityRxInv {i : Input} {o : Output} (hi : EntityRxInv e)
    (hs : step e i = .ok (e', o)) : EntityRxInv e' := by
  have hcfg := step_cfg hs
  exact ⟨by rw [hcfg]; exact hi.cfg, by rw [hcfg]; exact (step_rxInv hi.cfg hi.rx hs).1⟩

theorem reachable_rxInv {e₀ : Entity} {guard : Entity → Input → Prop} (h₀ : EntityRxInv e₀)
    (h : Reachable step guard e₀ e) : EntityRxInv e :=
  Reachable.invariant EntityRxInv h₀ (fun _ _ _ _ hi _ hs => step_entityRxInv hi hs) h

theorem entityRxInv_new (h : e.cfg.Ok ∧ e = Entity.new e.cfg) : EntityRxInv e := by
  obtain ⟨hc, he⟩ := h
  refine ⟨hc, ?_⟩
  rw [he]
  exact entityNew_rxInv hc

/-- An SN counted from `rx_next` modulo `sn_modulus`. -/
def fromRxNext (e : Entity) (sn : ℤ) : ℤ := (sn - e.rx.rxNext) % e.cfg.snModulus

/-- **The order of the receiver's state variables.** -/
structure Ordered (e : Entity) : Prop where
  status_nonneg : 0 ≤ fromRxNext e e.rx.rxHighestStatus
  status_le : fromRxNext e e.rx.rxHighestStatus ≤ fromRxNext e e.rx.rxNextHighest
  highest_le : fromRxNext e e.rx.rxNextHighest ≤ e.cfg.windowSize
  nextUndelivered : sduDelivered e.rx e.rx.rxNext = false
  statusUndelivered : sduDelivered e.rx e.rx.rxHighestStatus = false
  trigger : e.rx.tReassemblyStart ≠ 0 → 0 < fromRxNext e e.rx.rxNextStatusTrigger ∧
    fromRxNext e e.rx.rxNextStatusTrigger ≤ fromRxNext e e.rx.rxNextHighest

/-- A call moves neither `rx_next` nor `rx_highest_status` backwards: both go up by at most half
of the SN space. -/
structure GoesUp (e e' : Entity) : Prop where
  next : (e'.rx.rxNext - e.rx.rxNext) % e.cfg.snModulus ≤ e.cfg.windowSize
  status : (e'.rx.rxHighestStatus - e.rx.rxHighestStatus) % e.cfg.snModulus ≤ e.cfg.windowSize

theorem modulusRx_eq_fromRxNext (hi : EntityRxInv e)
    (hsn : InRange e.cfg.snModulus sn) : modulusRx e.cfg e.rx sn = fromRxNext e sn :=
  dist_eq_emod hsn hi.rx.rxNext

theorem ordered_of_inv (hi : EntityRxInv e) : Ordered e := by
  have hr := hi.rx
  have hS := modulusRx_eq_fromRxNext hi hr.status
  have hH := modulusRx_eq_fromRxNext hi hr.highest
  have hT := modulusRx_eq_fromRxNext hi hr.trigger
  refine ⟨?_, ?_, ?_, hr.nextUndelivered, hr.statusUndelivered, ?_⟩
  · rw [← hS]
    exact modulusRx_nonneg hr.rxNext hr.status
  · rw [← hS, ← hH]
    exact hr.status_le
  · rw [← hH]
    exact hr.highest_le
  · rw [← hT, ← hH]
    exact hr.timer

theorem goesUp_of_movesForward (hi : EntityRxInv e)
    (hi' : RxInv e.cfg e'.rx) (hf : MovesForward e.cfg e.rx e'.rx) : GoesUp e e' := by
  have hr := hi.rx
  have h0 := modulusRx_nonneg hr.rxNext hr.status
  have hn := hf.next
  rw [modulusRx_eq, dist_eq_emod hi'.rxNext hr.rxNext] at hn
  refine ⟨hn, ?_⟩
  -- the difference of two numbers is the difference of their distances from `rx_next`
  have hle := hf.status
  have hW := hf.statusWindow
  rw [← dist_eq_emod hi'.status hr.status, dist_rebase hi'.status hr.rxNext hr.status,
    ← modulusRx_eq, ← modulusRx_eq, if_pos hle]
  omega

/-- **The receiver's state variables stay ordered** in every state reachable by any calls, and no
call but a re-establishment moves `rx_next` or `rx_highest_status` backwards. -/
theorem reachable_ordered {rxMaxsize txMaxsize : ℤ}
    {tPollRetransmit tReassembly tStatusProhibit : UInt64}
    {pollPdu pollByte maxRetxThreshold : ℤ} {snFieldLength : ℕ} {e₀ e : Entity}
    (h₀ : newNrRlcEntityAm rxMaxsize txMaxsize tPollRetransmit tReassembly tStatusProhibit pollPdu
      pollByte maxRetxThreshold snFieldLength = .ok e₀)
    (h : Reachable step (fun _ _ => True) e₀ e) :
    Ordered e ∧ ∀ i e' o, i ≠ .reestablishment → step e i = .ok (e', o) → GoesUp e e' := by
  have hi := reachable_rxInv (entityRxInv_new (newNrRlcEntityAm_eq h₀)) h
  refine ⟨ordered_of_inv hi, ?_⟩
  intro i e' o hne hs
  obtain ⟨hi', hf⟩ := step_rxInv hi.cfg hi.rx hs
  exact goesUp_of_movesForward hi hi' (hf hne)

/-- SDU 1 received before SDU 0: the order holds with `t_reassembly` running. -/
theorem reachable_ordered_gap :
    ∃ e₀ e, newNrRlcEntityAm 1000 1000 45 35 0 (-1) (-1) 8 12 = .ok e₀ ∧
      Reachable step (fun _ _ => True) e₀ e ∧ e.rx.tReassemblyStart ≠ 0 ∧
      fromRxNext e e.rx.rxNextHighest = 2 ∧ Ordered e := by
  have h₀ := newNrRlcEntityAm_sample
  have h₁ : Reachable step (fun _ _ => True)
      Entity.sample _ :=
    .step (i := .setTime 1) .start trivial rfl
  have h₂ := Reachable.step (i := Input.recvPdu [0x80, 0x01, 0xaa]) h₁ trivial rfl
  exact ⟨_, _, h₀, h₂, by decide, rfl, (reachable_ordered h₀ h₂).1⟩

end OaiGnb.Rlc.Am
