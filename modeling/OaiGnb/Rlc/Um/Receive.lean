import OaiGnb.Rlc.Um.Accounting

/-!
# What the UM receiver does, by cases

The header of a segment as a function of the bits of the PDU (`headerOf`), and the functions of
the receiving side as case distinctions over the states they pass through: a PDU has been stored
(`RxState.stored`), the window has moved (`RxState.moved`), `t_reassembly` has expired
(`RxState.expired`), been stopped or been started.
-/

namespace OaiGnb.Rlc.Um

open BitField Run

/-- What `new_nr_rlc_entity_um` makes of the SN length. -/
structure Config.Sane (c : Config) : Prop where
  length : c.snFieldLength = 6 ∨ c.snFieldLength = 12
  modulus : c.snModulus = 2 ^ c.snFieldLength

variable {c : Config} {buffer : List UInt8} {d : Decoder} {rx rx' : RxState}

theorem Config.Sane.pos (h : c.Sane) : 0 < c.snModulus := by
  rw [h.modulus]
  positivity

/-! ### The header as bits -/

/-- The number the `n` bits at position `pos` denote. -/
def fieldAt (pos n : ℕ) (bs : List Bool) : ℕ := bitsVal ((bs.drop pos).take n)

/-- The position of the SN field in the header of a segment. -/
def snPosition (c : Config) : ℕ := if c.snFieldLength = 12 then 4 else 2

/-- The header of a segment, read from the bits of the PDU. -/
def headerOf (c : Config) (isFirst isLast : Bool) (bs : List Bool) : Option Header :=
  let pos := snPosition c
  let n := c.snFieldLength
  if pos + n ≤ bs.length then
    if isFirst then some ⟨isFirst, isLast, fieldAt pos n bs, 0, (pos + n) / 8⟩
    else if pos + n + 16 ≤ bs.length ∧ fieldAt (pos + n) 16 bs ≠ 0 then
      some ⟨isFirst, isLast, fieldAt pos n bs, fieldAt (pos + n) 16 bs, (pos + n + 16) / 8⟩
    else none
  else none

theorem getBits_at {pos : ℕ}
    (hd : (Decoder.init buffer).Skips d pos) (hpos : pos ≤ (bytesBits buffer).length) (n : ℕ) :
    (bytesBits buffer).length < pos + n ∧ getBits d n = none ∨
    pos + n ≤ (bytesBits buffer).length ∧ ∃ d', (Decoder.init buffer).Skips d' (pos + n) ∧
      getBits d n = some (fieldAt pos n (bytesBits buffer), d') := by
  have hrest : d.rest = (bytesBits buffer).drop pos := by rw [hd.rest, Decoder.init_rest]
  have hlen : d.rest.length = (bytesBits buffer).length - pos := by
    rw [hrest, List.length_drop]
  by_cases h : d.rest.length < n
  · exact Or.inl ⟨by omega, getBits_none hd.bit h⟩
  · obtain ⟨d', hs, hg⟩ := getBits_some hd.bit (Nat.le_of_not_lt h)
    refine Or.inr ⟨by omega, d', hd.trans hs, ?_⟩
    rw [hg, hrest, fieldAt]

theorem decodeSi_init (h : buffer ≠ []) :
    ∃ d, (Decoder.init buffer).Skips d 2 ∧ decodeSi (Decoder.init buffer) =
      some (!(fieldAt 0 2 (bytesBits buffer)).testBit 1,
        !(fieldAt 0 2 (bytesBits buffer)).testBit 0, d) := by
  have hpos : 0 < buffer.length := List.length_pos_of_ne_nil h
  have h0 : (Decoder.init buffer).Skips (Decoder.init buffer) 0 := ⟨rfl, rfl, Nat.zero_lt_succ 7⟩
  rcases getBits_at h0 (Nat.zero_le _) 2 with ⟨hlt, _⟩ | ⟨_, d, hs, hg⟩
  · rw [bytesBits_length] at hlt
    omega
  · exact ⟨d, hs, by rw [decodeSi, hg]; rfl⟩

/-- **The header decoder reads `headerOf`.** -/
theorem decodeHeader_bits
    (hd : (Decoder.init buffer).Skips d 2) (hpos : 2 ≤ (bytesBits buffer).length)
    (isFirst isLast : Bool) :
    decodeHeader c isFirst isLast d = headerOf c isFirst isLast (bytesBits buffer) := by
  -- the reserved bits end where the SN starts, or the PDU is too short for both
  have hres : (bytesBits buffer).length < snPosition c ∧ skipReserved c d = none ∨
      snPosition c ≤ (bytesBits buffer).length ∧
        ∃ d₁, (Decoder.init buffer).Skips d₁ (snPosition c) ∧ skipReserved c d = some d₁ := by
    unfold snPosition skipReserved
    split
    · rcases getBits_at hd hpos 2 with ⟨hlt, hg⟩ | ⟨hle, d₁, hs, hg⟩
      · exact Or.inl ⟨hlt, by rw [hg, Option.map_none]⟩
      · simp_all
    · exact Or.inr ⟨hpos, d, hd, rfl⟩
  unfold headerOf
  rcases hres with ⟨hlt, hg⟩ | ⟨hle, d₁, hs₁, hg₁⟩
  · rw [if_neg (by omega), decodeHeader, hg]
    rfl
  · rcases getBits_at hs₁ hle c.snFieldLength with ⟨hlt, hg⟩ | ⟨hle₂, d₂, hs₂, hg₂⟩
    · simp_all [if_neg, decodeHeader, Option.bind_eq_bind, Option.bind_some]
    · rw [if_pos hle₂, decodeHeader, hg₁, Option.bind_eq_bind, Option.bind_some, hg₂,
        Option.bind_eq_bind, Option.bind_some]
      cases isFirst with
      | true =>
        have hbyte : d₂.byte = (snPosition c + c.snFieldLength) / 8 := by
          rw [hs₂.byte, Decoder.init_pos, Nat.zero_add]
        simp [hbyte]
      | false =>
        rcases getBits_at hs₂ hle₂ 16 with ⟨hlt, hg⟩ | ⟨hle₃, d₃, hs₃, hg₃⟩
        · simp_all
        · have hbyte : d₃.byte = (snPosition c + c.snFieldLength + 16) / 8 := by
            rw [hs₃.byte, Decoder.init_pos, Nat.zero_add]
          simp_all

variable {h : Header}

theorem decodeHeader_flags {isFirst isLast : Bool}
    (hd : decodeHeader c isFirst isLast d = some h) : h.isFirst = isFirst ∧ h.isLast = isLast := by
  unfold decodeHeader at hd
  simp only [Option.bind_eq_bind, Option.bind_eq_some_iff] at hd
  obtain ⟨d₁, _, ⟨sn, d₂⟩, _, hd⟩ := hd
  cases isFirst with
  | true =>
    grind
  | false =>
    simp only [Bool.false_eq_true, if_false, Option.bind_eq_some_iff] at hd
    grind

/-! ### The list of PDUs -/

variable {p : Pdu} {sn : ℤ} {l : List Pdu}

theorem mem_pdusOf (h : p ∈ pdusOf sn l) : p ∈ l :=
  (List.dropWhile_suffix _).subset ((List.takeWhile_prefix _).subset h)

theorem mem_consumeSdu (h : p ∈ consumeSdu sn l) :
    p ∈ l ∨ ∃ q ∈ pdusOf sn l, p = consume q := by
  rcases List.mem_append.mp h with h | h
  · grind [List.takeWhile_prefix]
  · grind [List.dropWhile_suffix]

theorem discardOutOfWindow_suffix (c : Config) (rx : RxState) (l : List Pdu) : ∀ size : ℤ,
    (discardOutOfWindow c rx l size).1 <:+ l := by
  induction l with
  | nil => intro size; exact List.suffix_refl _
  | cons p l ih =>
    grind [discardOutOfWindow, List.suffix_cons, List.suffix_refl]

theorem discardBelow_suffix (c : Config) (rx : RxState) (l : List Pdu) :
    discardBelow c rx l <:+ l := by
  rw [discardBelow_eq]
  exact List.dropWhile_suffix _

/-! ### `reception_actions` -/

/-- The state after `rx_next_highest` has moved and PDUs outside the window are discarded. -/
def RxState.moved (c : Config) (rx : RxState) (x : ℤ) : RxState :=
  let rx := { rx with rxNextHighest := (x + 1) % c.snModulus }
  { rx with
    rxList := (discardOutOfWindow c rx rx.rxList rx.rxSize).1
    rxSize := (discardOutOfWindow c rx rx.rxList rx.rxSize).2 }

theorem receptionDeliver_eq (c : Config) (rx : RxState) (x : ℤ) :
    receptionDeliver c rx x =
      if sduFull rx x then
        if x = rx.rxNextReassembly then
          (skipDelivered c (reassembleAndDeliver rx x).1 rx.rxNextReassembly).map fun sn =>
            ({ (reassembleAndDeliver rx x).1 with rxNextReassembly := sn },
              (reassembleAndDeliver rx x).2)
        else .ok (reassembleAndDeliver rx x)
      else if snCompareRx c rx x rx.rxNextHighest ≥ 0 then
        if snCompareRx c (rx.moved c x) rx.rxNextReassembly (rx.moved c x).rxNextHighest ≥ 0 then
          (skipDelivered c (rx.moved c x)
            (((rx.moved c x).rxNextHighest - c.windowSize + c.snModulus) % c.snModulus)).map
            fun sn => ({ rx.moved c x with rxNextReassembly := sn }, [])
        else .ok (rx.moved c x, [])
      else .ok (rx, []) := by
  unfold receptionDeliver
  split
  · show (if x = rx.rxNextReassembly then _ else _) = _
    split
    · show (skipDelivered c (reassembleAndDeliver rx x).1 rx.rxNextReassembly >>= _) = _
      cases skipDelivered c (reassembleAndDeliver rx x).1 rx.rxNextReassembly <;> rfl
    · rfl
  · split
    · show (if snCompareRx c (rx.moved c x) rx.rxNextReassembly (rx.moved c x).rxNextHighest ≥ 0
        then _ else _) = _
      split
      · show (skipDelivered c (rx.moved c x)
          (((rx.moved c x).rxNextHighest - c.windowSize + c.snModulus) % c.snModulus) >>= _) = _
        cases skipDelivered c (rx.moved c x)
          (((rx.moved c x).rxNextHighest - c.windowSize + c.snModulus) % c.snModulus) <;> rfl
      · rfl
    · rfl

theorem receptionTimer_rxList (c : Config) (now : UInt64) (rx : RxState) :
    (receptionTimer c now rx).rxList = rx.rxList := by
  grind [stopTimer, receptionTimer, startTimer]

variable {ev : List Event}

theorem receptionDeliver_cases {x : ℤ} (h : receptionDeliver c rx x = .ok (rx', ev)) :
    (rx'.rxList <:+ rx.rxList ∧ ev = []) ∨
    (sduFull rx x = true ∧ rx'.rxList = consumeSdu x rx.rxList ∧
      ev = (reassembleAndDeliver rx x).2) := by
  have hmoved : (rx.moved c x).rxList <:+ rx.rxList := discardOutOfWindow_suffix ..
  rw [receptionDeliver_eq] at h
  split at h
  next hfull =>
    split at h
    · obtain ⟨sn, _, he⟩ := map_returns.mp h
      obtain ⟨rfl, rfl⟩ := Prod.mk.inj he
      exact Or.inr ⟨hfull, rfl, rfl⟩
    · have hrx : (reassembleAndDeliver rx x).1.rxList = consumeSdu x rx.rxList := rfl
      simp_all
  · split at h
    · split at h
      · obtain ⟨sn, _, he⟩ := map_returns.mp h
        grind
      · simp_all
    · simp_all

/-- The state with the PDU of a segment in its list. -/
def RxState.stored (c : Config) (rx : RxState) (h : Header) (data : List UInt8) (dataSize : ℤ) :
    RxState :=
  { rx with
    rxSize := rx.rxSize + dataSize
    rxList := nrRlcPduListAdd (snCompareRx c rx) rx.rxList
      (nrRlcNewPdu h.sn h.so h.isFirst h.isLast data) }

variable {now : UInt64}

/-- **What the reception of a segment does to the list**: nothing, or the PDU is stored and then
either PDUs at the head of the list are discarded or the SDU is full and is delivered. -/
theorem recvSegment_cases (hr : recvSegment c now rx buffer h = .ok (rx', ev)) :
    (rx'.rxList = rx.rxList ∧ ev = []) ∨
    ∃ rx₁, rx₁ = rx.stored c h (buffer.drop h.byte) (buffer.length - h.byte) ∧
      ((rx'.rxList <:+ rx₁.rxList ∧ ev = []) ∨
        (sduFull rx₁ h.sn = true ∧ rx'.rxList = consumeSdu h.sn rx₁.rxList ∧
          ev = (reassembleAndDeliver rx₁ h.sn).2)) := by
  have hsame : (Except.ok (rx, []) : Except Fault (RxState × List Event)) = .ok (rx', ev) →
      rx'.rxList = rx.rxList ∧ ev = [] := by
    intro he
    obtain ⟨rfl, rfl⟩ := ok_inj he
    exact ⟨rfl, rfl⟩
  unfold recvSegment at hr
  dsimp only at hr
  split at hr
  · exact Or.inl (hsame hr)
  · split at hr
    · exact Or.inl (hsame hr)
    · split at hr
      · exact Or.inl (hsame hr)
      · refine Or.inr ⟨_, rfl, ?_⟩
        obtain ⟨⟨rx₂, ev₂⟩, hd, rfl, rfl⟩ := bind_pair_inj hr
        rw [receptionTimer_rxList]
        exact receptionDeliver_cases hd

/-! ### `check_t_reassembly` -/

/-- The state after an expiry, before `t_reassembly` is restarted. -/
def RxState.expired (c : Config) (rx : RxState) (sn : ℤ) : RxState :=
  let rx := { rx with tReassemblyStart := 0, rxNextReassembly := sn }
  { rx with rxList := discardBelow c rx rx.rxList }

/-- The end of `check_t_reassembly`: restart of the timer. -/
def restartTimer (c : Config) (now : UInt64) (rx : RxState) : RxState :=
  if snCompareRx c rx rx.rxNextHighest ((rx.rxNextReassembly + 1) % c.snModulus) > 0 ∨
      (rx.rxNextHighest = rx.rxNextReassembly + 1 ∧
        sduHasMissingBytes rx rx.rxNextReassembly) then
    { rx with tReassemblyStart := now, rxTimerTrigger := rx.rxNextHighest }
  else rx

theorem checkTReassembly_eq (c : Config) (now : UInt64) (rx : RxState) :
    checkTReassembly c now rx =
      if tReassemblyExpired c now rx then
        (skipDelivered c { rx with tReassemblyStart := 0 } rx.rxTimerTrigger).map fun sn =>
          restartTimer c now (rx.expired c sn)
      else .ok rx := by
  unfold checkTReassembly
  split
  · show (skipDelivered c { rx with tReassemblyStart := 0 } rx.rxTimerTrigger >>= _) = _
    cases skipDelivered c { rx with tReassemblyStart := 0 } rx.rxTimerTrigger with
    | error e => rfl
    | ok sn =>
      show _ = Except.ok (restartTimer c now (rx.expired c sn))
      rw [restartTimer, apply_ite Except.ok]
      rfl
  · rfl

theorem checkTReassembly_rxList
    (h : checkTReassembly c now rx = .ok rx') : rx'.rxList <:+ rx.rxList := by
  rw [checkTReassembly_eq] at h
  split at h
  · obtain ⟨sn, _, rfl⟩ := map_returns.mp h
    have hexp : (rx.expired c sn).rxList <:+ rx.rxList := discardBelow_suffix ..
    grind [restartTimer]
  · simp_all

end OaiGnb.Rlc.Um
