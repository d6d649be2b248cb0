import OaiGnb.Rlc.Am.State

/-!
# Reception of data PDUs

Model of the reception functions of `nr_rlc_entity_am.c`: the header decoder, the discards of
`nr_rlc_entity_am_recv_pdu`, `reassemble_and_deliver`, `reception_actions` and the expiry of
`t_reassembly`.
-/

namespace OaiGnb.Rlc.Am

/-- The loop of `segment_already_received` over the PDUs of the SN. -/
def alreadyReceivedLoop : List Pdu → ℤ → ℤ → Bool
  | [], _, size => decide (size ≤ 0)
  | l :: ls, so, size =>
      if size ≤ 0 then true
      else if l.so ≤ so ∧ so < l.so + l.size then
        let covered := l.size - (so - l.so)
        alreadyReceivedLoop ls (so + covered) (size - covered)
      else if l.so ≤ so + size - 1 ∧ so + size - 1 < l.so + l.size then
        let covered := size - (l.so - so)
        alreadyReceivedLoop ls so (size - covered)
      else alreadyReceivedLoop ls so size

/-- `segment_already_received`. -/
def segmentAlreadyReceived (rx : RxState) (sn so size : ℤ) : Bool :=
  alreadyReceivedLoop (getPduFromSn rx.rx sn) so size

/-- `sdu_full`. -/
def sduFull (rx : RxState) (sn : ℤ) : Bool := pdusFull (getPduFromSn rx.rx sn)

/-- `sdu_delivered`. -/
def sduDelivered (rx : RxState) (sn : ℤ) : Bool := headConsumed (getPduFromSn rx.rx sn)

/-- `sdu_has_missing_bytes`. -/
def sduHasMissingBytes (rx : RxState) (sn : ℤ) : Bool := pdusMissing (getPduFromSn rx.rx sn)

/-- A PDU whose data has been consumed.  Unlike in UM its `size` is kept. -/
def consume (p : Pdu) : Pdu := { p with data := none }

/-- `reassemble_and_deliver`. -/
def reassembleAndDeliver (rx : RxState) (sn : ℤ) : RxState × List Event :=
  let pdus := getPduFromSn rx.rx sn
  let (badSdu, sdu) := reassembleLoop pdus false []
  ({ rx with
      rx := setPdus rx.rx sn (pdus.map consume)
      rxSize := rx.rxSize - pdusSize pdus },
    if badSdu then [] else [.deliverSdu sn sdu])

/-- `while (sdu_delivered(entity, sn)) sn = (sn + 1) % sn_modulus`. -/
def skipDelivered (c : Config) (rx : RxState) (sn : ℤ) : Except Fault ℤ :=
  advanceWhile (sduDelivered rx) c.snModulus c.snModulus.toNat sn

/-- The loop that frees the delivered SDUs from `rx_next` on, with the number of SDUs freed. -/
def freeDeliveredLoop (c : Config) : ℕ → RxManager → ℤ → ℤ → Except Fault (RxManager × ℤ × ℤ)
  | 0, _, _, _ => .error .diverges
  | fuel + 1, m, rxNext, count =>
      if headConsumed (getPduFromSn m rxNext) then
        freeDeliveredLoop c fuel (clearPdu m rxNext) ((rxNext + 1) % c.snModulus) (count + 1)
      else .ok (m, rxNext, count)

/-- Update `rx_next` and free all delivered SDUs at the head of the ring.  Every turn of the loop
empties a list, so that it ends after at most `size` turns. -/
def freeDelivered (c : Config) (rx : RxState) : Except Fault RxState := do
  let (m, rxNext, count) ← freeDeliveredLoop c (rx.rx.size.toNat + 1) rx.rx rx.rxNext 0
  return { rx with rxNext := rxNext, rx := advanceTo m count rxNext }

/-- `rx_highest_status` after the delivery of SDU `x`. -/
def advanceHighestStatus (c : Config) (rx : RxState) (x : ℤ) : Except Fault RxState :=
  if x = rx.rxHighestStatus then do
    let sn ← skipDelivered c rx rx.rxHighestStatus
    return { rx with rxHighestStatus := sn }
  else return rx

/-- `rx_next` after the delivery of SDU `x`. -/
def advanceRxNext (c : Config) (rx : RxState) (x : ℤ) : Except Fault RxState :=
  if x = rx.rxNext then freeDelivered c rx else return rx

/-- The first part of `reception_actions`: `rx_next_highest`. -/
def receptionHighest (c : Config) (rx : RxState) (x : ℤ) : RxState :=
  if snCompareRx c rx x rx.rxNextHighest ≥ 0 then
    { rx with rxNextHighest := (x + 1) % c.snModulus }
  else rx

/-- The second part of `reception_actions`: delivery. -/
def receptionDeliver (c : Config) (rx : RxState) (x : ℤ) : Except Fault (RxState × List Event) :=
  if sduFull rx x then do
    let (rx, ev) := reassembleAndDeliver rx x
    let rx ← advanceHighestStatus c rx x
    let rx ← advanceRxNext c rx x
    return (rx, ev)
  else return (rx, [])

/-- Is `t_reassembly` to be stopped? -/
def stopsReassembly (c : Config) (rx : RxState) : Bool :=
  decide (rx.rxNextStatusTrigger = rx.rxNext) ||
  (decide (rx.rxNextStatusTrigger = (rx.rxNext + 1) % c.snModulus) &&
    !sduHasMissingBytes rx rx.rxNext) ||
  (!snInRecvWindow c rx rx.rxNextStatusTrigger &&
    decide (rx.rxNextStatusTrigger ≠ (rx.rxNext + c.windowSize) % c.snModulus))

/-- Is something missing below `rx_next_highest`, counted from `sn`? -/
def hasMissingFrom (c : Config) (rx : RxState) (sn : ℤ) : Bool :=
  decide (snCompareRx c rx rx.rxNextHighest ((sn + 1) % c.snModulus) > 0) ||
  (decide (rx.rxNextHighest = (sn + 1) % c.snModulus) && sduHasMissingBytes rx sn)

/-- Start `t_reassembly`. -/
def startReassembly (now : UInt64) (rx : RxState) : RxState :=
  { rx with tReassemblyStart := now, rxNextStatusTrigger := rx.rxNextHighest }

/-- Stop `t_reassembly` where `reception_actions` does. -/
def stopReassembly (c : Config) (rx : RxState) : RxState :=
  if rx.tReassemblyStart ≠ 0 ∧ stopsReassembly c rx then { rx with tReassemblyStart := 0 } else rx

/-- The third part of `reception_actions`: stop and restart of `t_reassembly`. -/
def receptionTimer (c : Config) (now : UInt64) (rx : RxState) : RxState :=
  let rx := stopReassembly c rx
  if rx.tReassemblyStart = 0 ∧ hasMissingFrom c rx rx.rxNext then startReassembly now rx else rx

/-- `reception_actions`. -/
def receptionActions (c : Config) (now : UInt64) (rx : RxState) (x : ℤ) :
    Except Fault (RxState × List Event) := do
  let (rx, ev) ← receptionDeliver c (receptionHighest c rx x) x
  return (receptionTimer c now rx, ev)

/-! ### `nr_rlc_entity_am_recv_pdu` on a data PDU -/

/-- The header of a data PDU after the P bit: SI bits, SN, SO and the number of header bytes. -/
structure Header where
  isFirst : Bool
  isLast : Bool
  sn : ℕ
  so : ℕ
  byte : ℕ
  deriving Repr, DecidableEq

/-- The two reserved bits before a long SN. -/
def skipReserved (c : Config) (d : Decoder) : Option Decoder :=
  if c.snFieldLength = 18 then (getBits d 2).map Prod.snd else some d

/-- The SO field of a segment that is not the first; "discard PDU, bad so" when it is 0. -/
def decodeSo (isFirst : Bool) (d : Decoder) : Option (ℕ × Decoder) :=
  if isFirst then some (0, d)
  else
    match getBits d 16 with
    | none => none
    | some (so, d) => if so = 0 then none else some (so, d)

/-- The header after the P bit. -/
def decodeHeader (c : Config) (d : Decoder) : Option Header := do
  let (si, d) ← getBits d 2
  let d ← skipReserved c d
  let (sn, d) ← getBits d c.snFieldLength
  let (so, d) ← decodeSo (!si.testBit 1) d
  return ⟨!si.testBit 1, !si.testBit 0, sn, so, d.byte⟩

/-- The P bit of a PDU triggers a status report, whether the PDU is discarded or not. -/
def pollStatus (p : Bool) (rx : RxState) : RxState :=
  if p then { rx with statusTriggered := true } else rx

/-- Is a data PDU with this header discarded? -/
def discardsPdu (c : Config) (rx : RxState) (buffer : List UInt8) (h : Header) : Bool :=
  let dataSize : ℤ := buffer.length - h.byte
  decide (dataSize ≤ 0) || decide (rx.rxSize + dataSize > c.rxMaxsize) ||
    !snInRecvWindow c rx h.sn || segmentAlreadyReceived rx h.sn h.so dataSize

/-- Put a PDU in the ring. -/
def storePdu (rx : RxState) (pdu : Pdu) : RxState :=
  { rx with rxSize := rx.rxSize + pdu.size, rx := addPdu rx.rx pdu }

/-- Reception of a data PDU whose header decoded. -/
def recvData (c : Config) (now : UInt64) (rx : RxState) (buffer : List UInt8) (h : Header) :
    Except Fault (RxState × List Event) :=
  if discardsPdu c rx buffer h then return (rx, [])
  else
    receptionActions c now
      (storePdu rx (nrRlcNewPdu h.sn h.so h.isFirst h.isLast (buffer.drop h.byte))) h.sn

/-- `nr_rlc_entity_am_recv_pdu` on a data PDU, after the D/C bit. -/
def recvDataPdu (c : Config) (now : UInt64) (rx : RxState) (buffer : List UInt8) (d : Decoder) :
    Except Fault (RxState × List Event) :=
  match getBits d 1 with
  | none => return (rx, [])
  | some (p, d) =>
      match decodeHeader c d with
      | none => return (pollStatus (p == 1) rx, [])
      | some h => do
          let (rx, ev) ← recvData c now rx buffer h
          return (pollStatus (p == 1) rx, ev)

/-! ### `t_reassembly` -/

/-- Is `t_reassembly` running and has it expired? -/
def tReassemblyExpired (c : Config) (now : UInt64) (rx : RxState) : Bool :=
  !(rx.tReassemblyStart = 0 ∨ now ≤ rx.tReassemblyStart + c.tReassembly)

/-- The restart of `t_reassembly` after an expiry. -/
def restartReassembly (c : Config) (now : UInt64) (rx : RxState) : RxState :=
  if hasMissingFrom c rx rx.rxHighestStatus then startReassembly now rx else rx

/-- `check_t_reassembly`. -/
def checkTReassembly (c : Config) (now : UInt64) (rx : RxState) : Except Fault RxState :=
  if tReassemblyExpired c now rx then do
    let sn ← skipDelivered c rx rx.rxNextStatusTrigger
    return restartReassembly c now
      { rx with tReassemblyStart := 0, rxHighestStatus := sn, statusTriggered := true }
  else return rx

end OaiGnb.Rlc.Am
