import OaiGnb.Rlc.Sdu
import OaiGnb.Rlc.Reassembly

/-!
# The UM entity

Model of `nr_rlc_entity_um.c`.  The entity is split into its configuration, the state of the
receiving side and the state of the transmitting side; functions of the source that touch one
side only take that side.  Statistics, logging and the time-of-arrival averages are left out:
no other field is computed from them.
-/

namespace OaiGnb.Rlc.Um

/-- The configuration fields of `nr_rlc_entity_um_t`. -/
structure Config where
  tReassembly : UInt64
  snFieldLength : ℕ
  snModulus : ℤ
  windowSize : ℤ
  rxMaxsize : ℤ
  txMaxsize : ℤ
  deriving Repr, DecidableEq

/-- The receiving side of `nr_rlc_entity_um_t`. -/
structure RxState where
  rxNextHighest : ℤ
  rxNextReassembly : ℤ
  rxTimerTrigger : ℤ
  tReassemblyStart : UInt64
  rxList : List Pdu
  rxSize : ℤ
  deriving Repr, DecidableEq

/-- The transmitting side of `nr_rlc_entity_um_t`; `bstatusTxSize` is `common.bstatus.tx_size`. -/
structure TxState where
  txNext : ℤ
  heap : Heap
  txList : List Segment
  txEnd : Option ℕ
  txSize : ℤ
  bstatusTxSize : ℤ

/-- `nr_rlc_entity_um_t`. -/
structure Entity where
  cfg : Config
  tCurrent : UInt64
  rx : RxState
  tx : TxState

/-- A call of `deliver_sdu`. -/
inductive Event where
  | deliverSdu (sdu : List UInt8)
  deriving Repr, DecidableEq

def RxState.new : RxState := ⟨0, 0, 0, 0, [], 0⟩

def TxState.new : TxState := ⟨0, Heap.empty, [], none, 0, 0⟩

/-- The configuration written by `new_nr_rlc_entity_um`. -/
def Config.new (rxMaxsize txMaxsize : ℤ) (tReassembly : UInt64) (snFieldLength : ℕ) : Config :=
  ⟨tReassembly, snFieldLength, 2 ^ snFieldLength, 2 ^ snFieldLength / 2, rxMaxsize, txMaxsize⟩

/-- An entity with this configuration and empty buffers. -/
def Entity.new (c : Config) : Entity := ⟨c, 0, RxState.new, TxState.new⟩

/-- `new_nr_rlc_entity_um`. -/
def newNrRlcEntityUm (rxMaxsize txMaxsize : ℤ) (tReassembly : UInt64) (snFieldLength : ℕ) :
    Except Fault Entity :=
  if snFieldLength = 6 ∨ snFieldLength = 12 then
    .ok (Entity.new (Config.new rxMaxsize txMaxsize tReassembly snFieldLength))
  else .error .exit

theorem newNrRlcEntityUm_eq {rxMaxsize txMaxsize : ℤ} {tReassembly : UInt64} {snFieldLength : ℕ}
    {e : Entity} (h : newNrRlcEntityUm rxMaxsize txMaxsize tReassembly snFieldLength = .ok e) :
    (snFieldLength = 6 ∨ snFieldLength = 12) ∧
      e = Entity.new (Config.new rxMaxsize txMaxsize tReassembly snFieldLength) := by
  unfold newNrRlcEntityUm at h
  split at h
  · exact ⟨‹_›, (Except.ok.inj h).symm⟩
  · cases h

/-- `compute_pdu_header_size`. -/
def computePduHeaderSize (c : Config) (sdu : Segment) : ℕ :=
  1 + (if !(sdu.isFirst && sdu.isLast) && c.snFieldLength = 12 then 1 else 0)
    + (if !sdu.isFirst then 2 else 0)

/-! ### PDU reception -/

/-- `modulus_rx`. -/
def modulusRx (c : Config) (rx : RxState) (a : ℤ) : ℤ :=
  let r := a - (rx.rxNextHighest - c.windowSize)
  let r := if r < 0 then r + c.snModulus else r
  r % c.snModulus

/-- `sn_compare_rx`. -/
def snCompareRx (c : Config) (rx : RxState) (a b : ℤ) : ℤ := modulusRx c rx a - modulusRx c rx b

/-- The PDUs of SDU `sn`: the first node of the list with that `sn` and those that follow it
with the same `sn`. -/
def pdusOf (sn : ℤ) (rxList : List Pdu) : List Pdu :=
  (rxList.dropWhile (fun l => l.sn ≠ sn)).takeWhile (fun l => l.sn = sn)

/-- `sdu_full`. -/
def sduFull (rx : RxState) (sn : ℤ) : Bool := pdusFull (pdusOf sn rx.rxList)

/-- `sdu_delivered`. -/
def sduDelivered (rx : RxState) (sn : ℤ) : Bool := headConsumed (pdusOf sn rx.rxList)

/-- `sdu_has_missing_bytes`. -/
def sduHasMissingBytes (rx : RxState) (sn : ℤ) : Bool := pdusMissing (pdusOf sn rx.rxList)

/-- `while (sdu_delivered(entity, sn)) sn = (sn + 1) % sn_modulus`. -/
def skipDelivered (c : Config) (rx : RxState) (sn : ℤ) : Except Fault ℤ :=
  advanceWhile (sduDelivered rx) c.snModulus c.snModulus.toNat sn

/-- A PDU whose data has been consumed: `data = NULL` and `size = 0`. -/
def consume (p : Pdu) : Pdu := { p with data := none, size := 0 }

/-- Consume the PDUs of SDU `sn` in the list. -/
def consumeSdu (sn : ℤ) (rxList : List Pdu) : List Pdu :=
  rxList.takeWhile (fun l => l.sn ≠ sn) ++ (pdusOf sn rxList).map consume ++
    (rxList.dropWhile (fun l => l.sn ≠ sn)).dropWhile (fun l => l.sn = sn)

/-- `reassemble_and_deliver`. -/
def reassembleAndDeliver (rx : RxState) (sn : ℤ) : RxState × List Event :=
  let pdus := pdusOf sn rx.rxList
  let (badSdu, sdu) := reassembleLoop pdus false []
  ({ rx with rxList := consumeSdu sn rx.rxList, rxSize := rx.rxSize - pdusSize pdus },
    if badSdu then [] else [.deliverSdu sdu])

/-- Discard PDUs not in the reassembly window. -/
def discardOutOfWindow (c : Config) (rx : RxState) : List Pdu → ℤ → List Pdu × ℤ
  | [], rxSize => ([], rxSize)
  | p :: l, rxSize =>
      if snCompareRx c rx p.sn rx.rxNextHighest ≥ 0 then
        discardOutOfWindow c rx l (rxSize - p.size)
      else (p :: l, rxSize)

/-- The first half of `reception_actions`: delivery, or the move of the reassembly window. -/
def receptionDeliver (c : Config) (rx : RxState) (x : ℤ) : Except Fault (RxState × List Event) :=
  if sduFull rx x then do
    let (rx, ev) := reassembleAndDeliver rx x
    if x = rx.rxNextReassembly then
      let sn ← skipDelivered c rx rx.rxNextReassembly
      return ({ rx with rxNextReassembly := sn }, ev)
    else return (rx, ev)
  else if snCompareRx c rx x rx.rxNextHighest ≥ 0 then do
    let rx := { rx with rxNextHighest := (x + 1) % c.snModulus }
    let (rxList, rxSize) := discardOutOfWindow c rx rx.rxList rx.rxSize
    let rx := { rx with rxList := rxList, rxSize := rxSize }
    if snCompareRx c rx rx.rxNextReassembly rx.rxNextHighest ≥ 0 then
      let sn ← skipDelivered c rx
        ((rx.rxNextHighest - c.windowSize + c.snModulus) % c.snModulus)
      return ({ rx with rxNextReassembly := sn }, [])
    else return (rx, [])
  else return (rx, [])

/-- `reception_actions`: stop of `t_reassembly`. -/
def stopTimer (c : Config) (rx : RxState) : RxState :=
  if rx.tReassemblyStart ≠ 0 ∧
      (snCompareRx c rx rx.rxTimerTrigger rx.rxNextReassembly ≤ 0 ∨
        snCompareRx c rx rx.rxTimerTrigger rx.rxNextHighest > 0 ∨
        (rx.rxNextHighest = (rx.rxNextReassembly + 1) % c.snModulus ∧
          ¬ sduHasMissingBytes rx rx.rxNextReassembly)) then
    { rx with tReassemblyStart := 0 }
  else rx

/-- `reception_actions`: start of `t_reassembly`. -/
def startTimer (c : Config) (now : UInt64) (rx : RxState) : RxState :=
  if rx.tReassemblyStart = 0 ∧
      (snCompareRx c rx rx.rxNextHighest ((rx.rxNextReassembly + 1) % c.snModulus) > 0 ∨
        (rx.rxNextHighest = (rx.rxNextReassembly + 1) % c.snModulus ∧
          sduHasMissingBytes rx rx.rxNextReassembly)) then
    { rx with tReassemblyStart := now, rxTimerTrigger := rx.rxNextHighest }
  else rx

/-- The second half of `reception_actions`: stop and restart of `t_reassembly`. -/
def receptionTimer (c : Config) (now : UInt64) (rx : RxState) : RxState :=
  startTimer c now (stopTimer c rx)

/-- `reception_actions`. -/
def receptionActions (c : Config) (now : UInt64) (rx : RxState) (x : ℤ) :
    Except Fault (RxState × List Event) := do
  let (rx, ev) ← receptionDeliver c rx x
  return (receptionTimer c now rx, ev)

/-- The header of a PDU that is a segment: SI bits, SN, SO and the number of header bytes. -/
structure Header where
  isFirst : Bool
  isLast : Bool
  sn : ℕ
  so : ℕ
  byte : ℕ
  deriving Repr, DecidableEq

/-- The SI field: `is_first`, `is_last`. -/
def decodeSi (d : Decoder) : Option (Bool × Bool × Decoder) := do
  let (si, d) ← getBits d 2
  return (!si.testBit 1, !si.testBit 0, d)

/-- The two reserved bits before a long SN. -/
def skipReserved (c : Config) (d : Decoder) : Option Decoder :=
  if c.snFieldLength = 12 then (getBits d 2).map Prod.snd else some d

/-- The rest of the header of a segment, after the SI field. -/
def decodeHeader (c : Config) (isFirst isLast : Bool) (d : Decoder) : Option Header := do
  let d ← skipReserved c d
  let (sn, d) ← getBits d c.snFieldLength
  if isFirst then return ⟨isFirst, isLast, sn, 0, d.byte⟩
  else do
    let (so, d) ← getBits d 16
    -- "discard PDU, bad so"
    if so = 0 then none
    else return ⟨isFirst, isLast, sn, so, d.byte⟩

/-- Reception of a segment whose header decoded: the discards, then storage and
`reception_actions`. -/
def recvSegment (c : Config) (now : UInt64) (rx : RxState) (buffer : List UInt8) (h : Header) :
    Except Fault (RxState × List Event) :=
  let data := buffer.drop h.byte
  let dataSize : ℤ := buffer.length - h.byte
  if dataSize ≤ 0 then return (rx, [])
  else if rx.rxSize + dataSize > c.rxMaxsize then return (rx, [])
  else if snCompareRx c rx h.sn rx.rxNextReassembly < 0 then return (rx, [])
  else
    let pdu := nrRlcNewPdu h.sn h.so h.isFirst h.isLast data
    receptionActions c now
      { rx with
        rxSize := rx.rxSize + dataSize
        rxList := nrRlcPduListAdd (snCompareRx c rx) rx.rxList pdu } pdu.sn

/-- `nr_rlc_entity_um_recv_pdu`. -/
def recvPdu (c : Config) (now : UInt64) (rx : RxState) (buffer : List UInt8) :
    Except Fault (RxState × List Event) :=
  match decodeSi (Decoder.init buffer) with
  | none => return (rx, [])
  | some (isFirst, isLast, d) =>
      if isFirst && isLast then
        if buffer.length < 2 then return (rx, [])
        else return (rx, [.deliverSdu (buffer.drop 1)])
      else
        match decodeHeader c isFirst isLast d with
        | none => return (rx, [])
        | some h => recvSegment c now rx buffer h

/-! ### Transmission -/

/-- The two reserved bits before a long SN. -/
def putReserved (c : Config) (e : Encoder) : Except Fault Encoder :=
  if c.snFieldLength = 12 then putBits e 0 2 else .ok e

/-- The part of the header after the SI field: reserved bits for a complete SDU, else the SN. -/
def putSn (c : Config) (sn : ℕ) (complete : Bool) (e : Encoder) : Except Fault Encoder :=
  if complete then putBits e 0 6
  else do
    let e ← putReserved c e
    putBits e sn c.snFieldLength

/-- The header written by `serialize_sdu`. -/
def serializeHeader (c : Config) (heap : Heap) (sdu : Segment) (bufsize : ℕ) :
    Except Fault Encoder := do
  let e ← putBits (Encoder.init bufsize) (1 - sdu.isFirst.toNat) 1
  let e ← putBits e (1 - sdu.isLast.toNat) 1
  let e ← putSn c (heap.sdu sdu.sdu).sn.toNat (sdu.isFirst && sdu.isLast) e
  putSo sdu e

/-- `serialize_sdu`: the header, then the bytes of the segment. -/
def serializeSdu (c : Config) (heap : Heap) (sdu : Segment) (bufsize : ℕ) :
    Except Fault (List UInt8) := do
  let e ← serializeHeader c heap sdu bufsize
  return e.buffer ++ ((heap.sdu sdu.sdu).data.drop sdu.so).take sdu.size

/-- `resegment`: the shortened segment, the new segment with the remaining bytes, and the heap.
`none` when `pdu_size` has no room for a byte behind the header of a segment; the reference
count has been increased by then. -/
def resegment (c : Config) (heap : Heap) (sdu : Segment) (pduSize : ℕ) :
    Option (Segment × Segment) × Heap :=
  let heap := heap.modify sdu.sdu (fun s => { s with refCount := s.refCount + 1 })
  let pduHeaderSize := computePduHeaderSize c { sdu with isLast := false }
  if pduHeaderSize + 1 > pduSize then (none, heap)
  else
    let overSize := pduHeaderSize + sdu.size - pduSize
    let head := { sdu with size := sdu.size - overSize, isLast := false }
    let next := { sdu with
      addr := heap.segTop, size := overSize, so := head.so + head.size, isFirst := false }
    (some (head, next), { heap with segTop := heap.segTop + 1 })

/-- The end of `generate_tx_pdu`: `tx_next`, serialization and the release of the segment. -/
def transmitSegment (c : Config) (tx : TxState) (sdu : Segment) (size : ℕ) :
    Except Fault (TxState × List UInt8) := do
  let tx := if !sdu.isFirst && sdu.isLast then
      { tx with txNext := (tx.txNext + 1) % c.snModulus } else tx
  let pdu ← serializeSdu c tx.heap sdu size
  return ({ tx with
    txSize := tx.txSize - sdu.size
    heap := (nrRlcFreeSduSegment tx.heap sdu).2 }, pdu)

/-- `generate_tx_pdu`; the empty PDU is the return value 0. -/
def generateTxPdu (c : Config) (tx : TxState) (size : ℕ) : Except Fault (TxState × List UInt8) :=
  match tx.txList with
  | [] => return (tx, [])
  | sdu :: txList =>
      let pduHeaderSize := computePduHeaderSize c sdu
      if pduHeaderSize + 1 > size then return (tx, [])
      else
        let pduSize := pduHeaderSize + sdu.size
        let tx := { tx with
          txList := txList
          txEnd := if txList = [] then none else tx.txEnd
          heap := tx.heap.modify sdu.sdu (fun s => { s with sn := tx.txNext })
          bstatusTxSize := tx.bstatusTxSize - pduSize }
        if pduSize > size then
          match resegment c tx.heap sdu size with
          | (none, heap) => return ({ tx with heap := heap }, [])
          | (some (sdu, nextSdu), heap) =>
              let txList := nextSdu :: tx.txList
              transmitSegment c { tx with
                heap := heap
                txList := txList
                txEnd := tx.txEnd.or (some nextSdu.addr)
                bstatusTxSize :=
                  tx.bstatusTxSize + (computePduHeaderSize c nextSdu + nextSdu.size) } sdu size
        else transmitSegment c tx sdu size

/-- `nr_rlc_entity_um_recv_sdu`. -/
def recvSdu (c : Config) (tx : TxState) (buffer : List UInt8) (sduId : ℤ) :
    Except Fault TxState :=
  if buffer.length > nrSduMax then .error .exit
  else if tx.txSize + buffer.length > c.txMaxsize then return tx
  else do
    let (sdu, heap) := nrRlcNewSdu tx.heap buffer sduId
    let (txList, txEnd) ← nrRlcSduSegmentListAppend tx.txList tx.txEnd sdu
    return { tx with
      txSize := tx.txSize + buffer.length
      heap := heap
      txList := txList
      txEnd := txEnd
      bstatusTxSize := tx.bstatusTxSize + (computePduHeaderSize c sdu + sdu.size) }

/-! ### Timers, discard and re-establishment -/

/-- `check_t_reassembly`: discard the segments below `rx_next_reassembly`. -/
def discardBelow (c : Config) (rx : RxState) : List Pdu → List Pdu
  | [] => []
  | p :: l => if snCompareRx c rx p.sn rx.rxNextReassembly < 0 then discardBelow c rx l else p :: l

/-- Is `t_reassembly` running and has it expired? -/
def tReassemblyExpired (c : Config) (now : UInt64) (rx : RxState) : Bool :=
  !(rx.tReassemblyStart = 0 ∨ now ≤ rx.tReassemblyStart + c.tReassembly)

/-- `check_t_reassembly`.  The second test compares `rx_next_highest` with
`rx_next_reassembly + 1` without the modulus. -/
def checkTReassembly (c : Config) (now : UInt64) (rx : RxState) : Except Fault RxState :=
  if tReassemblyExpired c now rx then do
    let rx := { rx with tReassemblyStart := 0 }
    let sn ← skipDelivered c rx rx.rxTimerTrigger
    let rx := { rx with rxNextReassembly := sn }
    let rx := { rx with rxList := discardBelow c rx rx.rxList }
    if snCompareRx c rx rx.rxNextHighest ((rx.rxNextReassembly + 1) % c.snModulus) > 0 ∨
        (rx.rxNextHighest = rx.rxNextReassembly + 1 ∧
          sduHasMissingBytes rx rx.rxNextReassembly) then
      return { rx with tReassemblyStart := now, rxTimerTrigger := rx.rxNextHighest }
    else return rx
  else return rx

/-- `nr_rlc_entity_um_discard_sdu`.  `tx_size` is not updated. -/
def discardSdu (c : Config) (tx : TxState) (sduId : ℤ) : TxState :=
  match findSdu tx.heap tx.txList sduId with
  | none => tx
  | some cur =>
      if !cur.isFirst || !cur.isLast then tx
      else
        let (txList, txEnd) := unlink tx.txList tx.txEnd cur
        { tx with
          txList := txList
          txEnd := txEnd
          bstatusTxSize := tx.bstatusTxSize - (computePduHeaderSize c cur + cur.size)
          heap := (nrRlcFreeSduSegment tx.heap cur).2 }

/-- `clear_entity`. -/
def clearEntity (e : Entity) : Entity :=
  { e with
    tCurrent := 0
    rx := RxState.new
    tx := { TxState.new with heap := nrRlcFreeSduSegmentList e.tx.heap e.tx.txList } }

/-! ### The entity as a state machine -/

/-- The calls the upper and lower layers make. -/
inductive Input where
  | recvSdu (buffer : List UInt8) (sduId : ℤ)
  | generatePdu (size : ℕ)
  | recvPdu (buffer : List UInt8)
  | setTime (now : UInt64)
  | discardSdu (sduId : ℤ)
  | reestablishment
  deriving Repr, DecidableEq

/-- What a call returns or calls back: `deliver_sdu` calls and a generated PDU. -/
structure Output where
  events : List Event
  pdu : List UInt8
  deriving Repr, DecidableEq

/-- One call. -/
def step (e : Entity) : Input → Except Fault (Entity × Output)
  | .recvSdu buffer sduId => do
      let tx ← recvSdu e.cfg e.tx buffer sduId
      return ({ e with tx := tx }, ⟨[], []⟩)
  | .generatePdu size => do
      let (tx, pdu) ← generateTxPdu e.cfg e.tx size
      return ({ e with tx := tx }, ⟨[], pdu⟩)
  | .recvPdu buffer => do
      let (rx, ev) ← recvPdu e.cfg e.tCurrent e.rx buffer
      return ({ e with rx := rx }, ⟨ev, []⟩)
  | .setTime now => do
      let rx ← checkTReassembly e.cfg now e.rx
      return ({ e with tCurrent := now, rx := rx }, ⟨[], []⟩)
  | .discardSdu sduId => return ({ e with tx := discardSdu e.cfg e.tx sduId }, ⟨[], []⟩)
  | .reestablishment => return (clearEntity e, ⟨[], []⟩)

end OaiGnb.Rlc.Um
