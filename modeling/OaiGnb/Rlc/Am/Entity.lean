import OaiGnb.Rlc.Am.Control
import OaiGnb.Rlc.Am.Status

/-!
# The AM entity as a state machine

Model of the transmission functions of `nr_rlc_entity_am.c` (`generate_retx_pdu`,
`generate_tx_pdu`), `nr_rlc_entity_am_recv_sdu`, the expiry of `t_poll_retransmit`, the discard of
SDUs and re-establishment, and of the entity as a machine whose inputs are the calls of the upper
and lower layers.
-/

namespace OaiGnb.Rlc.Am

open Run

/-! ### Polling -/

/-- `is_window_stalling`. -/
def isWindowStalling (c : Config) (tx : TxState) : Bool :=
  !(decide (snCompareTx c tx tx.txNextAck tx.txNext ≤ 0) &&
    decide (snCompareTx c tx tx.txNext ((tx.txNextAck + c.windowSize) % c.snModulus) < 0))

/-- The entity's part of `include_poll`. -/
def includePoll (c : Config) (now : UInt64) (tx : TxState) : TxState :=
  { tx with
    pduWithoutPoll := 0
    byteWithoutPoll := 0
    pollSn := (tx.txNext - 1 + c.snModulus) % c.snModulus
    tPollRetransmitStart := now }

/-- `check_poll_after_pdu_assembly`. -/
def checkPollAfterPduAssembly (c : Config) (tx : TxState) : Bool :=
  (tx.txList.isEmpty && tx.retransmitList.isEmpty) || isWindowStalling c tx

/-! ### Transmission -/

/-- The two reserved bits before a long SN. -/
def putReserved (c : Config) (e : Encoder) : Except Fault Encoder :=
  if c.snFieldLength = 18 then putBits e 0 2 else .ok e

/-- The header written by `serialize_sdu`. -/
def serializeHeader (c : Config) (heap : Heap) (sdu : Segment) (bufsize : ℕ) :
    Except Fault Encoder := do
  let e ← putBits (Encoder.init bufsize) 1 1
  let e ← putBits e 0 1
  let e ← putBits e (1 - sdu.isFirst.toNat) 1
  let e ← putBits e (1 - sdu.isLast.toNat) 1
  let e ← putReserved c e
  let e ← putBits e (snOf heap sdu).toNat c.snFieldLength
  putSo sdu e

/-- `buffer[0] |= 0x40` when the PDU polls. -/
def setPoll (p : Bool) (buffer : List UInt8) : List UInt8 :=
  if p then buffer.modify 0 (fun b => b ||| 0x40) else buffer

/-- The PDU written by `serialize_sdu`. -/
def serializeSdu (c : Config) (heap : Heap) (sdu : Segment) (bufsize : ℕ) (p : Bool) :
    Except Fault (List UInt8) := do
  let e ← serializeHeader c heap sdu bufsize
  return setPoll p (e.buffer ++ ((heap.sdu sdu.sdu).data.drop sdu.so).take sdu.size)

/-- `resegment`: the shortened segment, the new segment with the remaining bytes, and the heap. -/
def resegment (c : Config) (heap : Heap) (sdu : Segment) (pduSize : ℕ) :
    Segment × Segment × Heap :=
  let heap := heap.modify sdu.sdu (fun s => { s with refCount := s.refCount + 1 })
  let overSize := computePduHeaderSize c sdu + sdu.size - pduSize
  let head := { sdu with size := sdu.size - overSize, isLast := false }
  let next := { sdu with
    addr := heap.segTop, size := overSize, so := head.so + head.size, isFirst := false }
  (head, next, { heap with segTop := heap.segTop + 1 })

/-- Does the segment come after the node `wait_end` points to? -/
def comesAfter (c : Config) (tx : TxState) (sdu waitEnd : Segment) : Bool :=
  let cmp := snCompareTx c tx (snOf tx.heap sdu) (snOf tx.heap waitEnd)
  decide (cmp > 0) || (decide (cmp = 0) && decide (sdu.so > waitEnd.so))

/-- The sorted insertion into the wait list. -/
def insertInWaitList (c : Config) (tx : TxState) (sdu : Segment) : TxState :=
  let waitList := nrRlcTxSduSegmentListAdd c tx tx.waitList sdu
  { tx with
    waitList := waitList
    waitEnd := if waitList.length = 1 then lastAddr waitList else tx.waitEnd }

/-- Append to the wait list. -/
def appendToWaitList (tx : TxState) (sdu : Segment) : Except Fault TxState := do
  let (waitList, waitEnd) ← nrRlcSduSegmentListAppend tx.waitList tx.waitEnd sdu
  return { tx with waitList := waitList, waitEnd := waitEnd }

/-- "put SDU/SDU segment in the wait list". -/
def putInWaitList (c : Config) (tx : TxState) (sdu : Segment) : Except Fault TxState :=
  match tx.waitEnd with
  | none => appendToWaitList tx sdu
  | some a =>
      match derefSegment tx.waitList a with
      | none => .error .badPointer
      | some waitEnd =>
          if comesAfter c tx sdu waitEnd then appendToWaitList tx sdu
          else return insertInWaitList c tx sdu

/-- The end of both generating functions: `force_poll`, then `serialize_sdu`. -/
def finishPdu (c : Config) (now : UInt64) (tx : TxState) (sdu : Segment) (size : ℕ) (p : Bool) :
    Except Fault (TxState × List UInt8) := do
  let p := p || tx.forcePoll
  let tx := { tx with forcePoll := false }
  let pdu ← serializeSdu c tx.heap sdu size p
  return (if p then includePoll c now tx else tx, pdu)

/-- Split the segment for the PDU to fit and put the second part back at the head of the
retransmit list. -/
def splitRetx (c : Config) (tx : TxState) (sdu : Segment) (size : ℕ) : Segment × TxState :=
  if computePduHeaderSize c sdu + sdu.size > size then
    let (head, next, heap) := resegment c tx.heap sdu size
    (head, { tx with
      heap := heap
      retransmitList := next :: tx.retransmitList
      bstatusRetxSize := tx.bstatusRetxSize + (computePduHeaderSize c next + next.size) })
  else (sdu, tx)

/-- The head of the retransmit list is taken off, before it is split. -/
def popRetx (c : Config) (tx : TxState) (sdu : Segment) (rest : List Segment) : TxState :=
  { tx with
    retransmitList := rest
    bstatusRetxSize := tx.bstatusRetxSize - (computePduHeaderSize c sdu + sdu.size) }

/-- `generate_retx_pdu`; the empty PDU is the return value 0. -/
def generateRetxPdu (c : Config) (now : UInt64) (tx : TxState) (size : ℕ) :
    Except Fault (TxState × List UInt8) :=
  match tx.retransmitList with
  | [] => .error .badPointer
  | sdu :: rest =>
      if computePduHeaderSize c sdu + 1 > size then return (tx, [])
      else do
        let (sdu, tx) := splitRetx c (popRetx c tx sdu rest) sdu size
        let tx ← putInWaitList c tx sdu
        finishPdu c now tx sdu size (checkPollAfterPduAssembly c tx)

/-- "assign SN to SDU". -/
def assignSn (c : Config) (tx : TxState) (sdu : Segment) : TxState :=
  if snOf tx.heap sdu = -1 then
    { tx with
      heap := tx.heap.modify sdu.sdu (fun s => { s with sn := tx.txNext })
      txNext := (tx.txNext + 1) % c.snModulus }
  else tx

/-- Split the segment for the PDU to fit and put the second part back at the head of the TX
list. -/
def splitTx (c : Config) (tx : TxState) (sdu : Segment) (size : ℕ) : Segment × TxState :=
  if computePduHeaderSize c sdu + sdu.size > size then
    let (head, next, heap) := resegment c tx.heap sdu size
    (head, { tx with
      heap := heap
      txList := next :: tx.txList
      txEnd := tx.txEnd.or (some next.addr)
      bstatusTxSize := tx.bstatusTxSize + (computePduHeaderSize c next + next.size) })
  else (sdu, tx)

/-- "polling actions for a new PDU": the counters. -/
def countPdu (tx : TxState) (sdu : Segment) : TxState :=
  { tx with
    pduWithoutPoll := tx.pduWithoutPoll + 1
    byteWithoutPoll := tx.byteWithoutPoll + sdu.size }

/-- Does the new PDU poll? -/
def pollsNewPdu (c : Config) (tx : TxState) : Bool :=
  (decide (c.pollPdu ≠ -1) && decide (tx.pduWithoutPoll ≥ c.pollPdu)) ||
  (decide (c.pollByte ≠ -1) && decide (tx.byteWithoutPoll ≥ c.pollByte)) ||
  checkPollAfterPduAssembly c tx

/-- The head of the TX list is taken off, before it is split. -/
def popTx (c : Config) (tx : TxState) (sdu : Segment) (rest : List Segment) : TxState :=
  { tx with
    txList := rest
    txEnd := if rest = [] then none else tx.txEnd
    bstatusTxSize := tx.bstatusTxSize - (computePduHeaderSize c sdu + sdu.size) }

/-- `generate_tx_pdu`; the empty PDU is the return value 0. -/
def generateTxPdu (c : Config) (now : UInt64) (tx : TxState) (size : ℕ) :
    Except Fault (TxState × List UInt8) :=
  if isWindowStalling c tx then return (tx, [])
  else
    match tx.txList with
    | [] => return (tx, [])
    | sdu :: rest =>
        if computePduHeaderSize c sdu + 1 > size then return (tx, [])
        else do
          let (sdu, tx) := splitTx c (assignSn c (popTx c tx sdu rest) sdu) sdu size
          let tx ← putInWaitList c tx sdu
          let tx := countPdu tx sdu
          finishPdu c now tx sdu size (pollsNewPdu c tx)

/-- The part of `nr_rlc_entity_am_generate_pdu` after the status report. -/
def generateDataPdu (c : Config) (now : UInt64) (tx : TxState) (size : ℕ) :
    Except Fault (TxState × List UInt8) :=
  if tx.retransmitList = [] then generateTxPdu c now tx size
  else
    match generateRetxPdu c now tx size with
    | .error f => .error f
    | .ok (tx, []) => generateTxPdu c now tx size
    | .ok (tx, pdu) => .ok (tx, pdu)

/-- `nr_rlc_entity_am_recv_sdu`. -/
def recvSdu (c : Config) (tx : TxState) (buffer : List UInt8) (sduId : ℤ) :
    Except Fault TxState :=
  if buffer.length > nrSduMax then .error .exit
  else if tx.txSize + buffer.length > c.txMaxsize then return tx
  else do
    let (sdu, heap) := nrRlcNewSdu tx.heap buffer sduId
    let (txList, txEnd) ← nrRlcSduSegmentListAppend tx.txList tx.txEnd sdu
    return { tx with
      txSize := tx.txSize + buffer.length
      heap := heap
      txList := txList
      txEnd := txEnd
      bstatusTxSize := tx.bstatusTxSize + (computePduHeaderSize c sdu + sdu.size) }

/-! ### Timers, discard and re-establishment -/

/-- Did `t_poll_retransmit` expire? -/
def tPollRetransmitExpired (c : Config) (now : UInt64) (tx : TxState) : Bool :=
  !(tx.tPollRetransmitStart = 0 ∨ now ≤ tx.tPollRetransmitStart + c.tPollRetransmit)

/-- The head of the wait list is put in the retransmit list. -/
def retransmitHead (c : Config) (tx : TxState) (cur : Segment) (rest : List Segment) : TxState :=
  { tx with
    waitList := rest
    waitEnd := if rest = [] then none else tx.waitEnd
    bstatusRetxSize := tx.bstatusRetxSize + (computePduHeaderSize c cur + cur.size)
    retransmitList := nrRlcTxSduSegmentListAdd c tx tx.retransmitList cur }

/-- Retransmit the SDU segments at the head of the wait list that have the SN `sn`. -/
def retransmitSn (c : Config) (sn : ℤ) : List Segment → TxState → TxState
  | [], tx => tx
  | cur :: rest, tx =>
      if snOf tx.heap cur = sn then retransmitSn c sn rest (retransmitHead c tx cur rest) else tx

/-- The retransmission of the SDU at the head of the wait list.  The source does not check that
there is one. -/
def pollRetransmit (c : Config) (tx : TxState) : Except Fault (TxState × List Event) :=
  match tx.waitList with
  | [] => .error .badPointer
  | cur :: rest =>
      let tx := { tx with
        heap := tx.heap.modify cur.sdu (fun s => { s with retxCount := s.retxCount + 1 }) }
      .ok (retransmitSn c (snOf tx.heap cur) (cur :: rest) tx,
        if (tx.heap.sdu cur.sdu).retxCount ≥ c.maxRetxThreshold then [.maxRetxReached] else [])

/-- `check_t_poll_retransmit`. -/
def checkTPollRetransmit (c : Config) (now : UInt64) (tx : TxState) :
    Except Fault (TxState × List Event) :=
  if tPollRetransmitExpired c now tx then
    let tx := { tx with tPollRetransmitStart := 0, forcePoll := true }
    if checkPollAfterPduAssembly c tx then pollRetransmit c tx else .ok (tx, [])
  else .ok (tx, [])

/-- `nr_rlc_entity_am_discard_sdu`. -/
def discardSdu (c : Config) (tx : TxState) (sduId : ℤ) : TxState :=
  match findSdu tx.heap tx.txList sduId with
  | none => tx
  | some cur =>
      if !cur.isFirst || !cur.isLast then tx
      else
        let (txList, txEnd) := unlink tx.txList tx.txEnd cur
        { tx with
          txList := txList
          txEnd := txEnd
          bstatusTxSize := tx.bstatusTxSize - (computePduHeaderSize c cur + cur.size)
          txSize := tx.txSize - (tx.heap.sdu cur.sdu).size
          heap := (nrRlcFreeSduSegment tx.heap cur).2 }

/-- `clear_entity`. -/
def clearEntity (e : Entity) : Entity :=
  { e with
    tCurrent := 0
    rx := { RxState.new e.rx.rx.size with rx := nrRlcClearRxManager e.rx.rx }
    tx := { TxState.new with
      heap := nrRlcFreeSduSegmentList (nrRlcFreeSduSegmentList
        (nrRlcFreeSduSegmentList e.tx.heap e.tx.txList) e.tx.waitList) e.tx.retransmitList } }

/-! ### The entity -/

/-- The configuration written by `new_nr_rlc_entity_am`; the maximal sizes are five times the
arguments. -/
def Config.new (rxMaxsize txMaxsize : ℤ) (tPollRetransmit tReassembly tStatusProhibit : UInt64)
    (pollPdu pollByte maxRetxThreshold : ℤ) (snFieldLength : ℕ) : Config :=
  ⟨tPollRetransmit, tReassembly, tStatusProhibit, pollPdu, pollByte, maxRetxThreshold,
    snFieldLength, 2 ^ snFieldLength, 2 ^ snFieldLength / 2, rxMaxsize * 5, txMaxsize * 5⟩

/-- An entity with this configuration and empty buffers. -/
def Entity.new (c : Config) : Entity :=
  ⟨c, 0, RxState.new (2 ^ (c.snFieldLength - 1)), TxState.new⟩

/-- `new_nr_rlc_entity_am`. -/
def newNrRlcEntityAm (rxMaxsize txMaxsize : ℤ)
    (tPollRetransmit tReassembly tStatusProhibit : UInt64)
    (pollPdu pollByte maxRetxThreshold : ℤ) (snFieldLength : ℕ) : Except Fault Entity :=
  if snFieldLength = 12 ∨ snFieldLength = 18 then
    .ok (Entity.new (Config.new rxMaxsize txMaxsize tPollRetransmit tReassembly tStatusProhibit
      pollPdu pollByte maxRetxThreshold snFieldLength))
  else .error .exit

/-- The calls the upper and lower layers make. -/
inductive Input where
  | recvSdu (buffer : List UInt8) (sduId : ℤ)
  | generatePdu (size : ℕ)
  | recvPdu (buffer : List UInt8)
  | setTime (now : UInt64)
  | discardSdu (sduId : ℤ)
  | reestablishment
  deriving Repr, DecidableEq

/-- What a call returns or calls back: the callbacks and a generated PDU. -/
structure Output where
  events : List Event
  pdu : List UInt8
  deriving Repr, DecidableEq

/-- `nr_rlc_entity_am_generate_pdu`. -/
def generatePdu (e : Entity) (size : ℕ) : Except Fault (Entity × Output) :=
  if statusToReport e.cfg e.tCurrent e.rx ∧ 3 ≤ size then do
    let (rx, pdu) ← generateStatus e.cfg e.tCurrent e.rx size
    return ({ e with rx := rx }, ⟨[], pdu⟩)
  else do
    let (tx, pdu) ← generateDataPdu e.cfg e.tCurrent e.tx size
    return ({ e with tx := tx }, ⟨[], pdu⟩)

/-- `nr_rlc_entity_am_recv_pdu`. -/
def recvPdu (e : Entity) (buffer : List UInt8) : Except Fault (Entity × Output) :=
  match getBits (Decoder.init buffer) 1 with
  | none => return (e, ⟨[], []⟩)
  | some (dc, d) =>
      if dc = 0 then
        let (tx, ev) := processControlPdu e.cfg e.tx buffer
        return ({ e with tx := tx }, ⟨ev, []⟩)
      else do
        let (rx, ev) ← recvDataPdu e.cfg e.tCurrent e.rx buffer d
        return ({ e with rx := rx }, ⟨ev, []⟩)

/-- `nr_rlc_entity_am_set_time`. -/
def setTime (e : Entity) (now : UInt64) : Except Fault (Entity × Output) := do
  let (tx, ev) ← checkTPollRetransmit e.cfg now e.tx
  let rx ← checkTReassembly e.cfg now e.rx
  return ({ e with tCurrent := now, tx := tx, rx := rx }, ⟨ev, []⟩)

/-- One call. -/
def step (e : Entity) : Input → Except Fault (Entity × Output)
  | .recvSdu buffer sduId => do
      let tx ← recvSdu e.cfg e.tx buffer sduId
      return ({ e with tx := tx }, ⟨[], []⟩)
  | .generatePdu size => generatePdu e size
  | .recvPdu buffer => recvPdu e buffer
  | .setTime now => setTime e now
  | .discardSdu sduId => return ({ e with tx := discardSdu e.cfg e.tx sduId }, ⟨[], []⟩)
  | .reestablishment => return (clearEntity e, ⟨[], []⟩)

/-- What a call that returns has done. -/
inductive Call (e : Entity) : Input → Entity → Output → Prop
  | recvSdu {buffer : List UInt8} {sduId : ℤ} {tx : TxState} :
      recvSdu e.cfg e.tx buffer sduId = .ok tx →
      Call e (.recvSdu buffer sduId) { e with tx := tx } ⟨[], []⟩
  | statusPdu {size : ℕ} {rx : RxState} {pdu : List UInt8} :
      statusToReport e.cfg e.tCurrent e.rx ∧ 3 ≤ size →
      generateStatus e.cfg e.tCurrent e.rx size = .ok (rx, pdu) →
      Call e (.generatePdu size) { e with rx := rx } ⟨[], pdu⟩
  | dataPdu {size : ℕ} {tx : TxState} {pdu : List UInt8} :
      ¬ (statusToReport e.cfg e.tCurrent e.rx ∧ 3 ≤ size) →
      generateDataPdu e.cfg e.tCurrent e.tx size = .ok (tx, pdu) →
      Call e (.generatePdu size) { e with tx := tx } ⟨[], pdu⟩
  | recvNothing {buffer : List UInt8} : getBits (Decoder.init buffer) 1 = none →
      Call e (.recvPdu buffer) e ⟨[], []⟩
  | recvControl {buffer : List UInt8} {d : Decoder} :
      getBits (Decoder.init buffer) 1 = some (0, d) →
      Call e (.recvPdu buffer) { e with tx := (processControlPdu e.cfg e.tx buffer).1 }
        ⟨(processControlPdu e.cfg e.tx buffer).2, []⟩
  | recvData {buffer : List UInt8} {dc : ℕ} {d : Decoder} {rx : RxState} {ev : List Event} :
      getBits (Decoder.init buffer) 1 = some (dc, d) → dc ≠ 0 →
      recvDataPdu e.cfg e.tCurrent e.rx buffer d = .ok (rx, ev) →
      Call e (.recvPdu buffer) { e with rx := rx } ⟨ev, []⟩
  | setTime {now : UInt64} {tx : TxState} {rx : RxState} {ev : List Event} :
      checkTPollRetransmit e.cfg now e.tx = .ok (tx, ev) →
      checkTReassembly e.cfg now e.rx = .ok rx →
      Call e (.setTime now) { e with tCurrent := now, tx := tx, rx := rx } ⟨ev, []⟩
  | discardSdu {sduId : ℤ} :
      Call e (.discardSdu sduId) { e with tx := discardSdu e.cfg e.tx sduId } ⟨[], []⟩
  | reestablishment : Call e .reestablishment (clearEntity e) ⟨[], []⟩

variable {e e' : Entity} {i : Input} {o : Output}

theorem step_call (h : step e i = .ok (e', o)) :
    Call e i e' o := by
  cases i with
  | recvSdu buffer sduId =>
    obtain ⟨tx, hr, rfl, rfl⟩ := bind_pair_inj h
    exact .recvSdu hr
  | generatePdu size =>
    change generatePdu e size = _ at h
    unfold generatePdu at h
    split at h
    next hs =>
      obtain ⟨⟨rx, pdu⟩, hg, rfl, rfl⟩ := bind_pair_inj h
      exact .statusPdu hs hg
    next hs =>
      obtain ⟨⟨tx, pdu⟩, hg, rfl, rfl⟩ := bind_pair_inj h
      exact .dataPdu hs hg
  | recvPdu buffer =>
    change recvPdu e buffer = _ at h
    unfold recvPdu at h
    split at h
    next hnone =>
      obtain ⟨rfl, rfl⟩ := ok_inj h
      exact .recvNothing hnone
    next dc d hdc =>
      split at h
      next hz =>
        obtain ⟨rfl, rfl⟩ := ok_inj h
        rw [hz] at hdc
        exact .recvControl hdc
      next hne =>
        obtain ⟨⟨rx, ev⟩, hr, rfl, rfl⟩ := bind_pair_inj h
        exact .recvData hdc hne hr
  | setTime now =>
    obtain ⟨⟨tx, ev⟩, ht, h⟩ := bind_returns.mp h
    obtain ⟨rx, hr, rfl, rfl⟩ := bind_pair_inj h
    exact .setTime ht hr
  | discardSdu sduId =>
    obtain ⟨rfl, rfl⟩ := ok_inj h
    exact .discardSdu
  | reestablishment =>
    obtain ⟨rfl, rfl⟩ := ok_inj h
    exact .reestablishment

theorem step_cfg (h : step e i = .ok (e', o)) :
    e'.cfg = e.cfg := by
  cases step_call h <;> rfl

/-! ### The configuration of a new entity -/

/-- The configuration of a new entity. -/
structure Config.Ok (c : Config) : Prop where
  length : c.snFieldLength = 12 ∨ c.snFieldLength = 18
  modulus : c.snModulus = 2 ^ c.snFieldLength
  window : c.windowSize = 2 ^ c.snFieldLength / 2

variable {c : Config}

theorem Config.Ok.modulus_eq (hc : c.Ok) : c.snModulus = 2 * c.windowSize := by
  rw [hc.modulus, hc.window]
  rcases hc.length with h | h <;> rw [h] <;> rfl

theorem Config.Ok.window_ge (hc : c.Ok) : 2048 ≤ c.windowSize := by
  rw [hc.window]
  rcases hc.length with h | h <;> rw [h] <;> decide

theorem Config.Ok.modulus_pos (hc : c.Ok) : 0 < c.snModulus := by
  have := hc.modulus_eq
  have := hc.window_ge
  omega

theorem newNrRlcEntityAm_eq {rxMaxsize txMaxsize : ℤ}
    {tPollRetransmit tReassembly tStatusProhibit : UInt64}
    {pollPdu pollByte maxRetxThreshold : ℤ} {snFieldLength : ℕ}
    (h : newNrRlcEntityAm rxMaxsize txMaxsize tPollRetransmit tReassembly tStatusProhibit pollPdu
      pollByte maxRetxThreshold snFieldLength = .ok e) :
    e.cfg.Ok ∧ e = Entity.new e.cfg := by
  unfold newNrRlcEntityAm at h
  split at h
  next hlen =>
    obtain rfl := Except.ok.inj h
    exact ⟨⟨hlen, rfl, rfl⟩, rfl⟩
  · cases h

/-- A configuration with sequence numbers of 12 bits. -/
def Config.sample : Config := .new 1000 1000 45 35 0 (-1) (-1) 8 12

theorem config_sample_ok : Config.sample.Ok := ⟨Or.inl rfl, rfl, rfl⟩

/-- An entity with that configuration. -/
def Entity.sample : Entity := .new .sample

theorem newNrRlcEntityAm_sample :
    newNrRlcEntityAm 1000 1000 45 35 0 (-1) (-1) 8 12 = .ok .sample := rfl

/-- An entity made by `new_nr_rlc_entity_am`. -/
def Created (e : Entity) : Prop :=
  ∃ rxMaxsize txMaxsize tPollRetransmit tReassembly tStatusProhibit pollPdu pollByte
    maxRetxThreshold snFieldLength,
    newNrRlcEntityAm rxMaxsize txMaxsize tPollRetransmit tReassembly tStatusProhibit pollPdu
      pollByte maxRetxThreshold snFieldLength = .ok e

theorem Created.eq_new (h : Created e) : e.cfg.Ok ∧ e = Entity.new e.cfg := by
  obtain ⟨_, _, _, _, _, _, _, _, _, h⟩ := h
  exact newNrRlcEntityAm_eq h

end OaiGnb.Rlc.Am
