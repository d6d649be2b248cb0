import OaiGnb.Rlc.Am.State

/-!
# Reception of control PDUs

Model of `process_control_pdu`.  The source decodes the PDU twice, once to validate it and once to
process it; here it is decoded once into its ACK_SN and its NACK blocks.  The processing walks
`wait_list` and `retransmit_list` in the order of (SN, SO) while it goes through the NACKs; `Walk`
holds the local pointers of the source:

* `kept ++ curWait` is the wait list, `curWait` what `cur_wait_list` points to, and the last node
  of `kept` what `prev_wait_list` points to;
* `newRetx` is the list from `head_retransmit_list` to `new_retransmit_list` and `curRetx` what
  `cur_retransmit_list` points to.
-/

namespace OaiGnb.Rlc.Am

/-! ### Decoding -/

/-- A NACK block: `range` SDUs from `nack_sn` on are missing, the first from `so_start` on and the
last up to `so_end`; -1 is the end of the SDU. -/
structure NackBlock where
  nackSn : ℕ
  soStart : ℕ
  soEnd : ℤ
  range : ℕ
  deriving Repr, DecidableEq

/-- The contents of a STATUS PDU. -/
structure StatusPdu where
  ackSn : ℕ
  nacks : List NackBlock
  deriving Repr, DecidableEq

/-- The value 0xffff of `so_end` is the end of the SDU. -/
def soEndOf (soEnd : ℕ) : ℤ := if soEnd = 0xffff then -1 else soEnd

/-- The fields `so_start` and `so_end`, present when E2 is set. -/
def decodeSoFields (e2 : ℕ) (d : Decoder) : Option (ℕ × ℕ × Decoder) :=
  if e2 = 0 then some (0, 0xffff, d)
  else do
    let (soStart, d) ← getBits d 16
    let (soEnd, d) ← getBits d 16
    return (soStart, soEnd, d)

/-- The field `range`, present when E3 is set. -/
def decodeRange (e3 : ℕ) (d : Decoder) : Option (ℕ × Decoder) :=
  if e3 = 0 then some (1, d) else getBits d 8

/-- The reserved bits behind E3. -/
def nackReservedBits (c : Config) : ℕ := if c.snFieldLength = 18 then 3 else 1

/-- The reserved bits behind the first E1. -/
def ackReservedBits (c : Config) : ℕ := if c.snFieldLength = 18 then 1 else 7

/-- One NACK block and the E1 bit that says whether another one follows. -/
def decodeNack (c : Config) (d : Decoder) : Option (NackBlock × ℕ × Decoder) := do
  let (nackSn, d) ← getBits d c.snFieldLength
  let (e1, d) ← getBits d 1
  let (e2, d) ← getBits d 1
  let (e3, d) ← getBits d 1
  let (_, d) ← getBits d (nackReservedBits c)
  let (soStart, soEnd, d) ← decodeSoFields e2 d
  let (range, d) ← decodeRange e3 d
  return (⟨nackSn, soStart, soEndOf soEnd, range⟩, e1, d)

/-- The loop `while (e1)`.  Every block has at least one bit, so that the number of bits of the
buffer bounds the number of turns. -/
def decodeNacks (c : Config) : ℕ → ℕ → Decoder → Option (List NackBlock)
  | 0, _, _ => none
  | fuel + 1, e1, d =>
      if e1 = 0 then some []
      else
        match decodeNack c d with
        | none => none
        | some (n, e1, d) => (decodeNacks c fuel e1 d).map (n :: ·)

/-- A control PDU, from its first bit; `none` when it is too short or CPT is not 0. -/
def decodeStatus (c : Config) (buffer : List UInt8) : Option StatusPdu := do
  let (_, d) ← getBits (Decoder.init buffer) 1
  let (cpt, d) ← getBits d 3
  if cpt ≠ 0 then none
  else do
    let (ackSn, d) ← getBits d c.snFieldLength
    let (e1, d) ← getBits d 1
    let (_, d) ← getBits d (ackReservedBits c)
    let nacks ← decodeNacks c (8 * buffer.length + 1) e1 d
    return ⟨ackSn, nacks⟩

/-! ### Validation -/

/-- A NACK of one SDU. -/
structure Nack where
  sn : ℤ
  soStart : ℤ
  soEnd : ℤ
  deriving Repr, DecidableEq

/-- The NACKs of a block, one per SDU of the range. -/
def NackBlock.expand (c : Config) (b : NackBlock) : List Nack :=
  (List.range b.range).map (fun i : ℕ =>
    ⟨(b.nackSn + i) % c.snModulus, if i = 0 then b.soStart else 0,
      if i + 1 = b.range then b.soEnd else -1⟩)

/-- All NACKs of a STATUS PDU in order. -/
def StatusPdu.expand (c : Config) (s : StatusPdu) : List Nack := s.nacks.flatMap (·.expand c)

/-- The checks before a STATUS PDU is processed.  The source means to check the order of the NACKs
too, but its `prev_nack_sn` is never set in this loop. -/
def validStatus (c : Config) (tx : TxState) (s : StatusPdu) : Bool :=
  decide (snCompareTx c tx s.ackSn tx.txNext ≤ 0) &&
    (s.expand c).all (fun n => decide (snCompareTx c tx n.sn s.ackSn ≤ 0))

/-! ### Processing -/

/-- `so_overlap`. -/
def soOverlap (s1 e1 s2 e2 : ℤ) : Bool :=
  if s1 < s2 then decide (e1 = -1 ∨ e1 ≥ s2) else decide (e2 = -1 ∨ s1 ≤ e2)

/-- The local variables of `process_control_pdu`.  `endWait` is `end_wait_list`: `none` for NULL,
`some none` for the list head. -/
structure Walk where
  kept : List Segment
  curWait : List Segment
  newRetx : List Segment
  curRetx : List Segment
  endWait : Option (Option ℕ)
  heap : Heap
  txSize : ℤ
  bstatusRetxSize : ℤ
  events : List Event

section Process

variable (c : Config) (tx : TxState) (ackSn : ℤ)

/-- The NACK overlaps the segment. -/
def overlaps (heap : Heap) (n : Nack) (s : Segment) : Bool :=
  decide (snOf heap s = n.sn) && soOverlap n.soStart n.soEnd s.so (s.so + s.size - 1)

/-- "if current segment SN > current NACK, we can't classify it yet". -/
def beyond (heap : Heap) (n : Nack) (s : Segment) : Bool :=
  let cmp := snCompareTx c tx (snOf heap s) n.sn
  decide (cmp > 0 ∨ (cmp = 0 ∧ s.so > n.soStart))

/-- The head of the wait list comes before the head of the retransmit list. -/
def waitFirst (heap : Heap) (w r : Segment) : Bool :=
  let cmp := snCompareTx c tx (snOf heap w) (snOf heap r)
  decide (cmp < 0 ∨ (cmp = 0 ∧ w.so < r.so))

/-- `end_wait_list` after the node `w` has been taken off the wait list. -/
def endWaitWithout (st : Walk) (w : Segment) : Option (Option ℕ) :=
  if tx.waitEnd = some w.addr then some (lastAddr st.kept) else st.endWait

/-- The wait list segment is put in the retransmit list. -/
def nackWait (st : Walk) (w : Segment) (rest : List Segment) : Walk :=
  let heap := st.heap.modify w.sdu (fun s => { s with retxCount := s.retxCount + 1 })
  { st with
    curWait := rest
    endWait := endWaitWithout tx st w
    newRetx := st.newRetx ++ [w]
    heap := heap
    bstatusRetxSize := st.bstatusRetxSize + (computePduHeaderSize c w + w.size)
    events := st.events ++
      (if (heap.sdu w.sdu).retxCount ≥ c.maxRetxThreshold * (heap.sdu w.sdu).refCount
        then [.maxRetxReached] else []) }

/-- Free an acknowledged segment; report the SDU when it was the last one. -/
def freeAcked (st : Walk) (s : Segment) : Walk :=
  let sdu := st.heap.sdu s.sdu
  let (freed, heap) := nrRlcFreeSduSegment st.heap s
  if freed then
    { st with
      heap := heap
      txSize := st.txSize - sdu.size
      events := st.events ++ [.sduSuccessfulDelivery s.sdu sdu.upperLayerId] }
  else { st with heap := heap }

/-- The wait list segment is acknowledged. -/
def ackWait (st : Walk) (w : Segment) (rest : List Segment) : Walk :=
  freeAcked { st with curWait := rest, endWait := endWaitWithout tx st w } w

/-- The retransmit list segment is acknowledged. -/
def ackRetx (st : Walk) (r : Segment) (rest : List Segment) : Walk :=
  freeAcked { st with
    curRetx := rest
    bstatusRetxSize := st.bstatusRetxSize - (computePduHeaderSize c r + r.size) } r

/-- Process the head of the wait list; `none` is `goto done_nack`. -/
def processWaitListHead (n : Nack) (st : Walk) (w : Segment) (rest : List Segment) : Option Walk :=
  if overlaps st.heap n w then some (nackWait c tx st w rest)
  else if beyond c tx st.heap n w then none
  else if snCompareTx c tx (snOf st.heap w) ackSn < 0 then some (ackWait tx st w rest)
  else if snCompareTx c tx (snOf st.heap w) ackSn > 0 then
    some { st with kept := st.kept ++ w :: rest, curWait := [] }
  else some { st with kept := st.kept ++ [w], curWait := rest }

/-- Process the head of the retransmit list.  In the last branch but one the source links the rest
of the list behind `new_retransmit_list` and clears `cur_retransmit_list`; the assignment
`new_retransmit_list->next = cur_retransmit_list` at the end then cuts what was linked. -/
def processRetransmitListHead (n : Nack) (st : Walk) (r : Segment) (rest : List Segment) :
    Option Walk :=
  if overlaps st.heap n r then some { st with newRetx := st.newRetx ++ [r], curRetx := rest }
  else if beyond c tx st.heap n r then none
  else if snCompareTx c tx (snOf st.heap r) ackSn < 0 then some (ackRetx c st r rest)
  else if st.curWait = [] then some { st with curRetx := [] }
  else some { st with newRetx := st.newRetx ++ [r], curRetx := rest }

/-- `process_next_pdu`: process the smallest SN either from the wait list or from the retransmit
list; `none` ends the NACK. -/
def processNextPdu (n : Nack) (st : Walk) : Option Walk :=
  match st.curWait, st.curRetx with
  | [], [] => none
  | [], r :: rs => processRetransmitListHead c tx ackSn n st r rs
  | w :: ws, [] => processWaitListHead c tx ackSn n st w ws
  | w :: ws, r :: rs =>
      if waitFirst c tx st.heap w r then processWaitListHead c tx ackSn n st w ws
      else processRetransmitListHead c tx ackSn n st r rs

/-- The PDUs processed for one NACK; every turn takes one off a list. -/
def processNackLoop (n : Nack) : ℕ → Walk → Walk
  | 0, st => st
  | fuel + 1, st =>
      match processNextPdu c tx ackSn n st with
      | none => st
      | some st => processNackLoop n fuel st

/-- One NACK. -/
def processNack (st : Walk) (n : Nack) : Walk :=
  processNackLoop c tx ackSn n (st.curWait.length + st.curRetx.length) st

/-- "nacks done, finish with ack": the wait list. -/
def finishWait : List Segment → Walk → Walk
  | [], st => st
  | w :: rest, st =>
      if snCompareTx c tx (snOf st.heap w) ackSn < 0 then finishWait rest (ackWait tx st w rest)
      else st

/-- "nacks done, finish with ack": the retransmit list. -/
def finishRetx : List Segment → Walk → Walk
  | [], st => st
  | r :: rest, st =>
      if snCompareTx c tx (snOf st.heap r) ackSn < 0 then finishRetx rest (ackRetx c st r rest)
      else st

/-- The local variables before the first NACK. -/
def Walk.start : Walk :=
  { kept := []
    curWait := tx.waitList
    newRetx := []
    curRetx := tx.retransmitList
    endWait := none
    heap := tx.heap
    txSize := tx.txSize
    bstatusRetxSize := tx.bstatusRetxSize
    events := [] }

/-- The walk over both lists: all NACKs, then the ACK. -/
def processLists (nacks : List Nack) : Walk :=
  let st := nacks.foldl (processNack c tx ackSn) (Walk.start tx)
  let st := finishWait c tx ackSn st.curWait st
  finishRetx c tx ackSn st.curRetx st

/-- The lists and counters the walk leaves behind. -/
def Walk.toTx (st : Walk) : TxState :=
  { tx with
    waitList := st.kept ++ st.curWait
    waitEnd := st.endWait.getD tx.waitEnd
    retransmitList := st.newRetx ++ st.curRetx
    heap := st.heap
    txSize := st.txSize
    bstatusRetxSize := st.bstatusRetxSize }

/-- Stop `t_poll_retransmit` when `poll_sn` is acknowledged or in a NACK block. -/
def pollAnswered (s : StatusPdu) : Bool :=
  decide (snCompareTx c tx tx.pollSn s.ackSn < 0) ||
    s.nacks.any (fun b =>
      decide (snCompareTx c tx b.nackSn tx.pollSn ≤ 0) &&
        decide (snCompareTx c tx tx.pollSn ((b.nackSn + b.range) % c.snModulus) < 0))

/-- Lower `tx_next_ack` to the SN of the head of a list. -/
def lowerTo (heap : Heap) (list : List Segment) (sn : ℤ) : ℤ :=
  match list with
  | [] => sn
  | s :: _ => if snCompareTx c tx (snOf heap s) sn < 0 then snOf heap s else sn

/-- The new `tx_next_ack`. -/
def newTxNextAck (waitList retransmitList : List Segment) (heap : Heap) : ℤ :=
  let sn := lowerTo c tx heap retransmitList (lowerTo c tx heap waitList tx.txNext)
  if snCompareTx c tx ackSn sn < 0 then ackSn else sn

end Process

/-- `process_control_pdu` on a valid STATUS PDU. -/
def processStatus (c : Config) (tx : TxState) (s : StatusPdu) : TxState × List Event :=
  let st := processLists c tx s.ackSn (s.expand c)
  let tx' := st.toTx tx
  ({ tx' with
      tPollRetransmitStart := if pollAnswered c tx s then 0 else tx.tPollRetransmitStart
      txNextAck := newTxNextAck c tx s.ackSn tx'.waitList tx'.retransmitList tx'.heap }, st.events)

/-- `process_control_pdu`. -/
def processControlPdu (c : Config) (tx : TxState) (buffer : List UInt8) : TxState × List Event :=
  match decodeStatus c buffer with
  | none => (tx, [])
  | some s => if validStatus c tx s then processStatus c tx s else (tx, [])

end OaiGnb.Rlc.Am
