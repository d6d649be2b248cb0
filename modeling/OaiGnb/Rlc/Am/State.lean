import OaiGnb.Lib.SerialNumber
import OaiGnb.Rlc.Sdu
import OaiGnb.Rlc.Reassembly

/-!
# The state of an AM entity

The fields of `nr_rlc_entity_am_t`, split into the configuration, the receiving side and the
transmitting side, the receive ring of `nr_rlc_rx_manager.c`, and the arithmetic on sequence
numbers.  Statistics, logging and the time-of-arrival averages are left out: no other field is
computed from them.
-/

namespace OaiGnb.Rlc.Am

open SerialNumber SortedList

/-- The configuration fields of `nr_rlc_entity_am_t`.  `poll_pdu` and `poll_byte` are -1 for
infinity. -/
structure Config where
  tPollRetransmit : UInt64
  tReassembly : UInt64
  tStatusProhibit : UInt64
  pollPdu : ℤ
  pollByte : ℤ
  maxRetxThreshold : ℤ
  snFieldLength : ℕ
  snModulus : ℤ
  windowSize : ℤ
  rxMaxsize : ℤ
  txMaxsize : ℤ
  deriving Repr, DecidableEq

/-! ### The receive ring -/

/-- `nr_rlc_rx_manager_t`: a ring of `size` lists of PDUs, one per SN. -/
structure RxManager where
  rxList : ℤ → List Pdu
  size : ℤ
  start : ℤ
  snStart : ℤ

/-- `nr_rlc_new_rx_manager`. -/
def nrRlcNewRxManager (size : ℤ) : RxManager := ⟨fun _ => [], size, 0, 0⟩

/-- `nr_rlc_clear_rx_manager`. -/
def nrRlcClearRxManager (m : RxManager) : RxManager :=
  { m with rxList := fun _ => [], start := 0, snStart := 0 }

/-- `get_pos`. -/
def getPos (m : RxManager) (sn : ℤ) : ℤ := (m.start + (sn - m.snStart + m.size * 2)) % m.size

/-- `nr_rlc_rx_manager_get_pdu_from_sn`: the list of PDUs stored for an SN. -/
def getPduFromSn (m : RxManager) (sn : ℤ) : List Pdu := m.rxList (getPos m sn)

/-- Write the list stored for an SN. -/
def setPdus (m : RxManager) (sn : ℤ) (l : List Pdu) : RxManager :=
  { m with rxList := Function.update m.rxList (getPos m sn) l }

/-- `nr_rlc_rx_manager_clear_pdu`. -/
def clearPdu (m : RxManager) (sn : ℤ) : RxManager := setPdus m sn []

/-- `nr_rlc_rx_manager_advance` followed by `nr_rlc_rx_manager_set_start`. -/
def advanceTo (m : RxManager) (count snStart : ℤ) : RxManager :=
  { m with start := (m.start + count) % m.size, snStart := snStart }

/-- `nr_rlc_rx_manager_add_pdu`: order by `so`. -/
def addPdu (m : RxManager) (pdu : Pdu) : RxManager :=
  setPdus m pdu.sn
    (insertBefore (fun cur => decide (cur.so > pdu.so)) pdu (getPduFromSn m pdu.sn))

/-! ### The two sides -/

/-- The receiving side of `nr_rlc_entity_am_t`. -/
structure RxState where
  rxNext : ℤ
  rxNextStatusTrigger : ℤ
  rxHighestStatus : ℤ
  rxNextHighest : ℤ
  statusTriggered : Bool
  tReassemblyStart : UInt64
  tStatusProhibitStart : UInt64
  rx : RxManager
  rxSize : ℤ

/-- The transmitting side of `nr_rlc_entity_am_t`; `bstatusTxSize` and `bstatusRetxSize` are the
fields of `common.bstatus`. -/
structure TxState where
  txNext : ℤ
  txNextAck : ℤ
  pollSn : ℤ
  pduWithoutPoll : ℤ
  byteWithoutPoll : ℤ
  forcePoll : Bool
  tPollRetransmitStart : UInt64
  heap : Heap
  txList : List Segment
  txEnd : Option ℕ
  txSize : ℤ
  waitList : List Segment
  waitEnd : Option ℕ
  retransmitList : List Segment
  bstatusTxSize : ℤ
  bstatusRetxSize : ℤ

/-- `nr_rlc_entity_am_t`. -/
structure Entity where
  cfg : Config
  tCurrent : UInt64
  rx : RxState
  tx : TxState

/-- The callbacks.  `sn` and `sdu` are not arguments of the source's callbacks; they say which SDU
the call is about: the SN it was reassembled from, and its place in the heap. -/
inductive Event where
  | deliverSdu (sn : ℤ) (buf : List UInt8)
  | sduSuccessfulDelivery (sdu : ℕ) (sduId : ℤ)
  | maxRetxReached
  deriving Repr, DecidableEq

def RxState.new (size : ℤ) : RxState :=
  ⟨0, 0, 0, 0, false, 0, 0, nrRlcNewRxManager size, 0⟩

def TxState.new : TxState :=
  ⟨0, 0, 0, 0, 0, false, 0, Heap.empty, [], none, 0, [], none, [], 0, 0⟩

/-- `compute_pdu_header_size`. -/
def computePduHeaderSize (c : Config) (sdu : Segment) : ℕ :=
  2 + (if c.snFieldLength = 18 then 1 else 0) + (if !sdu.isFirst then 2 else 0)

/-! ### Sequence numbers -/

/-- `modulus_rx`. -/
def modulusRx (c : Config) (rx : RxState) (a : ℤ) : ℤ :=
  let r := a - rx.rxNext
  if r < 0 then r + c.snModulus else r

/-- `modulus_tx`. -/
def modulusTx (c : Config) (tx : TxState) (a : ℤ) : ℤ :=
  let r := a - tx.txNextAck
  if r < 0 then r + c.snModulus else r

theorem modulusRx_eq (c : Config) (rx : RxState) (a : ℤ) :
    modulusRx c rx a = dist c.snModulus rx.rxNext a := rfl

theorem modulusTx_eq (c : Config) (tx : TxState) (a : ℤ) :
    modulusTx c tx a = dist c.snModulus tx.txNextAck a := rfl

/-- `sn_in_recv_window`. -/
def snInRecvWindow (c : Config) (rx : RxState) (sn : ℤ) : Bool :=
  decide (modulusRx c rx sn < c.windowSize)

/-- `sn_compare_rx`. -/
def snCompareRx (c : Config) (rx : RxState) (a b : ℤ) : ℤ := modulusRx c rx a - modulusRx c rx b

/-- `sn_compare_tx`. -/
def snCompareTx (c : Config) (tx : TxState) (a b : ℤ) : ℤ := modulusTx c tx a - modulusTx c tx b

/-- The SN of the SDU of a segment. -/
def snOf (heap : Heap) (s : Segment) : ℤ := (heap.sdu s.sdu).sn

/-- `nr_rlc_tx_sdu_segment_list_add`: order by `sn`, then by `so`. -/
def nrRlcTxSduSegmentListAdd (c : Config) (tx : TxState) (list : List Segment) (seg : Segment) :
    List Segment :=
  insertBefore
    (fun cur => decide (snCompareTx c tx (snOf tx.heap cur) (snOf tx.heap seg) > 0 ∨
      (snOf tx.heap cur = snOf tx.heap seg ∧ cur.so > seg.so)))
    seg list

end OaiGnb.Rlc.Am
