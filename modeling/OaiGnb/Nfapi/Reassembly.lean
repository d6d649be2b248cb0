import OaiGnb.Lib.Run
import Mathlib.Data.Finset.Card
import Mathlib.Algebra.Order.BigOperators.Group.List

/-!
# Reassembly of P7 messages at the PNF

`pnf_nr_reassemble_nfapi_p7_message` of `socket_pnf.c` with the queue functions of `pnf_p7.c`.  The
segments of a message are kept per sequence number until as many have arrived as the last one says.

Arrivals are counted, whichever segment they bring, and a segment that arrives again takes the place
of the stored one, whose buffer is lost.  A message is thus complete when the count is right, even
if a segment is missing; and the length of a segment is kept in sixteen bits.

* `Entry`: what is known of the segments of one sequence number.
* `reassembly_safe`: without repeated, surplus and cut segments, messages are whole.
-/

namespace OaiGnb.Nfapi

open Run

inductive Fault where
  | outOfBounds
  deriving Repr, DecidableEq

/-! ### The header -/

/-- `NFAPI_NR_P7_HEADER_LENGTH`. -/
def headerLength : ℕ := 18

/-- `m_segment_sequence`, behind `phy_id`, `message_id` and `message_length`. -/
def mSegmentSequence (msg : List UInt8) : ℕ := 256 * (msg.getD 8 0).toNat + (msg.getD 9 0).toNat

/-- `NFAPI_P7_GET_MORE`. -/
def getMore (msg : List UInt8) : ℕ := mSegmentSequence msg / 2 ^ 15 % 2

/-- `NFAPI_P7_GET_SEGMENT`. -/
def getSegment (msg : List UInt8) : ℕ := mSegmentSequence msg / 2 ^ 8 % 2 ^ 7

/-- `NFAPI_P7_GET_SEQUENCE`. -/
def getSequence (msg : List UInt8) : ℕ := mSegmentSequence msg % 2 ^ 8

/-! ### The queue -/

/-- `pnf_p7_rx_message_t`; a segment is the buffer allocated for it, or NULL. -/
structure RxMessage where
  sequenceNumber : ℕ
  numSegmentsReceived : ℕ
  numSegmentsExpected : ℕ
  segments : ℕ → Option (List UInt8)
  rxHrTime : UInt32

/-- The parts of `pnf_p7_t` that are used: the queue, and the allocated size of the reassembly
buffer (`none` for NULL) with the size the code notes.  `received` are the datagrams so far. -/
structure PnfP7 where
  msgQueue : List RxMessage
  reassemblyBuffer : Option ℕ
  reassemblyBufferSize : ℕ
  received : List (List UInt8)

/-- The messages handed on and the segment buffers that nothing points to any more. -/
structure Output where
  handed : List (List UInt8)
  leaked : List (List UInt8)

/-- A further segment of a message. -/
def RxMessage.store (msg : RxMessage) (segment m : ℕ) (data : List UInt8) : RxMessage :=
  { msg with
    segments := Function.update msg.segments segment (some data)
    numSegmentsReceived := (msg.numSegmentsReceived + 1) % 256
    numSegmentsExpected := if m = 0 then segment + 1 else msg.numSegmentsExpected }

/-- The first segment of a message. -/
def newMessage (now : UInt32) (sequence segment m : ℕ) (data : List UInt8) : RxMessage :=
  { sequenceNumber := sequence
    numSegmentsReceived := 1
    numSegmentsExpected := if m = 0 then segment + 1 else 255
    segments := Function.update (fun _ => none) segment (some data)
    rxHrTime := now }

/-- Write through the pointer to the first message with its sequence number. -/
def writeBack (msg : RxMessage) : List RxMessage → List RxMessage
  | [] => []
  | q :: queue =>
      if q.sequenceNumber = msg.sequenceNumber then msg :: queue else q :: writeBack msg queue

/-- The message a sequence number has in the queue. -/
def findMsg (queue : List RxMessage) (sequence : ℕ) : Option RxMessage :=
  queue.find? (fun q => q.sequenceNumber == sequence)

/-- `pnf_p7_rx_reassembly_queue_add_segment`: the message, the queue and the buffer that the segment
pointed to before. -/
def queueAddSegment (queue : List RxMessage) (now : UInt32) (sequence segment m : ℕ)
    (data : List UInt8) : RxMessage × List RxMessage × List (List UInt8) :=
  match findMsg queue sequence with
  | some msg =>
      (msg.store segment m data, writeBack (msg.store segment m data) queue,
        (msg.segments segment).toList)
  | none =>
      let msg := newMessage now sequence segment m data
      (msg, msg :: queue, [])

/-- `pnf_p7_rx_reassembly_queue_remove_msg`. -/
def queueRemoveMsg (queue : List RxMessage) (msg : RxMessage) : List RxMessage :=
  queue.eraseP (fun q => q.sequenceNumber == msg.sequenceNumber)

/-- `pnf_p7_rx_reassembly_queue_remove_old_msgs`; the difference wraps. -/
def queueRemoveOldMsgs (queue : List RxMessage) (now delta : UInt32) : List RxMessage :=
  queue.filter (fun q => !decide (now - q.rxHrTime > delta))

/-! ### Reassembly -/

/-- What a segment adds to the length. -/
def RxMessage.segmentLength (msg : RxMessage) (i : ℕ) : ℤ :=
  ((msg.segments i).getD []).length - if i > 0 then headerLength else 0

/-- The length of the message, a `uint32_t`. -/
def RxMessage.length (msg : RxMessage) : ℕ :=
  (((List.range msg.numSegmentsExpected).map msg.segmentLength).sum % 2 ^ 32).toNat

/-- One `memcpy` into a buffer of `capacity` octets; `copied` is what is there already.  The length
of a segment behind the first is taken less the header, and wraps when there is no header. -/
def copySegment (capacity : ℕ) (msg : RxMessage) (copied : List UInt8) (i : ℕ) :
    Except Fault (List UInt8) :=
  let data := (msg.segments i).getD []
  if 0 < i ∧ data.length < headerLength then .error .outOfBounds
  else
    let body := if i = 0 then data else data.drop headerLength
    if capacity < copied.length + body.length then .error .outOfBounds else .ok (copied ++ body)

/-- The reassembly buffer is made large enough and filled.  There are 128 segments. -/
def reassemble (s : PnfP7) (msg : RxMessage) : Except Fault (PnfP7 × List UInt8) :=
  if 128 < msg.numSegmentsExpected then .error .outOfBounds
  else do
    let buffer := if s.reassemblyBufferSize < msg.length then none else s.reassemblyBuffer
    let capacity := buffer.getD msg.length
    let size := if buffer.isNone then msg.length else s.reassemblyBufferSize
    let message ← (List.range msg.numSegmentsExpected).foldlM (copySegment capacity msg) []
    return ({ s with reassemblyBuffer := some capacity, reassemblyBufferSize := size }, message)

/-- The datagram is kept as a segment: it has a header and a right checksum, and is not a whole
message. -/
def isSegment (checksumOk : List UInt8 → Bool) (msg : List UInt8) : Bool :=
  decide (headerLength ≤ msg.length) && checksumOk msg &&
    !(decide (getMore msg = 0) && decide (getSegment msg = 0))

/-- What is stored of a datagram: its length is passed as a `uint16_t`. -/
def segmentData (msg : List UInt8) : List UInt8 := msg.take (msg.length % 2 ^ 16)

/-- `pnf_nr_reassemble_nfapi_p7_message`.  A datagram without a header or with a wrong checksum is
dropped. -/
def reassembleNfapiP7Message (checksumOk : List UInt8 → Bool) (s : PnfP7)
    (i : List UInt8 × UInt32) : Except Fault (PnfP7 × Output) :=
  let (msg, now) := i
  let s := { s with received := s.received ++ [msg] }
  if msg.length < headerLength ∨ checksumOk msg = false then return (s, ⟨[], []⟩)
  else if isSegment checksumOk msg = false then
    return ({ s with msgQueue := queueRemoveOldMsgs s.msgQueue now 10000 }, ⟨[msg], []⟩)
  else
    let (rxMsg, queue, leaked) := queueAddSegment s.msgQueue now (getSequence msg) (getSegment msg)
      (getMore msg) (segmentData msg)
    if rxMsg.numSegmentsReceived = rxMsg.numSegmentsExpected then do
      let (s, message) ← reassemble s rxMsg
      return ({ s with msgQueue := queueRemoveOldMsgs (queueRemoveMsg queue rxMsg) now 10000 },
        ⟨[message], leaked⟩)
    else return ({ s with msgQueue := queueRemoveOldMsgs queue now 10000 }, ⟨[], leaked⟩)

/-- A PNF that has received nothing. -/
def PnfP7.new : PnfP7 := ⟨[], none, 0, []⟩

/-! ### Whole messages -/

/-- A segment of the message: a datagram with the sequence number and the number of the segment. -/
structure IsPart (received : List (List UInt8)) (sequence i : ℕ) (data : List UInt8) : Prop where
  received : data ∈ received
  header : headerLength ≤ data.length
  length : data.length < 2 ^ 16
  sequence : getSequence data = sequence
  segment : getSegment data = i

/-- The octets that a segment brings. -/
def body (parts : ℕ → List UInt8) (i : ℕ) : List UInt8 :=
  if i = 0 then parts 0 else (parts i).drop headerLength

/-- The message is segment 0 and the bodies of the others up to the one without `more`, all of one
sequence number and all received. -/
def Whole (received : List (List UInt8)) (message : List UInt8) : Prop :=
  message ∈ received ∧ getSegment message = 0 ∧ getMore message = 0 ∨
  ∃ (n sequence : ℕ) (parts : ℕ → List UInt8),
    (∀ i ≤ n, IsPart received sequence i (parts i)) ∧ getMore (parts n) = 0 ∧
    message = parts 0 ++ (List.range n).flatMap (fun i => (parts (i + 1)).drop headerLength)

/-- The segment does no harm: it is not cut, it does not repeat a stored one, and it does not
complete a message that has a segment behind its end. -/
def Regular (checksumOk : List UInt8 → Bool) (s : PnfP7) (i : List UInt8 × UInt32) : Prop :=
  isSegment checksumOk i.1 = true → i.1.length < 2 ^ 16 ∧
    ∀ msg, findMsg s.msgQueue (getSequence i.1) = some msg →
      msg.segments (getSegment i.1) = none ∧
      let msg' := msg.store (getSegment i.1) (getMore i.1) i.1
      msg'.numSegmentsReceived = msg'.numSegmentsExpected →
        ∀ k, msg'.numSegmentsExpected ≤ k → msg'.segments k = none

/-- The numbers of the stored segments. -/
def RxMessage.stored (msg : RxMessage) : Finset ℕ :=
  (Finset.range 128).filter (fun k => (msg.segments k).isSome = true)

/-- **The segments of one sequence number** are datagrams received, and are counted right. -/
structure Entry (received : List (List UInt8)) (msg : RxMessage) : Prop where
  parts : ∀ k data, msg.segments k = some data → IsPart received msg.sequenceNumber k data
  count : msg.numSegmentsReceived = msg.stored.card
  expected : msg.numSegmentsExpected = 255 ∨ ∃ k data, msg.segments k = some data ∧
    getMore data = 0 ∧ msg.numSegmentsExpected = k + 1

section

variable {received : List (List UInt8)} {msg : RxMessage} {data : List UInt8} {s : PnfP7}

theorem getSegment_lt (d : List UInt8) : getSegment d < 128 := Nat.mod_lt _ (by decide)

theorem IsPart.mono {sequence i : ℕ} (h : IsPart received sequence i data) (d : List UInt8) :
    IsPart (received ++ [d]) sequence i data :=
  { h with received := List.mem_append_left _ h.received }

theorem Entry.mono (h : Entry received msg) (d : List UInt8) : Entry (received ++ [d]) msg :=
  { h with parts := fun k b hb => (h.parts k b hb).mono d }

theorem stored_card_le (msg : RxMessage) : msg.stored.card ≤ 128 := by
  have := Finset.card_filter_le (Finset.range 128) (fun k => (msg.segments k).isSome = true)
  rwa [Finset.card_range] at this

theorem stored_update {segs : ℕ → Option (List UInt8)} {k : ℕ} (hk : k < 128)
    (hnone : segs k = none) (data : List UInt8) :
    ((Finset.range 128).filter (fun i => (Function.update segs k (some data) i).isSome = true)).card
      = ((Finset.range 128).filter (fun i => (segs i).isSome = true)).card + 1 := by
  rw [← Finset.card_insert_of_notMem (a := k) (by simp [hnone])]
  congr 1
  grind

/-- A datagram that is not stored yet is added to its message. -/
theorem Entry.store (h : Entry received msg)
    (hp : IsPart received msg.sequenceNumber (getSegment data) data)
    (hnone : msg.segments (getSegment data) = none) :
    Entry received (msg.store (getSegment data) (getMore data) data) := by
  have hcard : (msg.store (getSegment data) (getMore data) data).stored.card =
      msg.stored.card + 1 := stored_update (getSegment_lt data) hnone data
  refine ⟨?_, ?_, ?_⟩
  · intro k b hb
    change Function.update msg.segments (getSegment data) (some data) k = some b at hb
    by_cases hk : k = getSegment data
    · subst hk
      rw [Function.update_self] at hb
      exact Option.some.inj hb ▸ hp
    · rw [Function.update_of_ne hk] at hb
      exact h.parts k b hb
  · have := stored_card_le (msg.store (getSegment data) (getMore data) data)
    rw [hcard] at this ⊢
    show (msg.numSegmentsReceived + 1) % 256 = _
    rw [h.count]
    omega
  · show (if getMore data = 0 then getSegment data + 1 else msg.numSegmentsExpected) = 255 ∨ ∃ k b,
      Function.update msg.segments (getSegment data) (some data) k = some b ∧ getMore b = 0 ∧
      (if getMore data = 0 then getSegment data + 1 else msg.numSegmentsExpected) = k + 1
    split
    · simp_all
    · rcases h.expected with h255 | ⟨k, b, hb, hm, he⟩
      · exact Or.inl h255
      · refine Or.inr ⟨k, b, ?_, hm, he⟩
        grind

theorem entry_new (now : UInt32) (hp : IsPart received (getSequence data) (getSegment data) data) :
    Entry received (newMessage now (getSequence data) (getSegment data) (getMore data) data) := by
  have hstart : Entry received ⟨getSequence data, 0, 255, fun _ => none, now⟩ :=
    ⟨fun _ _ h => (by cases h), by simp [RxMessage.stored], Or.inl rfl⟩
  exact hstart.store hp rfl

/-! ### Copying -/

/-- The segments 0 to `n - 1` are there. -/
def Holds (msg : RxMessage) (parts : ℕ → List UInt8) (n : ℕ) : Prop :=
  ∀ i < n, msg.segments i = some (parts i) ∧ headerLength ≤ (parts i).length ∧
    (parts i).length < 2 ^ 16

variable {parts : ℕ → List UInt8} {n : ℕ}

theorem Holds.length_eq (h : Holds msg parts n) :
    ((List.range n).map msg.segmentLength).sum = ((List.range n).flatMap (body parts)).length ∧
    ((List.range n).flatMap (body parts)).length ≤ n * 2 ^ 16 := by
  induction n with
  | zero => exact ⟨rfl, le_rfl⟩
  | succ n ih =>
    obtain ⟨hseg, hhead, hlen⟩ := h n (Nat.lt_succ_self n)
    obtain ⟨hsum, hle⟩ := ih (fun i hi => h i (by omega))
    rw [List.range_succ, List.map_append, List.sum_append, hsum, List.flatMap_append,
      List.length_append]
    simp only [List.map_cons, List.map_nil, List.sum_cons, List.sum_nil, List.flatMap_cons,
      List.flatMap_nil, List.append_nil, RxMessage.segmentLength, hseg, Option.getD_some, body]
    grind

theorem Holds.copies (h : Holds msg parts n) {capacity : ℕ}
    (hcap : ((List.range n).flatMap (body parts)).length ≤ capacity) :
    (List.range n).foldlM (copySegment capacity msg) [] =
      .ok ((List.range n).flatMap (body parts)) := by
  induction n with
  | zero => rfl
  | succ n ih =>
    obtain ⟨hseg, hhead, _⟩ := h n (Nat.lt_succ_self n)
    rw [List.range_succ, List.flatMap_append, List.length_append] at hcap
    rw [List.range_succ, List.foldlM_append, ih (fun i hi => h i (by omega)) (by omega), ok_bind,
      List.flatMap_append]
    have hbody : [n].flatMap (body parts) =
        if n = 0 then parts n else (parts n).drop headerLength := by
      rw [List.flatMap_singleton, body]
      split
      next hn =>
        rw [hn]
      · rfl
    rw [hbody] at hcap ⊢
    show (copySegment capacity msg _ n >>= pure) = _
    rw [copySegment, hseg, Option.getD_some, if_neg (by omega)]
    simp_all

/-- A message with the right count and nothing behind its end has all its segments. -/
theorem Entry.complete (h : Entry received msg)
    (hdone : msg.numSegmentsReceived = msg.numSegmentsExpected)
    (hend : ∀ k, msg.numSegmentsExpected ≤ k → msg.segments k = none) :
    ∃ (n : ℕ) (parts : ℕ → List UInt8), msg.numSegmentsExpected = n + 1 ∧ n < 128 ∧
      (∀ i ≤ n, msg.segments i = some (parts i)) ∧ getMore (parts n) = 0 := by
  have hcount := h.count
  have hle := stored_card_le msg
  rcases h.expected with h255 | ⟨n, data, hdata, hmore, hn⟩
  · omega
  have hlt : n < 128 := (h.parts n data hdata).segment ▸ getSegment_lt data
  have hsub : msg.stored ⊆ Finset.range (n + 1) := by
    intro i hi
    by_contra hout
    have hnone := hend i (by rw [hn]; simpa using hout)
    simp [RxMessage.stored, hnone] at hi
  have hall := Finset.eq_of_subset_of_card_le hsub (by rw [Finset.card_range]; omega)
  have hsome : ∀ i ≤ n, msg.segments i = some ((msg.segments i).getD []) := by
    intro i hi
    have hmem : i ∈ msg.stored := by rw [hall, Finset.mem_range]; omega
    obtain ⟨b, hb⟩ := Option.isSome_iff_exists.mp (Finset.mem_filter.mp hmem).2
    rw [hb, Option.getD_some]
  refine ⟨n, fun i => (msg.segments i).getD [], hn, hlt, hsome, ?_⟩
  grind

/-- The size that the code notes is that of the buffer. -/
def BufferOk (s : PnfP7) : Prop :=
  ∀ capacity, s.reassemblyBuffer = some capacity → capacity = s.reassemblyBufferSize

/-- **A complete message is copied inside the buffer**, and is whole. -/
theorem reassemble_whole (h : Entry received msg)
    (hdone : msg.numSegmentsReceived = msg.numSegmentsExpected)
    (hend : ∀ k, msg.numSegmentsExpected ≤ k → msg.segments k = none) (hbuf : BufferOk s) :
    ∃ s' message, reassemble s msg = .ok (s', message) ∧ Whole received message ∧ BufferOk s' ∧
      s'.received = s.received := by
  obtain ⟨n, parts, hn, hlt, hsome, hmore⟩ := h.complete hdone hend
  have hparts : ∀ i ≤ n, IsPart received msg.sequenceNumber i (parts i) :=
    fun i hi => h.parts i _ (hsome i hi)
  have hholds : Holds msg parts (n + 1) := fun i hi =>
    ⟨hsome i (by omega), (hparts i (by omega)).header, (hparts i (by omega)).length⟩
  obtain ⟨hsum, hbound⟩ := hholds.length_eq
  have hlen : msg.length = ((List.range (n + 1)).flatMap (body parts)).length := by
    rw [RxMessage.length, hn, hsum, Int.emod_eq_of_lt (Int.natCast_nonneg _) (by omega)]
    exact Int.toNat_natCast _
  have hwhole : Whole received ((List.range (n + 1)).flatMap (body parts)) := by
    refine Or.inr ⟨n, msg.sequenceNumber, parts, hparts, hmore, ?_⟩
    rw [List.range_succ_eq_map, List.flatMap_cons, List.flatMap_map]
    rfl
  rw [reassemble, if_neg (by omega)]
  dsimp only
  by_cases hsize : s.reassemblyBufferSize < msg.length
  · rw [if_pos hsize, hn, Option.getD_none, hholds.copies (by omega), ok_bind]
    refine ⟨_, _, rfl, hwhole, ?_, rfl⟩
    intro capacity hcap
    exact (Option.some.inj hcap).symm
  · rw [if_neg hsize]
    cases hb : s.reassemblyBuffer with
    | none =>
      rw [hn, Option.getD_none, hholds.copies (by omega), ok_bind]
      refine ⟨_, _, rfl, hwhole, ?_, rfl⟩
      intro capacity hcap
      exact (Option.some.inj hcap).symm
    | some capacity =>
      have hcap := hbuf capacity hb
      rw [hn, Option.getD_some, hholds.copies (by omega), ok_bind]
      refine ⟨_, _, rfl, hwhole, ?_, rfl⟩
      intro capacity' hcap'
      simp_all

/-! ### Every datagram -/

/-- **The invariant**: every message of the queue has the segments received for it. -/
structure Inv (s : PnfP7) : Prop where
  queue : ∀ msg ∈ s.msgQueue, Entry s.received msg
  buffer : BufferOk s

theorem mem_writeBack {q : RxMessage} {queue : List RxMessage} (h : q ∈ writeBack msg queue) :
    q = msg ∨ q ∈ queue := by
  induction queue with
  | nil => cases h
  | cons a queue ih =>
    rw [writeBack] at h
    grind

/-- **The step.** -/
theorem step_safe {checksumOk : List UInt8 → Bool} (hinv : Inv s) {i : List UInt8 × UInt32}
    (hreg : Regular checksumOk s i) :
    ∃ s' o, reassembleNfapiP7Message checksumOk s i = .ok (s', o) ∧ Inv s' ∧ o.leaked = [] ∧
      ∀ message ∈ o.handed, Whole s'.received message := by
  obtain ⟨d, now⟩ := i
  have hold : ∀ msg ∈ s.msgQueue, Entry (s.received ++ [d]) msg :=
    fun msg hm => (hinv.queue msg hm).mono d
  have hkeep : ∀ {queue : List RxMessage}, (∀ q ∈ queue, Entry (s.received ++ [d]) q) →
      ∀ q ∈ queueRemoveOldMsgs queue now 10000, Entry (s.received ++ [d]) q :=
    fun h q hq => h q (List.mem_of_mem_filter hq)
  rw [reassembleNfapiP7Message]
  dsimp only
  split
  · exact ⟨_, _, rfl, ⟨hold, hinv.buffer⟩, rfl, fun _ h => (List.not_mem_nil h).elim⟩
  rename_i hok
  rw [not_or, Nat.not_lt, Bool.not_eq_false] at hok
  split
  next hseg =>
    refine ⟨_, _, rfl, ⟨hkeep hold, hinv.buffer⟩, rfl, ?_⟩
    intro message hm
    obtain rfl := List.mem_singleton.mp hm
    simp only [isSegment, hok, decide_true, Bool.true_and, Bool.not_eq_false', Bool.and_eq_true,
      decide_eq_true_eq] at hseg
    exact Or.inl ⟨by simp, hseg.2, hseg.1⟩
  rename_i hseg
  rw [Bool.not_eq_false] at hseg
  obtain ⟨hlen, hfind⟩ := hreg hseg
  have hpart : IsPart (s.received ++ [d]) (getSequence d) (getSegment d) d :=
    ⟨by simp, hok.1, hlen, rfl, rfl⟩
  have hdata : segmentData d = d := by
    rw [segmentData, Nat.mod_eq_of_lt hlen, List.take_length]
  rw [hdata, queueAddSegment]
  cases hf : findMsg s.msgQueue (getSequence d) with
  | none =>
    have hnot :
        ¬ (newMessage now (getSequence d) (getSegment d) (getMore d) d).numSegmentsReceived =
        (newMessage now (getSequence d) (getSegment d) (getMore d) d).numSegmentsExpected := by
      show ¬ 1 = if getMore d = 0 then getSegment d + 1 else 255
      simp only [isSegment, Bool.and_eq_true, Bool.not_eq_true', Bool.and_eq_false_iff,
        decide_eq_false_iff_not] at hseg
      split <;> omega
    dsimp only
    rw [if_neg hnot]
    refine ⟨_, _, rfl, ⟨hkeep ?_, hinv.buffer⟩, rfl, fun _ h => (List.not_mem_nil h).elim⟩
    intro q hq
    rcases List.mem_cons.mp hq with rfl | hq
    · exact entry_new now hpart
    · exact hold q hq
  | some msg =>
    obtain ⟨hnone, hend⟩ := hfind msg hf
    have hseq : msg.sequenceNumber = getSequence d := by
      have := List.find?_some (p := fun q : RxMessage => q.sequenceNumber == getSequence d) hf
      exact eq_of_beq this
    have hentry : Entry (s.received ++ [d]) (msg.store (getSegment d) (getMore d) d) :=
      (hold msg (List.mem_of_find?_eq_some hf)).store (hseq ▸ hpart) hnone
    have hqueue : ∀ q ∈ writeBack (msg.store (getSegment d) (getMore d) d) s.msgQueue,
        Entry (s.received ++ [d]) q := by
      intro q hq
      rcases mem_writeBack hq with rfl | hq
      · exact hentry
      · exact hold q hq
    dsimp only
    rw [hnone]
    split
    next hdone =>
      obtain ⟨s', message, hre, hwhole, hbuf, hrec⟩ := reassemble_whole
        (s := { s with received := s.received ++ [d] }) hentry hdone (hend hdone) hinv.buffer
      rw [hre, ok_bind]
      refine ⟨_, _, rfl, ⟨?_, hbuf⟩, rfl, ?_⟩
      · grind [queueRemoveOldMsgs, queueRemoveMsg, List.mem_of_mem_eraseP]
      · simp_all
    · exact ⟨_, _, rfl, ⟨hkeep hqueue, hinv.buffer⟩, rfl, fun _ h => (List.not_mem_nil h).elim⟩

end

/-- **Reassembly is safe and complete.**  As long as no segment is cut, repeated or behind the end,
the next datagram is copied inside its buffers, no segment buffer is lost, and what is handed on is
a whole message. -/
theorem reassembly_safe (checksumOk : List UInt8 → Bool) {s : PnfP7} {i : List UInt8 × UInt32}
    (h : Reachable (reassembleNfapiP7Message checksumOk) (Regular checksumOk) PnfP7.new s)
    (hreg : Regular checksumOk s i) :
    ∃ s' o, reassembleNfapiP7Message checksumOk s i = .ok (s', o) ∧ o.leaked = [] ∧
      ∀ message ∈ o.handed, Whole s'.received message := by
  have hinv : Inv s := by
    refine Reachable.invariant Inv ⟨fun _ h => (List.not_mem_nil h).elim, fun _ h => ?_⟩ ?_ h
    · cases h
    intro s i s' o hinv hreg hs
    obtain ⟨_, _, hs', hinv', _⟩ := step_safe hinv hreg
    rw [hs] at hs'
    obtain ⟨rfl, _⟩ := ok_inj hs'
    exact hinv'
  grind [step_safe]

/-- A segment of 20 octets. -/
def sampleSegment (m segment octet : UInt8) : List UInt8 :=
  [0, 0, 0, 0, 0, 0, 0, 0, 128 * m + segment, 7, 0, 0, 0, 0, 0, 0, 0, 0, octet, octet]

/-- The second of two segments. -/
theorem reassembly_safe_two : ∃ s, Regular (fun _ => true) s (sampleSegment 0 1 2, 5) ∧
    ∃ s' o, reassembleNfapiP7Message (fun _ => true) s (sampleSegment 0 1 2, 5) = .ok (s', o) ∧
      o.leaked = [] ∧ ∀ message ∈ o.handed, Whole s'.received message := by
  have hreg₁ : Regular (fun _ => true) PnfP7.new (sampleSegment 1 0 1, 0) :=
    fun _ => ⟨by decide, fun _ h => (by cases h)⟩
  have h₁ : Reachable (reassembleNfapiP7Message fun _ => true) (Regular fun _ => true) PnfP7.new
      ⟨[newMessage 0 7 0 1 (sampleSegment 1 0 1)], none, 0, [sampleSegment 1 0 1]⟩ :=
    .step .start hreg₁ (o := ⟨[], []⟩) rfl
  have hreg₂ : Regular (fun _ => true)
      ⟨[newMessage 0 7 0 1 (sampleSegment 1 0 1)], none, 0, [sampleSegment 1 0 1]⟩
      (sampleSegment 0 1 2, 5) := by
    refine fun _ => ⟨by decide, fun msg hm => ?_⟩
    obtain rfl : newMessage 0 7 0 1 (sampleSegment 1 0 1) = msg := Option.some.inj hm
    refine ⟨rfl, fun _ k hk => ?_⟩
    change 2 ≤ k at hk
    show Function.update (Function.update (fun _ => none) 0 (some (sampleSegment 1 0 1))) 1
      (some (sampleSegment 0 1 2)) k = none
    rw [Function.update_of_ne (by omega), Function.update_of_ne (by omega)]
  exact ⟨_, hreg₂, reassembly_safe _ h₁ hreg₂⟩

/-- **A hole.**  Segment 0 arrives twice and segment 2 is the last: three arrivals of three, and
segment 1, which is missing, is copied. -/
theorem not_reassembly_safe_repeated : ¬ ∀ (checksumOk : List UInt8 → Bool) (s : PnfP7)
    (i : List UInt8 × UInt32),
    Reachable (reassembleNfapiP7Message checksumOk) (fun _ i => 1 ≤ i.1.length) PnfP7.new s →
    1 ≤ i.1.length →
    ∃ s' o, reassembleNfapiP7Message checksumOk s i = .ok (s', o) ∧ o.leaked = [] ∧
      ∀ message ∈ o.handed, Whole s'.received message := by
  intro hall
  obtain ⟨⟨s, os⟩, hrun, hobs⟩ := exists_of_observed
    (x := run (reassembleNfapiP7Message fun _ => true) PnfP7.new
      [(sampleSegment 1 0 1, 0), (sampleSegment 1 0 1, 0)])
    (f := fun p => (reassembleNfapiP7Message (fun _ => true) p.1 (sampleSegment 0 2 3, 0)).isOk)
    (b := false) (by decide +kernel)
  obtain ⟨s', o, hs, _⟩ := hall (fun _ => true) s (sampleSegment 0 2 3, 0)
    (Reachable.start.of_run (fun _ i hi => by
      obtain rfl : i = (sampleSegment 1 0 1, 0) := by simpa using hi
      decide) hrun) (by decide)
  rw [hs] at hobs
  cases hobs

end OaiGnb.Nfapi
