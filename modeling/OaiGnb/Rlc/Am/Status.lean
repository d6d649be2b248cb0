import OaiGnb.Rlc.Am.Receive

/-!
# Generation of STATUS PDUs

Model of `next_missing`, `generate_missing` and `generate_status`.  A pointer `cur` to a stored PDU
is the list of PDUs from that PDU to the end of its slot; the empty list is NULL.
-/

namespace OaiGnb.Rlc.Am

/-! ### Finding what is missing -/

/-- `missing_data_t`. -/
structure Missing where
  snStart : ℤ
  soStart : ℤ
  snEnd : ℤ
  soEnd : ℤ
  next : List Pdu
  deriving Repr, DecidableEq

section Missing

variable (c : Config) (rx : RxState)

/-- The loop of `get_first_rx_pdu` and `get_next_rx_pdu`: the PDUs of the first SN from `sn` up to
`rx_highest_status` that has any.  `sn_modulus` turns visit every SN. -/
def findRxPdu : ℕ → ℤ → List Pdu
  | 0, sn => getPduFromSn rx.rx sn
  | fuel + 1, sn =>
      if sn = rx.rxHighestStatus then getPduFromSn rx.rx sn
      else
        match getPduFromSn rx.rx sn with
        | [] => findRxPdu fuel ((sn + 1) % c.snModulus)
        | p :: ps => p :: ps

/-- `get_first_rx_pdu`. -/
def getFirstRxPdu : List Pdu := findRxPdu c rx c.snModulus.toNat rx.rxNext

/-- `get_next_rx_pdu` for the PDU `p` followed by `rest` in its slot. -/
def getNextRxPdu (p : Pdu) (rest : List Pdu) : List Pdu :=
  match rest with
  | q :: qs => q :: qs
  | [] =>
      if p.sn = rx.rxHighestStatus then []
      else findRxPdu c rx c.snModulus.toNat ((p.sn + 1) % c.snModulus)

/-- `(rx_highest_status - 1 + sn_modulus) % sn_modulus`. -/
def lastReported : ℤ := (rx.rxHighestStatus - 1 + c.snModulus) % c.snModulus

/-- "don't report if out of reporting window". -/
def outOfReport (sn : ℤ) : Bool := decide (snCompareRx c rx rx.rxHighestStatus sn ≤ 0)

/-- Where `next_missing` stands in a slot: the PDU reached, what follows it in the slot, the last
byte reached and whether the last segment was among the PDUs passed. -/
structure Scan where
  cur : Pdu
  rest : List Pdu
  maxSo : ℤ
  lastReached : Bool

/-- Walk along the slot while there is no discontinuity in the data. -/
def scanSlot : Pdu → List Pdu → ℤ → Bool → Scan
  | p, [], maxSo, lastReached => ⟨p, [], max maxSo (p.so + p.size - 1), lastReached || p.isLast⟩
  | p, q :: rest, maxSo, lastReached =>
      let maxSo := max maxSo (p.so + p.size - 1)
      let lastReached := lastReached || p.isLast
      if q.sn = p.sn ∧ maxSo ≥ q.so - 1 then scanSlot q rest maxSo lastReached
      else ⟨p, q :: rest, maxSo, lastReached⟩

/-- Where the missing part starts when the data of the PDU reached is followed by a gap: the next
SDU if this one is complete, else the next byte. -/
def gapStart (s : Scan) : ℤ × ℤ :=
  if s.lastReached then ((s.cur.sn + 1) % c.snModulus, 0) else (s.cur.sn, s.maxSo + 1)

/-- "no next?": everything up to `rx_highest_status - 1` is missing. -/
def missingToEnd (s : Scan) : Option Missing :=
  let (snStart, soStart) :=
    if s.cur.data.isNone then ((s.cur.sn + 1) % c.snModulus, 0) else gapStart c s
  if outOfReport c rx snStart then none
  else some ⟨snStart, soStart, lastReported c rx, 0xffff, []⟩

/-- `set_end_different_sdu`: the missing part ends before the PDU `q`, and before
`rx_highest_status`. -/
def missingUpTo (snStart soStart : ℤ) (q : Pdu) (rest : List Pdu) : Missing :=
  let (snEnd, soEnd) : ℤ × ℤ :=
    if q.isFirst then ((q.sn - 1 + c.snModulus) % c.snModulus, 0xffff) else (q.sn, q.so - 1)
  if outOfReport c rx snEnd then ⟨snStart, soStart, lastReported c rx, 0xffff, []⟩
  else ⟨snStart, soStart, snEnd, soEnd, q :: rest⟩

/-- The discontinuity between the PDU reached and the next one. -/
def missingBetween (s : Scan) (q : Pdu) (rest : List Pdu) : Option Missing :=
  if q.sn = s.cur.sn then
    if outOfReport c rx s.cur.sn then none
    else some ⟨s.cur.sn, s.maxSo + 1, s.cur.sn, q.so - 1, q :: rest⟩
  else
    if outOfReport c rx (gapStart c s).1 then none
    else some (missingUpTo c rx (gapStart c s).1 (gapStart c s).2 q rest)

/-- The loop at `next_pdu`, one turn per slot; it stops at `rx_highest_status`, so that
`sn_modulus` turns are enough. -/
def nextMissingLoop : ℕ → Pdu → List Pdu → ℤ → Bool → Except Fault (Option Missing)
  | 0, _, _, _, _ => .error .diverges
  | fuel + 1, cur, rest, maxSo, lastReached =>
      let s := scanSlot cur rest maxSo lastReached
      match getNextRxPdu c rx s.cur s.rest with
      | [] => .ok (missingToEnd c rx s)
      | q :: qs =>
          if q.sn = s.cur.sn ∧ s.maxSo ≥ q.so - 1 then
            nextMissingLoop fuel q qs s.maxSo s.lastReached
          else if q.sn = (s.cur.sn + 1) % c.snModulus ∧ s.lastReached ∧ q.isFirst then
            nextMissingLoop fuel q qs 0 false
          else .ok (missingBetween c rx s q qs)

/-- `next_missing`; `none` is `sn_start = -1`. -/
def nextMissing (cur : Pdu) (rest : List Pdu) (checkHead : Bool) :
    Except Fault (Option Missing) :=
  if checkHead && (decide (cur.sn ≠ rx.rxNext) || !cur.isFirst) then
    .ok (if outOfReport c rx rx.rxNext then none
      else some (missingUpTo c rx rx.rxNext 0 cur rest))
  else nextMissingLoop c rx c.snModulus.toNat cur rest 0 false

end Missing

/-! ### Writing the NACKs -/

/-- The parts of a NACK block as they are written: E2, E3 and their fields. -/
structure NackFields where
  snStart : ℤ
  soStart : ℤ
  snEnd : ℤ
  soEnd : ℤ
  snCount : ℤ
  deriving Repr, DecidableEq

/-- E2: the block has `so_start` and `so_end`. -/
def NackFields.e2 (n : NackFields) : Bool := !(decide (n.soStart = 0) && decide (n.soEnd = 0xffff))

/-- E3: the block has a range. -/
def NackFields.e3 (n : NackFields) : Bool := decide (n.snStart ≠ n.snEnd)

/-- `nack_size`. -/
def nackSize (c : Config) (n : NackFields) : ℕ :=
  2 + (if c.snFieldLength = 18 then 1 else 0) + (if n.e2 then 4 else 0) + (if n.e3 then 1 else 0)

/-- The state of the encoder in `generate_status`: the bytes written, the position of the last E1
bit, the position of the last `so_end` and the last NACK. -/
structure StatusWriter where
  enc : Encoder
  e1Byte : ℕ
  e1Bit : ℕ
  soEndAddress : Option ℕ
  lastNack : ℤ
  deriving Repr, DecidableEq

/-- `buffer[byte] |= 1 << bit`. -/
def setBit (buffer : List UInt8) (byte bit : ℕ) : List UInt8 :=
  buffer.modify byte (fun b => b ||| UInt8.ofNat (2 ^ bit))

section Write

variable (c : Config)

/-- The fields of the block behind E3: `so_start` and `so_end`. -/
def putSoFields (n : NackFields) (e : Encoder) : Except Fault Encoder :=
  if n.e2 then do
    let e ← putBits e n.soStart.toNat 16
    putBits e n.soEnd.toNat 16
  else .ok e

/-- The field `range`. -/
def putRange (n : NackFields) (e : Encoder) : Except Fault Encoder :=
  if n.e3 then putBits e n.snCount.toNat 8 else .ok e

/-- A NACK block up to the reserved bits; E1 is 0 and set later if needed. -/
def putNackHead (n : NackFields) (e : Encoder) : Except Fault Encoder := do
  let e ← putBits e n.snStart.toNat c.snFieldLength
  let e ← putBits e 0 1
  let e ← putBits e n.e2.toNat 1
  let e ← putBits e n.e3.toNat 1
  putBits e 0 (if c.snFieldLength = 18 then 3 else 1)

/-- A NACK block. -/
def putNack (n : NackFields) (e : Encoder) : Except Fault Encoder := do
  let e ← putNackHead c n e
  let e ← putSoFields n e
  putRange n e

/-- The number of bytes of a block before `so_start`. -/
def nackHeadSize : ℕ := if c.snFieldLength = 18 then 3 else 2

/-- Write one block: set the previous E1 bit, write the block, remember the new positions. -/
def writeNack (n : NackFields) (w : StatusWriter) : Except Fault StatusWriter := do
  let start := w.enc.byte
  let enc ← putNack c n { w.enc with buffer := setBit w.enc.buffer w.e1Byte w.e1Bit }
  return {
    enc := enc
    e1Byte := if c.snFieldLength = 18 then start + 2 else start + 1
    e1Bit := if c.snFieldLength = 18 then 5 else 3
    soEndAddress := if n.e2 then some (start + nackHeadSize c + 2) else none
    lastNack := if n.e3 then n.snStart + (n.snCount - 1) else n.snStart }

/-- The block for the first `min snCount 255` SDUs of the missing part. -/
def nackFields (m : Missing) (snStart snCount : ℤ) : NackFields :=
  let curSnCount := min snCount 255
  { snStart := snStart
    soStart := if snStart = m.snStart then m.soStart else 0
    snEnd := if curSnCount = snCount then m.snEnd else (snStart + 254) % c.snModulus
    soEnd := if curSnCount = snCount then m.soEnd else 0xffff
    snCount := curSnCount }

/-- The loop of `generate_missing`; the flag is `generation_truncated`. -/
def generateMissingLoop (m : Missing) : ℕ → ℤ → ℤ → StatusWriter →
    Except Fault (StatusWriter × Bool)
  | 0, _, _, w => .ok (w, false)
  | fuel + 1, snStart, snCount, w =>
      if snCount = 0 then .ok (w, false)
      else
        let n := nackFields c m snStart snCount
        if w.enc.byte + nackSize c n > w.enc.size then .ok (w, true)
        else do
          let w ← writeNack c n w
          generateMissingLoop m fuel ((snStart + n.snCount) % c.snModulus) (snCount - n.snCount) w

/-- `generate_missing`. -/
def generateMissing (m : Missing) (w : StatusWriter) : Except Fault (StatusWriter × Bool) :=
  let snCount := (m.snEnd - m.snStart + c.snModulus) % c.snModulus + 1
  generateMissingLoop c m snCount.toNat m.snStart snCount w

/-- "if generation was truncated and so_end was put, we force its value to 0xffff". -/
def forceSoEnd (w : StatusWriter) : StatusWriter :=
  match w.soEndAddress with
  | none => w
  | some a => { w with enc := { w.enc with buffer := (w.enc.buffer.set a 0xff).set (a + 1) 0xff } }

/-- The loop of `generate_status`.  A turn writes at least one block or is the last one. -/
def generateStatusLoop (rx : RxState) : ℕ → List Pdu → Bool → StatusWriter →
    Except Fault StatusWriter
  | 0, _, _, _ => .error .diverges
  | _ + 1, [], _, w => .ok w
  | fuel + 1, cur :: rest, checkHead, w => do
      let m ← nextMissing c rx cur rest checkHead
      match m with
      | none => .ok w
      | some m => do
          let (w, truncated) ← generateMissing c m w
          if truncated then generateStatusLoop rx fuel [] false (forceSoEnd w)
          else generateStatusLoop rx fuel m.next false w

/-- Put `ack_sn` in the first three bytes. -/
def putAckSn (ackSn : ℕ) (buffer : List UInt8) : List UInt8 :=
  if c.snFieldLength = 12 then
    (buffer.set 0 (UInt8.ofNat (ackSn / 2 ^ 8))).set 1 (UInt8.ofNat (ackSn % 256))
  else
    ((buffer.set 0 (UInt8.ofNat (ackSn / 2 ^ 14))).set 1 (UInt8.ofNat (ackSn / 2 ^ 6 % 256))).modify
      2 (fun b => b ||| UInt8.ofNat (ackSn % 64 * 4))

/-- `generate_status`; the empty PDU is the return value 0. -/
def generateStatus (now : UInt64) (rx : RxState) (size : ℕ) :
    Except Fault (RxState × List UInt8) :=
  if size < 3 then return (rx, [])
  else do
    let enc ← putBits (Encoder.init size) 0 24
    let w ← generateStatusLoop c rx (size + 1) (getFirstRxPdu c rx) true
      { enc := enc
        e1Byte := 2
        e1Bit := if c.snFieldLength = 18 then 1 else 7
        soEndAddress := none
        lastNack := (rx.rxNext - 1 + c.snModulus) % c.snModulus }
    let ackSn := (w.lastNack + 1) % c.snModulus
    return ({ rx with statusTriggered := false, tStatusProhibitStart := now },
      putAckSn c ackSn.toNat w.enc.buffer)

end Write

/-- `status_to_report`. -/
def statusToReport (c : Config) (now : UInt64) (rx : RxState) : Bool :=
  rx.statusTriggered &&
    decide (rx.tStatusProhibitStart = 0 ∨ now - rx.tStatusProhibitStart > c.tStatusProhibit)

end OaiGnb.Rlc.Am
