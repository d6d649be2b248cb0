import OaiGnb.Lib.Run
import OaiGnb.Lib.SortedList

/-!
# The PDCP entity

Model of `nr_pdcp_entity.c` and `nr_pdcp_sdu.c`.  COUNT values are `uint32_t` in the source; here
they are natural numbers and every addition and shift is taken modulo `2 ^ 32`.  The cipher and
integrity algorithms are the parameter `Crypto`: a cipher is an XOR with a keystream, an integrity
algorithm computes four bytes.  Statistics, logging and `check_integrity`, which reads the state
for RRC, are left out, as is the COUNT interface used at handover.
-/

namespace OaiGnb.Pdcp

open SortedList

/-- A call that ends the process. -/
inductive Fault where
  | exit
  | devAssert
  deriving Repr, DecidableEq

/-- `nr_pdcp_entity_type_t`. -/
inductive EntityType where
  | drbAm
  | drbUm
  | srb
  deriving Repr, DecidableEq

/-- The configuration fields of `nr_pdcp_entity_t`. -/
structure Config where
  type : EntityType
  isGnb : Bool
  rbId : ℤ
  hasSdapRx : Bool
  hasSdapTx : Bool
  snSize : ℕ
  tReordering : ℤ
  deriving Repr, DecidableEq

/-- `sn_max`. -/
def Config.snMax (c : Config) : ℕ := 2 ^ c.snSize - 1

/-- `window_size`. -/
def Config.windowSize (c : Config) : ℤ := 2 ^ (c.snSize - 1)

/-! ### Security -/

/-- `nr_pdcp_entity_security_keys_and_algos_t`; `-1` keeps the algorithm and key in use. -/
structure KeysAndAlgos where
  integrityAlgorithm : ℤ
  cipheringAlgorithm : ℤ
  integrityKey : List UInt8
  cipheringKey : List UInt8
  deriving Repr, DecidableEq

/-- The cipher and integrity algorithms.  `keystream` and `mac` take the algorithm, the key, the
bearer, the COUNT and the direction. -/
structure Crypto where
  keystream : ℤ → List UInt8 → ℤ → ℕ → ℕ → ℕ → UInt8
  mac : ℤ → List UInt8 → ℤ → ℕ → ℕ → List UInt8 → List UInt8
  mac_length : ∀ algo key bearer count direction msg,
    (mac algo key bearer count direction msg).length = 4

/-- An initialised context: its algorithm and key. -/
structure Context where
  algo : ℤ
  key : List UInt8
  deriving Repr, DecidableEq

/-- The security fields of `nr_pdcp_entity_t`. -/
structure Security where
  hasCiphering : Bool
  hasIntegrity : Bool
  keysAndAlgos : KeysAndAlgos
  securityContext : Context
  integrityContext : Context
  deriving Repr, DecidableEq

/-- `calloc`: no security. -/
def Security.none : Security := ⟨false, false, ⟨0, 0, [], []⟩, ⟨0, []⟩, ⟨0, []⟩⟩

/-- `cipher` and `decipher`. -/
def cipher (K : Crypto) (ctx : Context) (bearer : ℤ) (count direction : ℕ) (buffer : List UInt8) :
    List UInt8 :=
  buffer.mapIdx fun i b => b ^^^ K.keystream ctx.algo ctx.key bearer count direction i

/-- `integrity`. -/
def integrity (K : Crypto) (ctx : Context) (bearer : ℤ) (count direction : ℕ)
    (buffer : List UInt8) : List UInt8 :=
  K.mac ctx.algo ctx.key bearer count direction buffer

/-- `nr_pdcp_entity_set_security`, the keys. -/
def copyKeys (k p : KeysAndAlgos) : KeysAndAlgos :=
  let k := if p.integrityAlgorithm ≠ -1 then
    { k with integrityAlgorithm := p.integrityAlgorithm, integrityKey := p.integrityKey } else k
  if p.cipheringAlgorithm ≠ -1 then
    { k with cipheringAlgorithm := p.cipheringAlgorithm, cipheringKey := p.cipheringKey } else k

/-- `nr_pdcp_entity_set_security`, integrity. -/
def setIntegrity (s : Security) (algo : ℤ) : Except Fault Security :=
  if algo = 0 then .ok { s with hasIntegrity := false }
  else if algo = -1 then .ok s
  else if algo = 2 ∨ algo = 1 then
    .ok { s with
      hasIntegrity := true
      integrityContext := ⟨algo, s.keysAndAlgos.integrityKey⟩ }
  else .error .exit

/-- `nr_pdcp_entity_set_security`, ciphering. -/
def setCiphering (s : Security) (algo : ℤ) : Except Fault Security :=
  if algo = 0 then .ok { s with hasCiphering := false }
  else if algo = -1 then .ok s
  else if algo = 2 ∨ algo = 1 then
    .ok { s with
      hasCiphering := true
      securityContext := ⟨algo, s.keysAndAlgos.cipheringKey⟩ }
  else .error .exit

/-- `nr_pdcp_entity_set_security`. -/
def setSecurity (s : Security) (p : KeysAndAlgos) : Except Fault Security := do
  let s ← setIntegrity { s with keysAndAlgos := copyKeys s.keysAndAlgos p } p.integrityAlgorithm
  setCiphering s p.cipheringAlgorithm

/-! ### The state -/

/-- `nr_pdcp_integrity_data_t`. -/
structure IntegrityData where
  count : ℕ
  mac : List UInt8
  headerSize : ℕ
  header : List UInt8
  deriving Repr, DecidableEq

/-- `{ 0 }`. -/
def IntegrityData.zero : IntegrityData := ⟨0, [0, 0, 0, 0], 0, [0, 0, 0]⟩

/-- `nr_pdcp_sdu_t`; `size` is the length of the buffer. -/
structure Sdu where
  count : ℕ
  buffer : List UInt8
  msgIntegrity : IntegrityData
  deriving Repr, DecidableEq

/-- The `size` field of the source. -/
def Sdu.size (s : Sdu) : ℤ := s.buffer.length

/-- The receiving side of `nr_pdcp_entity_t`. -/
structure RxState where
  rxNext : ℕ
  rxDeliv : ℕ
  rxReord : ℕ
  tReorderingStart : UInt64
  rxList : List Sdu
  rxSize : ℤ
  deriving Repr, DecidableEq

/-- `nr_pdcp_entity_t`. -/
structure Entity where
  cfg : Config
  sec : Security
  tCurrent : UInt64
  txNext : ℕ
  rx : RxState
  entitySuspended : Bool
  deriving Repr, DecidableEq

/-- What `new_nr_pdcp_entity` allocates, with its security settings. -/
def freshEntity (c : Config) (s : Security) : Entity := ⟨c, s, 0, 0, ⟨0, 0, 0, 0, [], 0⟩, false⟩

/-- `new_nr_pdcp_entity`. -/
def newNrPdcpEntity (c : Config) (p : KeysAndAlgos) : Except Fault Entity := do
  let sec ← setSecurity Security.none p
  return freshEntity c sec

/-- The header size of a data PDU. -/
def headerSize (c : Config) : ℕ := if c.snSize = 12 then 2 else 3

/-- SRBs always have a MAC-I, even if integrity is not active. -/
def integritySize (c : Config) (s : Security) : ℕ :=
  if s.hasIntegrity || c.type = .srb then 4 else 0

/-! ### Reception -/

/-- The D/C bit of a DRB's PDU is set if it is not. -/
def setDc (type : EntityType) : List UInt8 → List UInt8
  | [] => []
  | b :: l => if type ≠ .srb ∧ b &&& 0x80 = 0 then (b ||| 128) :: l else b :: l

/-- The SN field.  A PDU that is too short for it is read past its end, but then discarded. -/
def rcvdSn (c : Config) (buffer : List UInt8) : ℕ :=
  let byte (i : ℕ) : ℕ := (buffer.getD i 0).toNat
  if c.snSize = 12 then ((byte 0 &&& 0xf) <<< 8) ||| byte 1
  else ((byte 0 &&& 0x3) <<< 16) ||| (byte 1 <<< 8) ||| byte 2

/-- The COUNT of a received SN, relative to `rx_deliv`. -/
def rcvdCount (c : Config) (rxDeliv sn : ℕ) : ℕ :=
  let rxDelivSn : ℤ := (rxDeliv &&& c.snMax : ℕ)
  let rxDelivHfn := rxDeliv >>> c.snSize
  let rcvdHfn :=
    if (sn : ℤ) < rxDelivSn - c.windowSize then (rxDelivHfn + 1) % 2 ^ 32
    else if (sn : ℤ) ≥ rxDelivSn + c.windowSize then (rxDelivHfn + (2 ^ 32 - 1)) % 2 ^ 32
    else rxDelivHfn
  ((rcvdHfn <<< c.snSize) % 2 ^ 32) ||| sn

/-- The data stored with an SDU for RRC. -/
def integrityData (c : Config) (s : Security) (count : ℕ) (buffer : List UInt8) : IntegrityData :=
  if s.hasIntegrity || c.type = .srb then
    ⟨count, buffer.drop (buffer.length - 4), headerSize c, buffer.take (headerSize c)⟩
  else IntegrityData.zero

/-- The direction of received PDUs. -/
def rxDirection (c : Config) : ℕ := if c.isGnb then 0 else 1

/-- The number of bytes before the ciphered part of a received PDU. -/
def rxClear (c : Config) : ℕ := headerSize c + c.hasSdapRx.toNat

/-- Decipher a PDU behind its clear bytes. -/
def decipherPdu (K : Crypto) (c : Config) (s : Security) (count : ℕ) (buffer : List UInt8) :
    List UInt8 :=
  if s.hasCiphering then
    buffer.take (rxClear c) ++
      cipher K s.securityContext c.rbId count (rxDirection c) (buffer.drop (rxClear c))
  else buffer

/-- Does the MAC-I fit the deciphered PDU? -/
def integrityOk (K : Crypto) (c : Config) (s : Security) (count : ℕ) (buffer : List UInt8) :
    Bool :=
  let n := buffer.length - integritySize c s
  !s.hasIntegrity ||
    integrity K s.integrityContext c.rbId count (rxDirection c) (buffer.take n) == buffer.drop n

/-- `nr_pdcp_entity_recv_pdu` up to the test for duplicates: the SDU of a PDU, `none` when the PDU
is discarded. -/
def decodePdu (K : Crypto) (c : Config) (s : Security) (rxDeliv : ℕ) (buffer : List UInt8) :
    Option Sdu :=
  let size := buffer.length
  if size < 1 then none
  else
    let buffer := setDc c.type buffer
    if size < headerSize c + c.hasSdapRx.toNat + integritySize c s + 1 then none
    else
      let count := rcvdCount c rxDeliv (rcvdSn c buffer)
      let msgIntegrity := integrityData c s count buffer
      let buffer := decipherPdu K c s count buffer
      if integrityOk K c s count buffer then
        some ⟨count, (buffer.drop (headerSize c)).take (size - headerSize c - integritySize c s),
          msgIntegrity⟩
      else none

/-- `nr_pdcp_sdu_in_list`. -/
def nrPdcpSduInList (l : List Sdu) (count : ℕ) : Bool := l.any fun s => s.count == count

/-- `nr_pdcp_sdu_list_add`: order by `count`. -/
def nrPdcpSduListAdd (l : List Sdu) (sdu : Sdu) : List Sdu :=
  insertBefore (fun cur => decide (sdu.count < cur.count)) sdu l

/-- The sum of the sizes of SDUs. -/
def sdusSize (l : List Sdu) : ℤ := (l.map Sdu.size).sum

/-- Deliver SDUs from `count` on up to a discontinuity or the end of the list: what is delivered,
what is left and the next COUNT. -/
def deliverRun : List Sdu → ℕ → List Sdu × List Sdu × ℕ
  | [], count => ([], [], count)
  | cur :: l, count =>
      if count = cur.count then
        let (out, rest, next) := deliverRun l ((count + 1) % 2 ^ 32)
        (cur :: out, rest, next)
      else ([], cur :: l, count)

/-- Deliver a run of SDUs from `count` on and move `rx_deliv` behind it. -/
def deliverFrom (rx : RxState) (count : ℕ) : RxState × List Sdu :=
  let (out, rest, next) := deliverRun rx.rxList count
  ({ rx with rxList := rest, rxSize := rx.rxSize - sdusSize out, rxDeliv := next }, out)

/-- `nr_pdcp_entity_recv_pdu`: stop and start of t-Reordering. -/
def receptionTimer (now : UInt64) (rx : RxState) : RxState :=
  let rx := if rx.tReorderingStart ≠ 0 ∧ rx.rxDeliv ≥ rx.rxReord then
    { rx with tReorderingStart := 0 } else rx
  if rx.tReorderingStart = 0 ∧ rx.rxDeliv < rx.rxNext then
    { rx with rxReord := rx.rxNext, tReorderingStart := now }
  else rx

/-- `nr_pdcp_entity_recv_pdu`: an SDU that is not a duplicate is stored; `bytes` is
`size - header_size` of its PDU. -/
def storeSdu (rx : RxState) (sdu : Sdu) (bytes : ℤ) : RxState :=
  { rx with
    rxList := nrPdcpSduListAdd rx.rxList sdu
    rxSize := rx.rxSize + bytes
    rxNext := if sdu.count ≥ rx.rxNext then (sdu.count + 1) % 2 ^ 32 else rx.rxNext }

/-- `nr_pdcp_entity_recv_pdu`, from the test for duplicates on. -/
def receiveSdu (now : UInt64) (rx : RxState) (sdu : Sdu) (bytes : ℤ) : RxState × List Sdu :=
  if sdu.count < rx.rxDeliv || nrPdcpSduInList rx.rxList sdu.count then (rx, [])
  else
    let rx := storeSdu rx sdu bytes
    let (rx, out) := if sdu.count = rx.rxDeliv then deliverFrom rx rx.rxDeliv else (rx, [])
    (receptionTimer now rx, out)

/-- `nr_pdcp_entity_recv_pdu`: the SDUs passed to `deliver_sdu`. -/
def recvPdu (K : Crypto) (e : Entity) (buffer : List UInt8) : Entity × List Sdu :=
  if e.entitySuspended then (e, [])
  else
    match decodePdu K e.cfg e.sec e.rx.rxDeliv buffer with
    | none => (e, [])
    | some sdu =>
        let (rx, out) := receiveSdu e.tCurrent e.rx sdu (buffer.length - headerSize e.cfg)
        ({ e with rx := rx }, out)

/-! ### Transmission -/

/-- The PDU header of a COUNT. -/
def header (c : Config) (count : ℕ) : List UInt8 :=
  let sn := count &&& c.snMax
  let dcBit : ℕ := if c.type = .drbAm ∨ c.type = .drbUm then 0x80 else 0
  if c.snSize = 12 then
    [UInt8.ofNat (dcBit ||| ((sn >>> 8) &&& 0xf)), UInt8.ofNat (sn &&& 0xff)]
  else
    [UInt8.ofNat (dcBit ||| ((sn >>> 16) &&& 0x3)), UInt8.ofNat ((sn >>> 8) &&& 0xff),
      UInt8.ofNat (sn &&& 0xff)]

/-- The direction of transmitted PDUs. -/
def txDirection (c : Config) : ℕ := if c.isGnb then 1 else 0

/-- The MAC-I of a transmitted PDU: zero for SRBs with integrity not active. -/
def macI (K : Crypto) (c : Config) (s : Security) (count : ℕ) (msg : List UInt8) : List UInt8 :=
  if s.hasIntegrity then integrity K s.integrityContext c.rbId count (txDirection c) msg
  else List.replicate (integritySize c s) 0

/-- The PDU of an SDU. -/
def encodePdu (K : Crypto) (c : Config) (s : Security) (count : ℕ) (buffer : List UInt8) :
    List UInt8 :=
  let msg := header c count ++ buffer
  let pdu := msg ++ macI K c s count msg
  let clear := headerSize c + c.hasSdapTx.toNat
  if s.hasCiphering then
    pdu.take clear ++
      cipher K s.securityContext c.rbId count (txDirection c) (pdu.drop clear)
  else pdu

/-- `nr_max_pdcp_pdu_size`. -/
def nrMaxPdcpPduSize (sduSize : ℕ) : ℕ := sduSize + 3 + 4

/-- `nr_pdcp_entity_process_sdu`; `none` is the return value -1. -/
def processSdu (K : Crypto) (e : Entity) (buffer : List UInt8) (pduMaxSize : ℕ) :
    Except Fault (Entity × Option (List UInt8)) :=
  if pduMaxSize < nrMaxPdcpPduSize buffer.length then .error .devAssert
  else if e.entitySuspended then .ok (e, none)
  else
    .ok ({ e with txNext := (e.txNext + 1) % 2 ^ 32 },
      some (encodePdu K e.cfg e.sec e.txNext buffer))

/-! ### t-Reordering -/

/-- Is t-Reordering running and has it expired?  `-1` is infinity. -/
def tReorderingExpired (c : Config) (now : UInt64) (rx : RxState) : Bool :=
  !(c.tReordering = -1 ∨ rx.tReorderingStart = 0 ∨
    now ≤ rx.tReorderingStart + UInt64.ofInt c.tReordering)

/-- `check_t_reordering`. -/
def checkTReordering (c : Config) (now : UInt64) (rx : RxState) : RxState × List Sdu :=
  if tReorderingExpired c now rx then
    let out := rx.rxList.takeWhile fun s => s.count < rx.rxReord
    let rx := { rx with
      tReorderingStart := 0
      rxList := rx.rxList.dropWhile fun s => s.count < rx.rxReord
      rxSize := rx.rxSize - sdusSize out }
    let (rx, out') := deliverFrom rx rx.rxReord
    (if rx.rxDeliv < rx.rxNext then
      { rx with rxReord := rx.rxNext, tReorderingStart := now } else rx, out ++ out')
  else (rx, [])

/-! ### Suspension, re-establishment and release -/

/-- `deliver_all_sdus`. -/
def deliverAllSdus (rx : RxState) : RxState × List Sdu :=
  ({ rx with rxList := [], rxSize := rx.rxSize - sdusSize rx.rxList }, rx.rxList)

/-- Deliver all SDUs if t-Reordering is running, and stop it. -/
def flushIfRunning (rx : RxState) : RxState × List Sdu :=
  if rx.tReorderingStart ≠ 0 then
    let (rx, out) := deliverAllSdus rx
    ({ rx with tReorderingStart := 0 }, out)
  else (rx, [])

/-- `nr_pdcp_entity_suspend`. -/
def suspend (e : Entity) : Entity × List Sdu :=
  let (rx, out) := flushIfRunning e.rx
  ({ e with
    txNext := 0
    rx := { rx with rxNext := 0, rxDeliv := 0 }
    entitySuspended := true }, out)

/-- `free_rx_list`. -/
def freeRxList (rx : RxState) : RxState := { rx with rxList := [], rxSize := 0 }

/-- `nr_pdcp_entity_reestablish_drb_am`. -/
def reestablishDrbAm (e : Entity) (p : KeysAndAlgos) : Except Fault (Entity × List Sdu) := do
  let sec ← setSecurity e.sec p
  return ({ e with sec := sec, entitySuspended := false }, [])

/-- `nr_pdcp_entity_reestablish_drb_um`. -/
def reestablishDrbUm (e : Entity) (p : KeysAndAlgos) : Except Fault (Entity × List Sdu) := do
  let (rx, out) := flushIfRunning e.rx
  let sec ← setSecurity e.sec p
  return ({ e with
    txNext := 0
    rx := { rx with rxNext := 0, rxDeliv := 0 }
    sec := sec
    entitySuspended := false }, out)

/-- `nr_pdcp_entity_reestablish_srb`. -/
def reestablishSrb (e : Entity) (p : KeysAndAlgos) : Except Fault (Entity × List Sdu) := do
  let sec ← setSecurity e.sec p
  return ({ e with
    txNext := 0
    rx := { freeRxList e.rx with tReorderingStart := 0, rxNext := 0, rxDeliv := 0 }
    sec := sec
    entitySuspended := false }, [])

/-- `reestablish_entity`. -/
def reestablish (e : Entity) (p : KeysAndAlgos) : Except Fault (Entity × List Sdu) :=
  match e.cfg.type with
  | .drbAm => reestablishDrbAm e p
  | .drbUm => reestablishDrbUm e p
  | .srb => reestablishSrb e p

/-- `nr_pdcp_entity_release`. -/
def release (e : Entity) : Entity × List Sdu :=
  let (rx, out) := deliverAllSdus e.rx
  ({ e with rx := rx }, out)

/-! ### The entity as a state machine -/

/-- The calls of the users of the entity. -/
inductive Input where
  | processSdu (buffer : List UInt8) (pduMaxSize : ℕ)
  | recvPdu (buffer : List UInt8)
  | setTime (now : UInt64)
  | setSecurity (p : KeysAndAlgos)
  | suspendEntity
  | reestablishEntity (p : KeysAndAlgos)
  | releaseEntity
  deriving Repr, DecidableEq

/-- The SDUs passed to `deliver_sdu`, and the PDU `process_sdu` returns. -/
structure Output where
  delivered : List Sdu
  pdu : Option (List UInt8)
  deriving Repr, DecidableEq

/-- One call. -/
def step (K : Crypto) (e : Entity) : Input → Except Fault (Entity × Output)
  | .processSdu buffer pduMaxSize => do
      let (e, pdu) ← processSdu K e buffer pduMaxSize
      return (e, ⟨[], pdu⟩)
  | .recvPdu buffer => return ((recvPdu K e buffer).1, ⟨(recvPdu K e buffer).2, none⟩)
  | .setTime now =>
      let (rx, out) := checkTReordering e.cfg now e.rx
      return ({ e with tCurrent := now, rx := rx }, ⟨out, none⟩)
  | .setSecurity p => do
      let sec ← setSecurity e.sec p
      return ({ e with sec := sec }, ⟨[], none⟩)
  | .suspendEntity => return ((suspend e).1, ⟨(suspend e).2, none⟩)
  | .reestablishEntity p => do
      let (e, out) ← reestablish e p
      return (e, ⟨out, none⟩)
  | .releaseEntity => return ((release e).1, ⟨(release e).2, none⟩)

end OaiGnb.Pdcp
