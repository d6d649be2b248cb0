import Mathlib.Data.Nat.Bitwise
import OaiGnb.Lib.Run

/-!
# Receiving GTP-U

`gtpv1uReceiveHandleMessage` takes a datagram apart.  A G-PDU may have a chain of extension headers,
each with its length in units of four bytes and, as its last byte, the type of the next; the loop
over them is `extLoop`, with `fuel` for its rounds.  A read past the datagram, a call of a callback
that is not there and a loop that does not end are faults.

* `receive_safe` : the handler returns and hands up the payload exactly if the datagram is long
  enough for what is read of it and the tunnel has the callback that is called.
-/

namespace OaiGnb.Gtpu

open Run

inductive Fault
  | outOfDatagram
  | nullCallback
  | diverges
deriving DecidableEq

/-- `ueidData_t`; a callback may be null. -/
structure Tunnel where
  ueId : ℕ
  incomingRbId : ℕ
  callBack : Bool
  outgoingTeid : ℕ
  callBackSdap : Bool
  pdusessionId : ℕ

/-- The tunnels by incoming TEID, and whether the socket's instance is known. -/
structure Endpoint where
  te2ueMapping : ℕ → Option Tunnel
  known : Bool

/-- What a handler sends or hands up. -/
inductive Event
  | echoResponse (teid seq : ℕ)
  | endMarker (ueId rbId : ℕ)
  | sdap (ueId pdusessionId qfi : ℕ) (rqi : Bool) (sdu : List ℕ)
  | pdu (ueId rbId : ℕ) (sdu : List ℕ)
  | deliveryStatus (outgoingTeid nrPdcpPduSn : ℕ)
deriving DecidableEq

/-- The payload that is handed up. -/
def Event.payload : Event → Option (List ℕ)
  | .sdap _ _ _ _ sdu => some sdu
  | .pdu _ _ sdu => some sdu
  | _ => none

/-! ### The datagram -/

def byte (data : List ℕ) (i : ℕ) : ℕ := data.getD i 0

def byteAt (data : List ℕ) (i : ℕ) : Except Fault ℕ :=
  if i < data.length then .ok (byte data i) else .error .outOfDatagram

/-- Four bytes in network order. -/
def be32 (data : List ℕ) (i : ℕ) : ℕ :=
  byte data i * 2 ^ 24 + byte data (i + 1) * 2 ^ 16 + byte data (i + 2) * 2 ^ 8 + byte data (i + 3)

def be32At (data : List ℕ) (i : ℕ) : Except Fault ℕ :=
  if i + 4 ≤ data.length then .ok (be32 data i) else .error .outOfDatagram

/-- The flags of `Gtpv1uMsgHeaderT`, from the first byte of the datagram. -/
def flagPn (data : List ℕ) : Bool := (byte data 0).testBit 0

def flagS (data : List ℕ) : Bool := (byte data 0).testBit 1

def flagE (data : List ℕ) : Bool := (byte data 0).testBit 2

/-- Version 1 and protocol type 1. -/
def isGtp (data : List ℕ) : Bool := byte data 0 / 32 % 8 == 1 && (byte data 0).testBit 4

/-! ### Handlers -/

def gtpv1uHandleEchoReq (data : List ℕ) : Except Fault (List Event) :=
  if !isGtp data || !flagS data then .ok []
  else do
    let hi ← byteAt data 8
    let lo ← byteAt data 9
    return [.echoResponse (be32 data 4) (hi * 256 + lo)]

/-- Everything in `Gtpv1uError` is logged. -/
def gtpv1uHandleError (data : List ℕ) : Except Fault (List Event) := do
  let _ ← byteAt data 8
  let _ ← be32At data 9
  let _ ← byteAt data 13
  let _ ← byteAt data 14
  let _ ← byteAt data 15
  return []

def gtpv1uHandleEndMarker (ep : Endpoint) (data : List ℕ) : Except Fault (List Event) :=
  if !isGtp data || !ep.known then .ok []
  else
    match ep.te2ueMapping (be32 data 4) with
    | none => .ok []
    | some tunnel =>
        if tunnel.callBack then .ok [.endMarker tunnel.ueId tunnel.incomingRbId]
        else .error .nullCallback

/-- What is known while the extension headers are read: QFI and RQI of a PDU session container and
the SN of an NR RAN container. -/
structure Ext where
  offset : ℕ
  qfi : Option ℕ
  rqi : Bool
  nrPdcpPduSn : ℕ

/-- Where the SN is in a DL user data frame with discard blocks and flush. -/
def additionalOffset (b : ℕ) : ℕ :=
  6 + (if b.testBit 2 then 9 else 0) + (if b.testBit 1 then 3 else 0)

/-- The SN for which a report is wanted. -/
def readSn (data : List ℕ) (x : Ext) (b : ℕ) : Except Fault (Option Ext) := do
  let b₂ ← byteAt data (x.offset + 2)
  if b₂.testBit 3 then do
    let at₀ := x.offset + additionalOffset b
    let s₀ ← byteAt data at₀
    let s₁ ← byteAt data (at₀ + 1)
    let s₂ ← byteAt data (at₀ + 2)
    return some { x with nrPdcpPduSn := s₀ * 2 ^ 16 + s₁ * 2 ^ 8 + s₂ }
  else return some x

/-- The fields of an extension header; `none` is a malformed packet. -/
def extHeader (data : List ℕ) (type : ℕ) (x : Ext) : Except Fault (Option Ext) :=
  if type = 0x85 then
    -- the check leaves out the length byte
    if data.length < x.offset + 2 then .ok none
    else do
      let b ← byteAt data (x.offset + 2)
      return some { x with qfi := some (b % 64), rqi := b.testBit 6 }
  else if type = 0x84 then
    if data.length < x.offset + 1 then .ok none
    else do
      let b ← byteAt data (x.offset + 1)
      if b / 16 % 16 = 0 then readSn data x b else return some x
  else .ok (some x)

def extLoop (data : List ℕ) : ℕ → ℕ → Ext → Except Fault (Option Ext)
  | _, 0, x => .ok (some x)
  | 0, _ + 1, _ => .error .diverges
  | fuel + 1, type + 1, x => do
      let length ← byteAt data x.offset
      match ← extHeader data (type + 1) x with
      | none => return none
      | some x =>
          let offset := x.offset + length * 4
          if data.length < offset then return none
          else do
            let next ← byteAt data (offset - 1)
            extLoop data fuel next { x with offset := offset }

/-- The header of a G-PDU with its options. -/
def gpduHeader (data : List ℕ) (fuel : ℕ) : Except Fault (Option Ext) :=
  let offset := if flagE data || flagS data || flagPn data then 12 else 8
  if flagE data then do
    let type ← byteAt data (offset - 1)
    extLoop data fuel type ⟨offset, none, false, 0⟩
  else .ok (some ⟨offset, none, false, 0⟩)

/-- The payload goes to SDAP if there is a QFI and a callback for it. -/
def handUp (tunnel : Tunnel) (data : List ℕ) (x : Ext) : Except Fault (List Event) :=
  if x.offset < data.length then
    match x.qfi, tunnel.callBackSdap with
    | some qfi, true =>
        .ok [.sdap tunnel.ueId tunnel.pdusessionId qfi x.rqi (data.drop x.offset)]
    | _, _ =>
        if tunnel.callBack then .ok [.pdu tunnel.ueId tunnel.incomingRbId (data.drop x.offset)]
        else .error .nullCallback
  else .ok []

/-- The delivery status after every fifth SN. -/
def statusReport (tunnel : Tunnel) (x : Ext) : List Event :=
  if 0 < x.nrPdcpPduSn ∧ x.nrPdcpPduSn % 5 = 0 then
    [.deliveryStatus tunnel.outgoingTeid x.nrPdcpPduSn] else []

def gtpv1uHandleGpdu (ep : Endpoint) (fuel : ℕ) (data : List ℕ) : Except Fault (List Event) :=
  if !isGtp data then .ok []
  else
    match ep.te2ueMapping (be32 data 4) with
    | none => .ok []
    | some tunnel => do
        match ← gpduHeader data fuel with
        | none => return []
        | some x => do
            let handed ← handUp tunnel data x
            return handed ++ statusReport tunnel x

/-- `gtpv1uReceiveHandleMessage`, on what `recvfrom` returned. -/
def gtpv1uReceiveHandleMessage (ep : Endpoint) (fuel : ℕ) (data : List ℕ) :
    Except Fault (List Event) :=
  if data.length < 8 then .ok []
  else if byte data 2 * 256 + byte data 3 + 8 ≠ data.length then .ok []
  else
    match byte data 1 with
    | 1 => gtpv1uHandleEchoReq data
    | 26 => gtpv1uHandleError data
    | 254 => gtpv1uHandleEndMarker ep data
    | 255 => gtpv1uHandleGpdu ep fuel data
    | _ => .ok []

/-! ### The chain of extension headers -/

/-- A chain that starts at an offset with a header of a type ends at an offset. -/
inductive ExtEnd (data : List ℕ) : ℕ → ℕ → ℕ → Prop
  | done (offset : ℕ) : ExtEnd data offset 0 offset
  | header {offset type stop : ℕ} : type ≠ 0 →
      ExtEnd data (offset + byte data offset * 4) (byte data (offset + byte data offset * 4 - 1))
        stop →
      ExtEnd data offset type stop

/-- The chain has a PDU session container. -/
inductive Container (data : List ℕ) : ℕ → ℕ → Prop
  | here (offset : ℕ) : Container data offset 0x85
  | header {offset type : ℕ} : type ≠ 0 →
      Container data (offset + byte data offset * 4)
        (byte data (offset + byte data offset * 4 - 1)) →
      Container data offset type

/-- Where the payload of a G-PDU starts. -/
def PayloadAt (data : List ℕ) (start : ℕ) : Prop :=
  if flagE data then ExtEnd data 12 (byte data 11) start
  else start = if flagS data || flagPn data then 12 else 8

/-- The fields that are read of an extension header are in the datagram. -/
def FieldsRead (data : List ℕ) (offset type : ℕ) : Prop :=
  (type = 0x85 → offset + 3 ≤ data.length) ∧
  (type = 0x84 → offset + 2 ≤ data.length ∧
    (byte data (offset + 1) / 16 % 16 = 0 → offset + 3 ≤ data.length ∧
      ((byte data (offset + 2)).testBit 3 = true →
        offset + additionalOffset (byte data (offset + 1)) + 3 ≤ data.length)))

/-- Every header that the loop looks at has its length byte, which is not 0, and the fields that are
read.  A PDU session container of which only the length byte is there is found to be malformed, as
is a header that ends after the datagram. -/
inductive Readable (data : List ℕ) : ℕ → ℕ → Prop
  | done (offset : ℕ) : Readable data offset 0
  | truncated {offset : ℕ} : offset + 1 = data.length → Readable data offset 0x85
  | header {offset type : ℕ} : type ≠ 0 → offset < data.length → 0 < byte data offset →
      FieldsRead data offset type →
      (offset + byte data offset * 4 ≤ data.length →
        Readable data (offset + byte data offset * 4)
          (byte data (offset + byte data offset * 4 - 1))) →
      Readable data offset type

section Chain

variable {data : List ℕ}

theorem byteAt_ok {i : ℕ} (h : i < data.length) : byteAt data i = .ok (byte data i) := if_pos h

theorem byteAt_some {i b : ℕ} (h : byteAt data i = .ok b) : i < data.length ∧ b = byte data i := by
  unfold byteAt at h
  split at h
  next hlt => exact ⟨hlt, (Except.ok.inj h).symm⟩
  · cases h

theorem ExtEnd.le {offset type stop : ℕ} (h : ExtEnd data offset type stop) : offset ≤ stop := by
  induction h with
  | done => exact le_rfl
  | header _ _ ih => exact (Nat.le_add_right ..).trans ih

theorem ExtEnd.unique {offset type stop stop' : ℕ} (h : ExtEnd data offset type stop)
    (h' : ExtEnd data offset type stop') : stop = stop' := by
  induction h with
  | done offset =>
    cases h' with
    | done => rfl
    | header hne => exact absurd rfl hne
  | header hne _ ih =>
    cases h' with
    | done => exact absurd rfl hne
    | header _ h' => exact ih h'

/-- A container that is cut off after its length byte ends no chain in the datagram. -/
theorem ExtEnd.truncated {offset type stop : ℕ} (h : ExtEnd data offset type stop)
    (htype : type ≠ 0) (hbyte : type = byte data (offset - 1))
    (hlen : data.length ≤ offset + 1) : data.length ≤ stop := by
  induction h with
  | done => exact absurd rfl htype
  | @header offset type stop _ h ih =>
    rcases Nat.eq_zero_or_pos (byte data offset) with hzero | hpos
    · rw [hzero, Nat.zero_mul, Nat.add_zero] at ih
      exact ih (hbyte ▸ htype) rfl hlen
    · have := h.le
      omega

theorem extHeader_ok {type : ℕ} {x : Ext} (h : FieldsRead data x.offset type) :
    ∃ y, extHeader data type x = .ok (some y) ∧ y.offset = x.offset ∧
      (y.qfi.isSome = true ↔ x.qfi.isSome = true ∨ type = 0x85) := by
  obtain ⟨hsession, hran⟩ := h
  unfold extHeader
  by_cases h85 : type = 0x85
  · rw [if_pos h85, if_neg (by omega), byteAt_ok (show x.offset + 2 < data.length by omega)]
    exact ⟨_, rfl, rfl, by simp [h85]⟩
  · rw [if_neg h85]
    by_cases h84 : type = 0x84
    · obtain ⟨hlen, hdata⟩ := hran h84
      rw [if_pos h84, if_neg (by omega), byteAt_ok (show x.offset + 1 < data.length by omega)]
      show ∃ y, (if byte data (x.offset + 1) / 16 % 16 = 0 then _ else _) = _ ∧ _
      by_cases hdl : byte data (x.offset + 1) / 16 % 16 = 0
      · obtain ⟨hlen₂, hreport⟩ := hdata hdl
        rw [if_pos hdl]
        unfold readSn
        rw [byteAt_ok (show x.offset + 2 < data.length by omega)]
        show ∃ y, (if (byte data (x.offset + 2)).testBit 3 = true then _ else _) = _ ∧ _
        by_cases hbit : (byte data (x.offset + 2)).testBit 3 = true
        · have hlen₃ := hreport hbit
          rw [if_pos hbit, byteAt_ok (by omega), byteAt_ok (by omega), byteAt_ok (by omega)]
          exact ⟨_, rfl, rfl, by simp [h85]⟩
        · simp_all
      · simp_all
    · simp_all

/-- The fields that are read of a header are there, or it is a container that is cut off. -/
theorem fieldsRead_of_ok {type : ℕ} {x : Ext} {r : Option Ext}
    (h : extHeader data type x = .ok r) (hx : x.offset < data.length) :
    FieldsRead data x.offset type ∨
      r = none ∧ type = 0x85 ∧ x.offset + 1 = data.length := by
  unfold extHeader at h
  split at h
  next h85 =>
    split at h
    next hcut => exact Or.inr ⟨(Except.ok.inj h).symm, h85, by omega⟩
    · obtain ⟨b, hb, -⟩ := bind_returns.mp h
      have := (byteAt_some hb).1
      exact Or.inl ⟨fun _ => by omega, fun h84 => by omega⟩
  next h85 =>
    refine Or.inl ⟨fun h => absurd h h85, fun h84 => ?_⟩
    rw [if_pos h84, if_neg (by omega)] at h
    obtain ⟨b, hb, h⟩ := bind_returns.mp h
    obtain ⟨hlen, rfl⟩ := byteAt_some hb
    refine ⟨by omega, fun hdl => ?_⟩
    rw [if_pos hdl, readSn] at h
    obtain ⟨b₂, hb₂, h⟩ := bind_returns.mp h
    obtain ⟨hlen₂, rfl⟩ := byteAt_some hb₂
    refine ⟨by omega, fun hbit => ?_⟩
    rw [if_pos hbit] at h
    obtain ⟨_, _, h⟩ := bind_returns.mp h
    obtain ⟨_, _, h⟩ := bind_returns.mp h
    obtain ⟨_, hs₂, _⟩ := bind_returns.mp h
    have := (byteAt_some hs₂).1
    omega

/-- One round of the loop. -/
theorem extLoop_succ {fuel type : ℕ} {x y : Ext} (htype : type ≠ 0) (hx : x.offset < data.length)
    (hy : extHeader data type x = .ok (some y)) (hoffset : y.offset = x.offset) :
    extLoop data (fuel + 1) type x =
      if data.length < x.offset + byte data x.offset * 4 then .ok none
      else byteAt data (x.offset + byte data x.offset * 4 - 1) >>= fun next =>
        extLoop data fuel next { y with offset := x.offset + byte data x.offset * 4 } := by
  obtain ⟨t, rfl⟩ : ∃ t, type = t + 1 := ⟨type - 1, by omega⟩
  show (byteAt data x.offset >>= _) = _
  rw [byteAt_ok hx, ok_bind, hy, ok_bind]
  dsimp only
  rw [hoffset]
  rfl

/-- What the loop says of the chain: its end and whether it has a container; a chain that is found
malformed does not end in the datagram. -/
def ChainOf (data : List ℕ) (type : ℕ) (x : Ext) : Option Ext → Prop
  | some y => ExtEnd data x.offset type y.offset ∧ y.offset ≤ data.length ∧
      (y.qfi.isSome = true ↔ x.qfi.isSome = true ∨ Container data x.offset type)
  | none => ∀ stop, ExtEnd data x.offset type stop → data.length ≤ stop

theorem chainOf_header {type : ℕ} {x y z : Ext} {r : Option Ext} (htype : type ≠ 0)
    (hoffset : z.offset = x.offset + byte data x.offset * 4) (hz : z.qfi = y.qfi)
    (hy : y.qfi.isSome = true ↔ x.qfi.isSome = true ∨ type = 0x85)
    (h : ChainOf data (byte data (x.offset + byte data x.offset * 4 - 1)) z r) :
    ChainOf data type x r := by
  cases r with
  | some w =>
    obtain ⟨hend, hle, hqfi⟩ := h
    rw [hoffset] at hend hqfi
    refine ⟨.header htype hend, hle, ?_⟩
    rw [hqfi, hz, hy]
    constructor
    · rintro ((hx | rfl) | hrest)
      · exact Or.inl hx
      · exact Or.inr (.here _)
      · exact Or.inr (.header htype hrest)
    · rintro (hx | hhere | ⟨_, hrest⟩)
      · exact Or.inl (Or.inl hx)
      · exact Or.inl (Or.inr rfl)
      · exact Or.inr hrest
  | none =>
    intro stop hstop
    cases hstop with
    | done => exact absurd rfl htype
    | header _ hrest => exact h stop (hoffset ▸ hrest)

/-- **The loop over a readable chain returns**, with as many rounds as there are bytes. -/
theorem extLoop_ok {offset type : ℕ} (h : Readable data offset type) :
    ∀ {fuel : ℕ} {x : Ext}, x.offset = offset → offset ≤ data.length →
      data.length < offset + fuel → ∃ r, extLoop data fuel type x = .ok r := by
  induction h with
  | done offset => exact fun {fuel x} _ _ _ => ⟨some x, by rw [extLoop]⟩
  | truncated hlen =>
    intro fuel x hx hle hfuel
    obtain ⟨k, rfl⟩ : ∃ k, fuel = k + 1 := ⟨fuel - 1, by omega⟩
    have hmalformed : extHeader data 133 x = .ok none := by
      unfold extHeader
      rw [if_pos rfl, if_pos (by omega)]
    refine ⟨none, ?_⟩
    show (byteAt data x.offset >>= _) = _
    rw [byteAt_ok (by omega), ok_bind]
    simp_all
  | @header offset type hne hlt hpos hfields _ ih =>
    intro fuel x hx hle hfuel
    obtain ⟨k, rfl⟩ : ∃ k, fuel = k + 1 := ⟨fuel - 1, by omega⟩
    subst hx
    obtain ⟨y, hy, hoffset, -⟩ := extHeader_ok hfields
    rw [extLoop_succ hne hlt hy hoffset]
    by_cases hend : data.length < x.offset + byte data x.offset * 4
    · exact ⟨none, if_pos hend⟩
    · rw [if_neg hend, byteAt_ok (by omega), ok_bind]
      exact @ih (by omega) k { y with offset := x.offset + byte data x.offset * 4 } rfl (by omega)
        (by omega)

/-- **Only a readable chain lets the loop return.**  A header of length 0 comes back with the same
type. -/
theorem readable_of_ok {fuel type : ℕ} {x : Ext} {r : Option Ext}
    (h : extLoop data fuel type x = .ok r) (htype : type = byte data (x.offset - 1))
    (hx : x.offset ≤ data.length) : Readable data x.offset type ∧ ChainOf data type x r := by
  induction fuel generalizing type x with
  | zero =>
    cases type with
    | zero =>
      obtain rfl := Except.ok.inj h
      refine ⟨.done _, .done _, hx, (or_iff_left ?_).symm⟩
      intro hc
      cases hc with
      | header hne => exact absurd rfl hne
    | succ => cases h
  | succ k ih =>
    rcases Nat.eq_zero_or_pos type with rfl | hpos
    · obtain rfl := Except.ok.inj h
      refine ⟨.done _, .done _, hx, (or_iff_left ?_).symm⟩
      intro hc
      cases hc with
      | header hne => exact absurd rfl hne
    have hne : type ≠ 0 := by omega
    have hlt : x.offset < data.length := by
      obtain ⟨t, rfl⟩ : ∃ t, type = t + 1 := ⟨type - 1, by omega⟩
      obtain ⟨b, hb, -⟩ := bind_returns.mp (show (byteAt data x.offset >>= _) = _ from h)
      exact (byteAt_some hb).1
    have hread : ∃ r', extHeader data type x = .ok r' := by
      obtain ⟨t, rfl⟩ : ∃ t, type = t + 1 := ⟨type - 1, by omega⟩
      obtain ⟨b, -, h⟩ := bind_returns.mp (show (byteAt data x.offset >>= _) = _ from h)
      obtain ⟨r', hr', -⟩ := bind_returns.mp h
      exact ⟨r', hr'⟩
    obtain ⟨r', hr'⟩ := hread
    rcases fieldsRead_of_ok hr' hlt with hfields | ⟨rfl, rfl, hcut⟩
    · obtain ⟨y, hy, hoffset, hqfi⟩ := extHeader_ok hfields
      rw [extLoop_succ hne hlt hy hoffset] at h
      split at h
      next hend =>
        obtain rfl := Except.ok.inj h
        refine ⟨.header hne hlt (by omega) hfields fun hin => absurd hin (by omega), ?_⟩
        intro stop hstop
        cases hstop with
        | done => exact absurd rfl hne
        | header _ hrest =>
          have := hrest.le
          omega
      next hend =>
        obtain ⟨next, hnext, h⟩ := bind_returns.mp h
        obtain ⟨-, rfl⟩ := byteAt_some hnext
        obtain ⟨hrest, hchain⟩ := ih h rfl (not_lt.mp hend)
        refine ⟨?_, chainOf_header hne (by rfl) (by rfl) hqfi hchain⟩
        rcases Nat.eq_zero_or_pos (byte data x.offset) with hzero | hpos
        · rwa [hzero, Nat.zero_mul, Nat.add_zero, ← htype] at hrest
        · exact .header hne hlt hpos hfields fun _ => hrest
    · have hr : r = none := by
        obtain ⟨b, -, h⟩ := bind_returns.mp (show (byteAt data x.offset >>= _) = _ from h)
        rw [hr', ok_bind] at h
        exact (Except.ok.inj h).symm
      subst hr
      exact ⟨.truncated hcut, fun stop hstop => hstop.truncated hne htype (by omega)⟩

/-- The header of a G-PDU is read exactly if its chain is readable. -/
theorem gpduHeader_ok_iff {fuel : ℕ} (hfuel : data.length < fuel) :
    (∃ r, gpduHeader data fuel = .ok r) ↔
      (flagE data = true → 12 ≤ data.length ∧ Readable data 12 (byte data 11)) := by
  unfold gpduHeader
  cases hE : flagE data with
  | false => simp
  | true =>
    simp only [Bool.true_or, if_true, forall_const]
    constructor
    · rintro ⟨r, hr⟩
      obtain ⟨type, htype, hr⟩ := bind_returns.mp hr
      obtain ⟨hlen, rfl⟩ := byteAt_some htype
      exact ⟨by omega, (readable_of_ok hr rfl (by show 12 ≤ _; omega)).1⟩
    · rintro ⟨hlen, hchain⟩
      rw [byteAt_ok (by omega), ok_bind]
      exact @extLoop_ok data 12 (byte data 11) hchain fuel ⟨12, none, false, 0⟩ rfl hlen (by omega)

/-- There is a PDU session container in the chain of a G-PDU. -/
def HasContainer (data : List ℕ) : Prop :=
  flagE data = true ∧ Container data 12 (byte data 11)

theorem gpduHeader_spec {fuel : ℕ} {r : Option Ext} (h : gpduHeader data fuel = .ok r) :
    (∀ x, r = some x → PayloadAt data x.offset ∧ (x.qfi.isSome = true ↔ HasContainer data)) ∧
      ∀ start, PayloadAt data start → start < data.length → ∃ x, r = some x ∧ x.offset = start := by
  unfold gpduHeader at h
  unfold PayloadAt HasContainer
  cases hE : flagE data with
  | false =>
    rw [hE] at h
    obtain rfl := Except.ok.inj h
    simp
  | true =>
    rw [hE] at h
    obtain ⟨type, htype, h⟩ := bind_returns.mp h
    obtain ⟨hlen, rfl⟩ := byteAt_some htype
    have hchain := (readable_of_ok h rfl (by show 12 ≤ _; simp at hlen; omega)).2
    cases r with
    | none =>
      refine ⟨fun x hx => (by cases hx), fun start hstart hlt => ?_⟩
      have := hchain start hstart
      omega
    | some x =>
      obtain ⟨hend, -, hqfi⟩ := hchain
      refine ⟨fun y hy => ?_, fun start hstart _ => ⟨x, rfl, hend.unique hstart⟩⟩
      obtain rfl := Option.some.inj hy
      exact ⟨hend, by simpa using hqfi⟩

end Chain

/-! ### Datagrams -/

/-- Of a datagram whose length is as the header says, the bytes that the handler reads are there,
and the callback it calls. -/
def Safe (ep : Endpoint) (data : List ℕ) : Prop :=
  byte data 2 * 256 + byte data 3 + 8 = data.length →
  match byte data 1 with
  | 1 => isGtp data = true → flagS data = true → 10 ≤ data.length
  | 26 => 16 ≤ data.length
  | 254 => isGtp data = true → ep.known = true →
      ∀ tunnel, ep.te2ueMapping (be32 data 4) = some tunnel → tunnel.callBack = true
  | 255 => isGtp data = true → ∀ tunnel, ep.te2ueMapping (be32 data 4) = some tunnel →
      (flagE data = true → 12 ≤ data.length ∧ Readable data 12 (byte data 11)) ∧
      ∀ start, PayloadAt data start → start < data.length →
        tunnel.callBack = true ∨ HasContainer data ∧ tunnel.callBackSdap = true
  | _ => True

/-- What is handed up is the payload. -/
def PayloadsOk (data : List ℕ) (events : List Event) : Prop :=
  ∀ e ∈ events, ∀ sdu, e.payload = some sdu → ∃ start, PayloadAt data start ∧ sdu = data.drop start

theorem payloadsOk_nil (data : List ℕ) : PayloadsOk data [] := fun _ he => (by cases he)

section Handlers

variable {ep : Endpoint} {data : List ℕ}

theorem payloadsOk_singleton {e : Event} (h : e.payload = none) : PayloadsOk data [e] := by
  intro e' he' sdu hsdu
  rw [List.mem_singleton.mp he', h] at hsdu
  cases hsdu

theorem gtpv1uHandleEchoReq_iff :
    (∃ events, gtpv1uHandleEchoReq data = .ok events ∧ PayloadsOk data events) ↔
      (isGtp data = true → flagS data = true → 10 ≤ data.length) := by
  unfold gtpv1uHandleEchoReq
  cases hgtp : isGtp data with
  | false => simpa using payloadsOk_nil data
  | true =>
    cases hS : flagS data with
    | false => simpa using payloadsOk_nil data
    | true =>
      constructor
      · rintro ⟨events, h, -⟩ _ _
        obtain ⟨_, -, h⟩ := bind_returns.mp h
        obtain ⟨_, hlo, -⟩ := bind_returns.mp h
        exact (byteAt_some hlo).1
      · intro h
        have hlen := h rfl rfl
        refine ⟨[.echoResponse (be32 data 4) (byte data 8 * 256 + byte data 9)], ?_,
          payloadsOk_singleton rfl⟩
        show (byteAt data 8 >>= _) = _
        rw [byteAt_ok (show 8 < data.length by omega), ok_bind,
          byteAt_ok (show 9 < data.length by omega)]
        rfl

theorem gtpv1uHandleError_iff :
    (∃ events, gtpv1uHandleError data = .ok events ∧ PayloadsOk data events) ↔
      16 ≤ data.length := by
  unfold gtpv1uHandleError be32At
  constructor
  · rintro ⟨events, h, -⟩
    obtain ⟨_, -, h⟩ := bind_returns.mp h
    obtain ⟨_, -, h⟩ := bind_returns.mp h
    obtain ⟨_, -, h⟩ := bind_returns.mp h
    obtain ⟨_, -, h⟩ := bind_returns.mp h
    obtain ⟨_, h15, -⟩ := bind_returns.mp h
    exact (byteAt_some h15).1
  · intro h
    rw [byteAt_ok (show 8 < data.length by omega), if_pos (show 9 + 4 ≤ data.length by omega),
      byteAt_ok (show 13 < data.length by omega), byteAt_ok (show 14 < data.length by omega),
      byteAt_ok (show 15 < data.length by omega)]
    exact ⟨[], rfl, payloadsOk_nil data⟩

theorem gtpv1uHandleEndMarker_iff :
    (∃ events, gtpv1uHandleEndMarker ep data = .ok events ∧ PayloadsOk data events) ↔
      (isGtp data = true → ep.known = true →
        ∀ tunnel, ep.te2ueMapping (be32 data 4) = some tunnel → tunnel.callBack = true) := by
  unfold gtpv1uHandleEndMarker
  cases hgtp : isGtp data with
  | false => simpa using payloadsOk_nil data
  | true =>
    cases hknown : ep.known with
    | false => simpa using payloadsOk_nil data
    | true =>
      cases htunnel : ep.te2ueMapping (be32 data 4) with
      | none => simpa using payloadsOk_nil data
      | some tunnel =>
        cases hcall : tunnel.callBack with
        | false => simp [hcall]
        | true =>
          have hone : PayloadsOk data [.endMarker tunnel.ueId tunnel.incomingRbId] :=
            payloadsOk_singleton rfl
          simpa [hcall] using hone

theorem handUp_iff {tunnel : Tunnel} {x : Ext} (hx : PayloadAt data x.offset) :
    (∃ events, handUp tunnel data x = .ok events ∧ PayloadsOk data events) ↔
      (x.offset < data.length →
        tunnel.callBack = true ∨ x.qfi.isSome = true ∧ tunnel.callBackSdap = true) := by
  have hone : ∀ e : Event, e.payload = some (data.drop x.offset) → PayloadsOk data [e] := by
    intro e hpayload e' he' sdu hsdu
    rw [List.mem_singleton.mp he', hpayload] at hsdu
    exact ⟨x.offset, hx, (Option.some.inj hsdu).symm⟩
  unfold handUp
  by_cases hsize : x.offset < data.length
  · rw [if_pos hsize]
    cases hqfi : x.qfi <;> cases hsdap : tunnel.callBackSdap <;> cases hcall : tunnel.callBack
    all_goals simp only [Except.ok.injEq, exists_eq_left', reduceCtorEq, false_and, exists_false,
      Bool.false_eq_true, Option.isSome_none, Option.isSome_some, and_self, and_true, and_false,
      or_self, or_true, true_or, hsize, forall_const, iff_true, if_true, if_false]
    all_goals
      apply hone
      rfl
  · rw [if_neg hsize]
    simpa [hsize] using payloadsOk_nil data

theorem payloadsOk_append {tunnel : Tunnel} {x : Ext} {events : List Event} :
    PayloadsOk data (events ++ statusReport tunnel x) ↔ PayloadsOk data events := by
  refine ⟨fun h e he => h e (List.mem_append_left _ he), fun h e he => ?_⟩
  rcases List.mem_append.mp he with he | he
  · exact h e he
  · unfold statusReport at he
    split_ifs at he
    · rw [List.mem_singleton.mp he]
      exact fun sdu hsdu => (by cases hsdu)
    · cases he

theorem gtpv1uHandleGpdu_iff {fuel : ℕ} (hfuel : data.length < fuel) :
    (∃ events, gtpv1uHandleGpdu ep fuel data = .ok events ∧ PayloadsOk data events) ↔
      (isGtp data = true → ∀ tunnel, ep.te2ueMapping (be32 data 4) = some tunnel →
        (flagE data = true → 12 ≤ data.length ∧ Readable data 12 (byte data 11)) ∧
        ∀ start, PayloadAt data start → start < data.length →
          tunnel.callBack = true ∨ HasContainer data ∧ tunnel.callBackSdap = true) := by
  unfold gtpv1uHandleGpdu
  cases hgtp : isGtp data with
  | false => simpa using payloadsOk_nil data
  | true =>
    cases htunnel : ep.te2ueMapping (be32 data 4) with
    | none => simpa using payloadsOk_nil data
    | some tunnel =>
      simp only [Bool.not_true, Bool.false_eq_true, if_false, forall_const, Option.some.injEq,
        forall_eq']
      rw [← gpduHeader_ok_iff hfuel]
      cases hr : gpduHeader data fuel with
      | error e =>
        simp [error_bind]
      | ok r =>
        obtain ⟨hsome, hend⟩ := gpduHeader_spec hr
        rw [ok_bind]
        refine Iff.trans ?_ (and_iff_right ⟨r, rfl⟩).symm
        cases r with
        | none =>
          refine iff_of_true ⟨[], rfl, payloadsOk_nil data⟩ fun start hstart hlt => ?_
          obtain ⟨x, hx, -⟩ := hend start hstart hlt
          cases hx
        | some x =>
          obtain ⟨hpayload, hqfi⟩ := hsome x rfl
          have hup := @handUp_iff data tunnel x hpayload
          constructor
          · rintro ⟨events, h, hok⟩ start hstart hlt
            obtain ⟨y, hy, rfl⟩ := hend start hstart hlt
            obtain rfl := Option.some.inj hy
            obtain ⟨handed, hhanded, rfl⟩ := bind_ok_inj h
            rw [← hqfi]
            exact hup.mp ⟨handed, hhanded, payloadsOk_append.mp hok⟩ hlt
          · intro h
            obtain ⟨handed, hhanded, hok⟩ := hup.mpr fun hlt => by
              rw [hqfi]
              exact h x.offset hpayload hlt
            refine ⟨handed ++ statusReport tunnel x, ?_, payloadsOk_append.mpr hok⟩
            dsimp only
            rw [hhanded]
            rfl

end Handlers

/-- **When a datagram is received safely**: the handler stays in the datagram, returns, calls no
null callback and hands up the bytes after the last extension header exactly if what it reads of the
datagram is there, and the callback that the payload goes to. -/
theorem receive_safe {ep : Endpoint} {data : List ℕ} {fuel : ℕ} (hfuel : data.length < fuel) :
    (∃ events, gtpv1uReceiveHandleMessage ep fuel data = .ok events ∧ PayloadsOk data events) ↔
      Safe ep data := by
  unfold gtpv1uReceiveHandleMessage Safe
  by_cases hlen : data.length < 8
  · rw [if_pos hlen]
    exact iff_of_true ⟨[], rfl, payloadsOk_nil data⟩ fun hmsg => absurd hmsg (by omega)
  rw [if_neg hlen]
  by_cases hmsg : byte data 2 * 256 + byte data 3 + 8 = data.length
  · rw [if_neg (not_not.mpr hmsg), forall_prop_of_true hmsg]
    split
    · exact gtpv1uHandleEchoReq_iff
    · exact gtpv1uHandleError_iff
    · exact gtpv1uHandleEndMarker_iff
    · exact gtpv1uHandleGpdu_iff hfuel
    · exact iff_of_true ⟨[], rfl, payloadsOk_nil data⟩ trivial
  · rw [if_pos hmsg]
    exact iff_of_true ⟨[], rfl, payloadsOk_nil data⟩ fun h => absurd h hmsg

/-- A G-PDU with a PDU session container for QFI 9, on a tunnel with a callback for SDAP. -/
def sampleGpdu : List ℕ := [0x34, 255, 0, 10, 0, 0, 0, 1, 0, 0, 0, 0x85, 1, 0, 9, 0, 69, 70]

def sampleEndpoint : Endpoint :=
  ⟨fun teid => if teid = 1 then some ⟨7, 1, false, 2, true, 10⟩ else none, true⟩

/-- The two bytes after the container go to SDAP. -/
theorem receive_safe_sample :
    gtpv1uReceiveHandleMessage sampleEndpoint 19 sampleGpdu
        = .ok [.sdap 7 10 9 false [69, 70]] ∧
      ∃ events, gtpv1uReceiveHandleMessage sampleEndpoint 19 sampleGpdu = .ok events ∧
        PayloadsOk sampleGpdu events := by
  have hchain : Readable sampleGpdu 12 0x85 :=
    .header (by decide) (by decide) (by decide)
      ⟨fun _ => by decide, fun h => absurd h (by decide)⟩ fun _ => .done 16
  have hsafe : Safe sampleEndpoint sampleGpdu := by
    intro _
    show isGtp sampleGpdu = true → ∀ tunnel, sampleEndpoint.te2ueMapping 1 = some tunnel → _
    intro _ tunnel htunnel
    obtain rfl := Option.some.inj htunnel
    exact ⟨fun _ => ⟨by decide, hchain⟩, fun _ _ _ => Or.inr ⟨⟨rfl, .here 12⟩, rfl⟩⟩
  exact ⟨by decide, (receive_safe (by decide)).mpr hsafe⟩

/-- A G-PDU whose extension header, of a type that is skipped, has length 0. -/
def endlessGpdu : List ℕ := [0x34, 255, 0, 8, 0, 0, 0, 1, 0, 0, 0, 0x40, 0, 0, 0, 0]

theorem extLoop_endless : ∀ fuel x, x.offset = 12 →
    extLoop endlessGpdu fuel 0x40 x = .error .diverges := by
  intro fuel
  induction fuel with
  | zero =>
    intro x _
    rfl
  | succ fuel ih =>
    intro x hx
    obtain ⟨offset, qfi, rqi, sn⟩ := x
    obtain rfl : offset = 12 := hx
    exact ih ⟨12, qfi, rqi, sn⟩ rfl

/-- **An extension header of length 0 is read forever.** -/
theorem not_receive_safe :
    ¬ ∀ (ep : Endpoint) (data : List ℕ), 1 ≤ data.length → data.length ≤ 65535 →
      (∀ b ∈ data, b < 256) → ∃ fuel events,
        gtpv1uReceiveHandleMessage ep fuel data = .ok events ∧ PayloadsOk data events := by
  intro hall
  obtain ⟨fuel, events, hok, -⟩ := hall sampleEndpoint endlessGpdu (by decide) (by decide)
    (by decide)
  have hendless : gtpv1uReceiveHandleMessage sampleEndpoint fuel endlessGpdu
      = .error .diverges := by
    show (extLoop endlessGpdu fuel 0x40 ⟨12, none, false, 0⟩ >>= _) = _
    rw [extLoop_endless fuel _ rfl]
    rfl
  simp_all

end OaiGnb.Gtpu
