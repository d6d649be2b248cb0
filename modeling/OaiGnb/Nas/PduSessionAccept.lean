import OaiGnb.Lib.Octets

/-!
# Decoding a PDU Session Establishment Accept

`handle_pdu_session_accept` of `nr_nas_msg.c` with `decode_pdu_session_establishment_accept_msg` and
`decode_qos_rule` of `PduSessionEstablishmentAccept.c`.

A header that is too short is taken for one of 255 octets.  The size of a QoS rule is kept in eight
bits, and each rule is stored in the place of the first.  The loop over the optional elements is
given the length of the whole message, although it begins behind the headers.

* `Walks`: the optional elements that are read are inside the message.
* `Fits`: the messages that are safe to decode.
* `handlePduSessionAccept_safe`: those, and no others, are decoded inside the message and with all
  their rules kept.
-/

namespace OaiGnb.Nas.PduSessionAccept

open Octets Run

inductive Fault
  | outOfBounds
  | diverges
deriving Repr, DecidableEq

/-! ### QoS rules -/

/-- `qos_rule_t`. -/
structure QosRule where
  id : ℕ := 0
  length : ℕ := 0
  oc : ℕ := 0
  dqr : Bool := false
  nbPf : ℕ := 0
  precendence : ℕ := 0
  qfi : ℕ := 0
deriving Repr, DecidableEq

/-- `get_len_qos_rule`, a `uint8_t`. -/
def getLenQosRule (rule : QosRule) : ℕ := (rule.length + 3) % 256

/-- `ROC_CREATE_NEW_QOS_RULE`, `ROC_MODIFY_QOS_RULE_ADD_PF`, `ROC_MODIFY_QOS_RULE_REPLACE_PF`. -/
def HasFilterContents (oc : ℕ) : Prop := oc = 1 ∨ oc = 3 ∨ oc = 4

instance (oc : ℕ) : Decidable (HasFilterContents oc) := by
  unfold HasFilterContents
  infer_instance

/-- `ROC_MODIFY_QOS_RULE_DELETE_PF`. -/
def rocModifyQosRuleDeletePf : ℕ := 5

/-- The loop over `n` packet filters, from `buf` on: where it ends.  The contents of a filter are
skipped. -/
def packetFilters (msg : List UInt8) (oc : ℕ) : ℕ → ℕ → Except Fault ℕ
  | 0, buf => .ok buf
  | n + 1, buf =>
      if HasFilterContents oc then do
        let _ ← octetAt .outOfBounds msg buf
        let length ← octetAt .outOfBounds msg (buf + 1)
        packetFilters msg oc n (buf + 2 + length)
      else if oc = rocModifyQosRuleDeletePf then do
        let _ ← octetAt .outOfBounds msg buf
        packetFilters msg oc n (buf + 1)
      else packetFilters msg oc n buf

/-- `decode_qos_rule`. -/
def decodeQosRule (msg : List UInt8) (buf : ℕ) : Except Fault QosRule := do
  let id ← octetAt .outOfBounds msg buf
  let length ← readAt .outOfBounds msg (buf + 1) 2 (octet16 msg (buf + 1))
  let b ← octetAt .outOfBounds msg (buf + 3)
  let buf ← packetFilters msg (b / 32) (b % 16) (buf + 4)
  let precendence ← octetAt .outOfBounds msg buf
  let qfi ← octetAt .outOfBounds msg (buf + 1)
  return ⟨id, length, b / 32, b.testBit 4, b % 16, precendence, qfi % 64⟩

/-- What the loop over the rules leaves behind: where it ends, `rule[0]`, and the rules it decoded
with their positions. -/
structure Rules where
  cur : ℕ
  rule₀ : QosRule
  decoded : List (ℕ × QosRule)
deriving Repr, DecidableEq

/-- The loop over the rules, with `fuel` for its rounds; `rules_tot_len` is a `uint16_t`. -/
def rulesLoop (msg : List UInt8) (length : ℕ) : ℕ → ℕ → Rules → Except Fault Rules
  | 0, _, _ => .error .diverges
  | fuel + 1, rulesTotLen, s =>
      if rulesTotLen < length then do
        let rule ← decodeQosRule msg s.cur
        rulesLoop msg length fuel ((rulesTotLen + getLenQosRule rule) % 2 ^ 16)
          ⟨s.cur + getLenQosRule rule, rule, s.decoded ++ [(s.cur, rule)]⟩
      else .ok s

/-! ### Optional elements -/

/-- `pdu_session_establishment_accept_msg_t`, as far as it is filled. -/
structure Psea where
  pduType : ℕ := 0
  sscMode : ℕ := 0
  qosRulesLength : ℕ := 0
  rule₀ : QosRule := {}
  sessAmbrLength : ℕ := 0
  dnnLength : ℕ := 0
  pduAddrLength : ℕ := 0
  pduAddrType : ℕ := 0
  pduAddrOct : List ℕ := List.replicate 12 0
  extPpLength : ℕ := 0
  qosFdLength : ℕ := 0
deriving Repr, DecidableEq

/-- The rules that the structure holds: every rule is written to `rule[0]`. -/
def Psea.rules (psea : Psea) : List QosRule :=
  if psea.qosRulesLength = 0 then [] else [psea.rule₀]

/-- The octets of an address of this PDU session type. -/
def addressLength (pduType : ℕ) : Option ℕ :=
  match pduType with
  | 1 => some 4
  | 2 => some 8
  | 3 => some 12
  | _ => none

/-- `curPtr`, `resPtr` and the message. -/
structure Cursor where
  cur : ℕ
  res : ℕ
  psea : Psea
deriving Repr, DecidableEq

/-- `pduSessionEstablishment_IEI_t`. -/
inductive Iei
  | fgsmCause
  | pduAddress
  | rqTimerValue
  | snssai
  | alwaysonPdu
  | mappedEps
  | eapMsg
  | authQosDesc
  | extConfOpt
  | dnn
  | unknown

def Iei.ofOctet : ℕ → Iei
  | 0x59 => .fgsmCause
  | 0x29 => .pduAddress
  | 0x56 => .rqTimerValue
  | 0x22 => .snssai
  | 0x80 => .alwaysonPdu
  | 0x75 => .mappedEps
  | 0x78 => .eapMsg
  | 0x79 => .authQosDesc
  | 0x7b => .extConfOpt
  | 0x25 => .dnn
  | _ => .unknown

/-- `APN_MAX_LEN`. -/
def apnMaxLen : ℕ := 100

/-- The octets of a DNN that are copied. -/
def dnnCopied (dnnLength : ℕ) : ℕ :=
  if dnnLength ≤ apnMaxLen ∧ 1 ≤ dnnLength then dnnLength else 0

/-- `case IEI_PDU_ADDRESS`. -/
def pduAddress (msg : List UInt8) (s : Cursor) : Except Fault Cursor := do
  let pduLength ← octetAt .outOfBounds msg (s.cur + 1)
  let b ← octetAt .outOfBounds msg (s.cur + 2)
  match addressLength (b % 8) with
  | some n =>
      let _ ← readAt .outOfBounds msg (s.cur + 3) n 0
      return { s with
        cur := s.cur + 3 + n
        psea := { s.psea with
          pduAddrLength := pduLength
          pduAddrType := b % 8
          pduAddrOct := (List.range n).map (fun i => octet msg (s.cur + 3 + i)) ++
            s.psea.pduAddrOct.drop n } }
  | none =>
      return { s with
        cur := s.cur + 3 + pduLength
        psea := { s.psea with pduAddrLength := pduLength, pduAddrType := b % 8 } }

/-- One round of the loop over the optional elements; `stop` is `buffer + msg_length`.  `GET_SHORT`
adds to its target, which is a field for two of the elements. -/
def optionalElement (msg : List UInt8) (stop : ℕ) (s : Cursor) : Except Fault Cursor := do
  let iei ← octetAt .outOfBounds msg s.cur
  match Iei.ofOctet iei with
  | .fgsmCause => return { s with cur := s.cur + 2 }
  | .pduAddress => pduAddress msg s
  | .rqTimerValue => return { s with cur := s.cur + 2 }
  | .snssai =>
      let length ← octetAt .outOfBounds msg (s.cur + 1)
      return { s with cur := s.cur + 2 + length }
  | .alwaysonPdu => return { s with cur := s.cur + 2 }
  | .mappedEps =>
      let length ← readAt .outOfBounds msg (s.cur + 1) 2 (octet16 msg (s.cur + 1))
      return { s with cur := s.cur + 1 + length }
  | .eapMsg =>
      let length ← readAt .outOfBounds msg (s.cur + 1) 2 (octet16 msg (s.cur + 1))
      return { s with cur := s.cur + 3 + length }
  | .authQosDesc =>
      let length ← readAt .outOfBounds msg (s.cur + 1) 2 (octet16 msg (s.cur + 1))
      return { s with
        cur := s.cur + 3 + (s.psea.qosFdLength + length) % 2 ^ 16
        psea := { s.psea with qosFdLength := (s.psea.qosFdLength + length) % 2 ^ 16 } }
  | .extConfOpt =>
      let length ← readAt .outOfBounds msg (s.cur + 1) 2 (octet16 msg (s.cur + 1))
      return { s with
        cur := s.cur + 3 + (s.psea.extPpLength + length) % 2 ^ 16
        psea := { s.psea with extPpLength := (s.psea.extPpLength + length) % 2 ^ 16 } }
  | .dnn =>
      let dnnLength ← octetAt .outOfBounds msg (s.cur + 1)
      let _ ← readAt .outOfBounds msg (s.cur + 2) (dnnCopied dnnLength) 0
      return ⟨stop, s.cur + 2, { s.psea with dnnLength := dnnLength }⟩
  | .unknown => return { s with cur := stop }

/-- The loop over the optional elements, with `fuel` for its rounds. -/
def optionalLoop (msg : List UInt8) (stop : ℕ) : ℕ → Cursor → Except Fault Cursor
  | 0, _ => .error .diverges
  | fuel + 1, s =>
      if s.cur < stop then do
        let s' ← optionalElement msg stop s
        optionalLoop msg stop fuel s'
      else .ok s

/-! ### The message -/

/-- What `decode_pdu_session_establishment_accept_msg` leaves behind, with the rules it decoded. -/
structure Decoded where
  ret : ℕ
  psea : Psea
  rules : List (ℕ × QosRule)
deriving Repr, DecidableEq

/-- `decode_pdu_session_establishment_accept_msg`. -/
def decodePduSessionEstablishmentAcceptMsg (msg : List UInt8) (buffer msgLength : ℕ) :
    Except Fault Decoded := do
  let b ← octetAt .outOfBounds msg buffer
  let length ← readAt .outOfBounds msg (buffer + 1) 2 (octet16 msg (buffer + 1))
  let rules ← rulesLoop msg length (msg.length + 1) 0 ⟨buffer + 3, {}, []⟩
  let sessAmbrLength ← octetAt .outOfBounds msg rules.cur
  let cur := rules.cur + 1 + sessAmbrLength
  let psea : Psea := { pduType := b % 16, sscMode := b / 16, qosRulesLength := length,
                       rule₀ := rules.rule₀, sessAmbrLength := sessAmbrLength }
  let s ← optionalLoop msg (buffer + msgLength) (buffer + msgLength + 1) ⟨cur, cur, psea⟩
  return ⟨s.res - buffer, s.psea, rules.decoded⟩

/-- What a handler calls: `create_ue_ip_if` with the octets of the addresses, and `set_qfi`. -/
inductive Call
  | createUeIpIf (ipv4 ipv6 : Option (List ℕ)) (pduSessionId : ℕ)
  | setQfi (qfi pduSessionId : ℕ)
deriving Repr, DecidableEq

/-- `process_pdu_session_addr`. -/
def processPduSessionAddr (psea : Psea) (pduSessionId : ℕ) : List Call :=
  match psea.pduAddrType with
  | 1 => [.createUeIpIf (some (psea.pduAddrOct.take 4)) none pduSessionId]
  | 2 => [.createUeIpIf none (some (psea.pduAddrOct.take 8)) pduSessionId]
  | 3 => [.createUeIpIf (some ((psea.pduAddrOct.drop 8).take 4)) (some (psea.pduAddrOct.take 8))
      pduSessionId]
  | _ => []

/-- `decode_5gmm_msg_header` or `decode_5gsm_msg_header` of a header of `size` octets: a `uint8_t`.
The fields are read when there is room for them. -/
def msgHeaderLength (size len : ℕ) : ℕ := if len < size then 255 else size

/-- What `handle_pdu_session_accept` decodes and calls; no message if the security header is cut
off. -/
structure Handled where
  decoded : Option Decoded
  calls : List Call
deriving Repr, DecidableEq

/-- `handle_pdu_session_accept`. -/
def handlePduSessionAccept (msg : List UInt8) : Except Fault Handled :=
  if msg.length < 7 then .ok ⟨none, []⟩
  else
    let size := 7 + msgHeaderLength 3 (msg.length - 7) + 1
    do
      let _ ← readAt .outOfBounds msg size 2 0
      let pduSessionId := octet msg (size + 3)
      let size := size + 2 + msgHeaderLength 4 (msg.length - (size + 2))
      let decoded ← decodePduSessionEstablishmentAcceptMsg msg size msg.length
      return ⟨some decoded,
        (if decoded.psea.pduAddrLength ≠ 0 then processPduSessionAddr decoded.psea pduSessionId
          else []) ++ [.setQfi decoded.psea.rule₀.qfi pduSessionId]⟩

/-! ### Rules inside the message -/

/-- The encoded length of the rule at `p`. -/
def ruleSize (msg : List UInt8) (p : ℕ) : ℕ := 3 + octet16 msg (p + 1)

/-- Where packet filters end. -/
def filtersEnd (msg : List UInt8) (oc : ℕ) : ℕ → ℕ → ℕ
  | 0, buf => buf
  | n + 1, buf =>
      if HasFilterContents oc then filtersEnd msg oc n (buf + 2 + octet msg (buf + 1))
      else if oc = rocModifyQosRuleDeletePf then filtersEnd msg oc n (buf + 1)
      else filtersEnd msg oc n buf

/-- Where the precedence of the rule at `p` is. -/
def precedenceAt (msg : List UInt8) (p : ℕ) : ℕ :=
  filtersEnd msg (octet msg (p + 3) / 32) (octet msg (p + 3) % 16) (p + 4)

/-- The end of what is read of the rule at `p`: its precedence and its QFI are behind the packet
filters. -/
def ruleEnd (msg : List UInt8) (p : ℕ) : ℕ := precedenceAt msg p + 2

/-- The rule at `p`. -/
def ruleAt (msg : List UInt8) (p : ℕ) : QosRule :=
  ⟨octet msg p, octet16 msg (p + 1), octet msg (p + 3) / 32, (octet msg (p + 3)).testBit 4,
    octet msg (p + 3) % 16, octet msg (precedenceAt msg p), octet msg (precedenceAt msg p + 1) % 64⟩

theorem le_filtersEnd (msg : List UInt8) (oc n buf : ℕ) : buf ≤ filtersEnd msg oc n buf := by
  induction n generalizing buf with
  | zero => exact le_rfl
  | succ n ih =>
    grind [filtersEnd]

variable {msg : List UInt8}

theorem packetFilters_returns {oc n buf : ℕ} (h : filtersEnd msg oc n buf ≤ msg.length) :
    packetFilters msg oc n buf = .ok (filtersEnd msg oc n buf) := by
  induction n generalizing buf with
  | zero => rfl
  | succ n ih =>
    grind [filtersEnd, packetFilters, le_filtersEnd, octet, octetAt_ok, ok_bind]

variable {stop p : ℕ} {s : Cursor}

theorem packetFilters_inv {oc n buf : ℕ}
    (h : packetFilters msg oc n buf = .ok stop) : stop = filtersEnd msg oc n buf := by
  induction n generalizing buf with
  | zero => exact (Except.ok.inj h).symm
  | succ n ih =>
    grind [packetFilters, filtersEnd, octetAt_bind_returns]

/-- **A rule is decoded when everything up to its QFI is in the message.** -/
theorem decodeQosRule_returns {rule : QosRule} :
    decodeQosRule msg p = .ok rule ↔ ruleEnd msg p ≤ msg.length ∧ rule = ruleAt msg p := by
  rw [decodeQosRule, octetAt_bind_returns]
  constructor
  · intro ⟨_, h⟩
    obtain ⟨length, hlength, h⟩ := bind_returns.mp h
    obtain ⟨-, rfl⟩ := readAt_returns.mp hlength
    obtain ⟨-, h⟩ := octetAt_bind_returns.mp h
    obtain ⟨buf, hbuf, h⟩ := bind_returns.mp h
    obtain rfl := packetFilters_inv hbuf
    obtain ⟨-, h⟩ := octetAt_bind_returns.mp h
    obtain ⟨hqfi, h⟩ := octetAt_bind_returns.mp h
    exact ⟨hqfi, (Except.ok.inj h).symm⟩
  · intro ⟨hend, hrule⟩
    have hend : precedenceAt msg p + 2 ≤ msg.length := hend
    have hle : p + 4 ≤ precedenceAt msg p := le_filtersEnd ..
    refine ⟨by omega, bind_returns.mpr ⟨_, readAt_ok _ (by omega) _, ?_⟩⟩
    refine octetAt_bind_returns.mpr ⟨by omega, bind_returns.mpr ⟨_, packetFilters_returns ?_, ?_⟩⟩
    · grind [precedenceAt]
    · refine octetAt_bind_returns.mpr ⟨?_, octetAt_bind_returns.mpr ⟨?_, ?_⟩⟩
      · grind [precedenceAt]
      · grind [precedenceAt]
      · rw [hrule]
        rfl

/-- The rule at `p` is inside the message, and its size fits in eight bits. -/
def RuleFits (msg : List UInt8) (p : ℕ) : Prop :=
  octet16 msg (p + 1) ≤ 252 ∧ ruleEnd msg p ≤ msg.length

theorem getLenQosRule_ruleAt :
    getLenQosRule (ruleAt msg p) = ruleSize msg p % 256 := by
  show (octet16 msg (p + 1) + 3) % 256 = (3 + octet16 msg (p + 1)) % 256
  rw [Nat.add_comm]

theorem RuleFits.getLenQosRule_eq (h : RuleFits msg p) :
    getLenQosRule (ruleAt msg p) = ruleSize msg p := by
  have hsize : ruleSize msg p = 3 + octet16 msg (p + 1) := rfl
  have hlength := h.1
  rw [getLenQosRule_ruleAt]
  omega

/-- The rules of a list of positions. -/
def rulesAt (msg : List UInt8) (cuts : List ℕ) : List (ℕ × QosRule) :=
  cuts.map fun q => (q, ruleAt msg q)

/-- The rule that is kept. -/
def lastRule (rule₀ : QosRule) (rules : List (ℕ × QosRule)) : QosRule :=
  (rules.getLast?.map Prod.snd).getD rule₀

theorem lastRule_cons (rule₀ : QosRule) (rule : ℕ × QosRule) (rules : List (ℕ × QosRule)) :
    lastRule rule₀ (rule :: rules) = lastRule rule.2 rules := by
  cases rules with
  | nil => rfl
  | cons r rules => rfl

theorem rulesLoop_returns {first length : ℕ} (hlength : length < 2 ^ 16)
    {cuts : List ℕ} (h : Tiles (ruleSize msg) p (first + length) cuts) :
    ∀ (fuel : ℕ) (s : Rules), first ≤ p → s.cur = p → cuts.length < fuel →
      (∀ q ∈ cuts, RuleFits msg q) →
      rulesLoop msg length fuel (p - first) s =
        .ok ⟨first + length, lastRule s.rule₀ (rulesAt msg cuts), s.decoded ++ rulesAt msg cuts⟩ := by
  generalize hstop : first + length = stop at h
  induction h with
  | nil p =>
    intro fuel s hp hcur hfuel _
    rcases fuel with _ | fuel
    · omega
    rw [rulesLoop, if_neg (by omega)]
    rw [rulesAt, List.map_nil, List.append_nil, ← hcur]
    rfl
  | @cons p stop cuts hpos hrest ih =>
    intro fuel s hp hcur hfuel hfit
    rcases fuel with _ | fuel
    · omega
    have hrule := hfit p List.mem_cons_self
    have hle := hrest.le
    rw [rulesLoop, if_pos (by omega), hcur, decodeQosRule_returns.mpr ⟨hrule.2, rfl⟩, ok_bind,
      hrule.getLenQosRule_eq, show (p - first + ruleSize msg p) % 2 ^ 16 =
        p + ruleSize msg p - first from by omega]
    have hloop := ih hstop fuel ⟨p + ruleSize msg p, ruleAt msg p, s.decoded ++ [(p, ruleAt msg p)]⟩
      (by omega) rfl (by rw [List.length_cons] at hfuel; omega)
      (List.forall_mem_cons.mp hfit).2
    rw [hloop, Except.ok.injEq, Rules.mk.injEq]
    refine ⟨rfl, ?_, ?_⟩
    · rw [rulesAt, rulesAt, List.map_cons, lastRule_cons]
    · simp [rulesAt, List.map_cons, List.append_assoc]

theorem rulesLoop_grows {length fuel rulesTotLen : ℕ} {s s' : Rules}
    (h : rulesLoop msg length fuel rulesTotLen s = .ok s') :
    s.decoded.length ≤ s'.decoded.length ∧
      (s'.decoded.length = s.decoded.length → length ≤ rulesTotLen ∧ s' = s) := by
  induction fuel generalizing rulesTotLen s with
  | zero => cases h
  | succ fuel ih =>
    rw [rulesLoop] at h
    split at h
    · obtain ⟨rule, -, h⟩ := bind_returns.mp h
      have hlen := (ih h).1
      rw [List.length_append, List.length_singleton] at hlen
      exact ⟨by omega, fun heq => by omega⟩
    next hend =>
      obtain rfl := Except.ok.inj h
      exact ⟨le_rfl, fun _ => ⟨not_lt.mp hend, rfl⟩⟩

/-! ### Optional elements inside the message -/

/-- The end of what is read of the element at `cur`. -/
def elementEnd (msg : List UInt8) (cur : ℕ) : ℕ :=
  match Iei.ofOctet (octet msg cur) with
  | .pduAddress => cur + 3 + (addressLength (octet msg (cur + 2) % 8)).getD 0
  | .snssai => cur + 2
  | .mappedEps | .eapMsg | .authQosDesc | .extConfOpt => cur + 3
  | .dnn => cur + 2 + dnnCopied (octet msg (cur + 1))
  | .fgsmCause | .rqTimerValue | .alwaysonPdu | .unknown => cur + 1

/-- How far the loop over the optional elements is, with the two lengths it adds to. -/
structure Progress where
  cur : ℕ
  qosFdLength : ℕ
  extPpLength : ℕ

/-- Where the loop goes on behind an element. -/
def Progress.next (msg : List UInt8) (stop : ℕ) (t : Progress) : Progress :=
  match Iei.ofOctet (octet msg t.cur) with
  | .fgsmCause | .rqTimerValue | .alwaysonPdu => { t with cur := t.cur + 2 }
  | .pduAddress =>
      { t with cur := t.cur + 3 +
          (addressLength (octet msg (t.cur + 2) % 8)).getD (octet msg (t.cur + 1)) }
  | .snssai => { t with cur := t.cur + 2 + octet msg (t.cur + 1) }
  | .mappedEps => { t with cur := t.cur + 1 + octet16 msg (t.cur + 1) }
  | .eapMsg => { t with cur := t.cur + 3 + octet16 msg (t.cur + 1) }
  | .authQosDesc =>
      { t with
        cur := t.cur + 3 + (t.qosFdLength + octet16 msg (t.cur + 1)) % 2 ^ 16
        qosFdLength := (t.qosFdLength + octet16 msg (t.cur + 1)) % 2 ^ 16 }
  | .extConfOpt =>
      { t with
        cur := t.cur + 3 + (t.extPpLength + octet16 msg (t.cur + 1)) % 2 ^ 16
        extPpLength := (t.extPpLength + octet16 msg (t.cur + 1)) % 2 ^ 16 }
  | .dnn | .unknown => { t with cur := stop }

/-- What is read of the elements that the loop comes to is inside the message. -/
inductive Walks (msg : List UInt8) (stop : ℕ) : Progress → Prop
  | done {t : Progress} (h : stop ≤ t.cur) : Walks msg stop t
  | element {t : Progress} (h : t.cur < stop) (hfit : elementEnd msg t.cur ≤ msg.length)
      (hrest : Walks msg stop (t.next msg stop)) : Walks msg stop t

def Cursor.progress (s : Cursor) : Progress :=
  ⟨s.cur, s.psea.qosFdLength, s.psea.extPpLength⟩

theorem Progress.lt_next (msg : List UInt8) {t : Progress} (h : t.cur < stop) :
    t.cur < (t.next msg stop).cur := by
  rw [Progress.next]
  cases Iei.ofOctet (octet msg t.cur) with
  | dnn => exact h
  | unknown => exact h
  | _ => dsimp only; omega

theorem pduAddress_returns {s' : Cursor} :
    pduAddress msg s = .ok s' →
      s.cur + 3 + (addressLength (octet msg (s.cur + 2) % 8)).getD 0 ≤ msg.length ∧
      s'.cur = s.cur + 3 +
        (addressLength (octet msg (s.cur + 2) % 8)).getD (octet msg (s.cur + 1)) ∧
      s'.psea.qosFdLength = s.psea.qosFdLength ∧ s'.psea.extPpLength = s.psea.extPpLength ∧
      s'.psea.rules = s.psea.rules := by
  intro h
  rw [pduAddress, octetAt_bind_returns, octetAt_bind_returns] at h
  obtain ⟨-, hlen, h⟩ := h
  cases haddr : addressLength (octet msg (s.cur + 2) % 8) with
  | none =>
    simp only [haddr] at h
    obtain rfl := Except.ok.inj h
    exact ⟨hlen, rfl, rfl, rfl, rfl⟩
  | some n =>
    simp only [haddr] at h
    obtain ⟨v, hread, rfl⟩ := bind_ok_inj h
    exact ⟨(readAt_returns.mp hread).1, rfl, rfl, rfl, rfl⟩

theorem lt_elementEnd (msg : List UInt8) (cur : ℕ) : cur < elementEnd msg cur := by
  rw [elementEnd]
  cases Iei.ofOctet (octet msg cur) <;> dsimp only <;> omega

theorem optionalElement_inv {s' : Cursor} (h : optionalElement msg stop s = .ok s') :
    elementEnd msg s.cur ≤ msg.length ∧ s'.progress = s.progress.next msg stop ∧
      s'.psea.rules = s.psea.rules := by
  rw [optionalElement, octetAt_bind_returns] at h
  obtain ⟨hcur, h⟩ := h
  rw [elementEnd, Progress.next, show s.progress.cur = s.cur from rfl]
  cases hiei : Iei.ofOctet (octet msg s.cur) with
  | pduAddress =>
    rw [hiei] at h
    obtain ⟨hend, hnext, hfd, hpp, hrule⟩ := pduAddress_returns h
    grind [Cursor.progress]
  | snssai =>
    rw [hiei] at h
    obtain ⟨hlen, h⟩ := octetAt_bind_returns.mp h
    obtain rfl := Except.ok.inj h
    exact ⟨hlen, rfl, rfl⟩
  | dnn =>
    rw [hiei] at h
    obtain ⟨-, h⟩ := octetAt_bind_returns.mp h
    obtain ⟨v, hread, rfl⟩ := bind_ok_inj h
    exact ⟨(readAt_returns.mp hread).1, rfl, rfl⟩
  | mappedEps | eapMsg | authQosDesc | extConfOpt =>
    rw [hiei] at h
    obtain ⟨length, hread, h⟩ := bind_returns.mp h
    obtain ⟨hlen, rfl⟩ := readAt_returns.mp hread
    obtain rfl := Except.ok.inj h
    exact ⟨hlen, rfl, rfl⟩
  | fgsmCause | rqTimerValue | alwaysonPdu | unknown =>
    rw [hiei] at h
    obtain rfl := Except.ok.inj h
    exact ⟨hcur, rfl, rfl⟩

theorem optionalElement_returns (stop : ℕ)
    (h : elementEnd msg s.cur ≤ msg.length) : ∃ s', optionalElement msg stop s = .ok s' := by
  have hend := lt_elementEnd msg s.cur
  rw [optionalElement, octetAt_ok _ (by omega), ok_bind]
  rw [elementEnd] at h
  cases hiei : Iei.ofOctet (octet msg s.cur) with
  | pduAddress =>
    simp only [hiei] at h
    show ∃ s', pduAddress msg s = .ok s'
    rw [pduAddress, octetAt_ok _ (by omega), ok_bind, octetAt_ok _ (by omega), ok_bind]
    cases haddr : addressLength (octet msg (s.cur + 2) % 8) with
    | none => exact ⟨_, rfl⟩
    | some n =>
      rw [haddr, Option.getD_some] at h
      exact ⟨_, bind_returns.mpr ⟨_, readAt_ok _ h _, rfl⟩⟩
  | snssai =>
    rw [hiei] at h
    exact ⟨_, octetAt_bind_returns.mpr ⟨h, rfl⟩⟩
  | dnn =>
    simp only [hiei] at h
    exact ⟨_, octetAt_bind_returns.mpr ⟨by omega, bind_returns.mpr ⟨_, readAt_ok _ h _, rfl⟩⟩⟩
  | mappedEps | eapMsg | authQosDesc | extConfOpt =>
    rw [hiei] at h
    exact ⟨_, bind_returns.mpr ⟨_, readAt_ok _ h _, rfl⟩⟩
  | fgsmCause | rqTimerValue | alwaysonPdu | unknown => exact ⟨_, rfl⟩

/-- **The loop over the optional elements returns when what it reads is inside the message.** -/
theorem Walks.optionalLoop_returns {t : Progress} (h : Walks msg stop t) {fuel : ℕ} {s : Cursor}
    (hs : s.progress = t) (hfuel : stop - t.cur < fuel) :
    ∃ s', optionalLoop msg stop fuel s = .ok s' ∧ s'.psea.rules = s.psea.rules := by
  induction h generalizing fuel s with
  | @done t h =>
    rcases fuel with _ | fuel
    · omega
    subst hs
    refine ⟨s, ?_, rfl⟩
    rw [optionalLoop, if_neg (show ¬ s.cur < stop from not_lt.mpr h)]
  | @element t h hfit _ ih =>
    rcases fuel with _ | fuel
    · omega
    subst hs
    obtain ⟨s₁, hstep⟩ := optionalElement_returns stop hfit
    obtain ⟨-, hnext, hrule⟩ := optionalElement_inv hstep
    have hlt := Progress.lt_next msg h
    obtain ⟨s', hloop, hrule'⟩ := ih hnext (show stop - _ < fuel by omega)
    refine ⟨s', ?_, hrule'.trans hrule⟩
    rw [optionalLoop, if_pos (show s.cur < stop from h), hstep]
    exact hloop

theorem Walks.of_optionalLoop {fuel : ℕ} {s s' : Cursor}
    (h : optionalLoop msg stop fuel s = .ok s') : Walks msg stop s.progress := by
  induction fuel generalizing s with
  | zero => cases h
  | succ fuel ih =>
    rw [optionalLoop] at h
    split at h
    next hcur =>
      obtain ⟨s₁, hstep, h⟩ := bind_returns.mp h
      obtain ⟨hfit, hnext, -⟩ := optionalElement_inv hstep
      exact .element hcur hfit (hnext ▸ ih h)
    next hcur => exact .done (not_lt.mp hcur)

/-! ### The whole message -/

/-- The length of the authorised QoS rules. -/
def authorisedLength (msg : List UInt8) : ℕ := octet16 msg 18

/-- The authorised QoS rules of a message, by their positions. -/
def AuthorisedRules (msg : List UInt8) (cuts : List ℕ) : Prop :=
  Tiles (ruleSize msg) 20 (20 + authorisedLength msg) cuts

/-- `decode_qos_rule` was called for the authorised rules, and the structure holds them. -/
def RulesExact (msg : List UInt8) (d : Decoded) : Prop :=
  ∃ cuts, AuthorisedRules msg cuts ∧ d.rules = rulesAt msg cuts ∧
    d.psea.rules = cuts.map (ruleAt msg)

/-- What is asked of the handler: it returns, and has decoded the authorised rules. -/
def Safe (msg : List UInt8) : Prop :=
  ∃ out, handlePduSessionAccept msg = .ok out ∧ ∀ d, out.decoded = some d → RulesExact msg d

/-- Where the optional elements begin: behind the rules and the session AMBR. -/
def optionalsAt (msg : List UInt8) : ℕ :=
  20 + authorisedLength msg + 1 + octet msg (20 + authorisedLength msg)

/-- The messages that are safe to decode.  The loop over the optional elements goes 17 octets
further than the message, if no element makes it stop. -/
def Fits (msg : List UInt8) : Prop :=
  msg.length < 7 ∨
    20 + authorisedLength msg < msg.length ∧
    (authorisedLength msg = 0 ∨ ruleSize msg 20 = authorisedLength msg ∧ RuleFits msg 20) ∧
    Walks msg (17 + msg.length) ⟨optionalsAt msg, 0, 0⟩

section Message

variable {msg : List UInt8}

theorem authorisedLength_lt (msg : List UInt8) : authorisedLength msg < 2 ^ 16 := by
  grind [octet_lt, authorisedLength, octet16]

theorem handlePduSessionAccept_eq (h : 17 ≤ msg.length) :
    handlePduSessionAccept msg =
      decodePduSessionEstablishmentAcceptMsg msg 17 msg.length >>= fun d =>
        .ok ⟨some d,
          (if d.psea.pduAddrLength ≠ 0 then processPduSessionAddr d.psea (octet msg 14) else []) ++
            [.setQfi d.psea.rule₀.qfi (octet msg 14)]⟩ := by
  have h3 : msgHeaderLength 3 (msg.length - 7) = 3 := if_neg (by omega)
  have h4 : msgHeaderLength 4 (msg.length - 13) = 4 := if_neg (by omega)
  rw [handlePduSessionAccept, if_neg (by omega)]
  simp only [h3, Nat.reduceAdd, h4]
  rw [readAt_ok _ (by omega)]
  rfl

/-- Headers that are cut off are taken for 255 octets, behind which nothing is left. -/
theorem headers_complete {out : Handled} (h : handlePduSessionAccept msg = .ok out)
    (hlen : 7 ≤ msg.length) : 17 ≤ msg.length := by
  by_contra hshort
  rw [handlePduSessionAccept, if_neg (by omega)] at h
  obtain ⟨_, hread, h⟩ := bind_returns.mp h
  have hsize := (readAt_returns.mp hread).1
  by_cases h3 : msg.length - 7 < 3
  · rw [msgHeaderLength, if_pos h3] at hsize
    omega
  · have hthree : msgHeaderLength 3 (msg.length - 7) = 3 := if_neg h3
    simp only [hthree, Nat.reduceAdd] at h hsize
    have h255 : msgHeaderLength 4 (msg.length - 13) = 255 := if_pos (by omega)
    simp only [h255, Nat.reduceAdd] at h
    obtain ⟨_, hdec, -⟩ := bind_returns.mp h
    have hfirst := (octetAt_bind_returns.mp hdec).1
    omega

theorem tiles_singleton {size : ℕ → ℕ} {p stop q : ℕ} (h : Tiles size p stop [q]) :
    stop = p + size p := by
  cases h with
  | cons _ hrest =>
    cases hrest
    rfl

/-- The rules that tile an element of the length of a single rule. -/
theorem authorisedRules_fits (hlen : authorisedLength msg = 0 ∨
      ruleSize msg 20 = authorisedLength msg ∧ RuleFits msg 20) :
    ∃ cuts, AuthorisedRules msg cuts ∧ (∀ q ∈ cuts, RuleFits msg q) ∧ cuts.length ≤ 1 ∧
      (cuts = [] ↔ authorisedLength msg = 0) := by
  rcases hlen with hzero | ⟨hsize, hfit⟩
  · exact ⟨[], by rw [AuthorisedRules, hzero]; exact .nil _, List.forall_mem_nil _, by decide,
      by simp [hzero]⟩
  · have hpos : 0 < ruleSize msg 20 := by
      unfold ruleSize
      omega
    refine ⟨[20], ?_, by simpa using hfit, by decide, by simp; omega⟩
    rw [AuthorisedRules, ← hsize]
    exact .cons hpos (.nil _)

theorem safe_of_fits (h : Fits msg) : Safe msg := by
  rcases h with hshort | ⟨hlen, hone, hwalks⟩
  · refine ⟨⟨none, []⟩, ?_, fun d hd => (by cases hd)⟩
    rw [handlePduSessionAccept, if_pos hshort]
  · obtain ⟨cuts, hcuts, hfit, hle, hnil⟩ := authorisedRules_fits hone
    have hrules := rulesLoop_returns (authorisedLength_lt msg) hcuts (msg.length + 1) ⟨20, {}, []⟩
      le_rfl rfl (by omega) hfit
    obtain ⟨s, hloop, hrule⟩ := hwalks.optionalLoop_returns
      (show Cursor.progress ⟨optionalsAt msg, optionalsAt msg, {
        pduType := octet msg 17 % 16, sscMode := octet msg 17 / 16
        qosRulesLength := authorisedLength msg
        rule₀ := lastRule {} (rulesAt msg cuts)
        sessAmbrLength := octet msg (20 + authorisedLength msg) }⟩ = _ from rfl)
      (show _ < 17 + msg.length + 1 by omega)
    have hdec : decodePduSessionEstablishmentAcceptMsg msg 17 msg.length =
        .ok ⟨s.res - 17, s.psea, rulesAt msg cuts⟩ := by
      rw [decodePduSessionEstablishmentAcceptMsg, octetAt_ok _ (by omega), ok_bind,
        readAt_ok _ (by omega), ok_bind]
      refine bind_returns.mpr ⟨_, hrules, octetAt_bind_returns.mpr ⟨hlen, ?_⟩⟩
      exact bind_returns.mpr ⟨s, hloop, rfl⟩
    refine ⟨_, by rw [handlePduSessionAccept_eq (by omega), hdec]; rfl, ?_⟩
    intro d hd
    obtain rfl := Option.some.inj hd
    refine ⟨cuts, hcuts, rfl, ?_⟩
    show s.psea.rules = _
    rw [hrule, Psea.rules]
    dsimp only
    match cuts, hle, hnil with
    | [], _, hnil => rw [if_pos (hnil.mp rfl)]; rfl
    | [q], _, hnil => rw [if_neg fun hzero => absurd (hnil.mpr hzero) (List.cons_ne_nil _ _)]; rfl

theorem fits_of_safe (h : Safe msg) : Fits msg := by
  obtain ⟨out, hout, hexact⟩ := h
  by_cases hshort : msg.length < 7
  · exact .inl hshort
  have h17 := headers_complete hout (not_lt.mp hshort)
  rw [handlePduSessionAccept_eq h17] at hout
  obtain ⟨d, hdec, hout⟩ := bind_returns.mp hout
  obtain ⟨cuts, hcuts, hcalls, hkept⟩ := hexact d (by rw [← Except.ok.inj hout])
  rw [decodePduSessionEstablishmentAcceptMsg] at hdec
  obtain ⟨-, hdec⟩ := octetAt_bind_returns.mp hdec
  obtain ⟨_, hread, hdec⟩ := bind_returns.mp hdec
  obtain ⟨-, rfl⟩ := readAt_returns.mp hread
  obtain ⟨rules, hrules, hdec⟩ := bind_returns.mp hdec
  obtain ⟨hambr, hdec⟩ := octetAt_bind_returns.mp hdec
  obtain ⟨s, hloop, hd⟩ := bind_returns.mp hdec
  obtain rfl := Except.ok.inj hd
  have hwalks := Walks.of_optionalLoop hloop
  have hone : cuts.length ≤ 1 := by
    have := congrArg List.length hkept
    rw [List.length_map] at this
    rw [← this, Psea.rules]
    split <;> simp
  have hdecoded : rules.decoded.length = cuts.length := by
    have := congrArg List.length hcalls
    rwa [rulesAt, List.length_map] at this
  rw [rulesLoop] at hrules
  -- one round of the loop at most was made, and where it ended the length was reached
  by_cases hzero : authorisedLength msg = 0
  · rw [if_neg (show ¬ 0 < octet16 msg 18 from not_lt.mpr (le_of_eq hzero))] at hrules
    obtain rfl := Except.ok.inj hrules
    refine .inr ⟨?_, .inl hzero, ?_⟩
    · rw [hzero]
      exact hambr
    · rw [optionalsAt, hzero]
      exact hwalks
  · rw [if_pos (show 0 < octet16 msg 18 from Nat.pos_of_ne_zero hzero)] at hrules
    obtain ⟨rule, hrule, hrules⟩ := bind_returns.mp hrules
    obtain ⟨hend, rfl⟩ := decodeQosRule_returns.mp hrule
    obtain ⟨hle, hlast⟩ := rulesLoop_grows hrules
    obtain ⟨htot, rfl⟩ := hlast (by simp at hle ⊢; omega)
    have hsize : ruleSize msg 20 = authorisedLength msg := by
      match cuts, hone, hcuts with
      | [], _, _ => simp at hdecoded
      | [q], _, hcuts =>
        have := tiles_singleton hcuts
        omega
    have hlt := authorisedLength_lt msg
    have hrule : ruleSize msg 20 = 3 + octet16 msg 21 := rfl
    rw [getLenQosRule_ruleAt] at htot hambr hwalks
    change authorisedLength msg ≤ (0 + ruleSize msg 20 % 256) % 2 ^ 16 at htot
    change 20 + ruleSize msg 20 % 256 < msg.length at hambr
    change Walks msg (17 + msg.length) ⟨20 + ruleSize msg 20 % 256 + 1 +
      octet msg (20 + ruleSize msg 20 % 256), 0, 0⟩ at hwalks
    have hmod : ruleSize msg 20 % 256 = ruleSize msg 20 := by omega
    rw [hmod, hsize] at hambr hwalks
    exact .inr ⟨hambr, .inr ⟨hsize, show octet16 msg 21 ≤ 252 by omega, hend⟩, hwalks⟩

end Message

/-- One rule with a packet filter, a session AMBR, an IPv4 address and nothing else. -/
def acceptWithoutDnn : List UInt8 :=
  [0x7e, 0x02, 0x11, 0x22, 0x33, 0x44, 0x05, 0x7e, 0x00, 0x68, 0x01, 0x00, 0x24,
    0x2e, 0x01, 0x01, 0xc2, 0x11,
    0x00, 0x09, 0x01, 0x00, 0x06, 0x31, 0x31, 0x01, 0x01, 0xff, 0x05,
    0x06, 0x06, 0x03, 0xe8, 0x06, 0x03, 0xe8,
    0x29, 0x05, 0x01, 0x0c, 0x01, 0x01, 0x02]

/-- The same message with a DNN at its end. -/
def acceptWithDnn : List UInt8 := acceptWithoutDnn ++ [0x25, 0x04, 0x03, 0x6f, 0x61, 0x69]

theorem acceptWithDnn_fits : Fits acceptWithDnn := by
  refine .inr ⟨by decide, .inr ⟨by decide, by decide, by decide⟩, ?_⟩
  exact .element (by decide) (by decide) (.element (by decide) (by decide) (.done (by decide)))

end OaiGnb.Nas.PduSessionAccept
