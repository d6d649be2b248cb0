import OaiGnb.Lib.Framing
import OaiGnb.Mac.UlPdu

/-!
# The format of uplink MAC PDUs

The subPDUs of the UL-SCH as 38.321 has them, for the LCIDs that have a `case` in
`nr_process_mac_pdu`, and where the parsers of `Mac.UlPdu` take a sequence of them apart.

`decode_ul_mac_sub_pdu_header` has no `case` for the recommended bit rate query and the multiple
entry PHRs: it takes their first byte for the whole subPDU.

* `ulSchSize`: how a subPDU gets its length.
* `processStep_takes`, `lookaheadStep_takes`: what one iteration does with a subPDU.
* `processOffsets_iff`, `lookaheadOffsets_iff`: when the iterations begin where the subPDUs do.
-/

namespace OaiGnb.Mac.UlFormat

open Framing Run Mac.UlPdu

/-! ### SubPDUs -/

/-- How the payload of a subPDU gets its length: it is known by the LCID, it is in the subheader, or
it is the rest of the PDU. -/
inductive Size where
  | fixed (n : ℕ)
  | lengthField
  | rest
  deriving Repr, DecidableEq

/-- The multiple entry PHRs. -/
def IsMultiEntryPhr (lcid : ℕ) : Prop :=
  lcid = lcidMultiEntryPhr4Oct ∨ lcid = lcidMultiEntryPhr1Oct

instance (lcid : ℕ) : Decidable (IsMultiEntryPhr lcid) := by
  unfold IsMultiEntryPhr
  infer_instance

/-- The sizes of 38.321, 6.1.2 and 6.1.3. -/
def ulSchSize (lcid : ℕ) : Size :=
  if IsData lcid ∨ IsLongBsr lcid ∨ IsMultiEntryPhr lcid then .lengthField
  else if lcid = lcidCcch64Bits then .fixed 8
  else if lcid = lcidCcch48BitsRedcap ∨ lcid = lcidCcch48Bits then .fixed 6
  else if lcid = lcidRecommendedBitrateQuery ∨ lcid = lcidSingleEntryPhr ∨ lcid = lcidCRnti then
    .fixed 2
  else if lcid = lcidSTruncatedBsr ∨ lcid = lcidSBsr then .fixed 1
  else if lcid = lcidPadding then .rest
  else .fixed 0

/-- The LCIDs with a `case` in `nr_process_mac_pdu`. -/
def HasCase (lcid : ℕ) : Prop :=
  IsData lcid ∨ IsLongBsr lcid ∨ IsMultiEntryPhr lcid ∨
    lcid ∈ [lcidCcch64Bits, lcidCcch48BitsRedcap, lcidCcch48Bits, lcidRecommendedBitrateQuery,
      lcidConfiguredGrantConfirmation, lcidSingleEntryPhr, lcidCRnti, lcidSTruncatedBsr, lcidSBsr,
      lcidPadding]

instance (lcid : ℕ) : Decidable (HasCase lcid) := by unfold HasCase; infer_instance

/-- A subPDU: its LCID, the F field where it has one, and its payload. -/
structure UlSubPdu where
  lcid : ℕ
  long : Bool
  payload : List UInt8
  deriving Repr, DecidableEq

/-- The subheader with a length field. -/
def lengthSubheader (long : Bool) (lcid length : ℕ) : List UInt8 :=
  if long = true then
    [UInt8.ofNat (64 + lcid), UInt8.ofNat (length / 256), UInt8.ofNat (length % 256)]
  else [UInt8.ofNat lcid, UInt8.ofNat length]

/-- The bytes of a subPDU. -/
def UlSubPdu.encode (p : UlSubPdu) : List UInt8 :=
  match ulSchSize p.lcid with
  | .lengthField => lengthSubheader p.long p.lcid p.payload.length ++ p.payload
  | _ => UInt8.ofNat p.lcid :: p.payload

/-- The length of a subheader. -/
def UlSubPdu.headerLen (p : UlSubPdu) : ℕ :=
  match ulSchSize p.lcid with
  | .lengthField => if p.long = true then 3 else 2
  | _ => 1

/-- The payload has its size. -/
def UlSubPdu.HasSize (p : UlSubPdu) : Prop :=
  match ulSchSize p.lcid with
  | .fixed n => p.payload.length = n
  | .lengthField => p.payload.length < if p.long = true then 2 ^ 16 else 256
  | .rest => True

instance (p : UlSubPdu) : Decidable p.HasSize := by
  unfold UlSubPdu.HasSize
  split <;> infer_instance

/-- A long BSR has a bitmap and an octet for every LCG of it; a truncated one may have fewer. -/
def UlSubPdu.HasOctets (p : UlSubPdu) : Prop :=
  match p.payload with
  | [] => False
  | bitmap :: octets =>
      octets.length ≤ (activeLcgs bitmap.toNat).length ∧
        (p.lcid = lcidLBsr → octets.length = (activeLcgs bitmap.toNat).length)

instance (p : UlSubPdu) : Decidable p.HasOctets := by
  unfold UlSubPdu.HasOctets
  split <;> infer_instance

/-- A well-formed subPDU on an LCID that has a `case`. -/
structure UlSubPdu.WellFormed (p : UlSubPdu) : Prop where
  hasCase : HasCase p.lcid
  hasSize : p.HasSize
  hasOctets : IsLongBsr p.lcid → p.HasOctets

instance (p : UlSubPdu) : Decidable p.WellFormed :=
  decidable_of_iff (HasCase p.lcid ∧ p.HasSize ∧ (IsLongBsr p.lcid → p.HasOctets))
    ⟨fun h => ⟨h.1, h.2.1, h.2.2⟩, fun h => ⟨h.hasCase, h.hasSize, h.hasOctets⟩⟩

/-- A well-formed PDU: padding is its last subPDU. -/
structure WellFormedPdu (l : List UlSubPdu) : Prop where
  subPdus : ∀ p ∈ l, p.WellFormed
  padding : ∀ p ∈ l.dropLast, p.lcid ≠ lcidPadding

/-- The bytes of a PDU. -/
def encodePdu (l : List UlSubPdu) : List UInt8 := l.flatMap UlSubPdu.encode

/-- The offsets of the iterations of `nr_process_mac_pdu`. -/
def processOffsets (env : PduEnv) (ue : UlUe) (pdu : List UInt8) : List ℕ :=
  (visits (processStep env) ParseState.rest (pdu.length + 1) ⟨0, pdu, ue, []⟩).map
    fun rest => pdu.length - rest.length

/-- The offsets of the iterations of `lcid_crnti_lookahead`. -/
def lookaheadOffsets (pdu : List UInt8) : List ℕ :=
  (visits lookaheadStep id (pdu.length + 1) pdu).map fun rest => pdu.length - rest.length

/-! ### What the parsers know of a subPDU -/

/-- `decode_ul_mac_sub_pdu_header` finds the length of the subPDU. -/
def Sized (p : UlSubPdu) : Prop :=
  p.lcid ≠ lcidRecommendedBitrateQuery ∧ ¬ IsMultiEntryPhr p.lcid

instance (p : UlSubPdu) : Decidable (Sized p) := by unfold Sized; infer_instance

/-- The octets that the bitmap of a long BSR says are in the rest of the PDU. -/
def OctetsWithin (payload tail : List UInt8) : Prop :=
  match payload with
  | [] => False
  | bitmap :: octets => (activeLcgs bitmap.toNat).length ≤ (octets ++ tail).length

instance : ∀ payload tail : List UInt8, Decidable (OctetsWithin payload tail)
  | [], _ => inferInstanceAs (Decidable False)
  | _ :: _, _ => inferInstanceAs (Decidable (_ ≤ _))

/-- `nr_process_mac_pdu` goes on behind the subPDU. -/
structure Passes (env : PduEnv) (p : UlSubPdu) (tail : List UInt8) : Prop where
  padding : p.lcid ≠ lcidPadding
  ccch : p.lcid = lcidCcch64Bits → ¬ p.payload.all (· = 0) = true
  srb : IsData p.lcid → p.lcid < lcidDtch → env.cellGroup = true
  phr : p.lcid = lcidSingleEntryPhr → 0 ≤ env.harqPid
  cRnti : p.lcid = lcidCRnti → env.raIdle = false
  longBsr : IsLongBsr p.lcid → OctetsWithin p.payload tail

instance (env : PduEnv) (p : UlSubPdu) (tail : List UInt8) : Decidable (Passes env p tail) :=
  decidable_of_iff (p.lcid ≠ lcidPadding ∧
      (p.lcid = lcidCcch64Bits → ¬ p.payload.all (· = 0) = true) ∧
      (IsData p.lcid → p.lcid < lcidDtch → env.cellGroup = true) ∧
      (p.lcid = lcidSingleEntryPhr → 0 ≤ env.harqPid) ∧
      (p.lcid = lcidCRnti → env.raIdle = false) ∧
      (IsLongBsr p.lcid → OctetsWithin p.payload tail))
    ⟨fun h => ⟨h.1, h.2.1, h.2.2.1, h.2.2.2.1, h.2.2.2.2.1, h.2.2.2.2.2⟩,
      fun h => ⟨h.padding, h.ccch, h.srb, h.phr, h.cRnti, h.longBsr⟩⟩

/-- `lcid_crnti_lookahead` goes on behind the subPDU. -/
def LookaheadPasses (p : UlSubPdu) (_tail : List UInt8) : Prop :=
  p.lcid ≠ lcidCRnti ∧ p.lcid ≠ lcidPadding

instance (p : UlSubPdu) (tail : List UInt8) : Decidable (LookaheadPasses p tail) := by
  unfold LookaheadPasses
  infer_instance

variable {lcid : ℕ}

theorem lcid_lt (h : HasCase lcid) : lcid < 64 := by
  rcases h with h | h | h | h
  · rcases h with h | h | ⟨_, h⟩
    all_goals simp only [lcidSrb1, lcidSrb2, lcidDtch] at h; omega
  · rcases h with h | h
    all_goals rw [h]; decide
  · rcases h with h | h
    all_goals rw [h]; decide
  · exact (by decide : ∀ l ∈ _, l < 64) lcid h

theorem encode_ne_nil (p : UlSubPdu) : p.encode ≠ [] := by grind [UlSubPdu.encode, lengthSubheader]

theorem encode_length (p : UlSubPdu) : p.encode.length = p.headerLen + p.payload.length := by
  grind [UlSubPdu.encode, UlSubPdu.headerLen, lengthSubheader]

theorem encode_drop (p : UlSubPdu) (tail : List UInt8) :
    (p.encode ++ tail).drop p.headerLen = p.payload ++ tail := by
  grind [UlSubPdu.encode, UlSubPdu.headerLen, lengthSubheader]

variable {n : ℕ}

theorem ofNat_toNat (h : n < 256) : (UInt8.ofNat n).toNat = n := by simp_all

variable {b : UInt8}

theorem decode_fixed (hb : b.toNat % 64 = lcid)
    (hnot : ¬ (IsData lcid ∨ IsLongBsr lcid)) (tail : List UInt8) :
    decodeUlMacSubPduHeader (b :: tail) = .ok ⟨lcid, 1, fixedLength lcid⟩ := by
  have hread : readByte (b :: tail) 0 = .ok b.toNat := rfl
  rw [decodeUlMacSubPduHeader, hread, ok_bind]
  simp_all

theorem ofNat_lcid (hlt : lcid < 64) : (UInt8.ofNat lcid).toNat % 64 = lcid := by
  simp_all

theorem decode_lengthField {long : Bool} (hlt : lcid < 64)
    (hvar : IsData lcid ∨ IsLongBsr lcid) (hn : n < if long = true then 2 ^ 16 else 256)
    (tail : List UInt8) :
    decodeUlMacSubPduHeader (lengthSubheader long lcid n ++ tail)
      = .ok ⟨lcid, if long = true then 3 else 2, n⟩ := by
  cases long with
  | false =>
    have hread₀ : readByte (lengthSubheader false lcid n ++ tail) 0 = .ok lcid := by
      show Except.ok (UInt8.ofNat lcid).toNat = _
      rw [ofNat_toNat (by omega)]
    have hread₁ : readByte (lengthSubheader false lcid n ++ tail) 1 = .ok n := by
      show Except.ok (UInt8.ofNat n).toNat = _
      rw [ofNat_toNat hn]
    have hbit : ∀ l < 64, ¬ (l.testBit 6 = true) := by decide
    rw [decodeUlMacSubPduHeader, hread₀, ok_bind]
    rw [Nat.mod_eq_of_lt hlt, if_pos hvar, hread₁, ok_bind, if_neg (hbit lcid hlt)]
    rfl
  | true =>
    have hn : n < 2 ^ 16 := hn
    have hread₀ : readByte (lengthSubheader true lcid n ++ tail) 0 = .ok (64 + lcid) := by
      show Except.ok (UInt8.ofNat (64 + lcid)).toNat = _
      rw [ofNat_toNat (by omega)]
    have hread₁ : readByte (lengthSubheader true lcid n ++ tail) 1 = .ok (n / 256) := by
      show Except.ok (UInt8.ofNat (n / 256)).toNat = _
      rw [ofNat_toNat (by omega)]
    have hread₂ : readByte (lengthSubheader true lcid n ++ tail) 2 = .ok (n % 256) := by
      show Except.ok (UInt8.ofNat (n % 256)).toNat = _
      rw [ofNat_toNat (by omega)]
    have hbit : ∀ l < 64, (64 + l).testBit 6 = true := by decide
    have hmod : (64 + lcid) % 64 = lcid := by omega
    have hlength : n / 256 * 256 + n % 256 = n := by omega
    rw [decodeUlMacSubPduHeader, hread₀, ok_bind]
    rw [hmod, if_pos hvar, hread₁, ok_bind, if_pos (hbit lcid hlt), hread₂, ok_bind, hlength]
    rfl

theorem ulSchSize_lengthField (h : IsData lcid ∨ IsLongBsr lcid) :
    ulSchSize lcid = .lengthField := by
  rw [ulSchSize, if_pos]
  grind

theorem fixedLength_payload {p : UlSubPdu} (h : p.WellFormed) (hsized : Sized p)
    (hnot : ¬ (IsData p.lcid ∨ IsLongBsr p.lcid)) :
    p.encode = UInt8.ofNat p.lcid :: p.payload ∧ p.headerLen = 1 ∧
      (p.lcid ≠ lcidPadding → fixedLength p.lcid = p.payload.length) := by
  have hsize := h.hasSize
  have hcase := h.hasCase
  rw [not_or] at hnot
  rw [HasCase, or_iff_right hnot.1, or_iff_right hnot.2, or_iff_right hsized.2] at hcase
  have hul := (by decide : ∀ l ∈ _, l ≠ lcidRecommendedBitrateQuery →
    ulSchSize l = if l = lcidPadding then .rest else .fixed (fixedLength l)) p.lcid hcase hsized.1
  grind [UlSubPdu.HasSize, UlSubPdu.encode, UlSubPdu.headerLen, lcidPadding]

/-- **The subheader of a subPDU is decoded.** -/
theorem decode_encode {p : UlSubPdu} (h : p.WellFormed) (hsized : Sized p)
    (hpad : p.lcid ≠ lcidPadding) (tail : List UInt8) :
    decodeUlMacSubPduHeader (p.encode ++ tail) = .ok ⟨p.lcid, p.headerLen, p.payload.length⟩ := by
  have hlt := lcid_lt h.hasCase
  by_cases hvar : IsData p.lcid ∨ IsLongBsr p.lcid
  · have hsize := h.hasSize
    grind [ulSchSize_lengthField, UlSubPdu.HasSize, UlSubPdu.encode, UlSubPdu.headerLen,
      List.append_assoc, decode_lengthField]
  · grind [fixedLength_payload, decode_fixed, ofNat_lcid]

/-! ### The `switch` -/

variable {h : SubHeader}

section Switch

variable {env : PduEnv} {p : UlSubPdu} {s : ParseState} {tail : List UInt8}

theorem readRange_payload (hrest : s.rest = p.encode ++ tail) :
    readRange s.rest p.headerLen p.payload.length = .ok p.payload := by
  grind [encode_length, List.length_append, readRange_ok, encode_drop, List.take_left]

theorem readByte_payload {bytes : List UInt8} (hrest : s.rest = p.encode ++ tail)
    (hp : p.payload = b :: bytes) : readByte s.rest p.headerLen = .ok b.toNat := by
  grind [List.head?_drop, encode_drop, readByte]

theorem dispatch_eq_ccchSdu (hccch : h.lcid = lcidCcch64Bits
    ∨ h.lcid = lcidCcch48BitsRedcap ∨ h.lcid = lcidCcch48Bits) :
    dispatch env s h = ccchSdu env s h := if_pos hccch

theorem dispatch_eq_dataSdu (hdata : IsData h.lcid) :
    dispatch env s h = dataSdu env s h := by
  have hccch : ¬ (h.lcid = lcidCcch64Bits ∨ h.lcid = lcidCcch48BitsRedcap
      ∨ h.lcid = lcidCcch48Bits) := by
    intro hccch
    rcases hccch with heq | heq | heq
    all_goals rw [heq] at hdata; exact absurd hdata (by decide)
  rw [dispatch, if_neg hccch, if_pos hdata]

theorem dispatch_eq_phr (hphr : h.lcid = lcidSingleEntryPhr) :
    dispatch env s h = singleEntryPhr env s h := by
  unfold dispatch
  rw [hphr]
  rfl

theorem dispatch_eq_shortBsr (hbsr : h.lcid = lcidSTruncatedBsr ∨ h.lcid = lcidSBsr) :
    dispatch env s h =
      match readByte s.rest h.macSubheaderLen, readRange s.rest h.macSubheaderLen 1 with
      | .ok b, .ok bytes =>
          .ok ({ s.ue with estimatedUlBuffer := estimateUlBufferShortBsr env b, schedUlBytes := 0 },
            [⟨.shortBsr, s.offset + h.macSubheaderLen, bytes⟩])
      | _, _ => .error (.error .outOfBounds) := by
  unfold dispatch
  rcases hbsr with heq | heq
  all_goals rw [heq]; rfl

theorem dispatch_eq_longBsr (hbsr : IsLongBsr h.lcid) :
    dispatch env s h =
      match estimateUlBufferLongBsr env s.rest h.macSubheaderLen with
      | .ok (bytes, size) =>
          .ok ({ s.ue with estimatedUlBuffer := size, schedUlBytes := 0 },
            [⟨.longBsr, s.offset + h.macSubheaderLen, bytes⟩])
      | .error e => .error (.error e) := by
  unfold dispatch
  rcases hbsr with heq | heq
  all_goals rw [heq]; rfl

theorem dispatch_data (hdata : IsData p.lcid) (hrest : s.rest = p.encode ++ tail) :
    dispatch env s ⟨p.lcid, p.headerLen, p.payload.length⟩
      = if p.lcid < lcidDtch ∧ env.cellGroup = false then .error (.error .assertFatal)
        else .ok (match env.lcConfig p.lcid with
          | some false =>
              (if p.lcid < lcidDtch then s.ue
                else { s.ue with
                  estimatedUlBuffer := max 0 (s.ue.estimatedUlBuffer - p.payload.length) },
              [⟨.rlcDataInd p.lcid, s.offset + p.headerLen, p.payload⟩])
          | _ => (s.ue, [])) := by
  rw [dispatch_eq_dataSdu hdata, dataSdu]
  rw [readRange_payload hrest]
  grind

theorem dispatch_phr {b₀ b₁ : UInt8} (hphr : p.lcid = lcidSingleEntryPhr)
    (hp : p.payload = [b₀, b₁]) (hrest : s.rest = p.encode ++ tail) (hpid : 0 ≤ env.harqPid) :
    ∃ ue, dispatch env s ⟨p.lcid, p.headerLen, p.payload.length⟩
      = .ok (ue, [⟨.phr, s.offset + p.headerLen, p.payload⟩]) := by
  have hread := readByte_payload hrest hp
  have hrange := readRange_payload hrest
  have hread₁ : readByte s.rest (p.headerLen + 1) = .ok b₁.toNat := by
    have hget : s.rest[p.headerLen + 1]? = some b₁ := by
      rw [← List.head?_drop, ← List.drop_drop, hrest, encode_drop, hp]
      rfl
    rw [readByte, hget]
  simp_all [dispatch_eq_phr, singleEntryPhr, if_neg]

theorem dispatch_shortBsr {b : UInt8} (hbsr : p.lcid = lcidSTruncatedBsr ∨ p.lcid = lcidSBsr)
    (hp : p.payload = [b]) (hrest : s.rest = p.encode ++ tail) :
    ∃ ue, dispatch env s ⟨p.lcid, p.headerLen, p.payload.length⟩
      = .ok (ue, [⟨.shortBsr, s.offset + p.headerLen, p.payload⟩]) := by
  have hread := readByte_payload hrest hp
  have hrange := readRange_payload hrest
  simp_all [dispatch_eq_shortBsr]

theorem dispatch_longBsr {bitmap : UInt8} {octets : List UInt8} (hbsr : IsLongBsr p.lcid)
    (hp : p.payload = bitmap :: octets) (hrest : s.rest = p.encode ++ tail) :
    dispatch env s ⟨p.lcid, p.headerLen, p.payload.length⟩
      = if (activeLcgs bitmap.toNat).length ≤ (octets ++ tail).length then
          let bytes := bitmap :: (octets ++ tail).take (activeLcgs bitmap.toNat).length
          .ok ({ s.ue with estimatedUlBuffer := longBsrSize env bytes, schedUlBytes := 0 },
            [⟨.longBsr, s.offset + p.headerLen, bytes⟩])
        else .error (.error .outOfBounds) := by
  have hread := readByte_payload hrest hp
  have hdrop : s.rest.drop p.headerLen = bitmap :: (octets ++ tail) := by
    rw [hrest, encode_drop, hp, List.cons_append]
  have hlen : s.rest.length = p.headerLen + (1 + (octets ++ tail).length) := by
    have hlen := encode_length p
    rw [hrest, List.length_append, hlen, hp, List.length_cons, List.length_append]
    omega
  rw [dispatch_eq_longBsr hbsr]
  dsimp only
  rw [estimateUlBufferLongBsr, hread, ok_bind, readRange]
  by_cases hfits : (activeLcgs bitmap.toNat).length ≤ (octets ++ tail).length
  · rw [if_pos (by omega), if_pos hfits, hdrop, Nat.add_comm 1, List.take_succ_cons]
    rfl
  · simp_all [if_neg]

theorem ccchSdu_ok_iff (hencode : p.encode = UInt8.ofNat p.lcid :: p.payload)
    (hrest : s.rest = p.encode ++ tail) :
    (∃ r, ccchSdu env s ⟨p.lcid, p.headerLen, p.payload.length⟩ = .ok r) ↔
      (p.lcid = lcidCcch64Bits → ¬ p.payload.all (· = 0) = true) := by
  have hall : readRange s.rest 0 (p.headerLen + p.payload.length) = .ok p.encode := by
    have hlen := encode_length p
    have hfits : 0 + (p.headerLen + p.payload.length) ≤ s.rest.length := by
      rw [hrest, List.length_append]
      omega
    rw [readRange_ok hfits, hrest, List.drop_zero, ← hlen, List.take_left]
  have hrange := readRange_payload hrest
  unfold ccchSdu SubHeader.total
  rw [hall, hrange]
  dsimp only
  have hzero : p.lcid = lcidCcch64Bits →
      p.encode.all (· = 0) = p.payload.all (· = 0) := by
    intro heq
    rw [hencode, heq, List.all_cons]
    rfl
  by_cases hbad : p.lcid = lcidCcch64Bits ∧ p.encode.all (· = 0) = true
  · grind
  · rw [if_neg hbad]
    grind

theorem isData_other (h : IsData lcid) :
    lcid ≠ lcidPadding ∧ lcid ≠ lcidCcch64Bits ∧ lcid ≠ lcidSingleEntryPhr ∧ lcid ≠ lcidCRnti ∧
      ¬ IsLongBsr lcid := by
  have hle : lcid < 33 ∧ lcid ≠ 0 := by
    rcases h with rfl | rfl | ⟨h₁, h₂⟩
    · decide
    · decide
    · grind [lcidDtch]
  have hall : ∀ l < 33, l ≠ 0 → l ≠ lcidPadding ∧ l ≠ lcidCcch64Bits ∧ l ≠ lcidSingleEntryPhr ∧
      l ≠ lcidCRnti ∧ ¬ IsLongBsr l := by decide
  exact hall lcid hle.1 hle.2

theorem dispatch_fixed_ok_iff (h : p.WellFormed) (hsized : Sized p) (hpad : p.lcid ≠ lcidPadding)
    (hnot : ¬ (IsData p.lcid ∨ IsLongBsr p.lcid)) (hrest : s.rest = p.encode ++ tail) :
    (∃ r, dispatch env s ⟨p.lcid, p.headerLen, p.payload.length⟩ = .ok r) ↔
      (p.lcid = lcidCcch64Bits → ¬ p.payload.all (· = 0) = true) ∧
      (p.lcid = lcidSingleEntryPhr → 0 ≤ env.harqPid) ∧
      (p.lcid = lcidCRnti → env.raIdle = false) := by
  obtain ⟨hencode, hheader, hlength⟩ := fixedLength_payload h hsized hnot
  have hlength := hlength hpad
  have hcase := h.hasCase
  rw [not_or] at hnot
  rw [HasCase, or_iff_right hnot.1, or_iff_right hnot.2, or_iff_right hsized.2] at hcase
  have hkind : (p.lcid = lcidCcch64Bits ∨ p.lcid = lcidCcch48BitsRedcap ∨ p.lcid = lcidCcch48Bits) ∨
      p.lcid = lcidConfiguredGrantConfirmation ∨ p.lcid = lcidSingleEntryPhr ∨
      p.lcid = lcidCRnti ∨ (p.lcid = lcidSTruncatedBsr ∨ p.lcid = lcidSBsr) := by
    simp only [List.mem_cons, List.not_mem_nil, or_false] at hcase
    have hquery := hsized.1
    tauto
  rcases hkind with hccch | hconf | hphr | hcRnti | hshort
  · rw [dispatch_eq_ccchSdu hccch, ccchSdu_ok_iff hencode hrest]
    refine ⟨fun hpass => ⟨hpass, fun heq => ?_, fun heq => ?_⟩, fun hpass => hpass.1⟩
    all_goals
      rw [heq] at hccch
      exact absurd hccch (by decide)
  · rw [hconf]
    exact ⟨fun _ => ⟨fun heq => (by cases heq), fun heq => (by cases heq), fun heq => (by cases heq)⟩,
      fun _ => ⟨_, rfl⟩⟩
  · rw [hphr] at hlength
    obtain ⟨b₀, b₁, hpayload⟩ := List.length_eq_two.mp hlength.symm
    by_cases hpid : 0 ≤ env.harqPid
    · obtain ⟨ue, hdisp⟩ := dispatch_phr hphr hpayload hrest hpid
      rw [hdisp, hphr]
      exact ⟨fun _ => ⟨fun heq => (by cases heq), fun _ => hpid, fun heq => (by cases heq)⟩,
        fun _ => ⟨_, rfl⟩⟩
    · rw [dispatch_eq_phr hphr, singleEntryPhr, if_pos (Int.not_le.mp hpid)]
      grind
  · have hdisp : dispatch env s ⟨p.lcid, p.headerLen, p.payload.length⟩
        = if env.raIdle = true then .error (.error .assertFatal) else .ok (s.ue, []) := by
      rw [hcRnti]
      rfl
    rw [hdisp, hcRnti]
    cases env.raIdle with
    | true => simp
    | false =>
      exact ⟨fun _ => ⟨fun heq => (by cases heq), fun heq => (by cases heq), fun _ => rfl⟩,
        fun _ => ⟨_, rfl⟩⟩
  · have hone : p.payload.length = 1 := by
      rw [← hlength]
      rcases hshort with heq | heq
      all_goals rw [heq]; rfl
    obtain ⟨b, hpayload⟩ := List.length_eq_one_iff.mp hone
    obtain ⟨ue, hdisp⟩ := @dispatch_shortBsr env p s tail b hshort hpayload hrest
    rw [hdisp]
    refine ⟨fun _ => ⟨fun heq => ?_, fun heq => ?_, fun heq => ?_⟩, fun _ => ⟨_, rfl⟩⟩
    all_goals
      rw [heq] at hshort
      exact absurd hshort (by decide)

/-- **When the `switch` goes on to the next subPDU.** -/
theorem dispatch_ok_iff (h : p.WellFormed) (hsized : Sized p) (hpad : p.lcid ≠ lcidPadding)
    (hrest : s.rest = p.encode ++ tail) :
    (∃ r, dispatch env s ⟨p.lcid, p.headerLen, p.payload.length⟩ = .ok r) ↔
      Passes env p tail := by
  by_cases hdata : IsData p.lcid
  · obtain ⟨_, hccch, hphr, hcRnti, hlong⟩ := isData_other hdata
    have hpasses : Passes env p tail ↔ (p.lcid < lcidDtch → env.cellGroup = true) :=
      ⟨fun hp => hp.srb hdata, fun hsrb => ⟨hpad, fun heq => absurd heq hccch, fun _ => hsrb,
        fun heq => absurd heq hphr, fun heq => absurd heq hcRnti, fun hl => absurd hl hlong⟩⟩
    rw [hpasses, dispatch_data hdata hrest]
    split
    · simp_all
    · simp_all
  by_cases hlong : IsLongBsr p.lcid
  · have hoctets := h.hasOctets hlong
    unfold UlSubPdu.HasOctets at hoctets
    have hother : p.lcid ≠ lcidCcch64Bits ∧ p.lcid ≠ lcidSingleEntryPhr ∧ p.lcid ≠ lcidCRnti := by
      rcases hlong with heq | heq
      all_goals rw [heq]; decide
    have hpasses : Passes env p tail ↔ OctetsWithin p.payload tail :=
      ⟨fun hp => hp.longBsr hlong, fun hw => ⟨hpad, fun heq => absurd heq hother.1,
        fun hd => absurd hd hdata, fun heq => absurd heq hother.2.1,
        fun heq => absurd heq hother.2.2, fun _ => hw⟩⟩
    rw [hpasses]
    cases hpayload : p.payload with
    | nil =>
      simp_all
    | cons bitmap octets =>
      rw [← hpayload, dispatch_longBsr hlong hpayload hrest, hpayload]
      unfold OctetsWithin
      split
      · simp_all
      · simp_all
  · rw [dispatch_fixed_ok_iff h hsized hpad (not_or.mpr ⟨hdata, hlong⟩) hrest]
    exact ⟨fun hpass => ⟨hpad, hpass.1, fun hd => absurd hd hdata, hpass.2.1, hpass.2.2,
      fun hl => absurd hl hlong⟩, fun hp => ⟨hp.ccch, hp.phr, hp.cRnti⟩⟩

end Switch

/-! ### The iterations -/

section Iterations

variable {env : PduEnv} {p : UlSubPdu} {s : ParseState} {tail : List UInt8}

theorem processStep_of_decode (hd : decodeUlMacSubPduHeader s.rest = .ok h)
    (hne : s.rest ≠ []) (hfits : h.total ≤ s.rest.length) :
    processStep env s =
      match dispatch env s h with
      | .error result => .stop ⟨result, s.ue, s.calls⟩
      | .ok (ue, calls) =>
          .go ⟨s.offset + h.total, s.rest.drop h.total, ue, s.calls ++ calls⟩ := by
  rw [processStep, if_neg hne, hd]
  grind

theorem lookaheadStep_of_decode {rest : List UInt8}
    (hd : decodeUlMacSubPduHeader rest = .ok h) (hne : rest ≠ []) (hfits : h.total ≤ rest.length) :
    lookaheadStep rest =
      if h.lcid = lcidCRnti then
        .stop do
          let b₁ ← readByte rest 1
          let b₂ ← readByte rest 2
          return b₁ * 256 + b₂
      else if h.lcid = lcidPadding then .stop (.ok 0)
      else .go (rest.drop h.total) := by
  rw [lookaheadStep, if_neg hne, hd]
  grind

theorem processStep_eq (h : p.WellFormed) (hsized : Sized p) (hpad : p.lcid ≠ lcidPadding)
    (hrest : s.rest = p.encode ++ tail) :
    processStep env s =
      match dispatch env s ⟨p.lcid, p.headerLen, p.payload.length⟩ with
      | .error result => .stop ⟨result, s.ue, s.calls⟩
      | .ok (ue, calls) => .go ⟨s.offset + p.encode.length, tail, ue, s.calls ++ calls⟩ := by
  have hpos := List.length_pos_iff.mpr (encode_ne_nil p)
  have htotal : (⟨p.lcid, p.headerLen, p.payload.length⟩ : SubHeader).total = p.encode.length :=
    (encode_length p).symm
  grind [List.drop_left, decode_encode, processStep_of_decode]

theorem encode_head (hlt : p.lcid < 64) :
    ∃ b bytes, p.encode = b :: bytes ∧ b.toNat % 64 = p.lcid := by
  unfold UlSubPdu.encode lengthSubheader
  split
  · split
    · simp_all
    · exact ⟨_, _, rfl, ofNat_lcid hlt⟩
  · exact ⟨_, _, rfl, ofNat_lcid hlt⟩

theorem decode_padding (hpad : p.lcid = lcidPadding) (tail : List UInt8) :
    decodeUlMacSubPduHeader (p.encode ++ tail) = .ok ⟨lcidPadding, 1, 0⟩ := by
  obtain ⟨b, bytes, hencode, hb⟩ := @encode_head p (by rw [hpad]; decide)
  rw [hpad] at hb
  rw [hencode, List.cons_append]
  exact decode_fixed hb (by decide) _

theorem decode_not_sized (h : p.WellFormed) (hsized : ¬ Sized p) (tail : List UInt8) :
    decodeUlMacSubPduHeader (p.encode ++ tail) = .ok ⟨p.lcid, 1, 0⟩ ∧ 1 < p.encode.length ∧
      (p.lcid = lcidRecommendedBitrateQuery ∨ p.lcid = lcidMultiEntryPhr4Oct
        ∨ p.lcid = lcidMultiEntryPhr1Oct) := by
  have hkind : p.lcid = lcidRecommendedBitrateQuery ∨ p.lcid = lcidMultiEntryPhr4Oct
      ∨ p.lcid = lcidMultiEntryPhr1Oct := by
    by_contra hnone
    rw [not_or] at hnone
    exact hsized ⟨hnone.1, hnone.2⟩
  obtain ⟨b, bytes, hencode, hb⟩ := encode_head (lcid_lt h.hasCase)
  have hsize := h.hasSize
  refine ⟨?_, ?_, hkind⟩
  · rw [hencode, List.cons_append]
    rcases hkind with heq | heq | heq
    all_goals
      rw [heq] at hb ⊢
      exact decode_fixed hb (by decide) _
  · rw [encode_length]
    unfold UlSubPdu.HasSize at hsize
    unfold UlSubPdu.headerLen
    rcases hkind with heq | heq | heq
    · rw [heq] at hsize ⊢
      have hsize : p.payload.length = 2 := hsize
      omega
    all_goals
      rw [heq]
      show 1 < (if p.long = true then 3 else 2) + p.payload.length
      split <;> omega

/-- **One iteration of `nr_process_mac_pdu` at a subPDU.** -/
theorem processStep_takes (env : PduEnv) (h : p.WellFormed) :
    Takes (processStep env) ParseState.rest UlSubPdu.encode Sized (Passes env) p := by
  have hpos := List.length_pos_iff.mpr (encode_ne_nil p)
  refine ⟨?_, ?_, ?_⟩
  · intro s tail hrest hsized hpass
    obtain ⟨⟨ue, calls⟩, hdisp⟩ := (dispatch_ok_iff h hsized hpass.padding hrest).mpr hpass
    refine ⟨⟨s.offset + p.encode.length, tail, ue, s.calls ++ calls⟩, ?_, rfl⟩
    rw [processStep_eq h hsized hpass.padding hrest, hdisp]
  · intro s tail hrest hsized hpass
    have hlen : s.rest.length = p.encode.length + tail.length := by rw [hrest, List.length_append]
    by_cases hpad : p.lcid = lcidPadding
    · have hdecode := decode_padding hpad tail
      rw [← hrest] at hdecode
      have hfits : (⟨lcidPadding, 1, 0⟩ : SubHeader).total ≤ s.rest.length := by
        show 1 + 0 ≤ s.rest.length
        omega
      rw [processStep_of_decode hdecode (List.length_pos_iff.mp (by omega)) hfits]
      exact ⟨_, rfl⟩
    · rw [processStep_eq h hsized hpad hrest]
      cases hdisp : dispatch env s ⟨p.lcid, p.headerLen, p.payload.length⟩ with
      | error result => exact ⟨_, rfl⟩
      | ok r => grind [absurd, dispatch_ok_iff]
  · intro s tail hrest hsized
    have hlen : s.rest.length = p.encode.length + tail.length := by rw [hrest, List.length_append]
    obtain ⟨hdecode, hmore, hkind⟩ := decode_not_sized h hsized tail
    rw [← hrest] at hdecode
    have hfits : (⟨p.lcid, 1, 0⟩ : SubHeader).total ≤ s.rest.length := by
      show 1 + 0 ≤ s.rest.length
      omega
    have hdisp : dispatch env s ⟨p.lcid, 1, 0⟩ = .ok (s.ue, []) := by
      rcases hkind with heq | heq | heq
      all_goals rw [heq]; rfl
    refine ⟨⟨s.offset + 1, s.rest.drop 1, s.ue, s.calls ++ []⟩, ?_, ?_⟩
    · rw [processStep_of_decode hdecode (List.length_pos_iff.mp (by omega)) hfits, hdisp]
      rfl
    · grind

/-- **One iteration of `lcid_crnti_lookahead` at a subPDU.** -/
theorem lookaheadStep_takes (h : p.WellFormed) :
    Takes lookaheadStep id UlSubPdu.encode Sized LookaheadPasses p := by
  have hpos := List.length_pos_iff.mpr (encode_ne_nil p)
  have htotal : (⟨p.lcid, p.headerLen, p.payload.length⟩ : SubHeader).total = p.encode.length :=
    (encode_length p).symm
  refine ⟨?_, ?_, ?_⟩
  · intro rest tail hrest hsized hpass
    have hrest : rest = p.encode ++ tail := hrest
    have hlen : rest.length = p.encode.length + tail.length := by rw [hrest, List.length_append]
    have hdecode := decode_encode h hsized hpass.2 tail
    rw [← hrest] at hdecode
    refine ⟨tail, ?_, rfl⟩
    rw [lookaheadStep_of_decode hdecode (List.length_pos_iff.mp (by omega)) (by omega),
      if_neg hpass.1, if_neg hpass.2, htotal, hrest, List.drop_left]
  · intro rest tail hrest hsized hpass
    have hrest : rest = p.encode ++ tail := hrest
    have hlen : rest.length = p.encode.length + tail.length := by rw [hrest, List.length_append]
    by_cases hpad : p.lcid = lcidPadding
    · have hdecode := decode_padding hpad tail
      rw [← hrest] at hdecode
      have hfits : (⟨lcidPadding, 1, 0⟩ : SubHeader).total ≤ rest.length := by
        show 1 + 0 ≤ rest.length
        omega
      rw [lookaheadStep_of_decode hdecode (List.length_pos_iff.mp (by omega)) hfits]
      exact ⟨_, rfl⟩
    · have hcRnti : p.lcid = lcidCRnti := by
        by_contra hnot
        exact hpass ⟨hnot, hpad⟩
      have hdecode := decode_encode h hsized hpad tail
      rw [← hrest] at hdecode
      rw [lookaheadStep_of_decode hdecode (List.length_pos_iff.mp (by omega)) (by omega),
        if_pos hcRnti]
      exact ⟨_, rfl⟩
  · intro rest tail hrest hsized
    have hrest : rest = p.encode ++ tail := hrest
    have hlen : rest.length = p.encode.length + tail.length := by rw [hrest, List.length_append]
    obtain ⟨hdecode, hmore, hkind⟩ := decode_not_sized h hsized tail
    rw [← hrest] at hdecode
    have hfits : (⟨p.lcid, 1, 0⟩ : SubHeader).total ≤ rest.length := by
      show 1 + 0 ≤ rest.length
      omega
    have hother : p.lcid ≠ lcidCRnti ∧ p.lcid ≠ lcidPadding := by
      rcases hkind with heq | heq | heq
      all_goals rw [heq]; decide
    refine ⟨rest.drop 1, ?_, ?_⟩
    · rw [lookaheadStep_of_decode hdecode (List.length_pos_iff.mp (by omega)) hfits,
        if_neg hother.1, if_neg hother.2]
      rfl
    · grind

end Iterations

variable {l : List UlSubPdu}

/-- **Where the iterations of `nr_process_mac_pdu` begin.** -/
theorem processOffsets_iff (env : PduEnv) (ue : UlUe) (h : ∀ p ∈ l, p.WellFormed) :
    processOffsets env ue (encodePdu l) = starts UlSubPdu.encode 0 l ↔
      Passable UlSubPdu.encode Sized (Passes env) l := by
  have hiff := @visits_offsets_iff _ _ _ _ (processStep env) ParseState.rest UlSubPdu.encode Sized
    (Passes env) l (fun p _ => encode_ne_nil p) (fun p hp => processStep_takes env (h p hp))
    ((encodePdu l).length + 1) 0 ⟨0, encodePdu l, ue, []⟩ rfl (Nat.lt_succ_self _)
  rw [← hiff, processOffsets, Nat.zero_add]

/-- **Where the iterations of `lcid_crnti_lookahead` begin.** -/
theorem lookaheadOffsets_iff (h : ∀ p ∈ l, p.WellFormed) :
    lookaheadOffsets (encodePdu l) = starts UlSubPdu.encode 0 l ↔
      Passable UlSubPdu.encode Sized LookaheadPasses l := by
  have hiff := @visits_offsets_iff _ _ _ _ lookaheadStep id UlSubPdu.encode Sized
    LookaheadPasses l (fun p _ => encode_ne_nil p) (fun p hp => lookaheadStep_takes (h p hp))
    ((encodePdu l).length + 1) 0 (encodePdu l) rfl (Nat.lt_succ_self _)
  rw [← hiff, lookaheadOffsets, Nat.zero_add]
  rfl

/-- An SDU on SRB1, an SDU with the other length field, a PHR, a configured grant confirmation, a
long BSR, a short BSR and padding. -/
def samplePdu : List UlSubPdu :=
  [⟨lcidSrb1, false, [0xaa, 0xbb]⟩, ⟨lcidDtch, true, [0xcc]⟩, ⟨lcidSingleEntryPhr, false, [40, 50]⟩,
    ⟨lcidConfiguredGrantConfirmation, false, []⟩, ⟨lcidLBsr, false, [5, 1, 2]⟩,
    ⟨lcidSBsr, false, [7]⟩, ⟨lcidPadding, false, [0, 0]⟩]

end OaiGnb.Mac.UlFormat
