import OaiGnb.Lib.Octets

/-!
# Decoding a Registration Accept

`decode_registration_accept` of `RegistrationAccept.c`, with `decode_nssai_ie` and
`decode_5gs_mobile_identity` of `FGSMobileIdentity.c`.  What is left of the array is a pointer and
an unsigned length (`View`), and `UPDATE_BYTE_ARRAY` takes from the length without a check.

The lengths are those of the message and are not compared with what is left, the second octet of an
element is its length whatever the element, and an identity other than a 5G-GUTI is an assertion.

* `elementSize`, `Boundaries`: where the information elements of a message are.
* `Fits`: the messages that are safe to decode.
* `decodeRegistrationAccept_safe`: those, and no others, are decoded inside the array and element by
  element.
-/

namespace OaiGnb.Nas.RegistrationAccept

open Octets Run

inductive Fault
  | outOfBounds
  | listFull
  | assertFatal
  | diverges
deriving Repr, DecidableEq

/-- `NAS_MAX_NUMBER_SLICES`. -/
abbrev nasMaxNumberSlices : ℕ := 8

/-- `nr_nas_msg_snssai_t`; a pointer may be null. -/
structure Snssai where
  sst : ℕ := 0
  hplmnSst : Option ℕ := none
  sd : Option ℕ := none
  hplmnSd : Option ℕ := none
deriving Repr, DecidableEq, Inhabited

/-- `Guti5GSMobileIdentity_t`. -/
structure Guti where
  spare : ℕ := 0
  oddeven : ℕ := 0
  typeofidentity : ℕ := 0
  mccdigit1 : ℕ := 0
  mccdigit2 : ℕ := 0
  mccdigit3 : ℕ := 0
  mncdigit1 : ℕ := 0
  mncdigit2 : ℕ := 0
  mncdigit3 : ℕ := 0
  amfregionid : ℕ := 0
  amfsetid : ℕ := 0
  amfpointer : ℕ := 0
  tmsi : ℕ := 0
deriving Repr, DecidableEq

/-- `registration_accept_msg`. -/
structure Msg where
  result : ℕ := 0
  smsAllowed : Bool := false
  guti : Option Guti := none
  nasAllowedNssai : Vector Snssai nasMaxNumberSlices := Vector.replicate _ {}
  numAllowedSlices : ℕ := 0
  configNssai : Vector Snssai nasMaxNumberSlices := Vector.replicate _ {}
  numConfiguredSlices : ℕ := 0
deriving Repr, DecidableEq

/-! ### Lists of slices -/

/-- The fields of an item whose contents begin at `pos`, by its length; none if the length is not
known. -/
def itemOf (msg : List UInt8) (pos : ℕ) (item : Snssai) : ℕ → Option Snssai
  | 1 => some { item with sst := octet msg pos }
  | 2 => some { item with sst := octet msg pos, hplmnSst := some (octet msg (pos + 1)) }
  | 4 => some { item with sst := octet msg pos, sd := some (octet24 msg (pos + 1)) }
  | 5 => some { item with
      sst := octet msg pos
      sd := some (octet24 msg (pos + 1))
      hplmnSst := some (octet msg (pos + 4)) }
  | 8 => some { item with
      sst := octet msg pos
      sd := some (octet24 msg (pos + 1))
      hplmnSst := some (octet msg (pos + 4))
      hplmnSd := some (octet24 msg (pos + 5)) }
  | _ => none

/-- The loop of `decode_nssai_ie`, with `fuel` for its rounds. -/
def nssaiLoop (msg : List UInt8) (stop : ℕ) :
    ℕ → ℕ → Vector Snssai nasMaxNumberSlices → ℕ →
      Except Fault (Vector Snssai nasMaxNumberSlices × ℕ)
  | 0, _, _, _ => .error .diverges
  | fuel + 1, buf, nssai, nssaiCnt =>
      if buf < stop then do
        let itemLen ← octetAt .outOfBounds msg buf
        if h : nssaiCnt < nasMaxNumberSlices then
          match itemOf msg (buf + 1) nssai[nssaiCnt] itemLen with
          | none => nssaiLoop msg stop fuel (buf + 1) nssai nssaiCnt
          | some item =>
              let _ ← readAt .outOfBounds msg (buf + 1) itemLen 0
              nssaiLoop msg stop fuel (buf + 1 + itemLen) (nssai.set nssaiCnt item) (nssaiCnt + 1)
        else if (itemOf msg (buf + 1) {} itemLen).isSome then .error .listFull
        else nssaiLoop msg stop fuel (buf + 1) nssai nssaiCnt
      else .ok (nssai, nssaiCnt)

/-- `decode_nssai_ie`: the list, the number of its items and the octets of the element. -/
def decodeNssaiIe (msg : List UInt8) (buf : ℕ) (nssai : Vector Snssai nasMaxNumberSlices) :
    Except Fault (Vector Snssai nasMaxNumberSlices × ℕ × ℕ) := do
  let length ← octetAt .outOfBounds msg buf
  let (nssai, nssaiCnt) ← nssaiLoop msg (buf + 1 + length) (length + 1) (buf + 1) nssai 0
  return (nssai, nssaiCnt, length + 1)

/-! ### The 5G-GUTI -/

/-- `TLV_DECODE_UNEXPECTED_IEI`. -/
def tlvDecodeUnexpectedIei : ℤ := -1

/-- `TLV_DECODE_BUFFER_TOO_SHORT`. -/
def tlvDecodeBufferTooShort : ℤ := -12

/-- `TLV_ENCODE_VALUE_DOESNT_MATCH`. -/
def tlvEncodeValueDoesntMatch : ℤ := -1

/-- `FGS_MOBILE_IDENTITY_5G_GUTI`. -/
def fgsMobileIdentity5gGuti : ℕ := 2

/-- The octets of a GUTI behind the first one. -/
def gutiFields (msg : List UInt8) (buf : ℕ) (guti : Guti) : Guti :=
  { guti with
    mccdigit2 := octet msg (buf + 1) / 16
    mccdigit1 := octet msg (buf + 1) % 16
    mncdigit3 := octet msg (buf + 2) / 16
    mccdigit3 := octet msg (buf + 2) % 16
    mncdigit2 := octet msg (buf + 3) / 16
    mncdigit1 := octet msg (buf + 3) % 16
    amfregionid := octet msg (buf + 4)
    amfsetid := octet16 msg (buf + 5) / 64
    amfpointer := octet16 msg (buf + 5) % 64
    tmsi := octet32 msg (buf + 7) }

/-- `decode_guti_5gs_mobile_identity`: what it returns, and the GUTI as far as it is filled. -/
def decodeGuti5gsMobileIdentity (msg : List UInt8) (buf : ℕ) (guti : Guti) :
    Except Fault (ℤ × Guti) := do
  let b ← octetAt .outOfBounds msg buf
  if b / 16 ≠ 0xf then return (tlvEncodeValueDoesntMatch, { guti with spare := b / 16 })
  else if b / 8 % 2 ≠ 0 then
    return (tlvEncodeValueDoesntMatch, { guti with spare := b / 16, oddeven := b / 8 % 2 })
  else if b % 8 ≠ fgsMobileIdentity5gGuti then
    return (tlvEncodeValueDoesntMatch,
      { guti with spare := b / 16, oddeven := b / 8 % 2, typeofidentity := b % 8 })
  else
    let _ ← readAt .outOfBounds msg (buf + 1) 10 0
    return (11, gutiFields msg buf
      { guti with spare := b / 16, oddeven := b / 8 % 2, typeofidentity := b % 8 })

/-- `decode_5gs_mobile_identity`.  The length is read as it lies in memory, least significant octet
first, and `ielen` keeps that octet; `len` is a `uint32_t`. -/
def decode5gsMobileIdentity (msg : List UInt8) (iei buf len : ℕ) : Except Fault (ℤ × Guti) := do
  let b ← octetAt .outOfBounds msg buf
  if b ≠ iei then return (tlvDecodeUnexpectedIei, {})
  else
    let ielen ← readAt .outOfBounds msg (buf + 1) 2 (octet msg (buf + 1))
    if (len + 2 ^ 32 - 3) % 2 ^ 32 < ielen then return (tlvDecodeBufferTooShort, {})
    else
      let first ← octetAt .outOfBounds msg (buf + 3)
      if first % 8 ≠ fgsMobileIdentity5gGuti then .error .assertFatal
      else
        let (decodedRc, guti) ← decodeGuti5gsMobileIdentity msg (buf + 3) {}
        if decodedRc < 0 then return (decodedRc, guti)
        else return (3 + decodedRc, guti)

/-! ### The message -/

/-- `byte_array_t ba`: where it points to in the array, and its length, a `size_t`. -/
structure View where
  buf : ℕ
  len : ℕ
deriving Repr, DecidableEq

/-- `UPDATE_BYTE_ARRAY`. -/
def View.updateByteArray (ba : View) (shift : ℕ) : View :=
  ⟨ba.buf + shift, (ba.len + (2 ^ 64 - shift)) % 2 ^ 64⟩

/-- What `decode_registration_accept` leaves behind: the length it returns, none for `-1`, and the
message.  `cuts` are the positions at which it took up an element. -/
structure Decoded where
  ret : Option ℕ
  msg : Msg
  cuts : List ℕ
deriving Repr, DecidableEq

/-- `IEI_5G_GUTI`. -/
def iei5gGuti : ℕ := 0x77

/-- One round of the loop over the optional elements. -/
def optionalElement (array : List UInt8) (ba : View) (out : Msg) : Except Fault (View × Msg) := do
  let iei ← octetAt .outOfBounds array ba.buf
  let ba := ba.updateByteArray 1
  if iei = 0x15 then
    let (nssai, num, dec) ← decodeNssaiIe array ba.buf out.nasAllowedNssai
    return (ba.updateByteArray dec, { out with nasAllowedNssai := nssai, numAllowedSlices := num })
  else if iei = 0x31 then
    let (nssai, num, dec) ← decodeNssaiIe array ba.buf out.configNssai
    return (ba.updateByteArray dec, { out with configNssai := nssai, numConfiguredSlices := num })
  else
    let length ← octetAt .outOfBounds array ba.buf
    return (ba.updateByteArray (length + 1), out)

/-- The loop over the optional elements, with `fuel` for its rounds. -/
def optionalLoop (array : List UInt8) : ℕ → View → Msg → List ℕ → Except Fault (Msg × List ℕ)
  | 0, _, _, _ => .error .diverges
  | fuel + 1, ba, out, cuts =>
      if 0 < ba.len then do
        let (ba', out') ← optionalElement array ba out
        optionalLoop array fuel ba' out' (cuts ++ [ba.buf])
      else .ok (out, cuts)

/-- The optional elements, and what is returned behind them. -/
def decodeOptional (array : List UInt8) (ba : View) (out : Msg) (cuts : List ℕ) :
    Except Fault Decoded := do
  let (out, cuts) ← optionalLoop array (array.length + 1) ba out cuts
  return ⟨some array.length, out, cuts⟩

/-- The fields of `decode_fgs_registration_result`. -/
def registrationResult (array : List UInt8) : Msg :=
  { result := octet array 1 % 8, smsAllowed := decide (octet array 1 / 8 % 2 = 1) }

/-- `decode_registration_accept`. -/
def decodeRegistrationAccept (array : List UInt8) : Except Fault Decoded :=
  if array.length < 2 then .ok ⟨none, {}, []⟩
  else
    let out := registrationResult array
    let ba := (⟨0, array.length⟩ : View).updateByteArray 2
    if 0 < ba.len ∧ octet array ba.buf = iei5gGuti then do
      let (dec, guti) ← decode5gsMobileIdentity array iei5gGuti ba.buf (ba.len % 2 ^ 32)
      if dec < 0 then return ⟨none, { out with guti := some guti }, [0, 2]⟩
      else
        decodeOptional array (ba.updateByteArray dec.toNat) { out with guti := some guti } [0, 2]
    else decodeOptional array ba out [0]

/-! ### Information elements -/

/-- The size of the optional element at `p`: those from 0x80 on are one octet, those from 0x70 on
have a length of two octets. -/
def elementSize (array : List UInt8) (p : ℕ) : ℕ :=
  if 0x80 ≤ octet array p then 1
  else if 0x70 ≤ octet array p then 3 + octet16 array (p + 1)
  else 2 + octet array (p + 1)

/-- The elements of a message begin at `cuts`: the registration result with its length, then the
optional ones. -/
def Boundaries (array : List UInt8) (cuts : List ℕ) : Prop :=
  ∃ rest, cuts = 0 :: rest ∧ Tiles (elementSize array) (1 + octet array 0) array.length rest

/-- What is asked of the decoder: it returns, the lists hold as many slices as there is room for,
and on success the array was taken apart at the elements. -/
def Safe (array : List UInt8) : Prop :=
  ∃ out, decodeRegistrationAccept array = .ok out ∧
    out.msg.numAllowedSlices ≤ nasMaxNumberSlices ∧
    out.msg.numConfiguredSlices ≤ nasMaxNumberSlices ∧
    ∀ n, out.ret = some n → n = array.length ∧ Boundaries array out.cuts

/-! ### Messages that are safe to decode -/

/-- The lengths of the items that are known. -/
def KnownLength (n : ℕ) : Prop := n = 1 ∨ n = 2 ∨ n = 4 ∨ n = 5 ∨ n = 8

/-- The items of a list from a position on are inside the array, and this is their number. -/
inductive Items (array : List UInt8) (stop : ℕ) : ℕ → ℕ → Prop
  | done {p : ℕ} (hp : stop ≤ p) : Items array stop p 0
  | item {p n : ℕ} (hp : p < stop) (hknown : KnownLength (octet array p))
      (hfit : p + 1 + octet array p ≤ array.length)
      (hrest : Items array stop (p + 1 + octet array p) n) : Items array stop p (n + 1)
  | unknown {p n : ℕ} (hp : p < stop) (hknown : ¬ KnownLength (octet array p))
      (hfit : p < array.length) (hrest : Items array stop (p + 1) n) : Items array stop p n

/-- The list of slices whose length is at `p` has room for its items. -/
def NssaiFits (array : List UInt8) (p : ℕ) : Prop :=
  ∃ n, n ≤ nasMaxNumberSlices ∧ Items array (p + 1 + octet array p) (p + 1) n

/-- The elements from `p` on tile the rest, each with a length of one octet. -/
def OptionalsFit (array : List UInt8) (p : ℕ) : Prop :=
  ∃ cuts, Tiles (elementSize array) p array.length cuts ∧
    ∀ q ∈ cuts, octet array q < 0x70 ∧
      (octet array q = 0x15 ∨ octet array q = 0x31 → NssaiFits array (q + 1))

def HasGuti (array : List UInt8) : Prop := 2 < array.length ∧ octet array 2 = iei5gGuti

instance (array : List UInt8) : Decidable (HasGuti array) := by
  unfold HasGuti
  infer_instance

/-- The length that `decode_5gs_mobile_identity` is called with. -/
def gutiLen (array : List UInt8) : ℕ := (array.length - 2) % 2 ^ 32

/-- The first octet of the length is more than what is left. -/
def TooShort (array : List UInt8) : Prop :=
  (gutiLen array + 2 ^ 32 - 3) % 2 ^ 32 < octet array 3

/-- A GUTI that is not taken: its length, or the bits above its type. -/
def GutiRejected (array : List UInt8) : Prop :=
  5 ≤ array.length ∧ (TooShort array ∨
    6 ≤ array.length ∧ octet array 5 % 8 = fgsMobileIdentity5gGuti ∧ octet array 5 ≠ 0xf2)

/-- A GUTI of its own length. -/
def GutiWhole (array : List UInt8) : Prop :=
  16 ≤ array.length ∧ octet16 array 3 = 11 ∧ octet array 5 = 0xf2

/-- Where the loop over the optional elements begins. -/
def optionalsAt (array : List UInt8) : ℕ := if HasGuti array then 16 else 2

/-- The messages that are safe to decode. -/
def Fits (array : List UInt8) : Prop :=
  array.length < 2 ∨ (HasGuti array ∧ GutiRejected array) ∨
    (2 ≤ array.length ∧ octet array 0 = 1 ∧ (HasGuti array → GutiWhole array) ∧
      OptionalsFit array (optionalsAt array))

/-! ### Lists of slices inside the array -/

theorem itemOf_isSome {msg : List UInt8} {pos : ℕ} {item : Snssai} {n : ℕ} :
    (itemOf msg pos item n).isSome = true ↔ KnownLength n := by
  constructor
  · intro h
    unfold itemOf at h
    split at h
    · exact .inl rfl
    · exact .inr (.inl rfl)
    · exact .inr (.inr (.inl rfl))
    · exact .inr (.inr (.inr (.inl rfl)))
    · exact .inr (.inr (.inr (.inr rfl)))
    · cases h
  · intro h
    rcases h with rfl | rfl | rfl | rfl | rfl <;> rfl

theorem itemOf_known (msg : List UInt8) {n : ℕ} (h : KnownLength n) (pos : ℕ) (item : Snssai) :
    ∃ item', itemOf msg pos item n = some item' :=
  Option.isSome_iff_exists.mp (itemOf_isSome.mpr h)

theorem itemOf_unknown {msg : List UInt8} {n : ℕ} (h : ¬ KnownLength n) (pos : ℕ) (item : Snssai) :
    itemOf msg pos item n = none := by
  rw [← Option.not_isSome_iff_eq_none, itemOf_isSome]
  exact h

section Rounds

variable {array : List UInt8} {stop fuel p cnt : ℕ} {nssai : Vector Snssai nasMaxNumberSlices}

theorem nssaiLoop_done (hp : stop ≤ p) :
    nssaiLoop array stop (fuel + 1) p nssai cnt = .ok (nssai, cnt) := by
  rw [nssaiLoop, if_neg (by omega)]

theorem nssaiLoop_unknown (hp : p < stop) (hknown : ¬ KnownLength (octet array p))
    (hfit : p < array.length) :
    nssaiLoop array stop (fuel + 1) p nssai cnt = nssaiLoop array stop fuel (p + 1) nssai cnt := by
  rw [nssaiLoop, if_pos hp, octetAt_ok _ hfit, ok_bind]
  simp only [itemOf_unknown hknown, Option.isSome_none, Bool.false_eq_true, if_false, dite_eq_ite,
    ite_self]

theorem nssaiLoop_item (fuel : ℕ) (nssai : Vector Snssai nasMaxNumberSlices) (hp : p < stop)
    (hknown : KnownLength (octet array p))
    (hfit : p + 1 + octet array p ≤ array.length) (hcnt : cnt < nasMaxNumberSlices) :
    ∃ nssai', nssaiLoop array stop (fuel + 1) p nssai cnt =
      nssaiLoop array stop fuel (p + 1 + octet array p) nssai' (cnt + 1) := by
  obtain ⟨item, hitem⟩ := itemOf_known array hknown (p + 1) nssai[cnt]
  refine ⟨nssai.set cnt item, ?_⟩
  rw [nssaiLoop, if_pos hp, octetAt_ok _ (by omega), ok_bind, dif_pos hcnt, hitem]
  simp only [readAt_ok _ hfit, ok_bind]

end Rounds

variable {array : List UInt8}

theorem Items.nssaiLoop_returns {stop p n : ℕ} (h : Items array stop p n) :
    ∀ (fuel cnt : ℕ) (nssai : Vector Snssai nasMaxNumberSlices), stop - p < fuel →
      cnt + n ≤ nasMaxNumberSlices →
      ∃ nssai', nssaiLoop array stop fuel p nssai cnt = .ok (nssai', cnt + n) := by
  induction h with
  | done hp =>
    intro fuel cnt nssai hfuel _
    rcases fuel with _ | fuel
    · omega
    exact ⟨nssai, nssaiLoop_done hp⟩
  | @item p n hp hknown hfit _ ih =>
    intro fuel cnt nssai hfuel hcnt
    rcases fuel with _ | fuel
    · omega
    obtain ⟨nssai', hstep⟩ := nssaiLoop_item fuel nssai hp hknown hfit
      (show cnt < nasMaxNumberSlices by omega)
    obtain ⟨nssai'', hloop⟩ := ih fuel (cnt + 1) nssai' (by omega) (by omega)
    grind
  | unknown hp hknown hfit _ ih =>
    intro fuel cnt nssai hfuel hcnt
    rcases fuel with _ | fuel
    · omega
    rw [nssaiLoop_unknown hp hknown hfit]
    exact ih fuel cnt nssai (by omega) hcnt

/-- **A list of slices is decoded when its length octet is there and its items fit.** -/
theorem NssaiFits.decodeNssaiIe_returns {p : ℕ} (hp : p < array.length)
    (h : NssaiFits array p) (nssai : Vector Snssai nasMaxNumberSlices) :
    ∃ nssai' n, n ≤ nasMaxNumberSlices ∧
      decodeNssaiIe array p nssai = .ok (nssai', n, octet array p + 1) := by
  obtain ⟨n, hn, hitems⟩ := h
  obtain ⟨nssai', hloop⟩ := hitems.nssaiLoop_returns (octet array p + 1) 0 nssai
    (by omega) (by omega)
  simp_all [decodeNssaiIe, octetAt_ok, ok_bind]

theorem Items.of_nssaiLoop {stop fuel p cnt cnt' : ℕ} {nssai nssai' : Vector Snssai nasMaxNumberSlices}
    (h : nssaiLoop array stop fuel p nssai cnt = .ok (nssai', cnt')) (hcnt : cnt ≤ nasMaxNumberSlices) :
    ∃ n, cnt + n ≤ nasMaxNumberSlices ∧ Items array stop p n := by
  induction fuel generalizing p cnt nssai with
  | zero => cases h
  | succ fuel ih =>
    by_cases hp : p < stop
    · rw [nssaiLoop, if_pos hp] at h
      obtain ⟨hfit, h⟩ := octetAt_bind_returns.mp h
      by_cases hknown : KnownLength (octet array p)
      · split at h
        next hlt =>
          obtain ⟨item, hitem⟩ := itemOf_known array hknown (p + 1) nssai[cnt]
          rw [hitem] at h
          obtain ⟨_, hread, h⟩ := bind_returns.mp h
          obtain ⟨n, hn, hitems⟩ := ih h (by omega)
          exact ⟨n + 1, by omega, .item hp hknown (readAt_returns.mp hread).1 hitems⟩
        · rw [if_pos (itemOf_isSome.mpr hknown)] at h
          cases h
      · rw [itemOf_unknown hknown] at h
        simp only [itemOf_unknown hknown, Option.isSome_none, Bool.false_eq_true, if_false,
          dite_eq_ite, ite_self] at h
        obtain ⟨n, hn, hitems⟩ := ih h hcnt
        exact ⟨n, hn, .unknown hp hknown hfit hitems⟩
    · exact ⟨0, hcnt, .done (not_lt.mp hp)⟩

theorem NssaiFits.of_decodeNssaiIe {p n dec : ℕ} {nssai nssai' : Vector Snssai nasMaxNumberSlices}
    (h : decodeNssaiIe array p nssai = .ok (nssai', n, dec)) :
    p < array.length ∧ NssaiFits array p ∧ dec = octet array p + 1 := by
  rw [decodeNssaiIe] at h
  obtain ⟨hp, h⟩ := octetAt_bind_returns.mp h
  obtain ⟨⟨_, _⟩, hloop, h⟩ := bind_returns.mp h
  obtain ⟨n, hn, hitems⟩ := Items.of_nssaiLoop hloop (Nat.zero_le _)
  have hdec := congrArg (fun r => r.2.2) (Except.ok.inj h)
  exact ⟨hp, ⟨n, by omega, hitems⟩, hdec.symm⟩

/-! ### Optional elements -/

/-- The size of an element for the loop: one octet of length whatever the element. -/
def shortSize (array : List UInt8) (p : ℕ) : ℕ := 2 + octet array (p + 1)

theorem elementSize_short {p : ℕ} (h : octet array p < 0x70) :
    elementSize array p = shortSize array p := by
  rw [elementSize, if_neg (by omega), if_neg (by omega)]
  rfl

/-- A list of slices at `p` has room for its items. -/
def ElementFits (array : List UInt8) (p : ℕ) : Prop :=
  octet array p = 0x15 ∨ octet array p = 0x31 → NssaiFits array (p + 1)

theorem View.updateByteArray_inside {p n : ℕ} (hlen : array.length < 2 ^ 64)
    (h : p + n ≤ array.length) :
    (⟨p, array.length - p⟩ : View).updateByteArray n = ⟨p + n, array.length - (p + n)⟩ := by
  rw [View.updateByteArray, View.mk.injEq]
  grind

theorem View.updateByteArray_start (hlen : array.length < 2 ^ 64) (h2 : 2 ≤ array.length) :
    (⟨0, array.length⟩ : View).updateByteArray 2 = ⟨2, array.length - 2⟩ := by
  have h := View.updateByteArray_inside (p := 0) (n := 2) hlen (by rwa [Nat.zero_add])
  omega

/-- The counts of both lists are in range. -/
def Msg.Counted (out : Msg) : Prop :=
  out.numAllowedSlices ≤ nasMaxNumberSlices ∧ out.numConfiguredSlices ≤ nasMaxNumberSlices

section Element

variable {array : List UInt8} {ba : View} {out : Msg}

theorem optionalElement_returns (hp : ba.buf + 1 < array.length) (h : ElementFits array ba.buf)
    (hout : out.Counted) :
    ∃ out', out'.Counted ∧ optionalElement array ba out =
      .ok ((ba.updateByteArray 1).updateByteArray (octet array (ba.buf + 1) + 1), out') := by
  rw [optionalElement, octetAt_ok _ (by omega), ok_bind]
  by_cases h15 : octet array ba.buf = 0x15
  · obtain ⟨nssai, n, hn, hdec⟩ := (h (.inl h15)).decodeNssaiIe_returns hp out.nasAllowedNssai
    rw [if_pos h15]
    exact ⟨{ out with nasAllowedNssai := nssai, numAllowedSlices := n }, ⟨hn, hout.2⟩,
      bind_returns.mpr ⟨_, hdec, rfl⟩⟩
  · rw [if_neg h15]
    by_cases h31 : octet array ba.buf = 0x31
    · obtain ⟨nssai, n, hn, hdec⟩ := (h (.inr h31)).decodeNssaiIe_returns hp out.configNssai
      rw [if_pos h31]
      exact ⟨{ out with configNssai := nssai, numConfiguredSlices := n }, ⟨hout.1, hn⟩,
        bind_returns.mpr ⟨_, hdec, rfl⟩⟩
    · rw [if_neg h31]
      exact ⟨out, hout, octetAt_bind_returns.mpr ⟨hp, rfl⟩⟩

theorem optionalElement_inv {ba' : View} {out' : Msg}
    (h : optionalElement array ba out = .ok (ba', out')) :
    ba.buf + 1 < array.length ∧ ElementFits array ba.buf ∧
      ba' = (ba.updateByteArray 1).updateByteArray (octet array (ba.buf + 1) + 1) := by
  rw [optionalElement] at h
  obtain ⟨-, h⟩ := octetAt_bind_returns.mp h
  split_ifs at h with h15 h31
  case neg =>
    obtain ⟨hp, h⟩ := octetAt_bind_returns.mp h
    exact ⟨hp, fun hlist => absurd hlist (not_or.mpr ⟨h15, h31⟩),
      (congrArg Prod.fst (Except.ok.inj h)).symm⟩
  all_goals
    obtain ⟨⟨_, _, _⟩, hdec, h⟩ := bind_returns.mp h
    obtain ⟨hp, hfits, rfl⟩ := NssaiFits.of_decodeNssaiIe hdec
    exact ⟨hp, fun _ => hfits, (congrArg Prod.fst (Except.ok.inj h)).symm⟩

end Element

theorem optionalLoop_inv (hlen : array.length < 2 ^ 64) {fuel p : ℕ} {out out' : Msg}
    {before all : List ℕ} (hp : p ≤ array.length)
    (h : optionalLoop array fuel ⟨p, array.length - p⟩ out before = .ok (out', all)) :
    ∃ cuts, all = before ++ cuts ∧ Tiles (shortSize array) p array.length cuts ∧
      ∀ q ∈ cuts, ElementFits array q := by
  induction fuel generalizing p out before with
  | zero => cases h
  | succ fuel ih =>
    rw [optionalLoop] at h
    split at h
    · obtain ⟨⟨ba', out₁⟩, hstep, h⟩ := bind_returns.mp h
      obtain ⟨hnext, hfits, rfl⟩ := optionalElement_inv hstep
      dsimp only at h hnext hfits
      have hsize : shortSize array p = 2 + octet array (p + 1) := rfl
      have hbuf : ((⟨p, array.length - p⟩ : View).updateByteArray 1).updateByteArray
          (octet array (p + 1) + 1) = (⟨p + 1, array.length - (p + 1)⟩ : View).updateByteArray
            (octet array (p + 1) + 1) := by
        rw [View.updateByteArray_inside hlen (by omega)]
      rw [hbuf] at h
      by_cases hin : p + shortSize array p ≤ array.length
      · rw [View.updateByteArray_inside hlen (by omega),
          show p + 1 + (octet array (p + 1) + 1) = p + shortSize array p by omega] at h
        obtain ⟨cuts, rfl, htiles, hall⟩ := ih hin h
        exact ⟨p :: cuts, by simp, .cons (by omega) htiles,
          List.forall_mem_cons.mpr ⟨hfits, hall⟩⟩
      · -- the length wraps around, and the next identifier is behind the array
        exfalso
        have hoctet := octet_lt array (p + 1)
        rw [View.updateByteArray] at h
        cases fuel with
        | zero => cases h
        | succ fuel =>
          rw [optionalLoop, if_pos (by dsimp only; omega)] at h
          obtain ⟨⟨_, _⟩, hstep', -⟩ := bind_returns.mp h
          have hbehind := (optionalElement_inv hstep').1
          dsimp only at hbehind
          omega
    next hend =>
      obtain ⟨-, rfl⟩ := Prod.mk.inj (Except.ok.inj h)
      have hp' : p = array.length := by
        have : ¬ 0 < array.length - p := hend
        omega
      exact ⟨[], by simp, hp' ▸ .nil _, List.forall_mem_nil _⟩

/-- An element whose size is that of the loop has an identifier below 0x70. -/
theorem lt_of_elementSize_eq {p : ℕ} (h : elementSize array p = shortSize array p) :
    octet array p < 0x70 := by
  have hshort : shortSize array p = 2 + octet array (p + 1) := rfl
  have hlong : octet16 array (p + 1) = octet array (p + 1) * 256 + octet array (p + 1 + 1) := rfl
  unfold elementSize at h
  split at h
  · omega
  split at h
  · omega
  · omega

theorem optionalLoop_returns (hlen : array.length < 2 ^ 64) {p : ℕ}
    {cuts : List ℕ} (h : Tiles (shortSize array) p array.length cuts) :
    ∀ (fuel : ℕ) (out : Msg) (before : List ℕ), array.length - p < fuel → out.Counted →
      (∀ q ∈ cuts, ElementFits array q) →
      ∃ out', out'.Counted ∧
        optionalLoop array fuel ⟨p, array.length - p⟩ out before = .ok (out', before ++ cuts) := by
  generalize hstop : array.length = stop at h
  induction h with
  | nil p =>
    intro fuel out before hfuel hout _
    rcases fuel with _ | fuel
    · omega
    refine ⟨out, hout, ?_⟩
    rw [optionalLoop, if_neg (by show ¬ 0 < p - p; omega), List.append_nil]
  | @cons p stop cuts hpos hrest ih =>
    subst hstop
    intro fuel out before hfuel hout hfit
    rcases fuel with _ | fuel
    · omega
    have hle := hrest.le
    have hsize : shortSize array p = 2 + octet array (p + 1) := rfl
    obtain ⟨out₁, hout₁, hstep⟩ := optionalElement_returns
      (show (⟨p, array.length - p⟩ : View).buf + 1 < array.length by show p + 1 < _; omega)
      (hfit p List.mem_cons_self) hout
    obtain ⟨out', hout', hloop⟩ := ih rfl fuel out₁ (before ++ [p]) (by omega) hout₁
      (List.forall_mem_cons.mp hfit).2
    refine ⟨out', hout', ?_⟩
    rw [optionalLoop, if_pos (by show 0 < array.length - p; omega), hstep, ok_bind]
    rw [View.updateByteArray_inside hlen (by omega)]
    show optionalLoop array fuel (View.updateByteArray ⟨p + 1, array.length - (p + 1)⟩
      (octet array (p + 1) + 1)) out₁ (before ++ [p]) = _
    rw [View.updateByteArray_inside hlen (by omega),
      show p + 1 + (octet array (p + 1) + 1) = p + shortSize array p from by omega,
      hloop, List.append_assoc]
    rfl

/-! ### The 5G-GUTI inside the array -/

theorem octet_eq_guti {i : ℕ} :
    octet array i = 0xf2 ↔
      octet array i / 16 = 0xf ∧ octet array i / 8 % 2 = 0 ∧
        octet array i % 8 = fgsMobileIdentity5gGuti := by
  have := octet_lt array i
  rw [fgsMobileIdentity5gGuti]
  omega

section Identity

variable {array : List UInt8} {buf : ℕ}

theorem decodeGuti_taken (h : buf + 11 ≤ array.length) (hfirst : octet array buf = 0xf2)
    (guti : Guti) : ∃ guti', decodeGuti5gsMobileIdentity array buf guti = .ok (11, guti') := by
  obtain ⟨hspare, hodd, htype⟩ := octet_eq_guti.mp hfirst
  rw [decodeGuti5gsMobileIdentity, octetAt_ok _ (by omega), ok_bind, if_neg (not_not.mpr hspare),
    if_neg (not_not.mpr hodd), if_neg (not_not.mpr htype), readAt_ok _ (by omega)]
  exact ⟨_, rfl⟩

theorem decodeGuti_refused (h : buf < array.length)
    (htype : octet array buf % 8 = fgsMobileIdentity5gGuti) (hfirst : octet array buf ≠ 0xf2)
    (guti : Guti) : ∃ guti', decodeGuti5gsMobileIdentity array buf guti =
      .ok (tlvEncodeValueDoesntMatch, guti') := by
  rw [decodeGuti5gsMobileIdentity, octetAt_ok _ h, ok_bind]
  by_cases hspare : octet array buf / 16 = 0xf
  · have hodd : octet array buf / 8 % 2 ≠ 0 := fun hodd =>
      hfirst (octet_eq_guti.mpr ⟨hspare, hodd, htype⟩)
    simp_all
  · simp_all

instance (array : List UInt8) : Decidable (TooShort array) := by
  unfold TooShort
  infer_instance

theorem HasGuti.decode_eq (hguti : HasGuti array) (h5 : 5 ≤ array.length) :
    decode5gsMobileIdentity array iei5gGuti 2 (gutiLen array) =
      if TooShort array then .ok (tlvDecodeBufferTooShort, {})
      else octetAt .outOfBounds array 5 >>= fun first =>
        if first % 8 ≠ fgsMobileIdentity5gGuti then .error .assertFatal
        else decodeGuti5gsMobileIdentity array 5 {} >>= fun r =>
          if r.1 < 0 then .ok r else .ok (3 + r.1, r.2) := by
  rw [decode5gsMobileIdentity, octetAt_ok _ hguti.1, ok_bind, if_neg (not_not.mpr hguti.2),
    readAt_ok _ (by omega), ok_bind]
  by_cases hshort : TooShort array
  · rw [if_pos hshort, if_pos (show _ < octet array (2 + 1) from hshort)]
    rfl
  · rw [if_neg hshort, if_neg (show ¬ _ < octet array (2 + 1) from hshort)]
    rfl

theorem HasGuti.decode_rejected (hguti : HasGuti array) (h : GutiRejected array) :
    ∃ dec guti, dec < 0 ∧
      decode5gsMobileIdentity array iei5gGuti 2 (gutiLen array) = .ok (dec, guti) := by
  obtain ⟨h5, hrej⟩ := h
  rw [hguti.decode_eq h5]
  by_cases hshort : TooShort array
  · rw [if_pos hshort]
    exact ⟨_, _, by decide, rfl⟩
  · obtain ⟨h6, htype, hne⟩ := hrej.resolve_left hshort
    obtain ⟨guti, hrc⟩ := decodeGuti_refused h6 htype hne {}
    rw [if_neg hshort, octetAt_ok _ h6, ok_bind, if_neg (not_not.mpr htype), hrc, ok_bind,
      if_pos (show tlvEncodeValueDoesntMatch < 0 by decide)]
    exact ⟨_, _, by decide, rfl⟩

theorem HasGuti.decode_taken (hguti : HasGuti array) (h16 : 16 ≤ array.length)
    (hshort : ¬ TooShort array) (hfirst : octet array 5 = 0xf2) :
    ∃ guti, decode5gsMobileIdentity array iei5gGuti 2 (gutiLen array) = .ok (14, guti) := by
  obtain ⟨guti, hrc⟩ := decodeGuti_taken h16 hfirst {}
  rw [hguti.decode_eq (by omega), if_neg hshort, octetAt_ok _ (by omega), ok_bind,
    if_neg (not_not.mpr (octet_eq_guti.mp hfirst).2.2), hrc, ok_bind,
    if_neg (show ¬ (11 : ℤ) < 0 by decide)]
  exact ⟨guti, rfl⟩

end Identity

/-! ### The whole message -/

section Message

variable {array : List UInt8}

theorem HasGuti.decodeRegistrationAccept_eq (hguti : HasGuti array) (hlen : array.length < 2 ^ 64) :
    decodeRegistrationAccept array =
      decode5gsMobileIdentity array iei5gGuti 2 (gutiLen array) >>= fun r =>
        if r.1 < 0 then .ok ⟨none, { registrationResult array with guti := some r.2 }, [0, 2]⟩
        else decodeOptional array ((⟨2, array.length - 2⟩ : View).updateByteArray r.1.toNat)
          { registrationResult array with guti := some r.2 } [0, 2] := by
  have hba := View.updateByteArray_start hlen (hguti.1.le)
  rw [decodeRegistrationAccept, if_neg (by have := hguti.1; omega)]
  simp only [hba]
  rw [if_pos ⟨by have := hguti.1; omega, hguti.2⟩]
  rfl

theorem decodeRegistrationAccept_eq (h2 : 2 ≤ array.length) (hguti : ¬ HasGuti array)
    (hlen : array.length < 2 ^ 64) :
    decodeRegistrationAccept array =
      decodeOptional array ⟨2, array.length - 2⟩ (registrationResult array) [0] := by
  have hba := View.updateByteArray_start hlen h2
  rw [decodeRegistrationAccept, if_neg (by omega)]
  simp only [hba]
  rw [if_neg ?_]
  intro h
  have hlen2 : 0 < array.length - 2 := h.1
  exact hguti ⟨by omega, h.2⟩

theorem registrationResult_counted (array : List UInt8) (guti : Option Guti) :
    ({ registrationResult array with guti := guti } : Msg).Counted :=
  ⟨Nat.zero_le _, Nat.zero_le _⟩

theorem OptionalsFit.decodeOptional_returns {p : ℕ} (h : OptionalsFit array p)
    (hlen : array.length < 2 ^ 64) {out : Msg} (hout : out.Counted) (before : List ℕ) :
    ∃ out' cuts, out'.Counted ∧ Tiles (elementSize array) p array.length cuts ∧
      decodeOptional array ⟨p, array.length - p⟩ out before =
        .ok ⟨some array.length, out', before ++ cuts⟩ := by
  obtain ⟨cuts, htiles, hall⟩ := h
  have hshort := htiles.congr fun q hq => (elementSize_short (hall q hq).1).symm
  obtain ⟨out', hout', hloop⟩ := optionalLoop_returns hlen hshort (array.length + 1) out before
    (by omega) hout fun q hq => (hall q hq).2
  simp_all [decodeOptional]

theorem safe_of_fits (array : List UInt8) (hlen : array.length < 2 ^ 64)
    (h : Fits array) : Safe array := by
  rcases h with hshort | ⟨hguti, hrej⟩ | ⟨h2, hresult, hwhole, hopt⟩
  · refine ⟨⟨none, {}, []⟩, ?_, Nat.zero_le _, Nat.zero_le _, fun n hn => (by cases hn)⟩
    rw [decodeRegistrationAccept, if_pos hshort]
  · obtain ⟨dec, guti, hneg, hdec⟩ := hguti.decode_rejected hrej
    refine ⟨⟨none, { registrationResult array with guti := some guti }, [0, 2]⟩, ?_,
      Nat.zero_le _, Nat.zero_le _, fun n hn => (by cases hn)⟩
    rw [hguti.decodeRegistrationAccept_eq hlen, hdec, ok_bind, if_pos hneg]
  · by_cases hguti : HasGuti array
    · obtain ⟨h16, hsize, hfirst⟩ := hwhole hguti
      have hielen : octet array 3 = 0 := by rw [octet16] at hsize; omega
      obtain ⟨guti, hdec⟩ := hguti.decode_taken h16
        (by rw [TooShort, hielen]; exact Nat.not_lt_zero _) hfirst
      rw [optionalsAt, if_pos hguti] at hopt
      obtain ⟨out, cuts, hout, htiles, hloop⟩ := hopt.decodeOptional_returns hlen
        (registrationResult_counted array (some guti)) [0, 2]
      refine ⟨⟨some array.length, out, [0, 2] ++ cuts⟩, ?_, hout.1, hout.2, ?_⟩
      · rw [hguti.decodeRegistrationAccept_eq hlen, hdec, ok_bind,
          if_neg (show ¬ (14 : ℤ) < 0 by decide), View.updateByteArray_inside hlen (by exact h16)]
        exact hloop
      · intro n hn
        refine ⟨(Option.some.inj hn).symm, 2 :: cuts, rfl, ?_⟩
        have h14 : elementSize array 2 = 14 := by
          rw [elementSize, hguti.2, hsize]
          rfl
        rw [hresult]
        refine .cons (by rw [h14]; decide) ?_
        simp_all
    · rw [optionalsAt, if_neg hguti] at hopt
      obtain ⟨out, cuts, hout, htiles, hloop⟩ := hopt.decodeOptional_returns hlen
        (registrationResult_counted array none) [0]
      refine ⟨⟨some array.length, out, [0] ++ cuts⟩, ?_, hout.1, hout.2, ?_⟩
      · rw [decodeRegistrationAccept_eq h2 hguti hlen]
        exact hloop
      · intro n hn
        refine ⟨(Option.some.inj hn).symm, cuts, rfl, ?_⟩
        simp_all

theorem OptionalsFit.of_decodeOptional {p : ℕ} {out : Msg} {before : List ℕ} {d : Decoded}
    (hlen : array.length < 2 ^ 64) (hp : p ≤ array.length)
    (h : decodeOptional array ⟨p, array.length - p⟩ out before = .ok d) :
    d.ret = some array.length ∧ ∃ cuts, d.cuts = before ++ cuts ∧
      ∀ q, Tiles (elementSize array) q array.length cuts → q = p ∧ OptionalsFit array p := by
  rw [decodeOptional] at h
  obtain ⟨⟨out', all⟩, hloop, h⟩ := bind_returns.mp h
  obtain ⟨cuts, rfl, htiles, hall⟩ := optionalLoop_inv hlen hp hloop
  obtain rfl := Except.ok.inj h
  refine ⟨rfl, cuts, rfl, fun q hq => ?_⟩
  obtain rfl := hq.start_eq htiles
  exact ⟨rfl, cuts, hq, fun r hr => ⟨lt_of_elementSize_eq (hq.size_eq htiles r hr), hall r hr⟩⟩

/-- A mobile identity that is decoded is rejected, or a GUTI with all its octets in the array. -/
theorem HasGuti.decode_inv {r : ℤ × Guti} (hguti : HasGuti array)
    (h : decode5gsMobileIdentity array iei5gGuti 2 (gutiLen array) = .ok r) :
    GutiRejected array ∨ 16 ≤ array.length ∧ octet array 5 = 0xf2 ∧ r.1 = 14 := by
  have h5 : 5 ≤ array.length := by
    rw [decode5gsMobileIdentity, octetAt_ok _ hguti.1, ok_bind, if_neg (not_not.mpr hguti.2)] at h
    obtain ⟨_, hread, -⟩ := bind_returns.mp h
    exact (readAt_returns.mp hread).1
  rw [hguti.decode_eq h5] at h
  by_cases hshort : TooShort array
  · exact .inl ⟨h5, .inl hshort⟩
  rw [if_neg hshort] at h
  obtain ⟨h6, h⟩ := octetAt_bind_returns.mp h
  split at h
  · cases h
  next htype =>
    have htype := not_not.mp htype
    by_cases hfirst : octet array 5 = 0xf2
    · obtain ⟨hspare, hodd, _⟩ := octet_eq_guti.mp hfirst
      obtain ⟨rc, hrc, h⟩ := bind_returns.mp h
      rw [decodeGuti5gsMobileIdentity, octetAt_ok _ h6, ok_bind, if_neg (not_not.mpr hspare),
        if_neg (not_not.mpr hodd), if_neg (not_not.mpr htype)] at hrc
      obtain ⟨_, hread, hrc⟩ := bind_returns.mp hrc
      obtain rfl := Except.ok.inj hrc
      rw [if_neg (show ¬ (11 : ℤ) < 0 by decide)] at h
      obtain rfl := Except.ok.inj h
      exact .inr ⟨(readAt_returns.mp hread).1, hfirst, rfl⟩
    · exact .inl ⟨h5, .inr ⟨h6, htype, hfirst⟩⟩

theorem fits_of_safe (hlen : array.length < 2 ^ 64) (h : Safe array) : Fits array := by
  obtain ⟨d, hdec, -, -, hsuccess⟩ := h
  by_cases h2 : array.length < 2
  · exact .inl h2
  have h2 := not_lt.mp h2
  by_cases hguti : HasGuti array
  · rw [hguti.decodeRegistrationAccept_eq hlen] at hdec
    obtain ⟨r, hr, hdec⟩ := bind_returns.mp hdec
    rcases hguti.decode_inv hr with hrej | ⟨h16, hfirst, h14⟩
    · exact .inr (.inl ⟨hguti, hrej⟩)
    rw [h14, if_neg (by decide), show ((14 : ℤ).toNat) = 14 from rfl,
      View.updateByteArray_inside hlen (by exact h16)] at hdec
    obtain ⟨hret, cuts, hcuts, hopt⟩ := OptionalsFit.of_decodeOptional hlen h16 hdec
    obtain ⟨-, rest, hrest, htiles⟩ := hsuccess _ hret
    obtain rfl : 2 :: cuts = rest := (List.cons.inj (hcuts.symm.trans hrest)).2
    obtain ⟨hstart, hrest⟩ := htiles.cons_inv
    obtain ⟨hsize, hfit⟩ := hopt _ hrest
    have hlong : elementSize array 2 = 3 + octet16 array 3 := by
      rw [elementSize, hguti.2]
      rfl
    refine .inr (.inr ⟨h2, by omega, fun _ => ⟨h16, by omega, hfirst⟩, ?_⟩)
    rwa [optionalsAt, if_pos hguti]
  · rw [decodeRegistrationAccept_eq h2 hguti hlen] at hdec
    obtain ⟨hret, cuts, hcuts, hopt⟩ := OptionalsFit.of_decodeOptional hlen h2 hdec
    obtain ⟨-, rest, hrest, htiles⟩ := hsuccess _ hret
    obtain rfl : cuts = rest := (List.cons.inj (hcuts.symm.trans hrest)).2
    obtain ⟨hstart, hfit⟩ := hopt _ htiles
    refine .inr (.inr ⟨h2, by omega, fun hg => absurd hg hguti, ?_⟩)
    rwa [optionalsAt, if_neg hguti]

/-- **Which messages are decoded safely**: the decoder returns without a read behind the array, a
write behind a list or an assertion, and on success it has taken the array apart at the elements,
exactly on the messages that fit. -/
theorem decodeRegistrationAccept_safe (array : List UInt8) (hlen : array.length < 2 ^ 64) :
    Safe array ↔ Fits array :=
  ⟨fits_of_safe hlen, safe_of_fits array hlen⟩

end Message

/-- A message with a 5G-GUTI, a TAI list and an allowed NSSAI of two slices. -/
def acceptSample : List UInt8 :=
  [0x01, 0x01,
    0x77, 0x00, 0x0b, 0xf2, 0x02, 0xf8, 0x39, 0x01, 0x00, 0x40, 0x12, 0x34, 0x56, 0x78,
    0x54, 0x07, 0x00, 0x02, 0xf8, 0x39, 0x00, 0x00, 0x01,
    0x15, 0x07, 0x01, 0x01, 0x04, 0x02, 0x00, 0x00, 0x7b]

theorem acceptSample_fits : Fits acceptSample := by
  refine .inr (.inr ⟨by decide, by decide, fun _ => ⟨by decide, by decide, by decide⟩, ?_⟩)
  refine ⟨[16, 25], .cons (by decide) (.cons (by decide) (.nil _)), ?_⟩
  intro q hq
  rcases List.mem_cons.mp hq with rfl | hq
  · exact ⟨by decide, fun h => absurd h (by decide)⟩
  · obtain rfl := List.mem_singleton.mp hq
    refine ⟨by decide, fun _ => ⟨2, by decide, ?_⟩⟩
    exact .item (by decide) (.inl (by decide)) (by decide)
      (.item (by decide) (.inr (.inr (.inl (by decide)))) (by decide) (.done (by decide)))

theorem acceptSample_safe : Fits acceptSample ∧ Safe acceptSample :=
  ⟨acceptSample_fits,
    (decodeRegistrationAccept_safe acceptSample (by decide)).mpr acceptSample_fits⟩

/-- An identifier without a length: the octet behind the array is read. -/
theorem not_decodeRegistrationAccept_safe :
    ¬ ∀ array : List UInt8, array.length < 2 ^ 64 → Safe array := by
  intro h
  obtain ⟨out, hdec, -⟩ := h [0x01, 0x01, 0x54] (by decide)
  have hfault : decodeRegistrationAccept [0x01, 0x01, 0x54] = .error .outOfBounds := by
    decide +kernel
  simp_all

end OaiGnb.Nas.RegistrationAccept
