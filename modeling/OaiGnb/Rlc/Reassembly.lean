import OaiGnb.Rlc.Pdu

/-!
# Reassembly of one SDU from its received segments

The AM and the UM entity contain the same three loops over the stored PDUs of one sequence
number, sorted by `so`: are all bytes up to the last segment there (`sdu_full`), is there a
gap before the last received byte (`sdu_has_missing_bytes`), and the copy into the SDU
buffer (`reassemble_and_deliver`).  They are modelled once here.
-/

namespace OaiGnb.Rlc

/-- The loop of `sdu_full`; `lastByte` is the last byte reached without a gap. -/
def sduFullLoop : List Pdu → ℤ → Bool
  | [], _ => false
  | l :: ls, lastByte =>
      if (l.so : ℤ) > lastByte + 1 then false
      else if l.isLast then true
      else
        let newLastByte : ℤ := l.so + l.size - 1
        sduFullLoop ls (if newLastByte > lastByte then newLastByte else lastByte)

/-- The loop of `sdu_has_missing_bytes`. -/
def sduMissingLoop : List Pdu → ℤ → Bool
  | [], _ => false
  | l :: ls, lastByte =>
      if (l.so : ℤ) > lastByte + 1 then true
      else
        let newLastByte : ℤ := l.so + l.size - 1
        sduMissingLoop ls (if newLastByte > lastByte then newLastByte else lastByte)

/-- `l != NULL && l->data == NULL` for the first PDU of an SDU. -/
def headConsumed : List Pdu → Bool
  | [] => false
  | l :: _ => l.data.isNone

/-- `sdu_full` on the PDUs of one SDU. -/
def pdusFull (l : List Pdu) : Bool := !headConsumed l && sduFullLoop l (-1)

/-- `sdu_has_missing_bytes` on the PDUs of one SDU. -/
def pdusMissing (l : List Pdu) : Bool := !headConsumed l && sduMissingLoop l (-1)

/-- A byte of a PDU's `data`.  Outside the allocated bytes the source reads memory it does not
own; the model reads 0 there. -/
def byteAt (data : List UInt8) (i : ℤ) : UInt8 := if 0 ≤ i then data.getD i.toNat 0 else 0

/-- `len` bytes of the PDU's `data` from offset `off`. -/
def copyBytes (pdu : Pdu) (off : ℤ) (len : ℕ) : List UInt8 :=
  (List.range len).map (fun j : ℕ => byteAt (pdu.data.getD []) (off + (j : ℤ)))

/-- The copy loop of `reassemble_and_deliver`.  `sdu` is what has been copied so far, so the
variable `so` of the source is its length. -/
def reassembleLoop : List Pdu → Bool → List UInt8 → Bool × List UInt8
  | [], badSdu, sdu => (badSdu, sdu)
  | pdu :: ls, badSdu, sdu =>
      let so : ℤ := sdu.length
      let len : ℤ := pdu.size - (so - pdu.so)
      let badSdu := badSdu || decide (so + len > nrSduMax)
      let sdu := if !badSdu && decide (len > 0) then sdu ++ copyBytes pdu (so - pdu.so) len.toNat
        else sdu
      reassembleLoop ls badSdu sdu

/-- `while (p(sn)) sn = (sn + 1) % sn_modulus`, for a `p` that the loop does not change.  After
`sn_modulus` steps the loop has come back to its first `sn` and never ends. -/
def advanceWhile (p : ℤ → Bool) (snModulus : ℤ) : ℕ → ℤ → Except Fault ℤ
  | 0, _ => .error .diverges
  | fuel + 1, sn =>
      if p sn then advanceWhile p snModulus fuel ((sn + 1) % snModulus) else .ok sn

/-- **Where the loop stops**: at the first number, going up, for which `p` is false. -/
theorem advanceWhile_spec {p : ℤ → Bool} {M : ℤ} {fuel : ℕ} {sn r : ℤ}
    (h : advanceWhile p M fuel (sn % M) = .ok r) :
    p r = false ∧ ∃ j : ℕ, r = (sn + j) % M ∧ ∀ i : ℕ, i < j → p ((sn + i) % M) = true := by
  induction fuel generalizing sn r with
  | zero => cases h
  | succ fuel ih =>
    rw [advanceWhile] at h
    split at h
    next hp =>
      rw [Int.emod_add_emod] at h
      obtain ⟨hr, j, hj, hi⟩ := ih h
      refine ⟨hr, j + 1, ?_, ?_⟩
      · grind
      · intro i hlt
        cases i with
        | zero => simpa using hp
        | succ i =>
          grind
    next hp =>
      obtain rfl := Except.ok.inj h
      refine ⟨by simpa using hp, 0, by simp, ?_⟩
      omega

/-- The sum of `pdu->size` over a list of PDUs. -/
def pdusSize (l : List Pdu) : ℤ := (l.map (fun p => (p.size : ℤ))).sum

@[simp] theorem pdusSize_nil : pdusSize [] = 0 := rfl

@[simp] theorem pdusSize_cons (p : Pdu) (l : List Pdu) :
    pdusSize (p :: l) = p.size + pdusSize l := by
  simp [pdusSize]

@[simp] theorem pdusSize_append (l l' : List Pdu) :
    pdusSize (l ++ l') = pdusSize l + pdusSize l' := by
  simp [pdusSize]

end OaiGnb.Rlc
