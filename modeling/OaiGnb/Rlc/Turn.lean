import OaiGnb.Lib.SerialNumber
import OaiGnb.Rlc.Reassembly

/-!
# Turning the sequence numbers of stored PDUs

`Pdu.turn M k` adds `k` to the SN of a stored PDU, modulo `M`.  The loops over the PDUs of one
SDU do not look at the SN, and the search `advanceWhile` for the next SN and the insertion of a
PDU commute with the turn.
-/

namespace OaiGnb.Rlc

open SerialNumber

variable {M k : ℤ}

/-- The PDU with its SN turned by `k`. -/
def Pdu.turn (M k : ℤ) (p : Pdu) : Pdu := { p with sn := SerialNumber.turn M k p.sn }

theorem sduFullLoop_turn (l : List Pdu) : ∀ b : ℤ,
    sduFullLoop (l.map (Pdu.turn M k)) b = sduFullLoop l b := by
  induction l with
  | nil => intro b; rfl
  | cons p l ih =>
    intro b
    simp only [List.map_cons, sduFullLoop, Pdu.turn, ih]

theorem sduMissingLoop_turn (l : List Pdu) : ∀ b : ℤ,
    sduMissingLoop (l.map (Pdu.turn M k)) b = sduMissingLoop l b := by
  induction l with
  | nil => intro b; rfl
  | cons p l ih =>
    intro b
    simp only [List.map_cons, sduMissingLoop, Pdu.turn, ih]

@[simp] theorem headConsumed_turn (l : List Pdu) :
    headConsumed (l.map (Pdu.turn M k)) = headConsumed l := by
  cases l <;> rfl

@[simp] theorem pdusFull_turn (l : List Pdu) :
    pdusFull (l.map (Pdu.turn M k)) = pdusFull l := by
  rw [pdusFull, pdusFull, headConsumed_turn, sduFullLoop_turn]

@[simp] theorem pdusMissing_turn (l : List Pdu) :
    pdusMissing (l.map (Pdu.turn M k)) = pdusMissing l := by
  rw [pdusMissing, pdusMissing, headConsumed_turn, sduMissingLoop_turn]

@[simp] theorem reassembleLoop_turn (l : List Pdu) : ∀ (bad : Bool) (sdu : List UInt8),
    reassembleLoop (l.map (Pdu.turn M k)) bad sdu = reassembleLoop l bad sdu := by
  induction l with
  | nil => intro bad sdu; rfl
  | cons p l ih =>
    intro bad sdu
    simp only [List.map_cons, reassembleLoop, Pdu.turn, copyBytes, ih]

@[simp] theorem pdusSize_turn (l : List Pdu) : pdusSize (l.map (Pdu.turn M k)) = pdusSize l := by
  induction l with
  | nil => rfl
  | cons p l ih => rw [List.map_cons, pdusSize_cons, pdusSize_cons, ih]; rfl

variable {p : ℤ → Bool}

theorem advanceWhile_turn {p' : ℤ → Bool} (hM : 0 < M)
    (hp : ∀ sn, InRange M sn → p' (SerialNumber.turn M k sn) = p sn) (fuel : ℕ) :
    ∀ sn, InRange M sn → advanceWhile p' M fuel (SerialNumber.turn M k sn)
      = (advanceWhile p M fuel sn).map (SerialNumber.turn M k) := by
  induction fuel with
  | zero => intro sn _; rfl
  | succ fuel ih =>
    intro sn hsn
    rw [advanceWhile, advanceWhile, hp sn hsn]
    split
    · rw [turn_add_emod]
      exact ih _ (inRange_emod hM)
    · rfl

theorem advanceWhile_inRange (hM : 0 < M) (fuel : ℕ) : ∀ {sn r : ℤ},
    InRange M sn → advanceWhile p M fuel sn = .ok r → InRange M r := by
  induction fuel with
  | zero => intro sn r _ h; cases h
  | succ fuel ih =>
    intro sn r hsn h
    rw [advanceWhile] at h
    split at h
    · exact ih (inRange_emod hM) h
    · simp_all

theorem nrRlcPduListAdd_turn {cmp cmp' : ℤ → ℤ → ℤ} (hk : InRange M k)
    (hcmp : ∀ a b, cmp' (SerialNumber.turn M k a) (SerialNumber.turn M k b) = cmp a b)
    {l : List Pdu} {p : Pdu} (hl : ∀ q ∈ l, InRange M q.sn) (hp : InRange M p.sn) :
    nrRlcPduListAdd cmp' (l.map (Pdu.turn M k)) (p.turn M k)
      = (nrRlcPduListAdd cmp l p).map (Pdu.turn M k) := by
  unfold nrRlcPduListAdd
  induction l with
  | nil => rfl
  | cons q l ih =>
    have hq := turn_inj hk (hl q List.mem_cons_self) hp
    have hstop : (cmp' (q.turn M k).sn (p.turn M k).sn > 0 ∨
        ((q.turn M k).sn = (p.turn M k).sn ∧ (q.turn M k).so > (p.turn M k).so)) ↔
        (cmp q.sn p.sn > 0 ∨ (q.sn = p.sn ∧ q.so > p.so)) := by
      simp only [Pdu.turn, hcmp, hq]
    rw [List.map_cons, SortedList.insertBefore, SortedList.insertBefore]
    simp only [hstop]
    split
    · rfl
    · simp_all

/-! ### Searches in a mapped list -/

variable {α β : Type} {q : α → Bool} {q' : β → Bool} {l : List α} {f : α → β}

theorem dropWhile_map_of
    (h : ∀ a ∈ l, q' (f a) = q a) : (l.map f).dropWhile q' = (l.dropWhile q).map f := by
  induction l with
  | nil => rfl
  | cons a l ih =>
    rw [List.map_cons, List.dropWhile_cons, List.dropWhile_cons, h a List.mem_cons_self]
    split
    · exact ih (List.forall_mem_cons.mp h).2
    · rfl

theorem takeWhile_map_of
    (h : ∀ a ∈ l, q' (f a) = q a) : (l.map f).takeWhile q' = (l.takeWhile q).map f := by
  induction l with
  | nil => rfl
  | cons a l ih =>
    rw [List.map_cons, List.takeWhile_cons, List.takeWhile_cons, h a List.mem_cons_self]
    split
    · simp_all
    · rfl

end OaiGnb.Rlc
