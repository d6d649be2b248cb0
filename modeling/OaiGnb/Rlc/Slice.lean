import OaiGnb.Rlc.Reassembly

/-!
# Reassembly of genuine segments

A stored PDU is live when it still holds its bytes.  When the live PDUs of one sequence number
all are slices of one SDU, `reassemble_and_deliver` copies exactly that SDU as soon as `sdu_full`
holds, whatever the overlaps (`reassembleLoop_slices`).
-/

namespace OaiGnb.Rlc

/-- `bytes` are the bytes of the SDU `data` from `so` on, with the right SI flags. -/
structure Slice (data : List UInt8) (so : ℕ) (isFirst isLast : Bool) (bytes : List UInt8) :
    Prop where
  eq : bytes = (data.drop so).take bytes.length
  inside : so + bytes.length ≤ data.length
  first : isFirst = decide (so = 0)
  last : isLast = true → so + bytes.length = data.length

variable {data : List UInt8} {l : List Pdu}

theorem Slice.complete {bytes : List UInt8} {so : ℕ} (h : Slice data so true true bytes) :
    bytes = data := by
  have hso : so = 0 := by simpa using h.first
  have hlen := h.last rfl
  have heq := h.eq
  rw [hso, List.drop_zero] at heq
  rw [hso, Nat.zero_add] at hlen
  rw [heq, hlen, List.take_length]

/-- A stored PDU that holds a slice of `data`. -/
def Pdu.IsSlice (data : List UInt8) (p : Pdu) : Prop :=
  ∃ bytes, p.data = some bytes ∧ p.size = bytes.length ∧ Slice data p.so p.isFirst p.isLast bytes

theorem copyBytes_eq {p : Pdu} {bytes : List UInt8} (hp : p.data = some bytes) {off len : ℕ}
    (h : off + len ≤ bytes.length) : copyBytes p off len = (bytes.drop off).take len := by
  apply List.ext_getElem
  · rw [copyBytes, List.length_map, List.length_range, List.length_take, List.length_drop]
    omega
  · intro j h1 h2
    rw [copyBytes, List.length_map, List.length_range] at h1
    have hj : (off : ℤ) + (j : ℤ) = ((off + j : ℕ) : ℤ) := by rfl
    simp only [copyBytes, List.getElem_map, List.getElem_range, List.getElem_take,
      List.getElem_drop, hp, Option.getD_some, byteAt, hj, Int.natCast_nonneg, if_true,
      Int.toNat_natCast]
    rw [List.getD_eq_getElem _ _ (by omega)]

theorem reassembleLoop_cons_slice {p : Pdu} {n : ℕ}
    (hp : p.IsSlice data) (hmax : data.length ≤ nrSduMax) (hn : n ≤ data.length) (hso : p.so ≤ n) :
    reassembleLoop (p :: l) false (data.take n)
      = reassembleLoop l false (data.take (max n (p.so + p.size))) := by
  obtain ⟨bytes, hd, hsize, hs⟩ := hp
  have hin := hs.inside
  have hlen : (data.take n).length = n := List.length_take_of_le hn
  have hbad : (decide ((n : ℤ) + ((p.size : ℤ) - ((n : ℤ) - (p.so : ℤ))) > (nrSduMax : ℤ))) =
    false := by
    simp only [decide_eq_false_iff_not]
    omega
  rw [reassembleLoop, hlen]
  simp only [Bool.false_or, hbad, Bool.not_false, Bool.true_and, decide_eq_true_eq]
  split
  next hpos =>
    -- the copied bytes continue the SDU where the copy stands
    have hoff : (n : ℤ) - (p.so : ℤ) = ((n - p.so : ℕ) : ℤ) := by omega
    have hcount : ((p.size : ℤ) - ((n : ℤ) - (p.so : ℤ))).toNat = p.so + p.size - n := by omega
    have hcopy : copyBytes p ((n : ℤ) - (p.so : ℤ)) (p.so + p.size - n)
        = (data.drop n).take (p.so + p.size - n) := by
      rw [hoff, copyBytes_eq hd (by omega), hs.eq, List.drop_take, List.drop_drop, List.take_take]
      congr 1
      · omega
      · congr 1
        omega
    rw [hcount, hcopy, ← List.take_add]
    congr 2
    omega
  · congr 2
    omega

theorem reassembleLoop_done (hmax : data.length ≤ nrSduMax)
    (hl : ∀ p ∈ l, p.IsSlice data) : reassembleLoop l false data = (false, data) := by
  induction l with
  | nil => rfl
  | cons p l ih =>
    have hp := hl p List.mem_cons_self
    have hin : p.so + p.size ≤ data.length := by
      obtain ⟨bytes, _, hsize, hs⟩ := hp
      rw [hsize]
      exact hs.inside
    have hstep := reassembleLoop_cons_slice (l := l) hp hmax le_rfl (by omega)
    simp_all

/-- **A full set of slices reassembles to the SDU.**  `n` bytes have been copied without a gap;
`sdu_full` says that the slices left close every gap up to one that ends the SDU. -/
theorem reassembleLoop_slices (hmax : data.length ≤ nrSduMax) {n : ℕ}
    (hl : ∀ p ∈ l, p.IsSlice data) (hn : n ≤ data.length)
    (hfull : sduFullLoop l ((n : ℤ) - 1) = true) :
    reassembleLoop l false (data.take n) = (false, data) := by
  induction l generalizing n with
  | nil => cases hfull
  | cons p l ih =>
    have hp := hl p List.mem_cons_self
    have hrest : ∀ q ∈ l, q.IsSlice data := (List.forall_mem_cons.mp hl).2
    have hp' := hp
    obtain ⟨bytes, _, hsize, hs⟩ := hp'
    have hin := hs.inside
    rw [sduFullLoop] at hfull
    split at hfull
    · cases hfull
    · rw [reassembleLoop_cons_slice hp hmax hn (by omega)]
      split at hfull
      next hlast =>
        have hend := hs.last hlast
        rw [Nat.max_eq_right (by omega), hsize, hend, List.take_length]
        exact reassembleLoop_done hmax hrest
      · refine ih hrest (by omega) ?_
        have hnew : (if (p.so : ℤ) + (p.size : ℤ) - 1 > (n : ℤ) - 1 then (p.so : ℤ) + p.size - 1
            else (n : ℤ) - 1) = ((max n (p.so + p.size) : ℕ) : ℤ) - 1 := by
          split <;> omega
        rw [← hnew]
        exact hfull

end OaiGnb.Rlc
