import OaiGnb.Rlc.Am.Receive

/-!
# The receive ring

A ring of `size` slots holds the PDUs of the SNs of the receive window; the SN space has twice as
many points as the ring, so that two SNs share a slot exactly when they are `size` apart.
SNs are written `(r + i) % M`, the `i`-th SN from `r` on.

* `freeDeliveredLoop_spec`: the loop that frees the delivered SDUs.
* `rxManager_refines`: the ring as a map from SNs to sorted lists.
* `segmentAlreadyReceived_iff`: the test for duplicates asks whether every byte is there.
-/

namespace OaiGnb.Rlc.Am

open Run

theorem getPos_eq (m : RxManager) (sn : ℤ) : getPos m sn = (m.start - m.snStart + sn) % m.size := by
  rw [getPos, show m.start + (sn - m.snStart + m.size * 2)
    = m.start - m.snStart + sn + m.size * 2 by ring]
  simp

variable {m : RxManager} {M : ℤ}

theorem getPos_offset (hM : M = 2 * m.size) (r i : ℤ) :
    getPos m ((r + i) % M) = (m.start - m.snStart + r + i) % m.size := by
  have hdvd : m.size ∣ M := ⟨2, by rw [hM]; ring⟩
  rw [getPos_eq, Int.add_emod, Int.emod_emod_of_dvd _ hdvd, ← Int.add_emod]
  ring_nf

theorem getPos_offset_eq_iff (hM : M = 2 * m.size) (r i j : ℤ) :
    getPos m ((r + i) % M) = getPos m ((r + j) % M) ↔ (i - j) % m.size = 0 := by
  grind [getPos_offset, Int.emod_add_cancel_left, Int.emod_eq_emod_iff_emod_sub_eq_zero]

theorem getPos_offset_inj {r i j : ℤ} (hM : M = 2 * m.size)
    (hi : 0 ≤ i ∧ i < m.size) (hj : 0 ≤ j ∧ j < m.size)
    (h : getPos m ((r + i) % M) = getPos m ((r + j) % M)) : i = j := by
  simp_all [getPos_offset, Int.emod_add_cancel_left, Int.emod_eq_of_lt]

theorem getPos_offset_add_size (hM : M = 2 * m.size) (r i : ℤ) :
    getPos m ((r + (i + m.size)) % M) = getPos m ((r + i) % M) := by
  rw [getPos_offset_eq_iff hM, show i + m.size - i = m.size by ring, Int.emod_self]

theorem getPduFromSn_setPdus (m : RxManager) (sn sn' : ℤ) (l : List Pdu) :
    getPduFromSn (setPdus m sn l) sn' =
      if getPos m sn' = getPos m sn then l else getPduFromSn m sn' := by
  show Function.update m.rxList (getPos m sn) l (getPos m sn') = _
  rw [Function.update_apply]
  rfl

@[simp] theorem getPduFromSn_setPdus_self (m : RxManager) (sn : ℤ) (l : List Pdu) :
    getPduFromSn (setPdus m sn l) sn = l := by
  rw [getPduFromSn_setPdus, if_pos rfl]

@[simp] theorem setPdus_getPos (m : RxManager) (sn sn' : ℤ) (l : List Pdu) :
    getPos (setPdus m sn l) sn' = getPos m sn' := rfl

theorem getPos_advanceTo (hM : M = 2 * m.size) (count sn : ℤ) :
    getPos (advanceTo m count ((m.snStart + count) % M)) sn = getPos m sn := by
  have hdvd : m.size ∣ M := ⟨2, by rw [hM]; ring⟩
  rw [getPos_eq, getPos_eq]
  show ((m.start + count) % m.size - (m.snStart + count) % M + sn) % m.size = _
  rw [Int.emod_eq_emod_iff_emod_sub_eq_zero, ← Int.dvd_iff_emod_eq_zero]
  have h1 : m.size ∣ (m.start + count) % m.size - (m.start + count) := Int.dvd_emod_sub_self
  have h2 : m.size ∣ (m.snStart + count) % M - (m.snStart + count) :=
    hdvd.trans Int.dvd_emod_sub_self
  have h3 := Int.dvd_sub h1 h2
  grind

theorem getPduFromSn_advanceTo (hM : M = 2 * m.size) (count sn : ℤ) :
    getPduFromSn (advanceTo m count ((m.snStart + count) % M)) sn = getPduFromSn m sn := by
  rw [getPduFromSn, getPos_advanceTo hM]
  rfl

/-! ### Freeing the delivered SDUs -/

/-- What the loop leaves behind after `n` turns from `r` on. -/
structure Freed (M : ℤ) (m m' : RxManager) (r : ℤ) (n : ℕ) : Prop where
  size : m'.size = m.size
  start : m'.start = m.start
  snStart : m'.snStart = m.snStart
  count : (n : ℤ) ≤ m.size
  delivered : ∀ i : ℕ, i < n → headConsumed (getPduFromSn m ((r + i) % M)) = true
  slots : ∀ sn, getPduFromSn m' sn =
    if ∃ i : ℕ, i < n ∧ getPos m sn = getPos m ((r + i) % M) then [] else getPduFromSn m sn
  stops : headConsumed (getPduFromSn m' ((r + n) % M)) = false

/-- **The freeing loop** empties the slots of consecutive delivered SDUs, and no slot twice. -/
theorem freeDeliveredLoop_spec {c : Config} {fuel : ℕ} {m m' : RxManager} {r r' n n' : ℤ}
    (hM : c.snModulus = 2 * m.size) (hpos : 0 < m.size)
    (h : freeDeliveredLoop c fuel m (r % c.snModulus) n = .ok (m', r', n')) :
    ∃ a : ℕ, r' = (r + a) % c.snModulus ∧ n' = n + a ∧ Freed c.snModulus m m' r a := by
  induction fuel generalizing m m' r r' n n' with
  | zero => cases h
  | succ fuel ih =>
    rw [freeDeliveredLoop] at h
    split at h
    next hdel =>
      rw [Int.emod_add_emod] at h
      obtain ⟨a, hr', hn', hf⟩ := ih (m := clearPdu m (r % c.snModulus)) (r := r + 1) hM hpos h
      have hshift : ∀ i : ℕ, r + ((i + 1 : ℕ) : ℤ) = r + 1 + i := by
        intro i
        push_cast
        ring
      have hslot : ∀ i : ℕ, getPduFromSn (clearPdu m (r % c.snModulus)) ((r + 1 + i) % c.snModulus)
          = if getPos m ((r + 1 + i) % c.snModulus) = getPos m (r % c.snModulus) then []
            else getPduFromSn m ((r + 1 + i) % c.snModulus) :=
        fun i => getPduFromSn_setPdus ..
      -- a slot emptied before is not delivered, so the loop has not come back to it
      have hne : ∀ i : ℕ, i < a →
          getPos m ((r + 1 + i) % c.snModulus) ≠ getPos m (r % c.snModulus) := by
        intro i hi he
        have := hf.delivered i hi
        rw [hslot, if_pos he] at this
        cases this
      have ha : (a : ℤ) + 1 ≤ m.size := by
        by_contra hgt
        have hlt : (m.size - 1).toNat < a := by omega
        refine hne _ hlt ?_
        have := getPos_offset_add_size hM r 0
        rw [Int.add_zero] at this
        rw [← this]
        congr 2
        omega
      refine ⟨a + 1, ?_, ?_, ⟨hf.size, hf.start, hf.snStart, by exact ha, ?_, ?_, ?_⟩⟩
      · rw [hr', hshift]
      · omega
      · intro i hi
        cases i with
        | zero => simpa using hdel
        | succ i =>
          have := hf.delivered i (by omega)
          rw [hslot, if_neg (hne i (by omega))] at this
          rw [hshift]
          exact this
      · intro sn
        rw [hf.slots sn]
        show (if ∃ i : ℕ, i < a ∧ getPos m sn = getPos m ((r + 1 + i) % c.snModulus) then []
          else getPduFromSn (setPdus m (r % c.snModulus) []) sn) = _
        rw [getPduFromSn_setPdus]
        by_cases h1 : ∃ i : ℕ, i < a ∧ getPos m sn = getPos m ((r + 1 + i) % c.snModulus)
        · obtain ⟨i, hi, he⟩ := h1
          rw [if_pos ⟨i, hi, he⟩, if_pos ⟨i + 1, by omega, by rw [hshift]; exact he⟩]
        · rw [if_neg h1]
          by_cases h2 : getPos m sn = getPos m (r % c.snModulus)
          · rw [if_pos h2, if_pos ⟨0, by omega, by simpa using h2⟩]
          · rw [if_neg h2, if_neg]
            rintro ⟨i, hi, he⟩
            cases i with
            | zero => exact h2 (by simpa using he)
            | succ i => grind
      · rw [hshift]
        exact hf.stops
    next hdel =>
      obtain ⟨rfl, h2⟩ := ok_inj h
      obtain ⟨rfl, rfl⟩ := Prod.mk.inj h2
      refine ⟨0, by simp, by simp, ⟨rfl, rfl, rfl, by simpa using hpos.le, ?_, ?_, ?_⟩⟩
      · omega
      · simp
      · simpa using hdel

/-! ### The ring as a map -/

open SortedList

/-- The `size` SNs from `sn_start` on. -/
def InWindow (m : RxManager) (sn : ℤ) : Prop :=
  ∃ i, 0 ≤ i ∧ i < m.size ∧ sn = (m.snStart + i) % (2 * m.size)

inductive RingOp
  | add (pdu : Pdu)
  | clear (sn : ℤ)
  | advance (count : ℤ)

/-- The SN an operation is for. -/
def RingOp.sn : RingOp → Option ℤ
  | .add pdu => some pdu.sn
  | .clear sn => some sn
  | .advance _ => none

def RingOp.onRing (m : RxManager) : RingOp → RxManager
  | .add pdu => addPdu m pdu
  | .clear sn => clearPdu m sn
  | .advance count => advanceTo m count ((m.snStart + count) % (2 * m.size))

/-- What the operation does to the PDUs added for each SN since it was cleared. -/
def RingOp.onMap (added : ℤ → List Pdu) : RingOp → ℤ → List Pdu
  | .add pdu => Function.update added pdu.sn (added pdu.sn ++ [pdu])
  | .clear sn => Function.update added sn []
  | .advance _ => added

def ringStep (s : RxManager × (ℤ → List Pdu)) (op : RingOp) :
    Except Empty ((RxManager × (ℤ → List Pdu)) × Unit) :=
  .ok ((op.onRing s.1, op.onMap s.2), ())

/-- SNs are in the window, and the SNs that leave it were cleared. -/
def RingOp.Fits (m : RxManager) (added : ℤ → List Pdu) : RingOp → Prop
  | .advance count => 0 ≤ count ∧ ∀ i, 0 ≤ i → i < count →
      added ((m.snStart + i) % (2 * m.size)) = []
  | op => ∀ sn ∈ op.sn, InWindow m sn

/-- The PDUs of one list, sorted by `so`, those with the same `so` in their order. -/
def Sorts (stored added : List Pdu) : Prop :=
  SortedBy Pdu.so stored ∧
    ∀ so, stored.filter (fun p => p.so = so) = added.filter fun p => p.so = so

theorem Sorts.nil : Sorts [] [] := ⟨sortedBy_nil _, fun _ => rfl⟩

theorem Sorts.insert {stored added : List Pdu} (h : Sorts stored added) (pdu : Pdu) :
    Sorts (insertBefore (fun cur => decide (cur.so > pdu.so)) pdu stored) (added ++ [pdu]) := by
  refine ⟨sortedBy_insertBefore h.1, fun so => ?_⟩
  rw [List.filter_append, ← h.2 so]
  have hsorted := h.1
  clear h
  induction stored with
  | nil => rfl
  | cons cur l ih =>
    obtain ⟨hcur, hl⟩ := sortedBy_cons.mp hsorted
    rw [insertBefore]
    split
    next hstop =>
      by_cases hso : pdu.so = so
      · have hnone : (cur :: l).filter (fun p => decide (p.so = so)) = [] := by
          rw [List.filter_eq_nil_iff]
          simp only [decide_eq_true_eq] at hstop ⊢
          refine List.forall_mem_cons.mpr ⟨by omega, fun p hp => ?_⟩
          have := hcur p hp
          omega
        rw [hnone, List.filter_cons_of_pos (by simpa using hso), hnone]
        simp [hso]
      · simp [hso]
    next hgo =>
      simp only [List.filter_cons, ih hl]
      split <;> simp

variable {added : ℤ → List Pdu} {op : RingOp} {sn sn' : ℤ}

theorem InWindow.getPos_inj (h : InWindow m sn) (h' : InWindow m sn')
    (heq : getPos m sn = getPos m sn') : sn = sn' := by
  obtain ⟨i, hi, hi', rfl⟩ := h
  obtain ⟨j, hj, hj', rfl⟩ := h'
  rw [getPos_offset_inj rfl ⟨hi, hi'⟩ ⟨hj, hj'⟩ heq]

theorem getPduFromSn_setPdus_of_ne (h : InWindow m sn) (h' : InWindow m sn') (hne : sn ≠ sn')
    (l : List Pdu) : getPduFromSn (setPdus m sn' l) sn = getPduFromSn m sn := by
  rw [getPduFromSn_setPdus, if_neg fun heq => hne (h.getPos_inj h' heq)]

/-- The ring and the map agree, and the map has nothing outside of the window. -/
structure RingInv (m : RxManager) (added : ℤ → List Pdu) : Prop where
  pos : 0 < m.size
  window : ∀ sn, InWindow m sn → Sorts (getPduFromSn m sn) (added sn)
  outside : ∀ sn, ¬ InWindow m sn → added sn = []

theorem RingInv.set (h : RingInv m added) {l l' : List Pdu} (hsn' : InWindow m sn')
    (hl : Sorts l l') : RingInv (setPdus m sn' l) (Function.update added sn' l') := by
  refine ⟨h.pos, fun sn (hsn : InWindow m sn) => ?_, fun sn (hsn : ¬ InWindow m sn) => ?_⟩
  · by_cases heq : sn = sn'
    · rw [heq, getPduFromSn_setPdus_self, Function.update_self]
      exact hl
    · rw [getPduFromSn_setPdus_of_ne hsn hsn' heq, Function.update_of_ne heq]
      exact h.window sn hsn
  · have hne : sn ≠ sn' := fun heq => hsn (heq ▸ hsn')
    rw [Function.update_of_ne hne]
    exact h.outside sn hsn

theorem RingInv.advance (h : RingInv m added) {count : ℤ}
    (hfits : (RingOp.advance count).Fits m added) :
    RingInv ((RingOp.advance count).onRing m) added := by
  obtain ⟨hcount, hcleared⟩ := hfits
  have hpos := h.pos
  have hstart : ∀ i, ((m.snStart + count) % (2 * m.size) + i) % (2 * m.size)
      = (m.snStart + (count + i)) % (2 * m.size) := by
    intro i
    rw [Int.emod_add_emod, add_assoc]
  refine ⟨hpos, fun sn hsn => ?_, fun sn hsn => ?_⟩
  · rw [RingOp.onRing, getPduFromSn_advanceTo rfl]
    by_cases hin : InWindow m sn
    · exact h.window sn hin
    · -- the slot was that of an SN which was cleared
      obtain ⟨i, hi, hlt, hi'⟩ := hsn
      obtain rfl := hi'.trans (hstart i)
      change i < m.size at hlt
      have hge : m.size ≤ count + i := by
        by_contra hsmall
        exact hin ⟨count + i, by omega, by omega, rfl⟩
      have hj := Int.emod_nonneg (count + i) hpos.ne'
      have hlt' : (count + i) % m.size < count := by
        have h1 := Int.emod_add_mul_ediv (count + i) m.size
        have h2 : 1 ≤ (count + i) / m.size := Int.le_ediv_of_mul_le hpos (by omega)
        nlinarith
      have hslot := (@getPos_offset_eq_iff m _ rfl m.snStart (count + i)
        ((count + i) % m.size)).mpr (by simp [Int.sub_emod])
      have hsorts := h.window _ ⟨_, hj, Int.emod_lt_of_pos _ hpos, rfl⟩
      rw [hcleared _ hj hlt'] at hsorts
      rw [h.outside _ hin, getPduFromSn, hslot]
      exact hsorts
  · by_cases hin : InWindow m sn
    · obtain ⟨i, hi, hlt, rfl⟩ := hin
      refine hcleared i hi ?_
      by_contra hge
      refine hsn ⟨i - count, by omega, by show i - count < m.size; omega, ?_⟩
      refine Eq.trans ?_ (hstart (i - count)).symm
      rw [add_sub_cancel]
    · exact h.outside sn hin

theorem RingInv.step (h : RingInv m added) (hfits : op.Fits m added) :
    RingInv (op.onRing m) (op.onMap added) := by
  cases op with
  | add pdu => exact h.set (hfits _ rfl) ((h.window _ (hfits _ rfl)).insert pdu)
  | clear sn => exact h.set (hfits _ rfl) Sorts.nil
  | advance count => exact h.advance hfits

/-- **The ring refines a map from SNs to sorted lists**, in every run on a new ring. -/
theorem rxManager_refines {size : ℤ} (hsize : 0 < size) {s : RxManager × (ℤ → List Pdu)}
    (h : Reachable ringStep (fun s op => op.Fits s.1 s.2) (nrRlcNewRxManager size, fun _ => []) s)
    (hsn : InWindow s.1 sn) :
    Sorts (getPduFromSn s.1 sn) (s.2 sn) ∧ ∀ op : RingOp, op.Fits s.1 s.2 → op.sn ≠ some sn →
      getPduFromSn (op.onRing s.1) sn = getPduFromSn s.1 sn := by
  have hinv : RingInv s.1 s.2 := by
    refine h.invariant (fun s => RingInv s.1 s.2) ?_ ?_
    · exact ⟨hsize, fun _ _ => Sorts.nil, fun _ _ => rfl⟩
    · intro s op s' _ hs hfits hstep
      obtain ⟨rfl, -⟩ := ok_inj hstep
      exact hs.step hfits
  refine ⟨hinv.window sn hsn, fun op hfits hop => ?_⟩
  cases op with
  | advance count => exact getPduFromSn_advanceTo rfl count sn
  | _ =>
    exact getPduFromSn_setPdus_of_ne hsn (hfits _ rfl) (fun heq => hop (congrArg some heq.symm)) _

/-- Segments of the SNs 3 and 0; SN 0 is cleared and leaves the window. -/
def sampleOps : List RingOp :=
  [.add ⟨3, none, 2, 4, false, true⟩, .add ⟨0, none, 1, 0, true, true⟩,
    .add ⟨3, none, 4, 0, true, false⟩, .clear 0, .advance 1]

/-- The segments of SN 3, added in the other order, are sorted. -/
theorem rxManager_refines_sample :
    ∃ s, Reachable ringStep (fun s op => op.Fits s.1 s.2) (nrRlcNewRxManager 4, fun _ => []) s ∧
      s.1.snStart = 1 ∧
      getPduFromSn s.1 3 = [⟨3, none, 4, 0, true, false⟩, ⟨3, none, 2, 4, false, true⟩] ∧
      Sorts (getPduFromSn s.1 3) [⟨3, none, 2, 4, false, true⟩, ⟨3, none, 4, 0, true, false⟩] := by
  have hin : ∀ {m : RxManager} {sn : ℤ}, m.size = 4 → m.snStart = 0 → 0 ≤ sn → sn < 4 →
      InWindow m sn := by
    intro m sn hsize hstart hlow hhigh
    refine ⟨sn, hlow, hsize ▸ hhigh, ?_⟩
    rw [hsize, hstart, zero_add]
    exact (Int.emod_eq_of_lt hlow (by omega)).symm
  have hreach : Reachable ringStep (fun s op => op.Fits s.1 s.2) (nrRlcNewRxManager 4, fun _ => [])
      (sampleOps.foldl (fun m op => op.onRing m) (nrRlcNewRxManager 4),
        sampleOps.foldl (fun added op => op.onMap added) fun _ => []) := by
    refine .step (i := .advance 1) (.step (i := .clear 0) (.step (i := .add ⟨3, _, _, _, _, _⟩)
      (.step (i := .add ⟨0, _, _, _, _, _⟩) (.step (i := .add ⟨3, _, _, _, _, _⟩) .start ?_ rfl)
      ?_ rfl) ?_ rfl) ?_ rfl) ?_ rfl
    case refine_5 =>
      refine ⟨by decide, fun i hlow hhigh => ?_⟩
      obtain rfl : i = 0 := by omega
      rfl
    all_goals
      rintro _ ⟨⟩
      exact hin rfl rfl (by decide) (by decide)
  exact ⟨_, hreach, rfl, by decide, (rxManager_refines (by decide) hreach
    ⟨2, by decide, by decide, by decide⟩).1⟩

/-! ### Duplicates -/

/-- The bytes of a list of segments. -/
def Covers (l : List Pdu) (b : ℤ) : Prop := ∃ p ∈ l, (p.so : ℤ) ≤ b ∧ b < p.so + p.size

theorem covers_cons (p : Pdu) (l : List Pdu) (b : ℤ) :
    Covers (p :: l) b ↔ ((p.so : ℤ) ≤ b ∧ b < p.so + p.size) ∨ Covers l b := by
  simp [Covers]

theorem alreadyReceivedLoop_iff {l : List Pdu} (hsorted : SortedBy Pdu.so l) (so size : ℤ) :
    alreadyReceivedLoop l so size = true ↔ ∀ b, so ≤ b → b < so + size → Covers l b := by
  induction l generalizing so size with
  | nil =>
    simp only [alreadyReceivedLoop, decide_eq_true_eq, Covers, List.not_mem_nil, false_and,
      exists_false]
    exact ⟨fun h b _ _ => by omega, fun h => by by_contra hpos; exact h so le_rfl (by omega)⟩
  | cons p l ih =>
    obtain ⟨hp, hl⟩ := sortedBy_cons.mp hsorted
    -- a byte before the first segment is in none
    have hgap : so < p.so → 0 < size → ∀ size' > 0,
        ((∀ b, so ≤ b → b < so + size' → Covers l b) ↔
          ∀ b, so ≤ b → b < so + size → Covers (p :: l) b) := by
      intro hlt hpos size' hpos'
      refine iff_of_false (fun h => ?_) fun h => ?_
      · obtain ⟨q, hq, hqso, _⟩ := h so le_rfl (by omega)
        have := hp q hq
        omega
      · rcases (covers_cons p l so).mp (h so le_rfl (by omega)) with hc | ⟨q, hq, hqso, _⟩
        · omega
        · have := hp q hq
          omega
    rw [alreadyReceivedLoop]
    split
    next hsize => exact iff_of_true rfl fun b h1 h2 => by omega
    next hsize =>
      split
      next hfront =>
        rw [ih hl]
        refine ⟨fun h b h1 h2 => ?_, fun h b h1 h2 => ?_⟩
        · rw [covers_cons]
          by_cases hb : b < p.so + p.size
          · exact Or.inl ⟨by omega, hb⟩
          · exact Or.inr (h b (by omega) (by omega))
        · exact ((covers_cons p l b).mp (h b (by omega) (by omega))).resolve_left (by omega)
      next hfront =>
        split
        next hback =>
          rw [ih hl]
          exact hgap (by omega) (by omega) _ (by omega)
        next hback =>
          rw [ih hl]
          by_cases hlt : so < p.so
          · exact hgap hlt (by omega) size (by omega)
          · refine forall_congr' fun b => forall_congr' fun h1 => forall_congr' fun h2 => ?_
            rw [covers_cons, or_iff_right (by omega)]

/-- **The test for duplicates is exact.** -/
theorem segmentAlreadyReceived_iff {rx : RxState} {sn : ℤ}
    (hsorted : SortedBy Pdu.so (getPduFromSn rx.rx sn)) (so size : ℤ) :
    segmentAlreadyReceived rx sn so size = true ↔
      ∀ b, so ≤ b → b < so + size → Covers (getPduFromSn rx.rx sn) b :=
  alreadyReceivedLoop_iff hsorted so size

/-- With bytes 0 and 1 and bytes 3 and 4 of an SDU stored, byte 1 is a duplicate, and bytes 1 to 3
are none. -/
theorem segmentAlreadyReceived_iff_stored :
    let rx := storePdu (storePdu (RxState.new 4) ⟨3, none, 2, 3, false, true⟩)
      ⟨3, none, 2, 0, true, false⟩
    (∀ b, 1 ≤ b → b < 1 + 1 → Covers (getPduFromSn rx.rx 3) b) ∧
      ¬ ∀ b, 1 ≤ b → b < 1 + 3 → Covers (getPduFromSn rx.rx 3) b := by
  intro rx
  have hsorted : SortedBy Pdu.so (getPduFromSn rx.rx 3) := by
    rw [show getPduFromSn rx.rx 3 = [⟨3, none, 2, 0, true, false⟩, ⟨3, none, 2, 3, false, true⟩] by
      decide]
    simp [SortedBy]
  rw [← segmentAlreadyReceived_iff hsorted, ← segmentAlreadyReceived_iff hsorted]
  decide

end OaiGnb.Rlc.Am
