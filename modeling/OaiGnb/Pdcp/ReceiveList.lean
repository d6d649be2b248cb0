import OaiGnb.Pdcp.Entity
import Mathlib.Data.List.TakeWhile
import Mathlib.Algebra.BigOperators.Group.List.Basic

/-!
# The PDCP receive list

* `deliverRun_spec`: the loop that delivers consecutive COUNTs.
* `ListCore`, `TimerOk`: the list is strictly sorted between `rx_deliv` and `rx_next`, and
  t-Reordering waits for a COUNT between them; kept by every call.
* `Running`: the timer runs exactly when something is missing, as long as the time is not 0.
* `reachable_listOk`: the receive list and its accounting, in runs that store no SDU with a MAC-I.
-/

namespace OaiGnb.Pdcp

open Run SortedList

/-! ### Delivery of consecutive COUNTs -/

/-- Strictly sorted by COUNT. -/
def Sorted (l : List Sdu) : Prop := l.Pairwise fun a b => a.count < b.count

variable {l : List Sdu}

/-- **The delivery loop.**  In a sorted list of COUNTs from `count` on, the delivered SDUs are the
first ones, their COUNTs are consecutive, and what is left lies beyond the next COUNT. -/
theorem deliverRun_spec {n : ℕ} (hn : n < 2 ^ 32) {count : ℕ} (hs : Sorted l)
    (hin : ∀ s ∈ l, count ≤ s.count ∧ s.count < n) (hle : count ≤ n) :
    l = (deliverRun l count).1 ++ (deliverRun l count).2.1 ∧
      count ≤ (deliverRun l count).2.2 ∧ (deliverRun l count).2.2 ≤ n ∧
      (∀ s ∈ (deliverRun l count).1, s.count < (deliverRun l count).2.2) ∧
      ∀ s ∈ (deliverRun l count).2.1, (deliverRun l count).2.2 < s.count := by
  induction l generalizing count with
  | nil =>
    exact ⟨rfl, le_rfl, hle, List.forall_mem_nil _,
      List.forall_mem_nil _⟩
  | cons cur l ih =>
    obtain ⟨hcur, hs⟩ := List.pairwise_cons.mp hs
    have h0 := hin cur List.mem_cons_self
    by_cases heq : count = cur.count
    · have hmod : (count + 1) % 2 ^ 32 = count + 1 := Nat.mod_eq_of_lt (by omega)
      obtain ⟨h1, h2, h3, h4, h5⟩ := @ih (count + 1) hs
        (fun s hs' => ⟨by have := hcur s hs'; omega, (hin s (List.mem_cons_of_mem _ hs')).2⟩)
        (by omega)
      rw [deliverRun, if_pos heq, hmod]
      grind
    · rw [deliverRun, if_neg heq]
      refine ⟨rfl, le_rfl, hle, List.forall_mem_nil _, ?_⟩
      intro s hs'
      rcases List.mem_cons.mp hs' with rfl | hs'
      · grind
      · grind

/-! ### The invariant -/

/-- The list is strictly sorted and lies between `rx_deliv` and `rx_next`. -/
structure ListCore (rx : RxState) : Prop where
  sorted : Sorted rx.rxList
  inside : ∀ s ∈ rx.rxList, rx.rxDeliv < s.count ∧ s.count < rx.rxNext
  order : rx.rxDeliv ≤ rx.rxNext
  bound : rx.rxNext < 2 ^ 32

/-- A running timer waits for a COUNT between `rx_deliv` and `rx_next`. -/
def TimerOk (rx : RxState) : Prop :=
  rx.tReorderingStart ≠ 0 → rx.rxDeliv < rx.rxReord ∧ rx.rxReord ≤ rx.rxNext

/-- The timer runs exactly when a COUNT below `rx_next` is missing. -/
def Running (rx : RxState) : Prop := rx.tReorderingStart ≠ 0 ↔ rx.rxDeliv < rx.rxNext

variable {sdu : Sdu}

theorem sorted_listAdd (h : Sorted l)
    (hnew : nrPdcpSduInList l sdu.count = false) : Sorted (nrPdcpSduListAdd l sdu) := by
  unfold nrPdcpSduListAdd
  induction l with
  | nil => exact List.pairwise_singleton _ _
  | cons cur l ih =>
    obtain ⟨hcur, hs⟩ := List.pairwise_cons.mp h
    rw [nrPdcpSduInList, List.any_cons, Bool.or_eq_false_iff] at hnew
    have hne : cur.count ≠ sdu.count := by simpa using hnew.1
    rw [insertBefore]
    split
    next hlt =>
      have hlt : sdu.count < cur.count := by simpa using hlt
      refine List.pairwise_cons.mpr ⟨?_, h⟩
      grind
    next hge =>
      have hge : ¬ sdu.count < cur.count := by simpa using hge
      refine List.pairwise_cons.mpr ⟨?_, ih hs hnew.2⟩
      intro s hs'
      rcases mem_insertBefore.mp hs' with rfl | hs'
      · omega
      · exact hcur s hs'

theorem sdusSize_append (l l' : List Sdu) : sdusSize (l ++ l') = sdusSize l + sdusSize l' := by
  rw [sdusSize, List.map_append, List.sum_append]
  rfl

theorem sdusSize_listAdd (l : List Sdu) (sdu : Sdu) :
    sdusSize (nrPdcpSduListAdd l sdu) = sdu.size + sdusSize l := by
  have h := (insertBefore_perm (fun cur : Sdu => decide (sdu.count < cur.count)) sdu l).map Sdu.size
  rw [sdusSize, nrPdcpSduListAdd, h.sum_eq]
  rfl

/-! ### Reception -/

variable {rx : RxState}

theorem storeSdu_core (bytes : ℤ) (h : ListCore rx)
    (hnew : nrPdcpSduInList rx.rxList sdu.count = false) (hge : rx.rxDeliv ≤ sdu.count)
    (hlt : sdu.count < 2 ^ 32 - 1) :
    Sorted (storeSdu rx sdu bytes).rxList ∧
      (∀ s ∈ (storeSdu rx sdu bytes).rxList, (s = sdu ∨ rx.rxDeliv < s.count) ∧
        s.count < (storeSdu rx sdu bytes).rxNext) ∧
      rx.rxDeliv < (storeSdu rx sdu bytes).rxNext ∧ rx.rxNext ≤ (storeSdu rx sdu bytes).rxNext ∧
      (storeSdu rx sdu bytes).rxNext < 2 ^ 32 := by
  have hmod : (sdu.count + 1) % 2 ^ 32 = sdu.count + 1 := Nat.mod_eq_of_lt (by omega)
  have hb := h.bound
  have hnext : (storeSdu rx sdu bytes).rxNext = if sdu.count ≥ rx.rxNext then sdu.count + 1
      else rx.rxNext := by
    rw [storeSdu, hmod]
  refine ⟨sorted_listAdd h.sorted hnew, ?_, ?_, ?_, ?_⟩
  · intro s hs
    rw [hnext]
    rcases mem_insertBefore.mp hs with rfl | hs
    · exact ⟨Or.inl rfl, by split <;> omega⟩
    · have := h.inside s hs
      exact ⟨Or.inr this.1, by split <;> omega⟩
  · rw [hnext]
    split <;> omega
  · rw [hnext]
    split <;> omega
  · grind

theorem deliverFrom_core {rx : RxState} (count : ℕ) (hs : Sorted rx.rxList)
    (hin : ∀ s ∈ rx.rxList, count ≤ s.count ∧ s.count < rx.rxNext) (hle : count ≤ rx.rxNext)
    (hb : rx.rxNext < 2 ^ 32) :
    ListCore (deliverFrom rx count).1 ∧ count ≤ (deliverFrom rx count).1.rxDeliv ∧
      rx.rxList = (deliverFrom rx count).2 ++ (deliverFrom rx count).1.rxList ∧
      ∀ s ∈ (deliverFrom rx count).2, s.count < (deliverFrom rx count).1.rxDeliv := by
  obtain ⟨h1, h2, h3, h4, h5⟩ := deliverRun_spec hb hs hin hle
  refine ⟨⟨?_, ?_, h3, hb⟩, h2, h1, h4⟩
  · have := hs
    rw [h1] at this
    exact (List.pairwise_append.mp this).2.1
  · intro s hs'
    refine ⟨h5 s hs', (hin s ?_).2⟩
    rw [h1]
    exact List.mem_append_right _ hs'

theorem deliverFrom_size (rx : RxState) (count : ℕ)
    (h : rx.rxList = (deliverFrom rx count).2 ++ (deliverFrom rx count).1.rxList) :
    (deliverFrom rx count).1.rxSize - sdusSize (deliverFrom rx count).1.rxList
      = rx.rxSize - sdusSize rx.rxList := by
  grind [sdusSize_append, sdusSize, deliverFrom]

theorem receptionTimer_core (now : UInt64) (h : ListCore rx)
    (hr : rx.tReorderingStart ≠ 0 → rx.rxReord ≤ rx.rxNext) :
    ListCore (receptionTimer now rx) ∧ TimerOk (receptionTimer now rx) ∧
      (now ≠ 0 → Running (receptionTimer now rx)) ∧
      (receptionTimer now rx).rxList = rx.rxList ∧ (receptionTimer now rx).rxSize = rx.rxSize ∧
      (receptionTimer now rx).rxDeliv = rx.rxDeliv := by
  unfold receptionTimer
  by_cases hstop : rx.tReorderingStart ≠ 0 ∧ rx.rxDeliv ≥ rx.rxReord
  · rw [if_pos hstop]
    by_cases hlt : rx.rxDeliv < rx.rxNext
    · rw [if_pos ⟨rfl, hlt⟩]
      exact ⟨{ h with }, fun _ => ⟨hlt, le_rfl⟩,
        fun hnow => ⟨fun _ => hlt, fun _ => hnow⟩, rfl, rfl, rfl⟩
    · rw [if_neg (fun hc => hlt hc.2)]
      exact ⟨{ h with }, fun hne => absurd rfl hne,
        fun _ => ⟨fun hne => absurd rfl hne, fun hc => absurd hc hlt⟩, rfl, rfl, rfl⟩
  · rw [if_neg hstop]
    by_cases hstart : rx.tReorderingStart = 0 ∧ rx.rxDeliv < rx.rxNext
    · rw [if_pos hstart]
      exact ⟨{ h with }, fun _ => ⟨hstart.2, le_rfl⟩,
        fun hnow => ⟨fun _ => hstart.2, fun _ => hnow⟩, rfl, rfl, rfl⟩
    · rw [if_neg hstart]
      have hrun : rx.tReorderingStart ≠ 0 → rx.rxDeliv < rx.rxReord := by
        intro hne
        by_contra hge
        exact hstop ⟨hne, by omega⟩
      refine ⟨h, fun hne => ⟨hrun hne, hr hne⟩, fun _ => ⟨?_, ?_⟩, rfl, rfl, rfl⟩
      · grind
      · grind

/-- **What the reception of an SDU does.**  A duplicate changes nothing.  Otherwise the invariant
is kept, the list and the delivered SDUs together are the old list and the new SDU, and the
delivered SDUs lie below the new `rx_deliv`. -/
theorem receiveSdu_spec {now : UInt64} {rx : RxState} {sdu : Sdu} {bytes : ℤ} (h : ListCore rx)
    (ht : TimerOk rx) (hlt : sdu.count < 2 ^ 32 - 1) :
    ((sdu.count < rx.rxDeliv ∨ nrPdcpSduInList rx.rxList sdu.count = true) ∧
      receiveSdu now rx sdu bytes = (rx, [])) ∨
    (¬ (sdu.count < rx.rxDeliv ∨ nrPdcpSduInList rx.rxList sdu.count = true) ∧
      ListCore (receiveSdu now rx sdu bytes).1 ∧ TimerOk (receiveSdu now rx sdu bytes).1 ∧
      (now ≠ 0 → Running (receiveSdu now rx sdu bytes).1) ∧
      (receiveSdu now rx sdu bytes).1.rxSize - sdusSize (receiveSdu now rx sdu bytes).1.rxList
        = rx.rxSize - sdusSize rx.rxList + (bytes - sdu.size) ∧
      nrPdcpSduListAdd rx.rxList sdu =
        (receiveSdu now rx sdu bytes).2 ++ (receiveSdu now rx sdu bytes).1.rxList ∧
      rx.rxDeliv ≤ (receiveSdu now rx sdu bytes).1.rxDeliv ∧
      ∀ s ∈ (receiveSdu now rx sdu bytes).2, s.count < (receiveSdu now rx sdu bytes).1.rxDeliv) := by
  by_cases hdup : (sdu.count < rx.rxDeliv || nrPdcpSduInList rx.rxList sdu.count) = true
  · exact Or.inl ⟨by simpa using hdup, by rw [receiveSdu, if_pos hdup]⟩
  · refine Or.inr ⟨by simpa using hdup, ?_⟩
    have hd := hdup
    rw [Bool.or_eq_true, not_or, Bool.not_eq_true, Bool.not_eq_true] at hd
    have hge : rx.rxDeliv ≤ sdu.count := by simpa using hd.1
    obtain ⟨h1, h2, h3, h4, h5⟩ := storeSdu_core bytes h hd.2 hge hlt
    have hadd : sdusSize (storeSdu rx sdu bytes).rxList = sdu.size + sdusSize rx.rxList :=
      sdusSize_listAdd rx.rxList sdu
    have hreord : (storeSdu rx sdu bytes).tReorderingStart ≠ 0 →
        (storeSdu rx sdu bytes).rxReord ≤ (storeSdu rx sdu bytes).rxNext := fun hne =>
      Nat.le_trans (ht hne).2 h4
    unfold receiveSdu
    rw [if_neg (by simpa using hdup)]
    dsimp only
    by_cases heq : sdu.count = (storeSdu rx sdu bytes).rxDeliv
    · -- the first missing SDU has come
      rw [if_pos heq]
      obtain ⟨hc, hle, hsplit, hout⟩ := deliverFrom_core (storeSdu rx sdu bytes).rxDeliv
        h1 (fun s hs => ⟨by
          rcases (h2 s hs).1 with rfl | hlt'
          · exact heq.ge
          · exact hlt'.le, (h2 s hs).2⟩) (h3.le) h5
      have hsize := deliverFrom_size _ _ hsplit
      obtain ⟨g1, g2, g3, g4, g5, g6⟩ := receptionTimer_core now hc (fun hne => hreord hne)
      refine ⟨g1, g2, g3, ?_, ?_, ?_, ?_⟩
      · rw [g4, g5, hsize, hadd]
        show rx.rxSize + bytes - _ = _
        omega
      · rw [g4]
        exact hsplit
      · omega
      · simp_all
    · rw [if_neg heq]
      have hc : ListCore (storeSdu rx sdu bytes) := by
        refine ⟨h1, ?_, h3.le, h5⟩
        intro s hs
        refine ⟨?_, (h2 s hs).2⟩
        rcases (h2 s hs).1 with rfl | hlt'
        · exact Nat.lt_of_le_of_ne hge (Ne.symm heq)
        · exact hlt'
      obtain ⟨g1, g2, g3, g4, g5, g6⟩ := receptionTimer_core now hc hreord
      refine ⟨g1, g2, g3, ?_, ?_, ?_, List.forall_mem_nil _⟩
      · rw [g4, g5, hadd]
        show rx.rxSize + bytes - _ = _
        omega
      · rw [g4]
        rfl
      · rw [g6]
        exact le_rfl

/-! ### The expiry of t-Reordering -/

/-- **What `check_t_reordering` does.** -/
theorem checkTReordering_spec {c : Config} {now : UInt64} {rx : RxState} (h : ListCore rx)
    (ht : TimerOk rx) :
    ListCore (checkTReordering c now rx).1 ∧ TimerOk (checkTReordering c now rx).1 ∧
      (now ≠ 0 → Running rx → Running (checkTReordering c now rx).1) ∧
      (checkTReordering c now rx).1.rxSize - sdusSize (checkTReordering c now rx).1.rxList
        = rx.rxSize - sdusSize rx.rxList ∧
      rx.rxList = (checkTReordering c now rx).2 ++ (checkTReordering c now rx).1.rxList ∧
      rx.rxDeliv ≤ (checkTReordering c now rx).1.rxDeliv ∧
      ∀ s ∈ (checkTReordering c now rx).2, s.count < (checkTReordering c now rx).1.rxDeliv := by
  unfold checkTReordering
  by_cases hexp : tReorderingExpired c now rx = true
  · rw [if_pos hexp]
    dsimp only
    have hrun : rx.tReorderingStart ≠ 0 := by
      intro hzero
      simp [tReorderingExpired, hzero] at hexp
    obtain ⟨hd, hn⟩ := ht hrun
    generalize hout : rx.rxList.takeWhile (fun s => decide (s.count < rx.rxReord)) = out
    generalize hrest : rx.rxList.dropWhile (fun s => decide (s.count < rx.rxReord)) = rest
    have hsplit : rx.rxList = out ++ rest := by
      rw [← hout, ← hrest, List.takeWhile_append_dropWhile]
    have hsorted := h.sorted
    rw [hsplit] at hsorted
    obtain ⟨_, hs, hcross⟩ := List.pairwise_append.mp hsorted
    -- what is left starts at `rx_reord` or above
    have hin : ∀ s ∈ rest, rx.rxReord ≤ s.count ∧ s.count < rx.rxNext := by
      intro s hs'
      refine ⟨?_, (h.inside s (by rw [hsplit]; exact List.mem_append_right _ hs')).2⟩
      cases hr : rest with
      | nil => rw [hr] at hs'; cases hs'
      | cons a tl =>
        have ha : ¬ a.count < rx.rxReord := by
          have := @List.head_dropWhile_not _ (fun s : Sdu => decide (s.count < rx.rxReord))
            rx.rxList (by rw [hrest, hr]; exact List.cons_ne_nil _ _)
          simpa [hrest, hr] using this
        rw [hr] at hs' hs
        rcases List.mem_cons.mp hs' with rfl | hs'
        · omega
        · have := (List.pairwise_cons.mp hs).1 s hs'
          omega
    have hlow : ∀ s ∈ out, s.count < rx.rxReord := by
      intro s hs'
      rw [← hout] at hs'
      simpa using List.mem_takeWhile_imp hs'
    obtain ⟨hc, hle, hsplit', hout'⟩ := @deliverFrom_core { rx with
      tReorderingStart := 0
      rxList := rest
      rxSize := rx.rxSize - sdusSize out } rx.rxReord hs hin hn h.bound
    have hsize := deliverFrom_size _ _ hsplit'
    have hsum := congrArg sdusSize hsplit
    rw [sdusSize_append] at hsum
    generalize hdel : deliverFrom { rx with
      tReorderingStart := 0
      rxList := rest
      rxSize := rx.rxSize - sdusSize out } rx.rxReord = r at hc hle hsplit' hout' hsize
    have hstart : r.1.tReorderingStart = 0 := by rw [← hdel]; rfl
    have hsize' : r.1.rxSize - sdusSize r.1.rxList = rx.rxSize - sdusSize rx.rxList := by
      rw [hsize, hsum]
      show rx.rxSize - sdusSize out - sdusSize rest = _
      omega
    have hlist : rx.rxList = out ++ r.2 ++ r.1.rxList := by
      rw [hsplit, List.append_assoc, ← hsplit']
    have hbelow : ∀ s ∈ out ++ r.2, s.count < r.1.rxDeliv := by
      intro s hs'
      rcases List.mem_append.mp hs' with hs' | hs'
      · exact (hlow s hs').trans_le hle
      · exact hout' s hs'
    by_cases hlt : r.1.rxDeliv < r.1.rxNext
    · rw [if_pos hlt]
      exact ⟨{ hc with }, fun _ => ⟨hlt, le_rfl⟩,
        fun hnow _ => ⟨fun _ => hlt, fun _ => hnow⟩, hsize', hlist, by show _ ≤ r.1.rxDeliv; omega,
        hbelow⟩
    · rw [if_neg hlt]
      exact ⟨hc, fun hne => absurd hstart hne,
        fun _ _ => ⟨fun hne => absurd hstart hne, fun hc' => absurd hc' hlt⟩, hsize', hlist,
        by omega, hbelow⟩
  · simp_all

/-! ### Runs -/

/-- The receive list and its accounting. -/
structure ListOk (rx : RxState) : Prop where
  sorted : Sorted rx.rxList
  inside : ∀ s ∈ rx.rxList, rx.rxDeliv < s.count ∧ s.count < rx.rxNext
  order : rx.rxDeliv ≤ rx.rxNext
  running : rx.tReorderingStart ≠ 0 ↔ rx.rxDeliv < rx.rxNext
  size : rx.rxSize = sdusSize rx.rxList

/-- Times are greater than 0, and COUNTs below `2 ^ 32 - 1`. -/
def InScope (K : Crypto) (e : Entity) : Input → Prop
  | .recvPdu buffer => e.tCurrent ≠ 0 ∧
      ∀ sdu, decodePdu K e.cfg e.sec e.rx.rxDeliv buffer = some sdu → sdu.count < 2 ^ 32 - 1
  | .setTime now => now ≠ 0
  | _ => True

/-- The call stores the SDU of a PDU that has a MAC-I. -/
def StoresMacI (K : Crypto) (e : Entity) : Input → Prop
  | .recvPdu buffer => e.entitySuspended = false ∧ integritySize e.cfg e.sec ≠ 0 ∧
      ∃ sdu, decodePdu K e.cfg e.sec e.rx.rxDeliv buffer = some sdu ∧
        ¬ (sdu.count < e.rx.rxDeliv ∨ nrPdcpSduInList e.rx.rxList sdu.count = true)
  | _ => False

/-- The calls after which the list is empty: suspension, and re-establishment of a UM DRB or an
SRB. -/
def Empties (c : Config) : Input → Prop
  | .suspendEntity => True
  | .reestablishEntity _ => c.type ≠ .drbAm
  | _ => False

/-- The part of the invariant that every call keeps. -/
structure RxInv (rx : RxState) : Prop where
  core : ListCore rx
  timer : TimerOk rx
  running : Running rx

theorem RxInv.empty (h : RxInv rx) (hstop : rx.tReorderingStart = 0) :
    rx.rxList = [] := by
  cases hl : rx.rxList with
  | nil => rfl
  | cons s l =>
    have hin := h.core.inside s (by rw [hl]; exact List.mem_cons_self)
    exact absurd hstop (h.running.mpr (by omega))

theorem flushIfRunning_rxList (h : RxInv rx) : (flushIfRunning rx).1.rxList = [] := by
  unfold flushIfRunning
  split
  · rfl
  next hstop =>
    exact h.empty (not_not.mp hstop)

theorem flushIfRunning_start (rx : RxState) : (flushIfRunning rx).1.tReorderingStart = 0 := by
  grind [flushIfRunning]

theorem flushIfRunning_size (h : rx.rxSize = sdusSize rx.rxList) :
    (flushIfRunning rx).1.rxSize = sdusSize (flushIfRunning rx).1.rxList := by
  unfold flushIfRunning
  split
  · exact Int.sub_eq_zero.mpr h
  · exact h

theorem rxInv_initial {rx : RxState} (hl : rx.rxList = []) (hs : rx.tReorderingStart = 0) :
    RxInv { rx with rxNext := 0, rxDeliv := 0 } := by
  refine ⟨⟨?_, ?_, le_rfl, Nat.two_pow_pos 32⟩, fun hne => absurd hs hne,
    ⟨fun hne => absurd hs hne, fun hlt => absurd hlt (Nat.lt_irrefl 0)⟩⟩
  · rw [hl]
    exact List.Pairwise.nil
  · simp_all

variable {c : Config}

theorem decodePdu_size {K : Crypto} {s : Security} {rxDeliv : ℕ}
    {buffer : List UInt8} (h : decodePdu K c s rxDeliv buffer = some sdu) :
    (buffer.length : ℤ) - headerSize c = sdu.size + integritySize c s := by
  unfold decodePdu at h
  dsimp only at h
  split at h
  · cases h
  · split at h
    · cases h
    · split at h
      · have hdc : (setDc c.type buffer).length = buffer.length := by
          cases buffer with
          | nil => rfl
          | cons b l => rw [setDc]; split <;> rfl
        have hdec : ∀ count l, (decipherPdu K c s count l).length = l.length := by
          intro count l
          unfold decipherPdu
          split
          · simp only [List.length_append, List.length_take, cipher, List.length_mapIdx,
              List.length_drop]
            omega
          · rfl
        grind [Sdu.size, List.length_take, List.length_drop]
      · cases h

/-- **One call.** -/
theorem step_rxInv {K : Crypto} {e e' : Entity} {i : Input} {o : Output} (hi : RxInv e.rx)
    (hs : InScope K e i) (h : step K e i = .ok (e', o)) :
    RxInv e'.rx ∧ (¬ StoresMacI K e i → e.rx.rxSize = sdusSize e.rx.rxList →
      e'.rx.rxSize = sdusSize e'.rx.rxList) ∧ (Empties e.cfg i → e'.rx.rxList = []) := by
  cases i with
  | processSdu buffer pduMaxSize =>
    obtain ⟨⟨e₁, pdu⟩, h1, rfl, _⟩ := bind_pair_inj h
    have hrx : e₁.rx = e.rx := by
      unfold processSdu at h1
      split at h1
      · cases h1
      · grind
    rw [hrx]
    exact ⟨hi, fun _ hsize => hsize, fun hf => hf.elim⟩
  | recvPdu buffer =>
    obtain ⟨rfl, _⟩ := ok_inj h
    unfold recvPdu
    split
    · exact ⟨hi, fun _ hsize => hsize, fun hf => hf.elim⟩
    next hsusp =>
      cases hdec : decodePdu K e.cfg e.sec e.rx.rxDeliv buffer with
      | none => exact ⟨hi, fun _ hsize => hsize, fun hf => hf.elim⟩
      | some sdu =>
        dsimp only
        rcases @receiveSdu_spec e.tCurrent e.rx sdu (buffer.length - headerSize e.cfg) hi.core
          hi.timer (hs.2 sdu hdec) with ⟨_, heq⟩ | ⟨hnew, hc, ht, hr, hsize, _⟩
        · rw [heq]
          exact ⟨hi, fun _ hsize => hsize, fun hf => hf.elim⟩
        · refine ⟨⟨hc, ht, hr hs.1⟩, ?_, fun hf => hf.elim⟩
          intro hno hold
          have hmac : integritySize e.cfg e.sec = 0 := by
            by_contra hne
            exact hno ⟨by simpa using hsusp, hne, sdu, hdec, hnew⟩
          grind [decodePdu_size]
  | setTime now =>
    obtain ⟨rfl, _⟩ := ok_inj h
    obtain ⟨hc, ht, hr, hsize, _⟩ := @checkTReordering_spec e.cfg now e.rx hi.core hi.timer
    refine ⟨⟨hc, ht, hr hs hi.running⟩, ?_, fun hf => hf.elim⟩
    intro _ hold
    show (checkTReordering e.cfg now e.rx).1.rxSize
      = sdusSize (checkTReordering e.cfg now e.rx).1.rxList
    omega
  | setSecurity p =>
    obtain ⟨sec, _, rfl, _⟩ := bind_pair_inj h
    exact ⟨hi, fun _ hsize => hsize, fun hf => hf.elim⟩
  | suspendEntity =>
    obtain ⟨rfl, _⟩ := ok_inj h
    have hl := flushIfRunning_rxList hi
    exact ⟨rxInv_initial hl (flushIfRunning_start e.rx), fun _ => flushIfRunning_size, fun _ => hl⟩
  | reestablishEntity p =>
    obtain ⟨⟨e₁, out⟩, h1, rfl, _⟩ := bind_pair_inj h
    unfold reestablish at h1
    split at h1
    next hty =>
      obtain ⟨sec, _, rfl, _⟩ := bind_pair_inj h1
      exact ⟨hi, fun _ hsize => hsize, fun hf => absurd hty hf⟩
    · obtain ⟨sec, _, rfl, _⟩ := bind_pair_inj h1
      have hl := flushIfRunning_rxList hi
      exact ⟨rxInv_initial hl (flushIfRunning_start e.rx), fun _ => flushIfRunning_size, fun _ => hl⟩
    · obtain ⟨sec, _, rfl, _⟩ := bind_pair_inj h1
      exact ⟨@rxInv_initial { freeRxList e.rx with tReorderingStart := 0 } rfl rfl,
        fun _ _ => rfl, fun _ => rfl⟩
  | releaseEntity =>
    obtain ⟨rfl, _⟩ := ok_inj h
    refine ⟨⟨⟨List.Pairwise.nil, List.forall_mem_nil _, hi.core.order,
      hi.core.bound⟩, hi.timer, hi.running⟩, ?_, fun hf => hf.elim⟩
    intro _ hold
    show e.rx.rxSize - sdusSize e.rx.rxList = 0
    omega

theorem newNrPdcpEntity_rx {p : KeysAndAlgos} {e : Entity}
    (h : newNrPdcpEntity c p = .ok e) : e.rx = ⟨0, 0, 0, 0, [], 0⟩ := by
  obtain ⟨sec, _, rfl⟩ := bind_ok_inj h
  rfl

/-- **The receive list**, in every run that stores no SDU with a MAC-I: it is strictly sorted
between `rx_deliv` and `rx_next`, t-Reordering runs exactly when something is missing, `rx_size`
is the size of the stored SDUs, and suspension and re-establishment leave it empty. -/
theorem reachable_listOk {K : Crypto} {c : Config} {p : KeysAndAlgos} {e₀ e : Entity}
    (h₀ : newNrPdcpEntity c p = .ok e₀)
    (h : Reachable (step K) (fun e i => InScope K e i ∧ ¬ StoresMacI K e i) e₀ e) :
    ListOk e.rx ∧ ∀ i e' o, Empties e.cfg i → step K e i = .ok (e', o) → e'.rx.rxList = [] := by
  have hinv := h.invariant (fun e => RxInv e.rx ∧ e.rx.rxSize = sdusSize e.rx.rxList)
    (by rw [newNrPdcpEntity_rx h₀]
        exact ⟨@rxInv_initial ⟨0, 0, 0, 0, [], 0⟩ rfl rfl, rfl⟩)
    (fun e i e' o hi hg hs => by grind [step_rxInv])
  obtain ⟨hi, hsize⟩ := hinv
  refine ⟨⟨hi.core.sorted, hi.core.inside, hi.core.order, hi.running, hsize⟩, ?_⟩
  intro i e' o hem hs
  cases i with
  | suspendEntity => exact (@step_rxInv K e e' .suspendEntity o hi trivial hs).2.2 hem
  | reestablishEntity p => exact (@step_rxInv K e e' (.reestablishEntity p) o hi trivial hs).2.2 hem
  | _ => exact absurd hem not_false

/-- Algorithms that do nothing. -/
def nullCrypto : Crypto := ⟨fun _ _ _ _ _ _ => 0, fun _ _ _ _ _ _ => [0, 0, 0, 0],
  fun _ _ _ _ _ _ => rfl⟩

/-- A DRB without security. -/
def plainDrb : Config := ⟨.drbUm, true, 1, false, false, 12, 100⟩

/-- An SRB without security. -/
def plainSrb : Config := ⟨.srb, true, 1, false, false, 12, 100⟩

/-- No ciphering and no integrity. -/
def noKeys : KeysAndAlgos := ⟨0, 0, [], []⟩

/-- A new entity without security, after `set_time(1)`. -/
def timedEntity (c : Config) : Entity :=
  ⟨c, ⟨false, false, noKeys, ⟨0, []⟩, ⟨0, []⟩⟩, 1, 0, ⟨0, 0, 0, 0, [], 0⟩, false⟩

theorem timedEntity_reachable (c : Config) (guard : Entity → Input → Prop)
    (hg : guard { timedEntity c with tCurrent := 0 } (.setTime 1))
    (hc : step nullCrypto { timedEntity c with tCurrent := 0 } (.setTime 1) =
      .ok (timedEntity c, ⟨[], none⟩)) :
    Reachable (step nullCrypto) guard { timedEntity c with tCurrent := 0 } (timedEntity c) :=
  Reachable.start.step hg hc

/-- The PDU with COUNT 1 arrives before the one with COUNT 0. -/
theorem reachable_listOk_gap :
    ∃ e₀ e, newNrPdcpEntity plainDrb noKeys = .ok e₀ ∧
      Reachable (step nullCrypto)
        (fun e i => InScope nullCrypto e i ∧ ¬ StoresMacI nullCrypto e i) e₀ e ∧
      e.rx.rxList.length = 1 ∧ ListOk e.rx := by
  have h₀ : newNrPdcpEntity plainDrb noKeys = .ok { timedEntity plainDrb with tCurrent := 0 } := rfl
  have hdec : decodePdu nullCrypto plainDrb (timedEntity plainDrb).sec 0 [128, 1, 170] =
      some ⟨1, [170], IntegrityData.zero⟩ := by decide +kernel
  have h1 := timedEntity_reachable plainDrb
    (fun e i => InScope nullCrypto e i ∧ ¬ StoresMacI nullCrypto e i)
    ⟨show (1 : UInt64) ≠ 0 by decide, fun hf => hf⟩ rfl
  have hscope : InScope nullCrypto (timedEntity plainDrb) (.recvPdu [128, 1, 170]) := by
    refine ⟨by decide, ?_⟩
    intro sdu hsdu
    obtain rfl := Option.some.inj (hdec.symm.trans hsdu)
    decide
  have hno : ¬ StoresMacI nullCrypto (timedEntity plainDrb) (.recvPdu [128, 1, 170]) :=
    fun hf => hf.2.1 rfl
  have h2 := h1.step ⟨hscope, hno⟩ rfl
  exact ⟨_, _, h₀, h2, by decide +kernel, (reachable_listOk h₀ h2).1⟩

/-- **A MAC-I stays in `rx_size`**: one SDU of one byte is received on an SRB and delivered, and
`rx_size` is 4. -/
theorem not_listOk_after_srb :
    ¬ ∀ (K : Crypto) (c : Config) (p : KeysAndAlgos) (e₀ e : Entity),
      newNrPdcpEntity c p = .ok e₀ → Reachable (step K) (InScope K) e₀ e → ListOk e.rx := by
  intro h
  have h₀ : newNrPdcpEntity plainSrb noKeys = .ok { timedEntity plainSrb with tCurrent := 0 } := rfl
  have hdec : decodePdu nullCrypto plainSrb (timedEntity plainSrb).sec 0 [0, 0, 170, 0, 0, 0, 0] =
      some ⟨0, [170], ⟨0, [0, 0, 0, 0], 2, [0, 0]⟩⟩ := by decide +kernel
  have h1 := timedEntity_reachable plainSrb (InScope nullCrypto)
    (show (1 : UInt64) ≠ 0 by decide) rfl
  have hscope : InScope nullCrypto (timedEntity plainSrb) (.recvPdu [0, 0, 170, 0, 0, 0, 0]) := by
    refine ⟨by decide, ?_⟩
    intro sdu hsdu
    obtain rfl := Option.some.inj (hdec.symm.trans hsdu)
    decide
  have h2 := h1.step hscope rfl
  have hsize := (h _ _ _ _ _ h₀ h2).size
  revert hsize
  decide +kernel

end OaiGnb.Pdcp
