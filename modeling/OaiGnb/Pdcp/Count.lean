import OaiGnb.Pdcp.Link

/-!
# The COUNTs of a receiving PDCP entity

`rcvd_count` is computed in unsigned arithmetic from the HFN of `rx_deliv`.

* `CountInRange`: a PDU that is long enough selects no HFN below 0 and not the last COUNT.
* `underflow_discarded_iff`: which PDUs that select an HFN below 0 are discarded.
* `run_counts`: in runs that receive such PDUs, `rx_deliv` and `rx_next` do not decrease and no
  COUNT is delivered twice.
-/

namespace OaiGnb.Pdcp

open Run

/-! ### Reconstruction -/

/-- **COUNTs are reconstructed exactly** from the headers of both SN sizes, wherever `rx_deliv`
stands relative to a wrap of the SN. -/
theorem rcvdCount_header {c : Config} {rxDeliv count : ℕ} (rest : List UInt8)
    (hsize : c.snSize = 12 ∨ c.snSize = 18) (hlow : max 0 ((rxDeliv : ℤ) - c.windowSize) ≤ count)
    (hhigh : (count : ℤ) < min (2 ^ 32) (rxDeliv + c.windowSize)) :
    rcvdSn c (header c count ++ rest) = count % 2 ^ c.snSize ∧
      rcvdCount c rxDeliv (rcvdSn c (header c count ++ rest)) = count := by
  rw [rcvdSn_header hsize]
  exact ⟨Nat.and_two_pow_sub_one_eq_mod count c.snSize,
    rcvdCount_eq (by omega) (by omega) (by omega) (by omega)⟩

/-- `rx_deliv` is below a wrap of the SN and the COUNT behind it. -/
theorem rcvdCount_header_wrap :
    rcvdSn plainDrb (header plainDrb 4097 ++ [0]) = 4097 % 2 ^ plainDrb.snSize ∧
      rcvdCount plainDrb 4090 (rcvdSn plainDrb (header plainDrb 4097 ++ [0])) = 4097 :=
  rcvdCount_header [0] (Or.inl rfl) (by decide) (by decide)

/-! ### What a call stores -/

/-- The SDU that the reception of a PDU stores. -/
def storedSdu (K : Crypto) (e : Entity) (buffer : List UInt8) : Option Sdu :=
  if e.entitySuspended then none
  else
    (decodePdu K e.cfg e.sec e.rx.rxDeliv buffer).filter fun sdu =>
      !(decide (sdu.count < e.rx.rxDeliv) || nrPdcpSduInList e.rx.rxList sdu.count)

/-- The SN of the PDU selects the HFN before that of `rx_deliv`, which is 0. -/
def Underflows (c : Config) (rxDeliv : ℕ) (buffer : List UInt8) : Prop :=
  rxDeliv >>> c.snSize = 0 ∧
    ((rxDeliv &&& c.snMax : ℕ) : ℤ) + c.windowSize ≤ rcvdSn c (setDc c.type buffer)

/-- The PDU is looked at: the entity is not suspended and the PDU has a header, a byte of data and
what else is configured. -/
def Admits (e : Entity) (buffer : List UInt8) : Prop :=
  e.entitySuspended = false ∧ 1 ≤ buffer.length ∧
    headerSize e.cfg + e.cfg.hasSdapRx.toNat + integritySize e.cfg e.sec + 1 ≤ buffer.length

/-- The COUNT of the PDU, in unsigned arithmetic. -/
def pduCount (e : Entity) (buffer : List UInt8) : ℕ :=
  rcvdCount e.cfg e.rx.rxDeliv (rcvdSn e.cfg (setDc e.cfg.type buffer))

/-- A PDU that is looked at selects no HFN below 0 and not the last COUNT, behind which `rx_next`
wraps. -/
def CountInRange (e : Entity) : Input → Prop
  | .recvPdu buffer => Admits e buffer →
      ¬ Underflows e.cfg e.rx.rxDeliv buffer ∧ pduCount e buffer ≠ 2 ^ 32 - 1
  | _ => True

instance (e : Entity) (i : Input) : Decidable (CountInRange e i) := by
  unfold CountInRange Admits Underflows
  split <;> infer_instance

variable {K : Crypto} {e : Entity} {buffer : List UInt8}

theorem recvPdu_of_none (h : storedSdu K e buffer = none) : recvPdu K e buffer = (e, []) := by
  unfold storedSdu at h
  unfold recvPdu
  split
  · rfl
  next hs =>
    rw [if_neg hs] at h
    cases hdec : decodePdu K e.cfg e.sec e.rx.rxDeliv buffer with
    | none => rfl
    | some sdu =>
      have hdup : (decide (sdu.count < e.rx.rxDeliv) ||
          nrPdcpSduInList e.rx.rxList sdu.count) = true := by simpa [hdec, or_iff_not_imp_left] using h
      simp only [receiveSdu, hdup, if_true]

theorem rcvdSn_lt (c : Config) (buffer : List UInt8) : rcvdSn c buffer < 2 ^ 32 := by
  have hbyte : ∀ i k, k ≤ 16 → (buffer.getD i 0).toNat <<< k < 2 ^ 32 := by
    intro i k hk
    have hlt := (buffer.getD i 0).toNat_lt
    have hpow : 2 ^ k ≤ 2 ^ 16 := Nat.pow_le_pow_right (by decide) hk
    have hmul := Nat.mul_le_mul (hlt.le) hpow
    rw [Nat.shiftLeft_eq]
    omega
  have hmask : ∀ m k, k ≤ 16 → ((buffer.getD 0 0).toNat &&& m) <<< k < 2 ^ 32 := by
    intro m k hk
    refine Nat.lt_of_le_of_lt ?_ (hbyte 0 k hk)
    rw [Nat.shiftLeft_eq, Nat.shiftLeft_eq]
    exact Nat.mul_le_mul_right _ Nat.and_le_left
  have h0 : ∀ i, (buffer.getD i 0).toNat < 2 ^ 32 := fun i => hbyte i 0 (by decide)
  unfold rcvdSn
  split
  · exact Nat.or_lt_two_pow (hmask _ _ (by decide)) (h0 1)
  · exact Nat.or_lt_two_pow (Nat.or_lt_two_pow (hmask _ _ (by decide)) (hbyte 1 8 (by decide)))
      (h0 2)

variable {c : Config} {sdu : Sdu}

theorem decodePdu_count_lt {s : Security} {rxDeliv : ℕ}
    (h : decodePdu K c s rxDeliv buffer = some sdu) :
    sdu.count < 2 ^ 32 := by
  have hlt : rcvdCount c rxDeliv (rcvdSn c (setDc c.type buffer)) < 2 ^ 32 :=
    Nat.or_lt_two_pow (Nat.mod_lt _ (by decide)) (rcvdSn_lt c _)
  grind [decodePdu]

theorem storedSdu_some (h : storedSdu K e buffer = some sdu) :
    e.entitySuspended = false ∧ decodePdu K e.cfg e.sec e.rx.rxDeliv buffer = some sdu ∧
      ¬ (sdu.count < e.rx.rxDeliv ∨ nrPdcpSduInList e.rx.rxList sdu.count = true) := by
  unfold storedSdu at h
  split at h
  · cases h
  next hs =>
    obtain ⟨hdec, hnew⟩ := Option.filter_eq_some_iff.mp h
    exact ⟨by simpa using hs, hdec, by simpa using hnew⟩

theorem receptionTimer_keeps (now : UInt64) (rx : RxState) :
    (receptionTimer now rx).rxDeliv = rx.rxDeliv ∧ (receptionTimer now rx).rxNext = rx.rxNext ∧
      (receptionTimer now rx).rxList = rx.rxList ∧
      ((receptionTimer now rx).tReorderingStart ≠ 0 →
        rx.rxDeliv < (receptionTimer now rx).rxReord ∧
        (rx.tReorderingStart ≠ 0 ∧ (receptionTimer now rx).rxReord = rx.rxReord ∨
          (receptionTimer now rx).rxReord = rx.rxNext)) := by
  grind [receptionTimer]

theorem receiveSdu_keeps {now : UInt64} {rx : RxState} {sdu : Sdu} {bytes : ℤ}
    (hnew : ¬ (sdu.count < rx.rxDeliv ∨ nrPdcpSduInList rx.rxList sdu.count = true)) :
    let r := if sdu.count = rx.rxDeliv then deliverFrom (storeSdu rx sdu bytes) rx.rxDeliv
      else (storeSdu rx sdu bytes, [])
    receiveSdu now rx sdu bytes = (receptionTimer now r.1, r.2) := by
  dsimp only
  rw [receiveSdu, if_neg (by simpa using hnew)]
  rfl

theorem decodePdu_some {s : Security} {rxDeliv : ℕ}
    (h : decodePdu K c s rxDeliv buffer = some sdu) :
    1 ≤ buffer.length ∧
      headerSize c + c.hasSdapRx.toNat + integritySize c s + 1 ≤ buffer.length ∧
      sdu.count = rcvdCount c rxDeliv (rcvdSn c (setDc c.type buffer)) := by
  grind [decodePdu]

theorem storedSdu_admits (h : storedSdu K e buffer = some sdu) :
    Admits e buffer ∧ sdu.count = pduCount e buffer := by
  obtain ⟨hopen, hdec, _⟩ := storedSdu_some h
  obtain ⟨hone, hsize, hcount⟩ := decodePdu_some hdec
  exact ⟨⟨hopen, hone, hsize⟩, hcount⟩

/-- The COUNT that an HFN below 0 gives is behind `rx_deliv`. -/
theorem Underflows.lt {rxDeliv : ℕ} (hsize : c.snSize = 12 ∨ c.snSize = 18)
    (h : Underflows c rxDeliv buffer) :
    rxDeliv < rcvdCount c rxDeliv (rcvdSn c (setDc c.type buffer)) := by
  obtain ⟨hhfn, hsn⟩ := h
  have hpos : 0 ≤ c.windowSize := by
    unfold Config.windowSize
    positivity
  unfold rcvdCount
  dsimp only
  rw [if_neg (by omega), if_pos hsn, hhfn]
  refine Nat.lt_of_lt_of_le ?_ Nat.left_le_or
  rw [Nat.shiftRight_eq_div_pow] at hhfn
  rcases hsize with h | h
  all_goals
    rw [h] at hhfn ⊢
    have hlt := Nat.lt_of_div_eq_zero (by decide) hhfn
    refine Nat.lt_trans hlt ?_
    decide

/-- **Which PDUs with an HFN below 0 are discarded** by an entity without integrity protection: only
those that are not looked at and those whose wrapped COUNT is in the list already. -/
theorem underflow_discarded_iff (hsize : e.cfg.snSize = 12 ∨ e.cfg.snSize = 18)
    (hplain : e.sec.hasIntegrity = false) (hu : Underflows e.cfg e.rx.rxDeliv buffer) :
    (recvPdu K e buffer).1.rx = e.rx ↔
      ¬ Admits e buffer ∨ nrPdcpSduInList e.rx.rxList (pduCount e buffer) = true := by
  constructor
  · intro hsame
    by_contra hnot
    obtain ⟨⟨hopen, hone, hlen⟩, hnew⟩ := not_or.mp hnot |>.imp_left not_not.mp
    obtain ⟨sdu, hdec⟩ : ∃ sdu, decodePdu K e.cfg e.sec e.rx.rxDeliv buffer = some sdu := by
      rw [decodePdu]
      dsimp only
      rw [if_neg (by omega), if_neg (by omega), if_pos (by simp [integrityOk, hplain])]
      exact ⟨_, rfl⟩
    have hcount : sdu.count = pduCount e buffer := (decodePdu_some hdec).2.2
    have hlt : e.rx.rxDeliv < sdu.count := hcount ▸ hu.lt hsize
    have hkeeps := @receiveSdu_keeps e.tCurrent e.rx sdu (buffer.length - headerSize e.cfg)
      (by rw [hcount]; exact not_or.mpr ⟨not_lt.mpr (hcount ▸ hlt.le), hnew⟩)
    rw [if_neg (by omega)] at hkeeps
    rw [recvPdu_eq hopen hdec] at hsame
    dsimp only at hsame hkeeps
    rw [hkeeps] at hsame
    have hlist := congrArg (fun rx => rx.rxList.length) hsame
    dsimp only at hlist
    rw [(receptionTimer_keeps e.tCurrent _).2.2.1] at hlist
    have hlonger : (nrPdcpSduListAdd e.rx.rxList sdu).length = e.rx.rxList.length + 1 :=
      (SortedList.insertBefore_perm _ sdu e.rx.rxList).length_eq
    change (nrPdcpSduListAdd e.rx.rxList sdu).length = _ at hlist
    omega
  · intro h
    have hst : storedSdu K e buffer = none := by
      by_contra hne
      obtain ⟨sdu, hst⟩ := Option.ne_none_iff_exists'.mp hne
      obtain ⟨hadm, hcount⟩ := storedSdu_admits hst
      have hnew := (storedSdu_some hst).2.2
      rcases h with h | h
      · exact h hadm
      · exact hnew (Or.inr (hcount ▸ h))
    rw [recvPdu_of_none hst]

/-! ### The COUNTs of one call -/

/-- The list is strictly sorted above `rx_deliv`, and no COUNT has wrapped.  Unlike in `ListCore`
the list may reach beyond `rx_next`, as it does after a suspension that did not empty it. -/
structure Unwrapped (rx : RxState) : Prop where
  sorted : Sorted rx.rxList
  inside : ∀ s ∈ rx.rxList, rx.rxDeliv < s.count ∧ s.count < 2 ^ 32 - 1
  deliv : rx.rxDeliv < 2 ^ 32
  next : rx.rxNext < 2 ^ 32
  reord : rx.tReorderingStart ≠ 0 → rx.rxDeliv < rx.rxReord ∧ rx.rxReord < 2 ^ 32

/-- The SDUs `out` are delivered in order of their COUNTs between the two values of `rx_deliv`. -/
structure CountsBetween (rx rx' : RxState) (out : List Sdu) : Prop where
  deliv : rx.rxDeliv ≤ rx'.rxDeliv
  next : rx.rxNext ≤ rx'.rxNext
  sorted : Sorted out
  between : ∀ s ∈ out, rx.rxDeliv ≤ s.count ∧ s.count < rx'.rxDeliv

theorem CountsBetween.refl (rx : RxState) : CountsBetween rx rx [] :=
  ⟨le_rfl, le_rfl, List.Pairwise.nil, List.forall_mem_nil _⟩

/-- `rx_next` moved to the last COUNT.  What is stored and delivered does not depend on it. -/
def RxState.widened (rx : RxState) : RxState := { rx with rxNext := 2 ^ 32 - 1 }

variable {rx : RxState}

theorem Unwrapped.widened (h : Unwrapped rx) :
    ListCore rx.widened ∧ TimerOk rx.widened := by
  refine ⟨⟨h.sorted, h.inside, Nat.le_pred_of_lt h.deliv, Nat.sub_lt (by decide) (by decide)⟩,
    fun hne => ?_⟩
  exact ⟨(h.reord hne).1, Nat.le_pred_of_lt (h.reord hne).2⟩

variable {rx' : RxState}

/-- What a call made of the widened state says about the call itself: `rx_next` and t-Reordering
are left to show. -/
theorem Unwrapped.of_widened {w : RxState} {out : List Sdu} (hc : ListCore w)
    (hw : w.rxNext = 2 ^ 32 - 1) (hlist : w.rxList = rx'.rxList) (hdeliv : w.rxDeliv = rx'.rxDeliv)
    (hle : rx.rxDeliv ≤ rx'.rxDeliv) (hout : Sorted (out ++ rx'.rxList))
    (hfrom : ∀ s ∈ out, rx.rxDeliv ≤ s.count) (hto : ∀ s ∈ out, s.count < rx'.rxDeliv)
    (hnext : rx.rxNext ≤ rx'.rxNext) (hlt : rx'.rxNext < 2 ^ 32)
    (ht : rx'.tReorderingStart ≠ 0 → rx'.rxDeliv < rx'.rxReord ∧ rx'.rxReord < 2 ^ 32) :
    Unwrapped rx' ∧ CountsBetween rx rx' out := by
  have ho := hc.order
  refine ⟨⟨hlist ▸ hc.sorted, ?_, by omega, hlt, ht⟩,
    ⟨hle, hnext, (List.pairwise_append.mp hout).1, fun s hs => ⟨hfrom s hs, hto s hs⟩⟩⟩
  intro s hs
  have := hc.inside s (hlist ▸ hs)
  omega

variable {now : UInt64}

theorem receiveSdu_counts {bytes : ℤ} (h : Unwrapped rx) (hlt : sdu.count < 2 ^ 32 - 1) :
    Unwrapped (receiveSdu now rx sdu bytes).1 ∧
      CountsBetween rx (receiveSdu now rx sdu bytes).1 (receiveSdu now rx sdu bytes).2 := by
  obtain ⟨hc, ht⟩ := h.widened
  rcases @receiveSdu_spec now rx.widened sdu bytes hc ht hlt with
    ⟨hdup, _⟩ | ⟨hnew, hc', _, _, _, hsplit, hle, hout⟩
  · change sdu.count < rx.rxDeliv ∨ nrPdcpSduInList rx.rxList sdu.count = true at hdup
    have heq : receiveSdu now rx sdu bytes = (rx, []) := by
      rw [receiveSdu, if_pos (by simpa using hdup)]
    rw [heq]
    exact ⟨h, CountsBetween.refl rx⟩
  · have hw := @receiveSdu_keeps now rx.widened sdu bytes hnew
    change ¬ (sdu.count < rx.rxDeliv ∨ nrPdcpSduInList rx.rxList sdu.count = true) at hnew
    change nrPdcpSduListAdd rx.rxList sdu = _ at hsplit
    have hr := @receiveSdu_keeps now rx sdu bytes hnew
    dsimp only at hw hr
    have hmod : (sdu.count + 1) % 2 ^ 32 = sdu.count + 1 := Nat.mod_eq_of_lt (by omega)
    -- the two calls deliver the same and leave the same list
    generalize hq : (if sdu.count = rx.widened.rxDeliv then
      deliverFrom (storeSdu rx.widened sdu bytes) rx.widened.rxDeliv
      else (storeSdu rx.widened sdu bytes, [])) = q at hw
    generalize hq' : (if sdu.count = rx.rxDeliv then deliverFrom (storeSdu rx sdu bytes) rx.rxDeliv
      else (storeSdu rx sdu bytes, [])) = q' at hr
    have hsame : q.1.rxList = q'.1.rxList ∧ q.1.rxDeliv = q'.1.rxDeliv ∧ q.2 = q'.2 ∧
        q.1.rxNext = 2 ^ 32 - 1 ∧ q'.1.rxNext = (storeSdu rx sdu bytes).rxNext ∧
        q'.1.rxReord = rx.rxReord ∧ q'.1.tReorderingStart = rx.tReorderingStart := by
      rw [← hq, ← hq']
      grind [storeSdu, deliverFrom, RxState.widened]
    have hnext : (storeSdu rx sdu bytes).rxNext = max rx.rxNext (sdu.count + 1) := by
      grind [storeSdu]
    obtain ⟨h1, h2, h3, h4, h5, h6, h7⟩ := hsame
    obtain ⟨g1, g2, g3, g4⟩ := receptionTimer_keeps now q'.1
    obtain ⟨k1, k2, k3, _⟩ := receptionTimer_keeps now q.1
    rw [hw] at hc' hsplit hle hout
    rw [hr]
    dsimp only at *
    have hn := h.next
    have hreord := h.reord
    refine Unwrapped.of_widened hc' (by omega) (by rw [k3, g3, h1]) (by omega) ?_ ?_ ?_ ?_ ?_ ?_ ?_
    · change rx.rxDeliv ≤ _ at hle
      omega
    · rw [g3, ← h1, ← k3, ← h3, ← hsplit]
      refine sorted_listAdd h.sorted ?_
      simpa using fun hin => hnew (Or.inr hin)
    · intro s hs
      have hmem : s ∈ nrPdcpSduListAdd rx.rxList sdu := by
        rw [hsplit, h3]
        exact List.mem_append_left _ hs
      rcases SortedList.mem_insertBefore.mp hmem with rfl | hs'
      · exact not_lt.mp fun hlt => hnew (Or.inl hlt)
      · exact Nat.le_of_lt (h.inside s hs').1
    · intro s hs
      have := hout s (h3 ▸ hs)
      omega
    · omega
    · omega
    · intro hne
      obtain ⟨hd, hr | hr⟩ := g4 hne
      · have := hreord (h7 ▸ hr.1)
        omega
      · omega

theorem checkTReordering_counts (h : Unwrapped rx) :
    Unwrapped (checkTReordering c now rx).1 ∧
      CountsBetween rx (checkTReordering c now rx).1 (checkTReordering c now rx).2 := by
  obtain ⟨hc, ht⟩ := h.widened
  obtain ⟨hc', _, _, _, hsplit, hle, hout⟩ := @checkTReordering_spec c now rx.widened hc ht
  change rx.rxList = _ at hsplit
  change rx.rxDeliv ≤ _ at hle
  have hsame : (checkTReordering c now rx.widened).1.rxList = (checkTReordering c now rx).1.rxList ∧
      (checkTReordering c now rx.widened).1.rxDeliv = (checkTReordering c now rx).1.rxDeliv ∧
      (checkTReordering c now rx.widened).2 = (checkTReordering c now rx).2 ∧
      (checkTReordering c now rx.widened).1.rxNext = 2 ^ 32 - 1 ∧
      (checkTReordering c now rx).1.rxNext = rx.rxNext ∧
      ((checkTReordering c now rx).1.tReorderingStart ≠ 0 →
        (checkTReordering c now rx).1 = rx ∨
        (checkTReordering c now rx).1.rxDeliv < (checkTReordering c now rx).1.rxReord ∧
          (checkTReordering c now rx).1.rxReord = rx.rxNext) := by
    have hexp : tReorderingExpired c now rx.widened = tReorderingExpired c now rx := rfl
    unfold checkTReordering
    rw [hexp]
    grind [deliverFrom, RxState.widened]
  obtain ⟨h1, h2, h3, h4, h5, h6⟩ := hsame
  rw [h1, h3] at hsplit
  rw [h2] at hle
  rw [h2, h3] at hout
  have hn := h.next
  refine Unwrapped.of_widened hc' h4 h1 h2 hle (hsplit ▸ h.sorted) ?_ hout (by omega) (by omega) ?_
  · intro s hs
    exact Nat.le_of_lt (h.inside s (hsplit ▸ List.mem_append_left _ hs)).1
  · intro hne
    rcases h6 hne with heq | hr
    · rw [heq] at hne ⊢
      exact h.reord hne
    · omega

/-! ### Runs -/

/-- The calls that do not start the COUNTs again: all but suspension and re-establishment.  The
release, which is the last call of an entity, is looked at in `run_counts`. -/
def KeepsCounts : Input → Prop
  | .suspendEntity | .reestablishEntity _ | .releaseEntity => False
  | _ => True

theorem recvPdu_counts (h : Unwrapped e.rx) (hg : CountInRange e (.recvPdu buffer)) :
    Unwrapped (recvPdu K e buffer).1.rx ∧
      CountsBetween e.rx (recvPdu K e buffer).1.rx (recvPdu K e buffer).2 := by
  cases hst : storedSdu K e buffer with
  | none =>
    rw [recvPdu_of_none hst]
    exact ⟨h, CountsBetween.refl e.rx⟩
  | some sdu =>
    obtain ⟨hopen, hdec, _⟩ := storedSdu_some hst
    rw [recvPdu_eq hopen hdec]
    have hlt := decodePdu_count_lt hdec
    obtain ⟨hadm, hcount⟩ := storedSdu_admits hst
    have hne := (hg hadm).2
    exact receiveSdu_counts h (by omega)

variable {e' : Entity} {i : Input} {o : Output}

/-- **One call** between suspensions, re-establishments and the release. -/
theorem step_counts (h : Unwrapped e.rx)
    (hg : CountInRange e i) (hk : KeepsCounts i) (hs : step K e i = .ok (e', o)) :
    Unwrapped e'.rx ∧ CountsBetween e.rx e'.rx o.delivered := by
  cases i with
  | recvPdu buffer =>
    obtain ⟨rfl, rfl⟩ := ok_inj hs
    exact recvPdu_counts h hg
  | setTime now =>
    obtain ⟨rfl, rfl⟩ := ok_inj hs
    exact checkTReordering_counts h
  | processSdu buffer pduMaxSize =>
    obtain ⟨⟨e₁, pdu⟩, h1, rfl, rfl⟩ := bind_pair_inj hs
    have hrx : e₁.rx = e.rx := by grind [processSdu]
    rw [hrx]
    exact ⟨h, CountsBetween.refl e.rx⟩
  | setSecurity p =>
    obtain ⟨sec, _, rfl, rfl⟩ := bind_pair_inj hs
    exact ⟨h, CountsBetween.refl e.rx⟩
  | suspendEntity => exact hk.elim
  | reestablishEntity p => exact hk.elim
  | releaseEntity => exact hk.elim

/-- The receiving side after a call that starts the COUNTs again or empties the list. -/
theorem Unwrapped.restart (h : Unwrapped rx)
    (hlist : rx'.rxList = [] ∨ rx'.rxList = rx.rxList) (hle : rx'.rxDeliv ≤ rx.rxDeliv)
    (hnext : rx'.rxNext ≤ rx.rxNext) (ht : rx'.tReorderingStart ≠ 0 →
      rx'.tReorderingStart = rx.tReorderingStart ∧ rx'.rxReord = rx.rxReord) : Unwrapped rx' := by
  have hd := h.deliv
  have hn := h.next
  have hr := h.reord
  refine ⟨?_, ?_, by omega, by omega, ?_⟩
  · rcases hlist with hl | hl
    · rw [hl]
      exact List.Pairwise.nil
    · rw [hl]
      exact h.sorted
  · intro s hs
    rcases hlist with hl | hl
    · rw [hl] at hs
      exact absurd hs List.not_mem_nil
    · have := h.inside s (hl ▸ hs)
      omega
  · intro hne
    obtain ⟨h1, h2⟩ := ht hne
    have := hr (h1 ▸ hne)
    omega

theorem step_unwrapped (h : Unwrapped e.rx)
    (hg : CountInRange e i) (hs : step K e i = .ok (e', o)) : Unwrapped e'.rx := by
  have hflush : (flushIfRunning e.rx).1.rxList = [] ∨
      (flushIfRunning e.rx).1.rxList = e.rx.rxList := by grind [flushIfRunning, deliverAllSdus]
  cases i with
  | suspendEntity =>
    obtain ⟨rfl, _⟩ := ok_inj hs
    exact h.restart hflush (Nat.zero_le _) (Nat.zero_le _)
      fun hne => absurd (flushIfRunning_start e.rx) hne
  | reestablishEntity p =>
    obtain ⟨⟨e₁, out⟩, h1, rfl, _⟩ := bind_pair_inj hs
    unfold reestablish at h1
    split at h1
    · obtain ⟨sec, _, rfl, _⟩ := bind_pair_inj h1
      exact h
    · obtain ⟨sec, _, rfl, _⟩ := bind_pair_inj h1
      exact h.restart hflush (Nat.zero_le _) (Nat.zero_le _)
        fun hne => absurd (flushIfRunning_start e.rx) hne
    · obtain ⟨sec, _, rfl, _⟩ := bind_pair_inj h1
      exact h.restart (Or.inl rfl) (Nat.zero_le _) (Nat.zero_le _) fun hne => absurd rfl hne
  | releaseEntity =>
    obtain ⟨rfl, _⟩ := ok_inj hs
    exact h.restart (Or.inl rfl) le_rfl le_rfl fun _ => ⟨rfl, rfl⟩
  | _ => exact (step_counts h hg trivial hs).1

/-- The COUNTs that a run delivers, in order. -/
def deliveredCounts (os : List Output) : List ℕ :=
  (os.flatMap fun o => o.delivered).map fun s => s.count

theorem run_between {is : List Input} {e e' : Entity} {os : List Output} (h : Unwrapped e.rx)
    (hm : RunMeets (step K) CountInRange e is) (hk : ∀ i ∈ is, KeepsCounts i)
    (hr : run (step K) e is = .ok (e', os)) :
    e.rx.rxDeliv ≤ e'.rx.rxDeliv ∧ e.rx.rxNext ≤ e'.rx.rxNext ∧
      (deliveredCounts os).Pairwise (· < ·) ∧
      (∀ n ∈ deliveredCounts os, e.rx.rxDeliv ≤ n ∧ n < e'.rx.rxDeliv) ∧ Unwrapped e'.rx := by
  induction is generalizing e e' os with
  | nil =>
    obtain ⟨rfl, rfl⟩ := ok_inj hr
    exact ⟨le_rfl, le_rfl, List.Pairwise.nil, List.forall_mem_nil _, h⟩
  | cons i is ih =>
    obtain ⟨e₁, o, os₁, hs, hrest, rfl⟩ := run_cons_returns.mp hr
    obtain ⟨h₁, hb⟩ := step_counts h hm.head (hk i List.mem_cons_self) hs
    obtain ⟨hd, hn, hsort, hfrom, hlast⟩ :=
      ih h₁ (hm.tail hs) (List.forall_mem_cons.mp hk).2 hrest
    have hcons : deliveredCounts (o :: os₁) =
        o.delivered.map (fun s => s.count) ++ deliveredCounts os₁ := by
      rw [deliveredCounts, List.flatMap_cons, List.map_append]
      rfl
    rw [hcons]
    refine ⟨hb.deliv.trans hd, hb.next.trans hn, ?_, ?_, hlast⟩
    · refine List.pairwise_append.mpr ⟨List.pairwise_map.mpr hb.sorted, hsort, ?_⟩
      intro a ha b hb'
      obtain ⟨s, hs', rfl⟩ := List.mem_map.mp ha
      exact Nat.lt_of_lt_of_le (hb.between s hs').2 (hfrom b hb').1
    · intro n hn'
      rcases List.mem_append.mp hn' with hn' | hn'
      · obtain ⟨s, hs', rfl⟩ := List.mem_map.mp hn'
        exact ⟨(hb.between s hs').1, Nat.lt_of_lt_of_le (hb.between s hs').2 hd⟩
      · exact ⟨hb.deliv.trans (hfrom n hn').1, (hfrom n hn').2⟩

/-- What the release of an entity delivers lies behind all that was delivered. -/
theorem release_between {is : List Input} {e e' e'' : Entity} {os : List Output} {o : Output}
    (h : Unwrapped e.rx) (hm : RunMeets (step K) CountInRange e is) (hk : ∀ i ∈ is, KeepsCounts i)
    (hr : run (step K) e is = .ok (e', os)) (hs : step K e' .releaseEntity = .ok (e'', o)) :
    e'.rx.rxDeliv = e''.rx.rxDeliv ∧ e'.rx.rxNext = e''.rx.rxNext ∧
      (deliveredCounts (os ++ [o])).Pairwise (· < ·) := by
  obtain ⟨_, _, hsort, hto, hlast⟩ := run_between h hm hk hr
  obtain ⟨rfl, rfl⟩ := ok_inj hs
  have happend : deliveredCounts (os ++ [⟨(release e').2, none⟩]) =
      deliveredCounts os ++ e'.rx.rxList.map (fun s => s.count) := by
    simp [deliveredCounts, release, deliverAllSdus]
  rw [happend]
  refine ⟨rfl, rfl, List.pairwise_append.mpr ⟨hsort, List.pairwise_map.mpr hlast.sorted, ?_⟩⟩
  intro a ha b hb
  obtain ⟨s, hs', rfl⟩ := List.mem_map.mp hb
  exact (hto a ha).2.trans (hlast.inside s hs').1

/-- **COUNTs neither decrease nor repeat** in a run whose PDUs are in order: a PDU whose SN selects
an HFN below 0 is discarded exactly if it is not looked at or its wrapped COUNT is in the list, and
between suspensions and re-establishments `rx_deliv` and `rx_next` do not decrease and no COUNT is
delivered twice, the release included. -/
theorem run_counts {K : Crypto} {c : Config} {p : KeysAndAlgos} {e₀ e e' : Entity}
    {is : List Input} {os : List Output} (h₀ : newNrPdcpEntity c p = .ok e₀)
    (h : Reachable (step K) CountInRange e₀ e)
    (hm : RunMeets (step K) CountInRange e is) (hr : run (step K) e is = .ok (e', os)) :
    (∀ buffer, e.cfg.snSize = 12 ∨ e.cfg.snSize = 18 → e.sec.hasIntegrity = false →
      Underflows e.cfg e.rx.rxDeliv buffer →
      ((recvPdu K e buffer).1.rx = e.rx ↔
        ¬ Admits e buffer ∨ nrPdcpSduInList e.rx.rxList (pduCount e buffer) = true)) ∧
    ((∀ i ∈ is, KeepsCounts i) → e.rx.rxDeliv ≤ e'.rx.rxDeliv ∧ e.rx.rxNext ≤ e'.rx.rxNext ∧
      (deliveredCounts os).Nodup ∧
      ∀ e'' o, step K e' .releaseEntity = .ok (e'', o) →
        e'.rx.rxDeliv = e''.rx.rxDeliv ∧ e'.rx.rxNext = e''.rx.rxNext ∧
          (deliveredCounts (os ++ [o])).Nodup) := by
  have hinv : Unwrapped e.rx := h.invariant (fun e => Unwrapped e.rx)
    (by rw [newNrPdcpEntity_rx h₀]
        exact ⟨List.Pairwise.nil, List.forall_mem_nil _, by decide, by decide,
          fun hne => absurd rfl hne⟩)
    (fun e i e' o hi hg hs => step_unwrapped hi hg hs)
  refine ⟨fun buffer hsize hplain hu => underflow_discarded_iff hsize hplain hu, fun hk => ?_⟩
  obtain ⟨h1, h2, h3, _, _⟩ := run_between hinv hm hk hr
  refine ⟨h1, h2, h3.imp Nat.ne_of_lt, fun e'' o hs => ?_⟩
  obtain ⟨hd, hn, hsort⟩ := release_between hinv hm hk hr hs
  exact ⟨hd, hn, hsort.imp Nat.ne_of_lt⟩

/-- An SDU comes before the one that is awaited, a PDU that selects an HFN below 0 is too short,
and SN 5 is left for the release. -/
theorem run_counts_released :
    ∃ e₀ e' os e'' o, newNrPdcpEntity plainDrb noKeys = .ok e₀ ∧
      run (step nullCrypto) e₀ [.recvPdu [128, 1, 170], .recvPdu [128, 0, 171],
        .recvPdu [139, 184], .recvPdu [128, 5, 172], .recvPdu [128, 2, 173]] = .ok (e', os) ∧
      step nullCrypto e' .releaseEntity = .ok (e'', o) ∧
      deliveredCounts (os ++ [o]) = [0, 1, 2, 5] ∧ e₀.rx.rxNext ≤ e'.rx.rxNext ∧
      (deliveredCounts (os ++ [o])).Nodup := by
  have h₀ : newNrPdcpEntity plainDrb noKeys = .ok { timedEntity plainDrb with tCurrent := 0 } := rfl
  obtain ⟨⟨e', os⟩, hr, hos⟩ := exists_of_observed (b := ([0, 1, 2, 5], true))
    (x := run (step nullCrypto) { timedEntity plainDrb with tCurrent := 0 }
      [.recvPdu [128, 1, 170], .recvPdu [128, 0, 171], .recvPdu [139, 184],
        .recvPdu [128, 5, 172], .recvPdu [128, 2, 173]])
    (f := fun r => (deliveredCounts (r.2 ++ [⟨(release r.1).2, none⟩]),
      decide (0 ≤ r.1.rx.rxNext))) (by decide +kernel)
  have hm : RunMeets (step nullCrypto) CountInRange { timedEntity plainDrb with tCurrent := 0 }
      [.recvPdu [128, 1, 170], .recvPdu [128, 0, 171], .recvPdu [139, 184],
        .recvPdu [128, 5, 172], .recvPdu [128, 2, 173]] :=
    runMeets_of_runWhile (by decide +kernel)
  obtain ⟨_, hmono, _, hrelease⟩ := (run_counts h₀ Reachable.start hm hr).2 (by simp [KeepsCounts])
  exact ⟨_, e', os, _, _, h₀, hr, rfl, congrArg Prod.fst hos, hmono, (hrelease _ _ rfl).2.2⟩

/-- **The HFN goes below 0**: the first PDU of an entity has SN 3000, is stored with COUNT
`2 ^ 32 - 1096`, and `rx_next` moves behind it. -/
theorem not_discarded_below_zero :
    ¬ ∀ (K : Crypto) (c : Config) (p : KeysAndAlgos) (e₀ e : Entity) (buffer : List UInt8),
      newNrPdcpEntity c p = .ok e₀ → e.sec.hasIntegrity = false →
      Reachable (step K) (fun _ _ => True) e₀ e → Underflows e.cfg e.rx.rxDeliv buffer →
      (recvPdu K e buffer).1.rx = e.rx := by
  intro h
  have h₀ : newNrPdcpEntity plainDrb noKeys = .ok { timedEntity plainDrb with tCurrent := 0 } := rfl
  have hrx := h nullCrypto plainDrb noKeys _ _ [139, 184, 170] h₀ rfl Reachable.start
    ⟨by decide +kernel, by decide +kernel⟩
  have hnext := congrArg RxState.rxNext hrx
  revert hnext
  decide +kernel

end OaiGnb.Pdcp
