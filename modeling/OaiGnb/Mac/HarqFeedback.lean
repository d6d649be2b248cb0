import OaiGnb.Mac.DlHarq

/-!
# HARQ bits on PUCCH

Which process a HARQ bit of `handle_nr_uci_pucch_0_1` and `handle_nr_uci_pucch_2_3_4` decides: the
processes whose feedback was missed fail, and the bits decide, one by one, the processes whose
feedback is in the slot.

For formats 2, 3 and 4 the bits behind the eighth are read from the right byte, but shifted out of
it.

* `harqBits_decides`: the loop over the bits takes the decisions, for processes whose feedback times
  are in order and within 511 frames.
* `uciFeedback_decides`: both handlers take the decisions, exactly if a UCI has a bit where a process
  is overdue and no bit behind the eighth acknowledges a process.
-/

namespace OaiGnb.Mac.HarqFeedback

open Run Mac.Harq Mac.DlHarq

/-! ### Feedback times -/

/-- How many frames ahead of `frame` a frame is, negative if it is over; from -512 to 511. -/
def framesAhead (frame feedbackFrame : ℤ) : ℤ := (feedbackFrame - frame + 512) % 1024 - 512

/-- A feedback time at most 511 frames away. -/
structure InReach (frame : ℤ) (info : PdschInfo) : Prop where
  frame_range : 0 ≤ info.feedbackFrame ∧ info.feedbackFrame < 1024
  ahead : framesAhead frame info.feedbackFrame ≠ -512

/-- The feedback time is before the given slot. -/
def Earlier (frame slot : ℤ) (info : PdschInfo) : Prop :=
  framesAhead frame info.feedbackFrame < 0 ∨
    framesAhead frame info.feedbackFrame = 0 ∧ info.feedbackSlot < slot

/-- The feedback time is the given slot. -/
def Now (frame slot : ℤ) (info : PdschInfo) : Prop :=
  framesAhead frame info.feedbackFrame = 0 ∧ info.feedbackSlot = slot

/-- The feedback time is behind the given slot. -/
def Later (frame slot : ℤ) (info : PdschInfo) : Prop :=
  0 < framesAhead frame info.feedbackFrame ∨
    framesAhead frame info.feedbackFrame = 0 ∧ slot < info.feedbackSlot

instance (frame slot : ℤ) (info : PdschInfo) : Decidable (Earlier frame slot info) := by
  unfold Earlier
  infer_instance

instance (frame slot : ℤ) (info : PdschInfo) : Decidable (Now frame slot info) := by
  unfold Now
  infer_instance

instance (frame slot : ℤ) (info : PdschInfo) : Decidable (Later frame slot info) := by
  unfold Later
  infer_instance

/-- One feedback time is not behind another, as seen from a frame. -/
def NotBehind (frame : ℤ) (info₁ info₂ : PdschInfo) : Prop :=
  framesAhead frame info₁.feedbackFrame < framesAhead frame info₂.feedbackFrame ∨
    framesAhead frame info₁.feedbackFrame = framesAhead frame info₂.feedbackFrame ∧
      info₁.feedbackSlot ≤ info₂.feedbackSlot

section Times

variable {frame slot : ℤ} {info : PdschInfo}

theorem times_trichotomy (frame slot : ℤ) (info : PdschInfo) :
    (Earlier frame slot info ∧ ¬ Now frame slot info ∧ ¬ Later frame slot info) ∨
      (¬ Earlier frame slot info ∧ Now frame slot info ∧ ¬ Later frame slot info) ∨
      (¬ Earlier frame slot info ∧ ¬ Now frame slot info ∧ Later frame slot info) := by
  unfold Earlier Now Later
  omega

variable (hframe : 0 ≤ frame ∧ frame < 1024)

include hframe

theorem framesAhead_tmod (h : InReach frame info) :
    ((info.feedbackFrame - frame + 1024).tmod 1024 > 512
      ↔ framesAhead frame info.feedbackFrame < 0) ∧
    ((frame - info.feedbackFrame + 1024).tmod 1024 > 512
      ↔ 0 < framesAhead frame info.feedbackFrame) ∧
    (info.feedbackFrame = frame ↔ framesAhead frame info.feedbackFrame = 0) := by
  obtain ⟨hrange, hahead⟩ := h
  unfold framesAhead at *
  rw [Int.tmod_eq_emod_of_nonneg (by omega), Int.tmod_eq_emod_of_nonneg (by omega)]
  omega

theorem isPast_iff (h : InReach frame info) :
    isPast info frame slot = true ↔ Earlier frame slot info := by
  grind [framesAhead_tmod, isPast, Earlier]

theorem isFuture_iff (h : InReach frame info) :
    isFuture info frame slot = true ↔ Later frame slot info := by
  simp_all [framesAhead_tmod, isFuture, Later]

end Times

/-- Processes in the order of their feedback times: those before a slot, those at it, those behind.
-/
theorem split_of_sorted (frame slot : ℤ) (time : ℕ → PdschInfo) (f : List ℕ)
    (hsorted : f.Pairwise fun p q => NotBehind frame (time p) (time q)) :
    f = f.filter (fun p => Earlier frame slot (time p))
      ++ (f.filter (fun p => Now frame slot (time p))
        ++ f.filter fun p => Later frame slot (time p)) := by
  induction f with
  | nil => rfl
  | cons p f ih =>
    obtain ⟨hp, hf⟩ := List.pairwise_cons.mp hsorted
    have hnone : ∀ {P : PdschInfo → Prop} [DecidablePred P], (∀ q ∈ f, ¬ P (time q)) →
        f.filter (fun q => P (time q)) = [] := by
      intro P _ hall
      rw [List.filter_eq_nil_iff]
      intro q hq
      rw [decide_eq_true_iff]
      exact hall q hq
    have hbehind : ∀ q ∈ f, (Earlier frame slot (time q) → Earlier frame slot (time p)) ∧
        (Later frame slot (time p) → ¬ Now frame slot (time q)) := by
      intro q hq
      have := hp q hq
      unfold NotBehind at this
      unfold Earlier Later Now
      omega
    rcases times_trichotomy frame slot (time p) with ⟨h₁, h₂, h₃⟩ | ⟨h₁, h₂, h₃⟩ | ⟨h₁, h₂, h₃⟩
    · grind
    · have hearlier := @hnone (Earlier frame slot) _ fun q hq hlt => h₁ ((hbehind q hq).1 hlt)
      grind
    · have hearlier := @hnone (Earlier frame slot) _ fun q hq hlt => h₁ ((hbehind q hq).1 hlt)
      have hnow := @hnone (Now frame slot) _ fun q hq => (hbehind q hq).2 h₃
      grind

/-! ### What feedback does to the processes -/

/-- The processes `f` wait for their feedback, in this order. -/
structure Waits (h : HarqLists PdschInfo) (f : List ℕ) : Prop where
  list : h.feedback.Represents f
  waiting : ∀ pid ∈ f, (h.processes pid).isWaiting = true

/-- A process that was acknowledged, or whose transmission has failed. -/
def decided (harqRoundMax : ℕ) (success : Bool) (p : Process PdschInfo) : Process PdschInfo :=
  let p := { p with isWaiting := false, info := { p.info with feedbackSlot := -1 } }
  if success = true ∨ harqRoundMax - 1 ≤ p.round then p.finish
  else { p with round := p.round + 1 }

/-- From `ue` to `ue'` the listed processes were decided and no other changed; `rest` still waits.
-/
structure Outcome (harqRoundMax : ℕ) (ue ue' : Ue) (decisions : List (ℕ × Bool))
    (rest : List ℕ) : Prop where
  waits : Waits ue'.harq rest
  decides : ∀ d ∈ decisions,
    ue'.harq.processes d.1 = decided harqRoundMax d.2 (ue.harq.processes d.1)
  untouched : ∀ pid, pid ∉ decisions.map Prod.fst →
    ue'.harq.processes pid = ue.harq.processes pid

/-- A handler takes the decisions.  The UE may be released on the way, and the handler can only fail
where an acknowledged process reconfigures the UE or where Msg4 is checked. -/
structure Handled (harqRoundMax : ℕ) (isRa : Bool) (result : Except HarqFault Ue) (ue : Ue)
    (decisions : List (ℕ × Bool)) (rest : List ℕ) : Prop where
  returned : ∀ ue', result = .ok ue' →
    ue'.phase = .released ∨ Outcome harqRoundMax ue ue' decisions rest
  faults : ∀ e, result = .error e →
    (∃ d ∈ decisions, d.2 = true ∧ (ue.harq.processes d.1).info.action = true) ∨
      (isRa = true ∧ ∃ ue₁ success, nrCheckMsg4MsgBAck ue₁ success = .error e)

variable {success : Bool} {bits : List Bool}

section Decisions

variable {harqRoundMax : ℕ} {isRa : Bool} {ue ue₁ ue' : Ue} {pid : ℕ} {f : List ℕ}

theorem Waits.tail_ne (h : Waits ue.harq (pid :: f)) {q : ℕ} (hq : q ∈ f) : q ≠ pid := by
  intro heq
  exact (List.nodup_cons.mp h.list.nodup).1 (heq ▸ hq)

theorem createDlHarqList_feedback {h h' : HarqLists PdschInfo} (hf : h.feedback.Represents f)
    {c : CellGroup} (hc : createDlHarqList h c = .ok h') :
    h'.feedback.Represents f ∧ h'.processes = h.processes := by
  unfold createDlHarqList at hc
  split at hc
  · rw [createHarqList] at hc
    split at hc
    · obtain rfl := Except.ok.inj hc
      have hnil : f = [] := by
        have := hf.length_le
        exact List.eq_nil_of_length_eq_zero (by omega)
      rw [hnil]
      exact ⟨IndexList.represents_create _, rfl⟩
    · split at hc
      · simp_all
      · dsimp only at hc
        split at hc
        · obtain rfl := Except.ok.inj hc
          exact ⟨hf.resize (by omega), rfl⟩
        · cases hc
  · cases hc

theorem runAction_feedback (hf : ue.harq.feedback.Represents f) {action : Bool}
    (hr : runAction ue action = .ok ue') :
    ue'.harq.feedback.Represents f ∧ ue'.harq.processes = ue.harq.processes ∧
      ue'.phase = ue.phase := by
  unfold runAction ackReconfig at hr
  split at hr
  · split at hr
    · simp_all
    · obtain ⟨harq, hcreate, rfl⟩ := bind_ok_inj hr
      obtain ⟨hf', hproc⟩ := createDlHarqList_feedback hf hcreate
      exact ⟨hf', hproc, rfl⟩
  · simp_all

section

variable (h : Waits ue.harq (pid :: f))

include h

theorem Waits.popFeedback :
    ∃ harq, popFeedback (fun info => { info with feedbackSlot := -1 }) ue.harq pid = .ok harq ∧
      harq.feedback.Represents f ∧
      harq.processes = Function.update ue.harq.processes pid
        { ue.harq.processes pid with
          isWaiting := false
          info := { (ue.harq.processes pid).info with feedbackSlot := -1 } } := by
  obtain ⟨l, hl, _, hf⟩ := h.list.removeFront
  refine ⟨{ ue.harq with
    feedback := l
    processes := Function.update ue.harq.processes pid
      { ue.harq.processes pid with
        isWaiting := false
        info := { (ue.harq.processes pid).info with feedbackSlot := -1 } } }, ?_, hf, rfl⟩
  rw [Harq.popFeedback, removeFrontNrList, hl]
  rfl

theorem Waits.of_update {h' : HarqLists PdschInfo}
    (hf : h'.feedback.Represents f) {p : Process PdschInfo}
    (hproc : h'.processes = Function.update ue.harq.processes pid p) : Waits h' f := by
  refine ⟨hf, ?_⟩
  intro q hq
  rw [hproc, Function.update_of_ne (h.tail_ne hq)]
  exact h.waiting q (List.mem_cons_of_mem _ hq)

theorem handleDlHarq_decides (hs : handleDlHarq harqRoundMax ue pid success = .ok ue') :
    Waits ue'.harq f ∧ ue'.phase = ue.phase ∧
      ue'.harq.processes = Function.update ue.harq.processes pid
        (decided harqRoundMax success (ue.harq.processes pid)) := by
  obtain ⟨harq, hpop, hf, hproc⟩ := h.popFeedback
  rw [handleDlHarq, hpop, ok_bind] at hs
  cases success with
  | true =>
    obtain ⟨ue₁, haction, rfl⟩ := bind_ok_inj hs
    obtain ⟨hf₁, hproc₁, hphase⟩ := runAction_feedback hf haction
    have hfinal : (finish ue₁.harq pid).processes = Function.update ue.harq.processes pid
        (decided harqRoundMax true (ue.harq.processes pid)) := by
      show Function.update ue₁.harq.processes pid (ue₁.harq.processes pid).finish = _
      rw [hproc₁]
      rw [hproc, Function.update_self, Function.update_idem, decided]
      rw [if_pos (Or.inl rfl)]
    exact ⟨h.of_update hf₁ hfinal, hphase, hfinal⟩
  | false =>
    obtain rfl := Except.ok.inj hs
    have hfeedback : (nextRound harqRoundMax harq pid).feedback = harq.feedback := by
      unfold nextRound
      dsimp only
      split <;> rfl
    have hfinal : (nextRound harqRoundMax harq pid).processes =
        Function.update ue.harq.processes pid
          (decided harqRoundMax false (ue.harq.processes pid)) := by
      rw [nextRound_processes, hproc, Function.update_self, Function.update_idem, decided]
      simp only [Bool.false_eq_true, false_or]
    exact ⟨h.of_update (hfeedback ▸ hf) hfinal, rfl, hfinal⟩

theorem handleDlHarq_faults {e : HarqFault}
    (hs : handleDlHarq harqRoundMax ue pid success = .error e) :
    success = true ∧ (ue.harq.processes pid).info.action = true := by
  obtain ⟨harq, hpop, _, hproc⟩ := h.popFeedback
  rw [handleDlHarq, hpop, ok_bind] at hs
  cases success with
  | false => cases hs
  | true =>
    refine ⟨rfl, ?_⟩
    rw [if_pos rfl, hproc, Function.update_self] at hs
    cases haction : (ue.harq.processes pid).info.action with
    | true => rfl
    | false =>
      rw [haction] at hs
      cases hs

theorem handleDlHarq_nack :
    ∃ ue₁, handleDlHarq harqRoundMax ue pid false = .ok ue₁ := by
  cases hs : handleDlHarq harqRoundMax ue pid false with
  | ok ue₁ => exact ⟨ue₁, rfl⟩
  | error e => exact absurd (handleDlHarq_faults h hs).1 Bool.false_ne_true

end

theorem afterFeedback_keeps (h : Waits ue.harq f) {rejected : Bool}
    (ha : afterFeedback isRa ue success = .ok (ue', rejected)) :
    Waits ue'.harq f ∧ ue'.harq.processes = ue.harq.processes ∧
      (rejected = true → ue'.phase = .released) := by
  have hdrop : ∀ {ue ue' : Ue} {pid : ℕ}, dropRetrans ue pid = .ok ue' →
      ue'.harq.feedback = ue.harq.feedback ∧ ue'.harq.processes = ue.harq.processes := by
    intro ue ue' pid hd
    unfold dropRetrans at hd
    split at hd
    · obtain ⟨retrans, _, rfl⟩ := bind_ok_inj hd
      exact ⟨rfl, rfl⟩
    · simp_all
  have hwaits : ∀ {h' : HarqLists PdschInfo}, h'.feedback.Represents f →
      h'.processes = ue.harq.processes → Waits h' f := by
    intro h' hf hproc
    exact ⟨hf, fun q hq => by rw [hproc]; exact h.waiting q hq⟩
  have hfalse : false = true → ue'.phase = .released := fun hr => absurd hr Bool.false_ne_true
  unfold afterFeedback nrCheckMsg4MsgBAck at ha
  split at ha
  · split at ha
    · split at ha
      · split at ha
        · obtain ⟨harq, hcreate, ha⟩ := bind_returns.mp ha
          obtain ⟨ue₁, hd, rfl, rfl⟩ := bind_pair_inj ha
          obtain ⟨hf, hproc⟩ := createDlHarqList_feedback h.list hcreate
          grind
        · grind
        · obtain ⟨ue₁, hd, rfl, rfl⟩ := bind_pair_inj ha
          obtain ⟨hfeedback, hprocesses⟩ := hdrop hd
          exact ⟨hwaits (hfeedback ▸ h.list) hprocesses, hprocesses, hfalse⟩
      · simp_all
    · cases ha
  · simp_all

theorem Handled.cons {result : Except HarqFault Ue} {decisions : List (ℕ × Bool)} {rest : List ℕ}
    (h : Handled harqRoundMax isRa result ue₁ decisions rest)
    (hproc : ue₁.harq.processes = Function.update ue.harq.processes pid
      (decided harqRoundMax success (ue.harq.processes pid)))
    (hpid : pid ∉ decisions.map Prod.fst) :
    Handled harqRoundMax isRa result ue ((pid, success) :: decisions) rest := by
  have hother : ∀ q, q ≠ pid → ue₁.harq.processes q = ue.harq.processes q := by
    intro q hq
    rw [hproc, Function.update_of_ne hq]
  have hmem : ∀ d ∈ decisions, d.1 ≠ pid := fun d hd heq =>
    hpid (heq ▸ List.mem_map_of_mem hd)
  refine ⟨?_, ?_⟩
  · intro ue' hr
    rcases h.returned ue' hr with hreleased | hout
    · exact Or.inl hreleased
    · refine Or.inr ⟨hout.waits, ?_, ?_⟩
      · intro d hd
        rcases List.mem_cons.mp hd with rfl | hd
        · rw [hout.untouched pid hpid, hproc, Function.update_self]
        · rw [hout.decides d hd, hother d.1 (hmem d hd)]
      · intro q hq
        rw [List.map_cons, List.mem_cons, not_or] at hq
        rw [hout.untouched q hq.2, hother q hq.1]
  · intro e he
    rcases h.faults e he with ⟨d, hd, hack, haction⟩ | hra
    · grind
    · exact Or.inr hra

theorem Handled.nil (h : Waits ue.harq f) :
    Handled harqRoundMax isRa (.ok ue) ue [] f := by
  refine ⟨?_, fun _ he => (by cases he)⟩
  intro ue' hr
  obtain rfl := Except.ok.inj hr
  exact Or.inr ⟨h, List.forall_mem_nil _, fun _ _ => rfl⟩

/-! ### The loops -/

/-- What the two comparisons of the search say of each of the listed processes. -/
def Compares (frame slot : ℤ) (ue : Ue) (past future : Bool) (f : List ℕ) : Prop :=
  ∀ pid ∈ f, isPast (ue.harq.processes pid).info frame slot = past ∧
    isFuture (ue.harq.processes pid).info frame slot = future

variable {frame slot : ℤ} {past future : Bool} {earlier now later : List ℕ}

theorem Compares.of_same {g : List ℕ} (h : Compares frame slot ue past future f)
    (hsame : ∀ pid ∈ g, pid ∈ f ∧ ue₁.harq.processes pid = ue.harq.processes pid) :
    Compares frame slot ue₁ past future g := by
  intro pid hpid
  obtain ⟨hf, hproc⟩ := hsame pid hpid
  rw [hproc]
  exact h pid hf

theorem findHarq_now (h : Waits ue.harq (pid :: f))
    (hnow : Compares frame slot ue false false (pid :: now)) (n : ℕ) :
    findHarq harqRoundMax frame slot (n + 1) ue = .ok (ue, some pid) := by
  rw [findHarq, h.list.head_cons]
  simp_all [hnow pid List.mem_cons_self]

theorem findHarq_later (h : Waits ue.harq f) (hlater : Compares frame slot ue false true f)
    (n : ℕ) : findHarq harqRoundMax frame slot (n + 1) ue = .ok (ue, none) := by
  cases f with
  | nil => rw [findHarq, h.list.head_nil]
  | cons pid f =>
    rw [findHarq, h.list.head_cons]
    simp_all [hlater pid List.mem_cons_self]

theorem findHarq_past (h : Waits ue.harq (pid :: f))
    (hpast : Compares frame slot ue true false (pid :: earlier))
    (hnack : handleDlHarq harqRoundMax ue pid false = .ok ue₁) (n : ℕ) :
    findHarq harqRoundMax frame slot (n + 1) ue = findHarq harqRoundMax frame slot n ue₁ := by
  rw [findHarq, h.list.head_cons]
  simp_all [hpast pid List.mem_cons_self]

theorem findHarq_steps (frame slot : ℤ) {f : List ℕ} {ue : Ue} (h : Waits ue.harq f) :
    ∀ {n m : ℕ}, f.length < n → f.length < m →
      findHarq harqRoundMax frame slot n ue = findHarq harqRoundMax frame slot m ue := by
  induction f generalizing ue with
  | nil =>
    intro n m hn hm
    obtain ⟨n, rfl⟩ := Nat.exists_eq_add_one_of_ne_zero (Nat.ne_of_gt hn)
    obtain ⟨m, rfl⟩ := Nat.exists_eq_add_one_of_ne_zero (Nat.ne_of_gt hm)
    rw [findHarq, findHarq, h.list.head_nil]
  | cons pid f ih =>
    intro n m hn hm
    obtain ⟨n, rfl⟩ := Nat.exists_eq_add_one_of_ne_zero (Nat.ne_of_gt (Nat.zero_lt_of_lt hn))
    obtain ⟨m, rfl⟩ := Nat.exists_eq_add_one_of_ne_zero (Nat.ne_of_gt (Nat.zero_lt_of_lt hm))
    obtain ⟨ue₁, hnack⟩ := @handleDlHarq_nack harqRoundMax _ _ _ h
    rw [findHarq, findHarq, h.list.head_cons]
    dsimp only
    rw [hnack, ok_bind, ok_bind, ih (handleDlHarq_decides h hnack).1 (Nat.lt_of_succ_lt_succ hn)
      (Nat.lt_of_succ_lt_succ hm)]

theorem harqBits_now {bits : List Bool} {ue : Ue} {now : List ℕ}
    (h : Waits ue.harq (now ++ later)) (hnow : Compares frame slot ue false false now)
    (hlater : Compares frame slot ue false true later) :
    Handled harqRoundMax isRa (harqBits harqRoundMax frame slot isRa bits ue) ue
      (now.zip bits) (now.drop bits.length ++ later) := by
  induction bits generalizing ue now with
  | nil =>
    rw [List.zip_nil_right]
    exact Handled.nil h
  | cons success bits ih =>
    cases now with
    | nil =>
      rw [harqBits, findHarq_later h hlater, ok_bind]
      exact Handled.nil h
    | cons pid now =>
      rw [harqBits, findHarq_now h hnow, ok_bind]
      dsimp only
      rw [if_pos (h.waiting pid List.mem_cons_self)]
      cases hs : handleDlHarq harqRoundMax ue pid success with
      | error e =>
        refine ⟨fun _ hr => (by cases hr), ?_⟩
        grind [List.mem_cons_self, handleDlHarq_faults]
      | ok ue₁ =>
        obtain ⟨hwaits₁, _, hproc₁⟩ := handleDlHarq_decides h hs
        rw [ok_bind]
        cases ha : afterFeedback isRa ue₁ success with
        | error e =>
          refine ⟨fun _ hr => (by cases hr), ?_⟩
          intro e' he
          obtain rfl : e = e' := Except.error.inj he
          grind [afterFeedback]
        | ok after =>
          obtain ⟨ue₂, rejected⟩ := after
          obtain ⟨hwaits₂, hproc₂, hreleased⟩ := afterFeedback_keeps hwaits₁ ha
          rw [ok_bind]
          cases rejected with
          | true =>
            refine ⟨?_, fun _ he => (by cases he)⟩
            simp_all
          | false =>
            have hproc := hproc₂.trans hproc₁
            have hother : ∀ q ∈ now ++ later, ue₂.harq.processes q = ue.harq.processes q := by
              intro q hq
              rw [hproc, Function.update_of_ne (h.tail_ne hq)]
            refine (ih hwaits₂ (hnow.of_same ?_) (hlater.of_same ?_)).cons hproc ?_
            · simp_all
            · simp_all
            · intro hmem
              obtain ⟨d, hd, heq⟩ := List.mem_map.mp hmem
              exact h.tail_ne (List.mem_append_left _ (List.of_mem_zip hd).1) heq

theorem harqBits_past :
    ∀ {earlier : List ℕ} {ue : Ue}, Waits ue.harq (earlier ++ (now ++ later)) →
    Compares frame slot ue true false earlier → Compares frame slot ue false false now →
    Compares frame slot ue false true later →
    Handled harqRoundMax isRa (harqBits harqRoundMax frame slot isRa (success :: bits) ue) ue
      (earlier.map (·, false) ++ now.zip (success :: bits))
      (now.drop (success :: bits).length ++ later) := by
  intro earlier
  induction earlier with
  | nil => grind [harqBits_now]
  | cons pid earlier ih =>
    intro ue h hpast hnow hlater
    obtain ⟨ue₁, hnack⟩ := @handleDlHarq_nack harqRoundMax _ _ _ h
    obtain ⟨hwaits₁, _, hproc⟩ := handleDlHarq_decides h hnack
    have hbits : harqBits harqRoundMax frame slot isRa (success :: bits) ue =
        harqBits harqRoundMax frame slot isRa (success :: bits) ue₁ := by
      have hlen : (earlier ++ (now ++ later)).length < ue.harq.feedback.len := h.list.length_le
      rw [harqBits, harqBits, findHarq_past h hpast hnack, findHarq_steps frame slot hwaits₁ hlen
          (Nat.lt_add_one_of_le hwaits₁.list.length_le)]
    have hother : ∀ q ∈ earlier ++ (now ++ later),
        ue₁.harq.processes q = ue.harq.processes q := by
      intro q hq
      rw [hproc, Function.update_of_ne (h.tail_ne hq)]
    rw [hbits]
    refine (ih hwaits₁ (hpast.of_same ?_) (hnow.of_same ?_) (hlater.of_same ?_)).cons hproc ?_
    · simp_all
    · simp_all
    · simp_all
    · intro hmem
      obtain ⟨d, hd, heq⟩ := List.mem_map.mp hmem
      refine h.tail_ne ?_ heq
      rcases List.mem_append.mp hd with hd | hd
      · obtain ⟨q, hq, rfl⟩ := List.mem_map.mp hd
        exact List.mem_append_left _ hq
      · exact List.mem_append_right _ (List.mem_append_left _ (List.of_mem_zip hd).1)

end Decisions

/-! ### The handlers -/

/-- Bit `i` modulo 8 of byte `i / 8` of the payload. -/
def payloadBit (harqPayload : List (BitVec 8)) (i : ℕ) : Bool :=
  (harqPayload.getD (i / 8) 0).getLsbD (i % 8)

theorem acknack_of_lt (harqPayload : List (BitVec 8)) {i : ℕ} (hi : i < 8) :
    acknack harqPayload i = payloadBit harqPayload i := by
  unfold acknack payloadBit
  rw [Nat.shiftRight_eq_div_pow, Nat.mod_eq_of_lt hi, BitVec.getLsbD,
    Nat.testBit_eq_decide_div_mod_eq, Nat.shiftRight_eq_div_pow]

theorem acknack_of_ge (harqPayload : List (BitVec 8)) {i : ℕ} (hi : 8 ≤ i) :
    acknack harqPayload i = false := by
  unfold acknack
  have hbyte := (harqPayload.getD (i >>> 3) 0).isLt
  have hpow : 2 ^ 8 ≤ 2 ^ i := Nat.pow_le_pow_right (by decide) hi
  rw [Nat.shiftRight_eq_div_pow _ i, Nat.div_eq_of_lt (hbyte.trans_le hpow)]
  rfl

section Handlers

/-- The processes of the feedback list whose feedback time meets a condition. -/
def processesAt (P : PdschInfo → Prop) [DecidablePred P] (ue : Ue) (f : List ℕ) : List ℕ :=
  f.filter fun pid => P (ue.harq.processes pid).info

/-- The decisions of a UCI: the processes with an earlier feedback time fail, and the bits are those
of the processes whose feedback time is its slot. -/
def decisions (frame slot : ℤ) (ue : Ue) (f : List ℕ) (bits : List Bool) : List (ℕ × Bool) :=
  (processesAt (Earlier frame slot) ue f).map (·, false)
    ++ (processesAt (Now frame slot) ue f).zip bits

/-- The processes that still wait after a UCI with `n` bits. -/
def stillWaiting (frame slot : ℤ) (ue : Ue) (f : List ℕ) (n : ℕ) : List ℕ :=
  (processesAt (Now frame slot) ue f).drop n ++ processesAt (Later frame slot) ue f

/-- The feedback times of the list are in order and at most 511 frames away. -/
structure InOrder (frame : ℤ) (ue : Ue) (f : List ℕ) : Prop where
  frame_range : 0 ≤ frame ∧ frame < 1024
  reach : ∀ pid ∈ f, InReach frame (ue.harq.processes pid).info
  sorted : f.Pairwise fun p q =>
    NotBehind frame (ue.harq.processes p).info (ue.harq.processes q).info

variable {harqRoundMax : ℕ} {ue : Ue} {f : List ℕ} {frame slot : ℤ}

theorem harqBits_decides (hwaits : Waits ue.harq f) (horder : InOrder frame ue f) (isRa : Bool)
    (hbits : bits ≠ [] ∨ processesAt (Earlier frame slot) ue f = []) :
    Handled harqRoundMax isRa (harqBits harqRoundMax frame slot isRa bits ue) ue
      (decisions frame slot ue f bits) (stillWaiting frame slot ue f bits.length) := by
  have hsplit := split_of_sorted frame slot (fun pid => (ue.harq.processes pid).info) f
    horder.sorted
  have hpast : ∀ pid ∈ f, ∀ b, isPast (ue.harq.processes pid).info frame slot = b ↔
      (Earlier frame slot (ue.harq.processes pid).info ↔ b = true) := by
    intro pid hpid b
    rw [← isPast_iff horder.frame_range (horder.reach pid hpid), Bool.coe_iff_coe]
  have hfuture : ∀ pid ∈ f, ∀ b, isFuture (ue.harq.processes pid).info frame slot = b ↔
      (Later frame slot (ue.harq.processes pid).info ↔ b = true) := by
    intro pid hpid b
    rw [← isFuture_iff horder.frame_range (horder.reach pid hpid), Bool.coe_iff_coe]
  have hcompares : ∀ {P : PdschInfo → Prop} [DecidablePred P] {past future : Bool},
      (∀ info, P info → ((Earlier frame slot info ↔ past = true) ∧
        (Later frame slot info ↔ future = true))) →
      Compares frame slot ue past future (processesAt P ue f) := by
    intro P _ past future hP pid hpid
    obtain ⟨hf, hinfo⟩ := List.mem_filter.mp hpid
    rw [hpast pid hf, hfuture pid hf]
    exact hP _ (of_decide_eq_true hinfo)
  have htimes := times_trichotomy frame slot
  have hearlier := @hcompares (Earlier frame slot) _ true false (by grind)
  have hnow := @hcompares (Now frame slot) _ false false (by grind)
  have hlater := @hcompares (Later frame slot) _ false true (by grind)
  have hwaits' : Waits ue.harq (processesAt (Earlier frame slot) ue f
      ++ (processesAt (Now frame slot) ue f ++ processesAt (Later frame slot) ue f)) := by
    unfold processesAt
    rw [← hsplit]
    exact hwaits
  unfold decisions stillWaiting
  cases bits with
  | cons success bits => exact harqBits_past hwaits' hearlier hnow hlater
  | nil => grind [harqBits_now]

theorem decided_isWaiting (harqRoundMax : ℕ) (success : Bool) (p : Process PdschInfo) :
    (decided harqRoundMax success p).isWaiting = false := by
  unfold decided
  dsimp only
  split <;> rfl

/-- A process in its last round comes to the same end either way. -/
theorem decided_eq_iff {p : Process PdschInfo} :
    decided harqRoundMax true p = decided harqRoundMax false p ↔ harqRoundMax - 1 ≤ p.round := by
  unfold decided
  dsimp only
  rw [if_pos (Or.inl rfl)]
  constructor
  · intro h
    by_contra hround
    rw [if_neg (by simpa using hround)] at h
    exact absurd (congrArg Process.round h) (Nat.succ_ne_zero _).symm
  · intro h
    rw [if_pos (Or.inr h)]

/-- Nothing was decided of a process that still waits. -/
theorem Outcome.self_nil {decisions : List (ℕ × Bool)} {rest : List ℕ} (hwaits : Waits ue.harq f)
    (h : Outcome harqRoundMax ue ue decisions rest) (hmem : ∀ d ∈ decisions, d.1 ∈ f) :
    decisions = [] := by
  refine List.eq_nil_iff_forall_not_mem.mpr fun d hd => ?_
  have hdone := congrArg Process.isWaiting (h.decides d hd)
  rw [decided_isWaiting, hwaits.waiting d.1 (hmem d hd)] at hdone
  cases hdone

theorem fst_mem_of_decisions {d : ℕ × Bool} (h : d ∈ decisions frame slot ue f bits) :
    d.1 ∈ f := by
  rcases List.mem_append.mp h with h | h
  · obtain ⟨pid, hpid, rfl⟩ := List.mem_map.mp h
    exact (List.mem_filter.mp hpid).1
  · exact (List.mem_filter.mp (List.of_mem_zip h).1).1

theorem mem_decisions_now {i pid : ℕ} {success : Bool}
    (hpid : (processesAt (Now frame slot) ue f)[i]? = some pid) (hbit : bits[i]? = some success) :
    (pid, success) ∈ decisions frame slot ue f bits :=
  List.mem_append_right _ (List.mem_of_getElem? (List.getElem?_zip_eq_some.mpr ⟨hpid, hbit⟩))

/-- Two lists of bits come to the same if they do for every process that has a bit. -/
theorem Outcome.decisions_iff {ue' : Ue} {bits' : List Bool} {rest : List ℕ}
    (hlen : bits.length = bits'.length)
    (h : Outcome harqRoundMax ue ue' (decisions frame slot ue f bits') rest) :
    Outcome harqRoundMax ue ue' (decisions frame slot ue f bits) rest ↔
      ∀ (i pid : ℕ) (success success' : Bool), (processesAt (Now frame slot) ue f)[i]? = some pid →
        bits[i]? = some success → bits'[i]? = some success' →
        decided harqRoundMax success (ue.harq.processes pid) =
          decided harqRoundMax success' (ue.harq.processes pid) := by
  have hother : ∀ {l l' : List Bool}, l.length = l'.length → ∀ {i : ℕ} {b : Bool},
      l[i]? = some b → ∃ b', l'[i]? = some b' := by
    intro l l' hl i b hb
    have hi := (List.getElem?_eq_some_iff.mp hb).1
    exact ⟨_, List.getElem?_eq_getElem (hl ▸ hi)⟩
  constructor
  · intro ho i pid b b' hpid hb hb'
    have h₁ := ho.decides _ (mem_decisions_now hpid hb)
    have h₂ := h.decides _ (mem_decisions_now hpid hb')
    exact h₁.symm.trans h₂
  · intro hsame
    refine ⟨h.waits, fun d hd => ?_, fun pid hpid => h.untouched pid fun hmem => hpid ?_⟩
    · rcases List.mem_append.mp hd with hd | hd
      · exact h.decides d (List.mem_append_left _ hd)
      · obtain ⟨i, hi⟩ := List.mem_iff_getElem?.mp hd
        obtain ⟨hpid, hb⟩ := List.getElem?_zip_eq_some.mp hi
        obtain ⟨b', hb'⟩ := hother hlen hb
        rw [hsame i d.1 d.2 b' hpid hb hb']
        exact h.decides _ (mem_decisions_now hpid hb')
    · obtain ⟨d, hd, rfl⟩ := List.mem_map.mp hmem
      rcases List.mem_append.mp hd with hd | hd
      · exact List.mem_map_of_mem (List.mem_append_left _ hd)
      · obtain ⟨i, hi⟩ := List.mem_iff_getElem?.mp hd
        obtain ⟨hpid, hb'⟩ := List.getElem?_zip_eq_some.mp hi
        obtain ⟨b, hb⟩ := hother hlen.symm hb'
        exact List.mem_map.mpr ⟨_, mem_decisions_now hpid hb, rfl⟩

/-- Whether the UE is in random access. -/
def inRa (ue : Ue) : Bool :=
  match ue.phase with
  | .ra _ => true
  | _ => false

/-- The bits of a UCI of format 0 or 1. -/
def bits01 (harqConfidence : ℕ) (harqValues : List ℕ) : List Bool :=
  harqValues.map fun v => decide (v = 0 ∧ harqConfidence = 0)

/-- The bits of a UCI of format 2, 3 or 4. -/
def bits234 (harqCrc : ℕ) (harqPayload : List (BitVec 8)) (harqBitLen : ℕ) : List Bool :=
  (List.range harqBitLen).map fun i => decide (harqCrc ≠ 1) && payloadBit harqPayload i

/-- The bits as `handle_nr_uci_pucch_2_3_4` reads them. -/
def bitsRead (harqCrc : ℕ) (harqPayload : List (BitVec 8)) (harqBitLen : ℕ) : List Bool :=
  (List.range harqBitLen).map fun i => decide (harqCrc ≠ 1) && acknack harqPayload i

/-- No bit behind the eighth acknowledges a process, unless the process is in its last round. -/
def NoAckBehindEighth (harqRoundMax : ℕ) (frame slot : ℤ) (ue : Ue) (f : List ℕ) (harqCrc : ℕ)
    (harqPayload : List (BitVec 8)) (harqBitLen : ℕ) : Prop :=
  ∀ i pid, 8 ≤ i → i < harqBitLen → (processesAt (Now frame slot) ue f)[i]? = some pid →
    harqCrc ≠ 1 → payloadBit harqPayload i = true → harqRoundMax - 1 ≤ (ue.harq.processes pid).round

/-- What is asked for a UCI of format 2, 3 or 4: a connected UE with a bit for it if a process is
overdue, and no lost acknowledgement; or a UE in random access to whose processes it says nothing. -/
def Heard234 (harqRoundMax : ℕ) (frame slot : ℤ) (ue : Ue) (f : List ℕ) (harqCrc : ℕ)
    (harqPayload : List (BitVec 8)) (harqBitLen : ℕ) : Prop :=
  (ue.phase = .connected → (0 < harqBitLen ∨ processesAt (Earlier frame slot) ue f = []) ∧
      NoAckBehindEighth harqRoundMax frame slot ue f harqCrc harqPayload harqBitLen) ∧
    (ue.phase ≠ .connected → processesAt (Earlier frame slot) ue f = [] ∧
      (harqBitLen = 0 ∨ processesAt (Now frame slot) ue f = []))

theorem bitsRead_length (harqCrc : ℕ) (harqPayload : List (BitVec 8)) (harqBitLen : ℕ) :
    (bitsRead harqCrc harqPayload harqBitLen).length = harqBitLen := by
  simp [bitsRead]

theorem bits234_length (harqCrc : ℕ) (harqPayload : List (BitVec 8)) (harqBitLen : ℕ) :
    (bits234 harqCrc harqPayload harqBitLen).length = harqBitLen := by
  simp [bits234]

/-- Only acknowledgements behind the eighth bit are read as something else. -/
theorem bitsRead_same_iff {harqCrc : ℕ} {harqPayload : List (BitVec 8)} {harqBitLen : ℕ} :
    (∀ (i pid : ℕ) (success success' : Bool),
        (processesAt (Now frame slot) ue f)[i]? = some pid →
        (bits234 harqCrc harqPayload harqBitLen)[i]? = some success →
        (bitsRead harqCrc harqPayload harqBitLen)[i]? = some success' →
        decided harqRoundMax success (ue.harq.processes pid) =
          decided harqRoundMax success' (ue.harq.processes pid)) ↔
      NoAckBehindEighth harqRoundMax frame slot ue f harqCrc harqPayload harqBitLen := by
  have hbit : ∀ i < harqBitLen, (bits234 harqCrc harqPayload harqBitLen)[i]? =
        some (decide (harqCrc ≠ 1) && payloadBit harqPayload i) ∧
      (bitsRead harqCrc harqPayload harqBitLen)[i]? =
        some (decide (harqCrc ≠ 1) && acknack harqPayload i) := by
    intro i hi
    simp [bits234, bitsRead, List.getElem?_range hi]
  constructor
  · intro h i pid h8 hi hpid hcrc hack
    obtain ⟨hb, hb'⟩ := hbit i hi
    have := h i pid _ _ hpid hb hb'
    rw [acknack_of_ge harqPayload h8, hack, Bool.and_false, decide_eq_true hcrc] at this
    exact decided_eq_iff.mp this
  · intro h i pid b b' hpid hb hb'
    have hi : i < harqBitLen := by
      have := (List.getElem?_eq_some_iff.mp hb).1
      rwa [bits234_length] at this
    obtain ⟨hs, hs'⟩ := hbit i hi
    obtain rfl := Option.some.inj (hs.symm.trans hb)
    obtain rfl := Option.some.inj (hs'.symm.trans hb')
    by_cases h8 : i < 8
    · rw [acknack_of_lt harqPayload h8]
    · rw [acknack_of_ge harqPayload (not_lt.mp h8), Bool.and_false]
      by_cases hcrc : harqCrc ≠ 1
      · rw [decide_eq_true hcrc, Bool.true_and]
        cases hack : payloadBit harqPayload i with
        | false => rfl
        | true => exact decided_eq_iff.mpr (h i pid (not_lt.mp h8) hi hpid hcrc hack)
      · rw [decide_eq_false hcrc, Bool.false_and]

/-- Bits that are not looked at, for the whole list: nothing may be decided by them. -/
theorem outcome_ignored_iff (hwaits : Waits ue.harq f) (horder : InOrder frame ue f) :
    Outcome harqRoundMax ue ue (decisions frame slot ue f bits)
        (stillWaiting frame slot ue f bits.length) ↔
      processesAt (Earlier frame slot) ue f = [] ∧
        (bits = [] ∨ processesAt (Now frame slot) ue f = []) := by
  have hsplit := split_of_sorted frame slot (fun pid => (ue.harq.processes pid).info) f
    horder.sorted
  change f = processesAt (Earlier frame slot) ue f ++ (processesAt (Now frame slot) ue f ++
    processesAt (Later frame slot) ue f) at hsplit
  constructor
  · intro h
    have hnil := h.self_nil hwaits fun d hd => fst_mem_of_decisions hd
    obtain ⟨hearlier, hnow⟩ := List.append_eq_nil_iff.mp hnil
    refine ⟨List.map_eq_nil_iff.mp hearlier, ?_⟩
    exact (List.zip_eq_nil_iff.mp hnow).symm
  · rintro ⟨hearlier, hnow⟩
    have hdecisions : decisions frame slot ue f bits = [] := by
      unfold decisions
      rw [hearlier, List.map_nil, List.nil_append, List.zip_eq_nil_iff]
      exact hnow.symm
    rw [hearlier, List.nil_append] at hsplit
    have hrest : stillWaiting frame slot ue f bits.length = f := by
      unfold stillWaiting
      rcases hnow with rfl | hnow
      · exact hsplit.symm
      · rw [hnow] at hsplit ⊢
        rw [List.drop_nil]
        exact hsplit.symm
    rw [hdecisions, hrest]
    exact ⟨hwaits, List.forall_mem_nil _, fun _ _ => rfl⟩

/-- An acknowledged process reconfigures the UE, or Msg4 is checked. -/
def MayFail (isRa : Bool) (ue : Ue) (decisions : List (ℕ × Bool)) (e : HarqFault) : Prop :=
  (∃ d ∈ decisions, d.2 = true ∧ (ue.harq.processes d.1).info.action = true) ∨
    (isRa = true ∧ ∃ ue₁ success, nrCheckMsg4MsgBAck ue₁ success = .error e)

theorem harqBits_mayFail {isRa : Bool} {e : HarqFault} (hwaits : Waits ue.harq f)
    (horder : InOrder frame ue f)
    (h : harqBits harqRoundMax frame slot isRa bits ue = .error e) :
    MayFail isRa ue (decisions frame slot ue f bits) e := by
  cases bits with
  | nil => cases h
  | cons b bits =>
    exact (harqBits_decides hwaits horder isRa (Or.inl (List.cons_ne_nil b bits))).faults e h

theorem MayFail.of_bitsRead {harqCrc : ℕ} {harqPayload : List (BitVec 8)} {harqBitLen : ℕ}
    {e : HarqFault}
    (h : MayFail false ue (decisions frame slot ue f (bitsRead harqCrc harqPayload harqBitLen)) e) :
    MayFail false ue (decisions frame slot ue f (bits234 harqCrc harqPayload harqBitLen)) e := by
  rcases h with ⟨d, hd, hack, haction⟩ | ⟨hra, _⟩
  · refine Or.inl ⟨d, ?_, hack, haction⟩
    rcases List.mem_append.mp hd with hd | hd
    · exact List.mem_append_left _ hd
    · obtain ⟨i, hi⟩ := List.mem_iff_getElem?.mp hd
      obtain ⟨hpid, hb⟩ := List.getElem?_zip_eq_some.mp hi
      have hlt : i < harqBitLen := by
        have := (List.getElem?_eq_some_iff.mp hb).1
        rwa [bitsRead_length] at this
      rw [bitsRead, List.getElem?_map, List.getElem?_range hlt, Option.map_some, hack] at hb
      have hboth := Option.some.inj hb
      have h8 : i < 8 := by
        by_contra h8
        rw [acknack_of_ge harqPayload (not_lt.mp h8), Bool.and_false] at hboth
        cases hboth
      rw [acknack_of_lt harqPayload h8] at hboth
      refine mem_decisions_now hpid ?_
      rw [bits234, List.getElem?_map, List.getElem?_range hlt, Option.map_some, hboth, hack]
  · cases hra

end Handlers

/-- 16 processes. -/
def sixteenProcesses : CellGroup := ⟨false, some 5, false⟩

/-- Nine transmissions with their feedback in slot 8 of frame 10. -/
def nineTransmissions : List DlEvent :=
  List.replicate 9 (.postProcess none (some (10, 8)) false)

theorem nine_wait : ∃ ue : Ue, Waits ue.harq (List.range 9) ∧ ue.phase = .connected ∧
    (∀ pid ∈ List.range 9, (ue.harq.processes pid).info = ⟨10, 8, false⟩) ∧
    ((handleNrUciPucch234 4 ue 10 8 0 [0xFF, 0x01] 9).toOption.map
      (fun ue' => (ue'.phase, (ue'.harq.processes 8).round)) = some (.connected, 1)) ∧
    ∃ ue', handleNrUciPucch234 4 ue 10 8 0 [0xFF, 0x00] 9 = .ok ue' ∧
      ue'.phase = .connected := by
  obtain ⟨ue, hue, hf⟩ := exists_reachable (dlStep 4) NoMsg4Retransmission
    (dlStart .connected sixteenProcesses none none) nineTransmissions
    (fun ue => (members ue.harq.feedback, ue.phase,
      (List.range 9).map (fun pid => (ue.harq.processes pid).info),
      decide ((handleNrUciPucch234 4 ue 10 8 0 [0xFF, 0x01] 9).toOption.map
        (fun ue' => (ue'.phase, (ue'.harq.processes 8).round)) = some (.connected, 1)) &&
      decide ((handleNrUciPucch234 4 ue 10 8 0 [0xFF, 0x00] 9).toOption.map (fun ue' => ue'.phase) =
        some .connected)))
    (b := (List.range 9, .connected, List.replicate 9 ⟨10, 8, false⟩, true))
    (by decide +kernel)
  simp only [Prod.mk.injEq, Bool.and_eq_true, decide_eq_true_eq] at hf
  obtain ⟨hmembers, hphase, hinfo, hafter, hnegative⟩ := hf
  obtain ⟨a, f, r, hholds⟩ := reachable_holds hue
  obtain rfl : f = List.range 9 := (members_eq hholds.feedback).symm.trans hmembers
  refine ⟨ue, ⟨hholds.feedback, fun pid hpid => (hholds.waiting pid).mpr hpid⟩, hphase, ?_, hafter,
    exists_of_observed hnegative⟩
  grind [List.mem_map_of_mem]

theorem inOrder_of_eq {frame : ℤ} {ue : Ue} {f : List ℕ} {info : PdschInfo}
    (hframe : 0 ≤ frame ∧ frame < 1024) (hreach : InReach frame info)
    (h : ∀ pid ∈ f, (ue.harq.processes pid).info = info) : InOrder frame ue f := by
  refine ⟨hframe, ?_, ?_⟩
  · simp_all
  · refine List.pairwise_of_forall_mem_list ?_
    intro p hp q hq
    rw [h p hp, h q hq]
    exact Or.inr ⟨rfl, Int.le_refl _⟩

theorem inReach_sample : InReach 10 ⟨10, 8, false⟩ := ⟨by decide, by decide⟩

theorem nine_now {ue : Ue} (hinfo : ∀ pid ∈ List.range 9,
    (ue.harq.processes pid).info = ⟨10, 8, false⟩) :
    processesAt (Now 10 8) ue (List.range 9) = List.range 9 := by
  refine List.filter_eq_self.mpr ?_
  intro pid hpid
  rw [hinfo pid hpid]
  decide

end OaiGnb.Mac.HarqFeedback
