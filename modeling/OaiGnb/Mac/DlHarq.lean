import OaiGnb.Mac.Harq

/-!
# Downlink HARQ

`post_process_dlsch`, the HARQ part of `nr_generate_Msg4_MsgB`, the PUCCH feedback handlers with
`find_harq`, `handle_dl_harq` and `nr_check_Msg4_MsgB_Ack`, `reset_dl_harq_list` and
`create_dl_harq_list` for one UE, as a state machine.

`nr_generate_Msg4_MsgB` takes the process to be retransmitted from the head of `retrans_dl_harq` and
leaves it there.

* `findHarq_spec`: the loop over missed feedback returns.
* `reachable_partitioned`: the processes stay partitioned in every run that generates no Msg4 or
  MsgB while a process waits for its retransmission.
-/

namespace OaiGnb.Mac.DlHarq

open Run Mac.Harq

/-- `feedback_frame`, `feedback_slot` and whether `sched_pdsch.action` is `ack_reconfig`. -/
structure PdschInfo where
  feedbackFrame : ℤ
  feedbackSlot : ℤ
  action : Bool
  deriving Repr, DecidableEq

/-- What `configure_UE_BWP` derives from a cell group: the HARQ process counts of the serving cell,
and whether the DCI formats are 0_0 and 1_0. -/
structure CellGroup where
  nrofHarqProcessesForPdschV1700 : Bool
  nrofHarqProcessesForPdsch : Option (Fin 6)
  format0010 : Bool
  deriving Repr, DecidableEq

/-- In random access, with `ra->harq_pid`, connected, or released. -/
inductive Phase where
  | ra (harqPid : ℕ)
  | connected
  | released
  deriving Repr, DecidableEq

/-- The part of `NR_UE_info_t` that the functions of this file use. -/
structure Ue where
  harq : HarqLists PdschInfo
  phase : Phase
  cellGroup : Option CellGroup
  reconfigCellGroup : Option CellGroup

/-! ### Configuration -/

/-- `IEvalues`. -/
def ieValues : List ℕ := [2, 4, 6, 10, 12, 16]

/-- `get_nrofHARQ_ProcessesForPDSCH`. -/
def getNrofHarqProcessesForPdsch (c : CellGroup) : ℕ :=
  if c.nrofHarqProcessesForPdschV1700 = true then 32
  else
    match c.nrofHarqProcessesForPdsch with
    | none => 8
    | some i => ieValues.get i

/-- The number of processes of a UE. -/
def nrofHarq (c : CellGroup) : ℕ :=
  let n := getNrofHarqProcessesForPdsch c
  if c.format0010 = true ∧ n > 16 then 16 else n

theorem nrofHarq_le (c : CellGroup) : nrofHarq c ≤ maxHarqProcesses := by
  have hie : ∀ i, ieValues.get i ≤ 32 := by decide
  have hget : getNrofHarqProcessesForPdsch c ≤ 32 := by
    unfold getNrofHarqProcessesForPdsch
    split
    · exact le_rfl
    · split
      · decide
      · exact hie _
  unfold nrofHarq
  dsimp only
  split
  · decide
  · exact hget

/-- `create_dl_harq_list`. -/
def createDlHarqList (h : HarqLists PdschInfo) (c : CellGroup) :
    Except HarqFault (HarqLists PdschInfo) :=
  if h.available.len = h.feedback.len ∧ h.available.len = h.retrans.len then
    createHarqList h (nrofHarq c)
  else .error .assertFatal

/-- `ack_reconfig`. -/
def ackReconfig (ue : Ue) : Except HarqFault Ue :=
  match ue.reconfigCellGroup with
  | none => .ok ue
  | some c => do
      let harq ← createDlHarqList ue.harq c
      return { ue with harq := harq, cellGroup := some c, reconfigCellGroup := none }

/-! ### Feedback -/

/-- The action of a transmission that was acknowledged. -/
def runAction (ue : Ue) (action : Bool) : Except HarqFault Ue :=
  if action = true then ackReconfig ue else .ok ue

/-- `remove_front_nr_list(&sched_ctrl->feedback_dl_harq)` and `handle_dl_harq`. -/
def handleDlHarq (harqRoundMax : ℕ) (ue : Ue) (pid : ℕ) (success : Bool) :
    Except HarqFault Ue := do
  let harq ← popFeedback (fun info => { info with feedbackSlot := -1 }) ue.harq pid
  if success = true then do
    let ue ← runAction { ue with harq := harq } (harq.processes pid).info.action
    return { ue with harq := finish ue.harq pid }
  else return { ue with harq := nextRound harqRoundMax harq pid }

/-- The feedback was expected before the given slot. -/
def isPast (info : PdschInfo) (frame slot : ℤ) : Bool :=
  decide ((info.feedbackFrame - frame + 1024).tmod 1024 > 512)
    || (decide (info.feedbackFrame = frame) && decide (info.feedbackSlot < slot))

/-- The feedback is expected after the given slot. -/
def isFuture (info : PdschInfo) (frame slot : ℤ) : Bool :=
  decide ((frame - info.feedbackFrame + 1024).tmod 1024 > 512)
    || (decide (info.feedbackFrame = frame) && decide (info.feedbackSlot > slot))

/-- `find_harq`, with at most the given number of steps of its loop. -/
def findHarq (harqRoundMax : ℕ) (frame slot : ℤ) : ℕ → Ue → Except HarqFault (Ue × Option ℕ)
  | 0, _ => .error .loops
  | n + 1, ue =>
      match ue.harq.feedback.head with
      | none => .ok (ue, none)
      | some pid =>
          let info := (ue.harq.processes pid).info
          if isPast info frame slot = true then do
            let ue ← handleDlHarq harqRoundMax ue pid false
            findHarq harqRoundMax frame slot n ue
          else if isFuture info frame slot = true then .ok (ue, none)
          else .ok (ue, some pid)

/-- `if (retrans_dl_harq.head >= 0) remove_nr_list(&retrans_dl_harq, pid);` -/
def dropRetrans (ue : Ue) (pid : ℕ) : Except HarqFault Ue :=
  if ue.harq.retrans.head.isSome = true then do
    let retrans ← removeNrList ue.harq.retrans pid
    return { ue with harq := { ue.harq with retrans := retrans } }
  else .ok ue

/-- `nr_check_Msg4_MsgB_Ack`; the result says whether the UE was rejected. -/
def nrCheckMsg4MsgBAck (ue : Ue) (success : Bool) : Except HarqFault (Ue × Bool) :=
  match ue.phase with
  | .ra pid =>
      if (ue.harq.processes pid).round = 0 then
        match success, ue.cellGroup with
        | true, some c => do
            let harq ← createDlHarqList ue.harq c
            let ue ← dropRetrans { ue with harq := harq, phase := .connected } pid
            return (ue, false)
        | true, none => .ok ({ ue with phase := .released }, true)
        | false, _ => do
            let ue ← dropRetrans ue pid
            return (ue, false)
      else .ok (ue, false)
  | _ => .error .nullPointer

/-- What `handle_nr_uci_pucch_0_1` does after the feedback of a UE in random access. -/
def afterFeedback (isRa : Bool) (ue : Ue) (success : Bool) : Except HarqFault (Ue × Bool) :=
  if isRa = true then nrCheckMsg4MsgBAck ue success else .ok (ue, false)

/-- The loop over the HARQ bits of a PUCCH. -/
def harqBits (harqRoundMax : ℕ) (frame slot : ℤ) (isRa : Bool) :
    List Bool → Ue → Except HarqFault Ue
  | [], ue => .ok ue
  | success :: bits, ue => do
      let (ue, found) ← findHarq harqRoundMax frame slot (ue.harq.feedback.len + 1) ue
      match found with
      | none => return ue
      | some pid =>
          if (ue.harq.processes pid).isWaiting = true then do
            let ue ← handleDlHarq harqRoundMax ue pid success
            let (ue, rejected) ← afterFeedback isRa ue success
            if rejected = true then return ue
            else harqBits harqRoundMax frame slot isRa bits ue
          else .error .devAssert

/-- `handle_nr_uci_pucch_0_1`: the HARQ values and their confidence level. -/
def handleNrUciPucch01 (harqRoundMax : ℕ) (ue : Ue) (frame slot : ℤ) (harqConfidence : ℕ)
    (harqValues : List ℕ) : Except HarqFault Ue :=
  let successes := harqValues.map fun v => decide (v = 0 ∧ harqConfidence = 0)
  match ue.phase with
  | .ra _ => harqBits harqRoundMax frame slot true successes ue
  | .connected => harqBits harqRoundMax frame slot false successes ue
  | .released => .ok ue

/-- A bit of the payload, as `handle_nr_uci_pucch_2_3_4` reads it. -/
def acknack (harqPayload : List (BitVec 8)) (harqBit : ℕ) : Bool :=
  decide (((harqPayload.getD (harqBit >>> 3) 0).toNat >>> harqBit) % 2 = 1)

/-- `handle_nr_uci_pucch_2_3_4`; it looks for connected UEs only. -/
def handleNrUciPucch234 (harqRoundMax : ℕ) (ue : Ue) (frame slot : ℤ) (harqCrc : ℕ)
    (harqPayload : List (BitVec 8)) (harqBitLen : ℕ) : Except HarqFault Ue :=
  match ue.phase with
  | .connected =>
      harqBits harqRoundMax frame slot false
        ((List.range harqBitLen).map fun i => decide (harqCrc ≠ 1) && acknack harqPayload i) ue
  | _ => .ok ue

/-! ### Transmissions -/

/-- The process waits for feedback on the PUCCH `pucch`, given by its frame and slot, or it is
available again if it has none. -/
def occupy (h : HarqLists PdschInfo) (pid : ℕ) : Option (ℤ × ℤ) → HarqLists PdschInfo
  | none => finish h pid
  | some (frame, slot) =>
      await h pid { (h.processes pid).info with feedbackFrame := frame, feedbackSlot := slot }

/-- `post_process_dlsch` for the process `dlHarqPid`, none if it is negative, and the PUCCH
allocation, none if it is negative. -/
def postProcessDlsch (ue : Ue) (dlHarqPid : Option (Fin maxHarqProcesses))
    (pucch : Option (ℤ × ℤ)) (action : Bool) : Except HarqFault Ue := do
  let (pid, harq) ← takeProcess ue.harq (dlHarqPid.map Fin.val)
  if (harq.processes pid).isWaiting = true then .error .devAssert
  else
    let harq := occupy harq pid pucch
    let p := harq.processes pid
    -- the initial transmission is saved for retransmissions
    let p := if p.round = 0 then { p with info := { p.info with action := action } } else p
    return { ue with harq := { harq with processes := Function.update harq.processes pid p } }

/-- The process of Msg4 or MsgB: the head of the retransmissions, which stays where it is, or else
the first that is available. -/
def msg4Process (h : HarqLists PdschInfo) : Except HarqFault (ℕ × HarqLists PdschInfo) :=
  match h.retrans.head with
  | some pid => .ok (pid, h)
  | none =>
      match h.available.head with
      | none => .error .assertFatal
      | some pid => do
          let available ← removeFrontNrList h.available
          return (pid, { h with available := available })

/-- The HARQ management of `nr_generate_Msg4_MsgB`, with the frame and the slot of the PUCCH. -/
def nrGenerateMsg4MsgB (ue : Ue) (pucch : ℤ × ℤ) : Except HarqFault Ue :=
  match ue.phase with
  | .ra _ => do
      let (pid, harq) ← msg4Process ue.harq
      if (harq.processes pid).isWaiting = true then .error .devAssert
      else return { ue with harq := occupy harq pid (some pucch), phase := .ra pid }
  | _ => .error .nullPointer

/-! ### The state machine -/

/-- What happens to the downlink HARQ processes of a UE. -/
inductive DlEvent where
  | postProcess (dlHarqPid : Option (Fin maxHarqProcesses)) (pucch : Option (ℤ × ℤ)) (action : Bool)
  | msg4 (pucch : ℤ × ℤ)
  | uci01 (frame slot : ℤ) (harqConfidence : ℕ) (harqValues : List ℕ)
  | uci234 (frame slot : ℤ) (harqCrc : ℕ) (harqPayload : List (BitVec 8)) (harqBitLen : ℕ)
  | reset
  | configure (c : CellGroup)
  | setCellGroup (c : CellGroup)
  | setReconfigCellGroup (c : CellGroup)
  deriving Repr, DecidableEq

/-- One event. -/
def dlStep (harqRoundMax : ℕ) (ue : Ue) (e : DlEvent) : Except HarqFault (Ue × Unit) :=
  match e with
  | .postProcess dlHarqPid pucch action => (postProcessDlsch ue dlHarqPid pucch action).map (·, ())
  | .msg4 pucch => (nrGenerateMsg4MsgB ue pucch).map (·, ())
  | .uci01 frame slot confidence values =>
      (handleNrUciPucch01 harqRoundMax ue frame slot confidence values).map (·, ())
  | .uci234 frame slot crc payload bitLen =>
      (handleNrUciPucch234 harqRoundMax ue frame slot crc payload bitLen).map (·, ())
  | .reset => do
      let harq ← resetHarqList (fun info => { info with feedbackSlot := -1 }) ue.harq
      return ({ ue with harq := harq }, ())
  | .configure c => do
      let harq ← createDlHarqList ue.harq c
      return ({ ue with harq := harq }, ())
  | .setCellGroup c => .ok ({ ue with cellGroup := some c }, ())
  | .setReconfigCellGroup c => .ok ({ ue with reconfigCellGroup := some c }, ())

/-- A UE when it is created. -/
def dlStart (phase : Phase) (c : CellGroup) (cellGroup reconfigCellGroup : Option CellGroup) : Ue :=
  ⟨newProcesses ⟨0, 0, false⟩ (nrofHarq c), phase, cellGroup, reconfigCellGroup⟩

/-! ### The partition is kept -/

section Steps

variable {harqRoundMax : ℕ} {ue ue' : Ue} {held a f r : List ℕ} {pid : ℕ}

theorem createDlHarqList_spec {h h' : HarqLists PdschInfo}
    (hh : Holds harqRoundMax h held a f r) {c : CellGroup} (hc : createDlHarqList h c = .ok h') :
    ∃ a', Holds harqRoundMax h' held a' f r ∧ h'.processes = h.processes := by
  unfold createDlHarqList at hc
  split at hc
  · exact hh.create (nrofHarq_le c) hc
  · cases hc

theorem runAction_spec (hh : Holds harqRoundMax ue.harq held a f r) {action : Bool}
    (hr : runAction ue action = .ok ue') : ∃ a', Holds harqRoundMax ue'.harq held a' f r := by
  unfold runAction ackReconfig at hr
  split at hr
  · split at hr
    · grind
    · obtain ⟨harq, hcreate, rfl⟩ := bind_ok_inj hr
      obtain ⟨a', hh', _⟩ := createDlHarqList_spec hh hcreate
      exact ⟨a', hh'⟩
  · grind

theorem handleDlHarq_spec (hh : Holds harqRoundMax ue.harq [] a (pid :: f) r) {success : Bool}
    (hs : handleDlHarq harqRoundMax ue pid success = .ok ue') :
    ∃ a' r', Holds harqRoundMax ue'.harq [] a' f r' := by
  obtain ⟨harq, hpop, hh', _⟩ := hh.popFeedback fun info => { info with feedbackSlot := -1 }
  rw [handleDlHarq, hpop, ok_bind] at hs
  split at hs
  · obtain ⟨ue₁, haction, rfl⟩ := bind_ok_inj hs
    obtain ⟨a₁, hh₁⟩ := runAction_spec hh' haction
    exact ⟨_, _, hh₁.finish⟩
  · obtain rfl := Except.ok.inj hs
    exact hh'.nextRound

theorem handleDlHarq_false (hh : Holds harqRoundMax ue.harq [] a (pid :: f) r) :
    ∃ ue₁ a' r', handleDlHarq harqRoundMax ue pid false = .ok ue₁ ∧
      Holds harqRoundMax ue₁.harq [] a' f r' := by
  obtain ⟨harq, hpop, hh', _⟩ := hh.popFeedback fun info => { info with feedbackSlot := -1 }
  obtain ⟨a', r', hh₁⟩ := hh'.nextRound
  refine ⟨{ ue with harq := nextRound harqRoundMax harq pid }, a', r', ?_, hh₁⟩
  rw [handleDlHarq, hpop]
  rfl

theorem findHarq_spec (frame slot : ℤ) : ∀ {n : ℕ} {ue : Ue} {a f r : List ℕ},
    Holds harqRoundMax ue.harq [] a f r → f.length < n →
      ∃ ue' found a' f' r', findHarq harqRoundMax frame slot n ue = .ok (ue', found) ∧
        Holds harqRoundMax ue'.harq [] a' f' r' ∧ ∀ pid, found = some pid → f'.head? = some pid := by
  intro n
  induction n with
  | zero => omega
  | succ n ih =>
    intro ue a f r hh hn
    cases f with
    | nil =>
      refine ⟨ue, none, a, [], r, ?_, hh, fun _ h => (by cases h)⟩
      rw [findHarq, hh.feedback.head_nil]
    | cons pid f =>
      rw [findHarq, hh.feedback.head_cons]
      grind [handleDlHarq_false, ok_bind, List.length_cons]

theorem dropRetrans_spec (hh : Holds harqRoundMax ue.harq [] a f r)
    (hround : (ue.harq.processes pid).round = 0) (hd : dropRetrans ue pid = .ok ue') :
    ue' = ue := by
  unfold dropRetrans at hd
  split at hd
  · have hpr : pid ∉ r := by
      intro hmem
      have := (hh.again pid hmem).1
      omega
    rw [removeNrList, hh.retrans.remove_none hpr] at hd
    cases hd
  · exact (Except.ok.inj hd).symm

theorem nrCheckMsg4MsgBAck_spec (hh : Holds harqRoundMax ue.harq [] a f r) {success rejected : Bool}
    (hc : nrCheckMsg4MsgBAck ue success = .ok (ue', rejected)) :
    ∃ a', Holds harqRoundMax ue'.harq [] a' f r := by
  unfold nrCheckMsg4MsgBAck at hc
  split at hc
  · split at hc
    next hround =>
      split at hc
      · obtain ⟨harq, hcreate, hc⟩ := bind_returns.mp hc
        obtain ⟨ue₁, hdrop, rfl, _⟩ := bind_pair_inj hc
        obtain ⟨a', hh', hproc⟩ := createDlHarqList_spec hh hcreate
        rw [dropRetrans_spec hh' (by rw [hproc]; exact hround) hdrop]
        exact ⟨a', hh'⟩
      · grind
      · obtain ⟨ue₁, hdrop, rfl, _⟩ := bind_pair_inj hc
        grind [dropRetrans_spec]
    · grind
  · cases hc

theorem harqBits_spec {frame slot : ℤ} {isRa : Bool} {bits : List Bool} {ue : Ue} {a f r : List ℕ}
    (hh : Holds harqRoundMax ue.harq [] a f r)
    (hs : harqBits harqRoundMax frame slot isRa bits ue = .ok ue') :
    ∃ a' f' r', Holds harqRoundMax ue'.harq [] a' f' r' := by
  induction bits generalizing ue a f r with
  | nil =>
    obtain rfl := Except.ok.inj hs
    exact ⟨a, f, r, hh⟩
  | cons success bits ih =>
    obtain ⟨ue₁, found, a₁, f₁, r₁, hfind, hh₁, hfound⟩ := findHarq_spec frame slot hh
      (Nat.lt_add_one_of_le hh.feedback.length_le)
    rw [harqBits, hfind, ok_bind] at hs
    cases found with
    | none =>
      obtain rfl := Except.ok.inj hs
      exact ⟨a₁, f₁, r₁, hh₁⟩
    | some pid =>
      dsimp only at hs
      split at hs
      · obtain ⟨f₁, rfl⟩ : ∃ l, f₁ = pid :: l := List.head?_eq_some_iff.mp (hfound pid rfl)
        obtain ⟨ue₂, hfeedback, hs⟩ := bind_returns.mp hs
        obtain ⟨a₂, r₂, hh₂⟩ := handleDlHarq_spec hh₁ hfeedback
        obtain ⟨⟨ue₃, rejected⟩, hafter, hs⟩ := bind_returns.mp hs
        have hh₃ : ∃ a₃, Holds harqRoundMax ue₃.harq [] a₃ f₁ r₂ := by
          unfold afterFeedback at hafter
          split at hafter
          · exact nrCheckMsg4MsgBAck_spec hh₂ hafter
          · grind
        obtain ⟨a₃, hh₃⟩ := hh₃
        dsimp only at hs
        split at hs
        · obtain rfl := Except.ok.inj hs
          exact ⟨a₃, f₁, r₂, hh₃⟩
        · exact ih hh₃ hs
      · cases hs

theorem occupy_holds {h : HarqLists PdschInfo} (hh : Holds harqRoundMax h [pid] a f r)
    (pucch : Option (ℤ × ℤ)) : ∃ a' f', Holds harqRoundMax (occupy h pid pucch) [] a' f' r := by
  cases pucch with
  | none => exact ⟨_, _, hh.finish⟩
  | some time => exact ⟨_, _, hh.await _⟩

theorem postProcessDlsch_spec (hh : Holds harqRoundMax ue.harq [] a f r)
    {sel : Option (Fin maxHarqProcesses)} {pucch : Option (ℤ × ℤ)} {action : Bool}
    (hs : postProcessDlsch ue sel pucch action = .ok ue') :
    ∃ a' f' r', Holds harqRoundMax ue'.harq [] a' f' r' := by
  rw [postProcessDlsch] at hs
  obtain ⟨⟨pid, harq⟩, htake, hs⟩ := bind_returns.mp hs
  obtain ⟨a₁, r₁, hh₁, _⟩ := hh.takeProcess htake
  dsimp only at hs
  split at hs
  · cases hs
  · obtain rfl := Except.ok.inj hs
    obtain ⟨a₂, f₂, hh₂⟩ := occupy_holds hh₁ pucch
    refine ⟨a₂, f₂, r₁, hh₂.congr ?_⟩
    grind

theorem nrGenerateMsg4MsgB_spec (hh : Holds harqRoundMax ue.harq [] a f r) {pucch : ℤ × ℤ}
    (hnone : ue.harq.retrans.head = none) (hs : nrGenerateMsg4MsgB ue pucch = .ok ue') :
    ∃ a' f' r', Holds harqRoundMax ue'.harq [] a' f' r' := by
  unfold nrGenerateMsg4MsgB at hs
  split at hs
  · obtain ⟨⟨pid, harq⟩, hmsg4, hs⟩ := bind_returns.mp hs
    -- without retransmissions this is how every transmission gets its process
    have htake : takeProcess ue.harq none = .ok (pid, harq) := by
      rw [msg4Process, hnone] at hmsg4
      exact hmsg4
    obtain ⟨a₁, r₁, hh₁, _⟩ := hh.takeProcess htake
    dsimp only at hs
    split at hs
    · cases hs
    · obtain rfl := Except.ok.inj hs
      obtain ⟨a₂, f₂, hh₂⟩ := occupy_holds hh₁ (some pucch)
      exact ⟨a₂, f₂, r₁, hh₂⟩
  · cases hs

end Steps

/-! ### Runs -/

/-- Msg4 and MsgB are generated only when no process waits for its retransmission. -/
def NoMsg4Retransmission (ue : Ue) : DlEvent → Prop
  | .msg4 _ => ue.harq.retrans.head = none
  | _ => True

/-- **One event keeps the partition.** -/
theorem dlStep_holds {harqRoundMax : ℕ} {ue ue' : Ue} {e : DlEvent} {o : Unit}
    (h : ∃ a f r, Holds harqRoundMax ue.harq [] a f r) (hg : NoMsg4Retransmission ue e)
    (hs : dlStep harqRoundMax ue e = .ok (ue', o)) :
    ∃ a f r, Holds harqRoundMax ue'.harq [] a f r := by
  obtain ⟨a, f, r, hh⟩ := h
  cases e with
  | postProcess sel pucch action =>
    obtain ⟨ue₁, hcall, heq⟩ := map_returns.mp hs
    obtain ⟨rfl, _⟩ := Prod.mk.inj heq
    exact postProcessDlsch_spec hh hcall
  | msg4 pucch =>
    obtain ⟨ue₁, hcall, heq⟩ := map_returns.mp hs
    obtain ⟨rfl, _⟩ := Prod.mk.inj heq
    exact nrGenerateMsg4MsgB_spec hh hg hcall
  | uci01 frame slot confidence values =>
    obtain ⟨ue₁, hcall, heq⟩ := map_returns.mp hs
    obtain ⟨rfl, _⟩ := Prod.mk.inj heq
    grind [handleNrUciPucch01, harqBits_spec]
  | uci234 frame slot crc payload bitLen =>
    obtain ⟨ue₁, hcall, heq⟩ := map_returns.mp hs
    obtain ⟨rfl, _⟩ := Prod.mk.inj heq
    grind [handleNrUciPucch234, harqBits_spec]
  | reset =>
    obtain ⟨harq, hreset, hh', _⟩ := hh.reset fun info => { info with feedbackSlot := -1 }
    rw [dlStep, hreset] at hs
    obtain ⟨rfl, _⟩ := ok_inj hs
    exact ⟨_, _, _, hh'⟩
  | configure c =>
    obtain ⟨harq, hcreate, rfl, _⟩ := bind_pair_inj hs
    obtain ⟨a', hh', _⟩ := createDlHarqList_spec hh hcreate
    exact ⟨a', f, r, hh'⟩
  | setCellGroup c =>
    obtain ⟨rfl, _⟩ := ok_inj hs
    exact ⟨a, f, r, hh⟩
  | setReconfigCellGroup c =>
    obtain ⟨rfl, _⟩ := ok_inj hs
    exact ⟨a, f, r, hh⟩

theorem reachable_holds {harqRoundMax : ℕ} {phase : Phase} {c : CellGroup}
    {cellGroup reconfigCellGroup : Option CellGroup} {ue : Ue}
    (h : Reachable (dlStep harqRoundMax) NoMsg4Retransmission
      (dlStart phase c cellGroup reconfigCellGroup) ue) :
    ∃ a f r, Holds harqRoundMax ue.harq [] a f r := by
  refine h.invariant (fun ue => ∃ a f r, Holds harqRoundMax ue.harq [] a f r) ?_
    fun _ _ _ _ hinv hg hs => dlStep_holds hinv hg hs
  obtain ⟨a, ha⟩ := holds_newProcesses harqRoundMax (⟨0, 0, false⟩ : PdschInfo) (nrofHarq_le c)
  exact ⟨a, [], [], ha⟩

/-- **The downlink HARQ processes of a UE stay partitioned** in every run that generates no Msg4 or
MsgB while a process waits for its retransmission. -/
theorem reachable_partitioned {harqRoundMax : ℕ} {phase : Phase} {c : CellGroup}
    {cellGroup reconfigCellGroup : Option CellGroup} {ue : Ue}
    (h : Reachable (dlStep harqRoundMax) NoMsg4Retransmission
      (dlStart phase c cellGroup reconfigCellGroup) ue) :
    Partitioned harqRoundMax ue.harq := by
  obtain ⟨a, f, r, hholds⟩ := reachable_holds h
  exact hholds.partitioned

/-- The default number of processes. -/
def defaultGroup : CellGroup := ⟨false, none, true⟩

instance (ue : Ue) (e : DlEvent) : Decidable (NoMsg4Retransmission ue e) := by
  cases e <;> unfold NoMsg4Retransmission <;> infer_instance

/-- Msg4 is acknowledged, and two transmissions follow; the feedback of the first is missed. -/
theorem reachable_partitioned_connected :
    ∃ ue : Ue, Reachable (dlStep 4) NoMsg4Retransmission
        (dlStart (.ra 0) defaultGroup (some defaultGroup) none) ue ∧
      (ue.phase = .connected ∧ (ue.harq.processes 1).round = 1) ∧ Partitioned 4 ue.harq := by
  obtain ⟨ue, hue, hf⟩ := exists_reachable (dlStep 4) NoMsg4Retransmission
    (dlStart (.ra 0) defaultGroup (some defaultGroup) none)
    [.msg4 (10, 8), .uci01 10 8 0 [0], .postProcess none (some (12, 8)) false,
      .postProcess none (some (13, 8)) false, .uci234 13 8 0 [1] 1]
    (fun ue => (ue.phase, (ue.harq.processes 1).round)) (b := (.connected, 1)) (by decide +kernel)
  exact ⟨ue, hue, Prod.mk.inj hf, reachable_partitioned hue⟩

/-- **A retransmission of Msg4 is in two lists.**  The process whose Msg4 was not acknowledged is
sent again and then both waits for feedback and is still to be retransmitted. -/
theorem not_partitioned_after_msg4 :
    ¬ ∀ ue : Ue, Reachable (dlStep 4) (fun _ _ => True)
      (dlStart (.ra 0) defaultGroup (some defaultGroup) none) ue → Partitioned 4 ue.harq := by
  intro hall
  obtain ⟨ue, hue, hf⟩ := exists_reachable (dlStep 4) (fun _ _ => True)
    (dlStart (.ra 0) defaultGroup (some defaultGroup) none)
    [.msg4 (10, 8), .uci01 10 8 0 [1], .msg4 (11, 8)]
    (fun ue => (ue.harq.size, (members ue.harq.available).count 0,
      (members ue.harq.feedback).count 0, (members ue.harq.retrans).count 0))
    (b := (8, 0, 1, 1)) (by decide +kernel)
  simp only [Prod.mk.injEq] at hf
  obtain ⟨hsize, h1, h2, h3⟩ := hf
  have honce := (hall ue hue).once 0 (by rw [hsize]; decide)
  omega

end OaiGnb.Mac.DlHarq
