import OaiGnb.Mac.Harq

/-!
# Uplink HARQ

`post_process_ulsch`, `handle_nr_ul_harq`, `reset_ul_harq_list` and `create_ul_harq_list` for one
UE, as a state machine, and a monitor that remembers the first transmissions.

* `handleLoop_spec`: the loop over missed CRC indications returns.
* `reachable_harq`: the processes stay partitioned, and the new data indicator changes once between
  first transmissions and never before a retransmission.
-/

namespace OaiGnb.Mac.UlHarq

open Run Mac.Harq

/-- `feedback_slot` and `sched_pusch.tb_size` of a process. -/
structure PuschInfo where
  feedbackSlot : ℤ
  tbSize : ℕ
  deriving Repr, DecidableEq

/-- `radio_config.disable_harq` and `ul_bler.harq_round_max`. -/
structure UlConfig where
  disableHarq : Bool
  harqRoundMax : ℕ
  deriving Repr, DecidableEq

/-- The part of `NR_UE_sched_ctrl_t` that the functions of this file use. -/
structure UlCtrl where
  harq : HarqLists PuschInfo
  schedUlBytes : ℤ

/-- What the DCI of a transmission is filled from. -/
structure Transmission where
  pid : ℕ
  round : ℕ
  ndi : Bool
  toggles : ℕ
  deriving Repr, DecidableEq

/-- A transmission of a process failed: `abort_nr_ul_harq` after the last round, otherwise the
process is to be retransmitted. -/
def failed (cfg : UlConfig) (s : UlCtrl) (pid : ℕ) : UlCtrl :=
  let p := s.harq.processes pid
  { harq := nextRound cfg.harqRoundMax s.harq pid
    schedUlBytes :=
      if cfg.harqRoundMax - 1 ≤ p.round then max 0 (s.schedUlBytes - p.info.tbSize)
      else s.schedUlBytes }

/-- The loop of `handle_nr_ul_harq` over processes whose CRC indication was missed, in at most the
given number of steps; the process the indication is for, if there is one. -/
def handleLoop (cfg : UlConfig) (crcHarqId : ℤ) :
    ℕ → UlCtrl → Except HarqFault (UlCtrl × Option ℕ)
  | 0, _ => .error .loops
  | n + 1, s =>
      match s.harq.feedback.head with
      | none => .ok (s, none)
      | some pid =>
          if crcHarqId = pid then .ok (s, some pid)
          else do
            let harq ← popFeedback id s.harq pid
            handleLoop cfg crcHarqId n (failed cfg { s with harq := harq } pid)

/-- The end of `handle_nr_ul_harq`; a status that is set says the CRC failed. -/
def handleCrc (cfg : UlConfig) (s : UlCtrl) (pid : ℕ) (crcStatus : Bool) :
    Except HarqFault UlCtrl :=
  if (s.harq.processes pid).isWaiting = true then do
    let harq ← popFeedback (fun info => { info with feedbackSlot := -1 }) s.harq pid
    if crcStatus = false then return { s with harq := finish harq pid }
    else return failed cfg { s with harq := harq } pid
  else .error .devAssert

/-- `handle_nr_ul_harq`. -/
def handleNrUlHarq (cfg : UlConfig) (s : UlCtrl) (crcHarqId : ℤ) (crcStatus : Bool) :
    Except HarqFault UlCtrl :=
  if cfg.disableHarq = true then .ok s
  else do
    let (s, pid) ← handleLoop cfg crcHarqId (s.harq.feedback.len + 1) s
    match pid with
    | none => return s
    | some pid => handleCrc cfg s pid crcStatus

/-- The process is in use for a transmission; with HARQ disabled it is available again at once. -/
def occupy (cfg : UlConfig) (h : HarqLists PuschInfo) (pid : ℕ) (slot : ℤ) :
    HarqLists PuschInfo :=
  if cfg.disableHarq = true then finish h pid
  else await h pid { (h.processes pid).info with feedbackSlot := slot }

/-- `post_process_ulsch` for the process `ulHarqPid`, none if it is negative. -/
def postProcessUlsch (cfg : UlConfig) (s : UlCtrl) (ulHarqPid : Option (Fin maxHarqProcesses))
    (slot : ℤ) (tbSize : ℕ) : Except HarqFault (UlCtrl × Transmission) := do
  let (pid, harq) ← takeProcess s.harq (ulHarqPid.map Fin.val)
  if (harq.processes pid).isWaiting = true then .error .devAssert
  else
    let harq := occupy cfg harq pid slot
    let p := harq.processes pid
    if p.round < cfg.harqRoundMax then
      return ({ harq := { harq with
                  processes := Function.update harq.processes pid
                    { p with info := { p.info with tbSize := tbSize } } }
                schedUlBytes :=
                  if p.round = 0 then s.schedUlBytes + tbSize else s.schedUlBytes },
              ⟨pid, p.round, p.ndi, p.toggles⟩)
    else .error .assertFatal

/-- `get_nrofHARQ_ProcessesForPUSCH`. -/
def getNrofHarqProcessesForPusch (nrofHarqProcessesForPuschR17 : Bool) : ℕ :=
  if nrofHarqProcessesForPuschR17 = true then 32 else 16

/-- The number of processes of a UE. -/
def nrofHarq (nrofHarqProcessesForPuschR17 dci0010 : Bool) : ℕ :=
  let n := getNrofHarqProcessesForPusch nrofHarqProcessesForPuschR17
  if dci0010 = true ∧ n > 16 then 16 else n

theorem nrofHarq_le (r17 dci0010 : Bool) : nrofHarq r17 dci0010 ≤ maxHarqProcesses := by
  cases r17 <;> cases dci0010 <;> decide

/-- What happens to the uplink HARQ processes of a UE. -/
inductive UlEvent where
  | postProcess (ulHarqPid : Option (Fin maxHarqProcesses)) (slot : ℤ) (tbSize : ℕ)
  | crc (crcHarqId : ℤ) (crcStatus : Bool)
  | reset
  | create (nrofHarqProcessesForPuschR17 dci0010 : Bool)
  deriving Repr, DecidableEq

/-- One event, with the transmission it makes. -/
def ulStep (cfg : UlConfig) (s : UlCtrl) : UlEvent → Except HarqFault (UlCtrl × Option Transmission)
  | .postProcess ulHarqPid slot tbSize => do
      let (s, tx) ← postProcessUlsch cfg s ulHarqPid slot tbSize
      return (s, some tx)
  | .crc crcHarqId crcStatus => do
      let s ← handleNrUlHarq cfg s crcHarqId crcStatus
      return (s, none)
  | .reset => do
      let harq ← resetHarqList (fun info => { info with feedbackSlot := -1 }) s.harq
      return ({ s with harq := harq }, none)
  | .create r17 dci0010 => do
      let harq ← createHarqList s.harq (nrofHarq r17 dci0010)
      return ({ s with harq := harq }, none)

/-- A UE when it is created. -/
def ulStart (r17 dci0010 : Bool) : UlCtrl := ⟨newProcesses ⟨0, 0⟩ (nrofHarq r17 dci0010), 0⟩

/-! ### The new data indicator -/

/-- A UE together with a monitor: for every process, how often the indicator had changed when the
last first transmission since a reset was made. -/
structure Watched where
  ctrl : UlCtrl
  lastFirst : ℕ → Option ℕ

/-- What the monitor remembers of a transmission. -/
def remember (last : ℕ → Option ℕ) (tx : Transmission) : ℕ → Option ℕ :=
  if tx.round = 0 then Function.update last tx.pid (some tx.toggles) else last

variable {tx : Transmission} {p : Process PuschInfo} {last : ℕ → Option ℕ}

theorem remember_first (h : tx.round = 0) :
    remember last tx tx.pid = some tx.toggles := by
  rw [remember, if_pos h, Function.update_self]

theorem remember_again (h : tx.round ≠ 0) :
    remember last tx = last := if_neg h

theorem remember_of_ne {q : ℕ} (h : q ≠ tx.pid) :
    remember last tx q = last q := by
  unfold remember
  grind

/-- What the monitor remembers after an event. -/
def watch (lastFirst : ℕ → Option ℕ) : UlEvent → Option Transmission → ℕ → Option ℕ
  | .reset, _ => fun _ => none
  | _, none => lastFirst
  | _, some tx => remember lastFirst tx

/-- One event, watched. -/
def watchedStep (cfg : UlConfig) (s : Watched) (e : UlEvent) :
    Except HarqFault (Watched × Option Transmission) := do
  let (ctrl, tx) ← ulStep cfg s.ctrl e
  return (⟨ctrl, watch s.lastFirst e tx⟩, tx)

/-- How often the indicator of a process has changed since its last first transmission: once when
the process is available again, not at all while it is in use.  With HARQ disabled the process is
made available before the DCI is filled. -/
def NdiOk (disableHarq : Bool) (p : Process PuschInfo) (last : Option ℕ) : Prop :=
  p.ndi = decide (p.toggles % 2 = 1) ∧
    if disableHarq = true then
      p.isWaiting = false ∧ p.round = 0 ∧ ∀ t, last = some t → p.toggles = t
    else if p.isWaiting = true ∨ p.round ≠ 0 then last = some p.toggles
    else ∀ t, last = some t → p.toggles = t + 1

/-- The invariant of the runs. -/
structure UlInv (cfg : UlConfig) (ctrl : UlCtrl) (last : ℕ → Option ℕ) (a f r : List ℕ) :
    Prop where
  lists : Holds cfg.harqRoundMax ctrl.harq [] a f r
  ndi : ∀ pid, NdiOk cfg.disableHarq (ctrl.harq.processes pid) (last pid)

theorem finish_ndi (h : p.ndi = decide (p.toggles % 2 = 1)) :
    p.finish.ndi = decide (p.finish.toggles % 2 = 1) := by
  show (!p.ndi) = decide ((p.toggles + 1) % 2 = 1)
  grind

theorem NdiOk.finish {p' : Process PuschInfo} {last : Option ℕ} (h : NdiOk false p last)
    (hw : p.isWaiting = true) (hw' : p'.isWaiting = false) (hn : p'.ndi = p.ndi)
    (ht : p'.toggles = p.toggles) : NdiOk false p'.finish last := by
  obtain ⟨hndi, hlast⟩ := h
  refine ⟨finish_ndi (by rw [hn, ht, hndi]), ?_⟩
  rw [if_neg (by simp), if_neg]
  · intro t hl
    show p'.toggles + 1 = t + 1
    simp_all
  · rintro (hx | hx)
    · exact absurd (hw'.symm.trans hx) (by simp)
    · exact hx rfl

theorem NdiOk.again {p' : Process PuschInfo} {last : Option ℕ} (h : NdiOk false p last)
    (hw : p.isWaiting = true) (hr : p'.round ≠ 0) (hn : p'.ndi = p.ndi)
    (ht : p'.toggles = p.toggles) : NdiOk false p' last := by
  obtain ⟨hndi, hlast⟩ := h
  refine ⟨by rw [hn, ht, hndi], ?_⟩
  simp_all

theorem ndi_update {disableHarq : Bool} {processes : ℕ → Process PuschInfo}
    (h : ∀ q, NdiOk disableHarq (processes q) (last q)) {pid : ℕ}
    (hp : NdiOk disableHarq p (last pid)) (q : ℕ) :
    NdiOk disableHarq (Function.update processes pid p q) (last q) := by grind

section Feedback

variable {cfg : UlConfig} {s : UlCtrl} {last : ℕ → Option ℕ} {a f r : List ℕ} {pid : ℕ}

theorem UlInv.pop (h : UlInv cfg s last a (pid :: f) r) (hcfg : cfg.disableHarq = false)
    (clear : PuschInfo → PuschInfo) :
    ∃ harq, popFeedback clear s.harq pid = .ok harq ∧
      (∃ a', UlInv cfg { s with harq := finish harq pid } last a' f r) ∧
      (∃ a' r', UlInv cfg (failed cfg { s with harq := harq } pid) last a' f r') := by
  obtain ⟨harq, hpop, hh, hproc⟩ := h.lists.popFeedback clear
  have hw : (s.harq.processes pid).isWaiting = true :=
    (h.lists.waiting pid).mpr List.mem_cons_self
  have hndi := h.ndi
  rw [hcfg] at hndi
  have hself : harq.processes pid
      = { s.harq.processes pid with
          isWaiting := false, info := clear (s.harq.processes pid).info } := by
    rw [hproc, Function.update_self]
  have hupdate : ∀ p, Function.update harq.processes pid p
      = Function.update s.harq.processes pid p := by
    intro p
    rw [hproc, Function.update_idem]
  have hfinish : NdiOk false (harq.processes pid).finish (last pid) :=
    (hndi pid).finish hw (by rw [hself]) (by rw [hself]) (by rw [hself])
  refine ⟨harq, hpop, ⟨_, hh.finish, ?_⟩, ?_⟩
  · intro q
    show NdiOk cfg.disableHarq (Function.update harq.processes pid _ q) (last q)
    simp_all [ndi_update]
  · obtain ⟨a', r', hh'⟩ := hh.nextRound
    refine ⟨a', r', hh', ?_⟩
    intro q
    show NdiOk cfg.disableHarq ((nextRound _ harq pid).processes q) (last q)
    rw [nextRound_processes, hupdate, hcfg]
    refine ndi_update hndi ?_ q
    split
    · exact hfinish
    · exact (hndi pid).again hw (Nat.succ_ne_zero _) (by rw [hself]) (by rw [hself])

/-- The loop over missed CRC indications returns; if it finds a process, then that process is the
first that waits for feedback. -/
theorem handleLoop_spec (hcfg : cfg.disableHarq = false) (crcHarqId : ℤ) :
    ∀ {n : ℕ} {s : UlCtrl} {a f r : List ℕ}, UlInv cfg s last a f r → f.length < n →
      ∃ s' found a' f' r', handleLoop cfg crcHarqId n s = .ok (s', found) ∧
        UlInv cfg s' last a' f' r' ∧ f'.head? = found := by
  intro n
  induction n with
  | zero => omega
  | succ n ih =>
    intro s a f r h hn
    cases f with
    | nil =>
      refine ⟨s, none, a, [], r, ?_, h, rfl⟩
      rw [handleLoop, h.lists.feedback.head_nil]
    | cons pid f =>
      by_cases hid : crcHarqId = pid
      · refine ⟨s, some pid, a, pid :: f, r, ?_, h, rfl⟩
        rw [handleLoop, h.lists.feedback.head_cons]
        exact if_pos hid
      · obtain ⟨harq, hpop, _, a', r', h'⟩ := h.pop hcfg id
        obtain ⟨s', found, a₁, f₁, r₁, hloop, hinv, hfound⟩ := ih h' (by simp_all)
        refine ⟨s', found, a₁, f₁, r₁, ?_, hinv, hfound⟩
        rw [handleLoop, h.lists.feedback.head_cons]
        simp_all

/-- **A CRC indication is always handled.** -/
theorem handleNrUlHarq_spec (h : UlInv cfg s last a f r) (crcHarqId : ℤ) (crcStatus : Bool) :
    ∃ s' a' f' r', handleNrUlHarq cfg s crcHarqId crcStatus = .ok s' ∧
      UlInv cfg s' last a' f' r' := by
  unfold handleNrUlHarq
  cases hcfg : cfg.disableHarq with
  | true => exact ⟨s, a, f, r, rfl, h⟩
  | false =>
    obtain ⟨s', found, a', f', r', hloop, hinv, hfound⟩ := handleLoop_spec hcfg crcHarqId h
      (Nat.lt_add_one_of_le h.lists.feedback.length_le)
    rw [if_neg (by simp), hloop, ok_bind]
    cases f' with
    | nil =>
      obtain rfl : none = found := hfound
      exact ⟨s', a', [], r', rfl, hinv⟩
    | cons pid f' =>
      obtain rfl : some pid = found := hfound
      have hw : (s'.harq.processes pid).isWaiting = true :=
        (hinv.lists.waiting pid).mpr List.mem_cons_self
      obtain ⟨harq, hpop, ⟨a₁, hfin⟩, a₂, r₂, hfail⟩ :=
        hinv.pop hcfg fun info => { info with feedbackSlot := -1 }
      show ∃ s₁ a₁ f₁ r₁, handleCrc cfg s' pid crcStatus = .ok s₁ ∧ _
      rw [handleCrc, if_pos hw, hpop, ok_bind]
      cases crcStatus with
      | false => exact ⟨_, _, _, _, rfl, hfin⟩
      | true => exact ⟨_, _, _, _, rfl, hfail⟩

end Feedback

/-! ### Transmissions -/

/-- **The indicator of a transmission.**  It has changed once since the last first transmission of
the process if this is a first transmission, and not at all if this is a retransmission. -/
def NdiOnce (lastFirst : ℕ → Option ℕ) (tx : Transmission) : Prop :=
  tx.ndi = decide (tx.toggles % 2 = 1) ∧
    (tx.round = 0 → ∀ t, lastFirst tx.pid = some t → tx.toggles = t + 1) ∧
    (tx.round ≠ 0 → lastFirst tx.pid = some tx.toggles)

section Transmit

variable {cfg : UlConfig} {last : ℕ → Option ℕ} {a f r : List ℕ} {pid : ℕ}

theorem occupy_holds {h : HarqLists PuschInfo}
    (hh : Holds cfg.harqRoundMax h [pid] a f r) (slot : ℤ) :
    ∃ a' f', Holds cfg.harqRoundMax (occupy cfg h pid slot) [] a' f' r := by
  unfold occupy
  split
  · exact ⟨_, _, hh.finish⟩
  · exact ⟨_, _, hh.await _⟩

theorem occupy_ndi {h : HarqLists PuschInfo}
    (hndi : ∀ q, NdiOk cfg.disableHarq (h.processes q) (last q))
    (hw : (h.processes pid).isWaiting = false) (slot : ℤ) :
    ∃ p, (occupy cfg h pid slot).processes = Function.update h.processes pid p ∧
      NdiOnce last ⟨pid, p.round, p.ndi, p.toggles⟩ ∧
      NdiOk cfg.disableHarq p (remember last ⟨pid, p.round, p.ndi, p.toggles⟩ pid) := by
  obtain ⟨hparity, hlast⟩ := hndi pid
  unfold occupy
  cases hcfg : cfg.disableHarq with
  | true =>
    rw [if_pos hcfg] at hlast
    obtain ⟨_, _, hlast⟩ := hlast
    refine ⟨(h.processes pid).finish, rfl, ⟨finish_ndi hparity, ?_, ?_⟩, finish_ndi hparity, ?_⟩
    · intro _ t ht
      show (h.processes pid).toggles + 1 = t + 1
      rw [hlast t ht]
    · intro hne
      exact absurd rfl hne
    · refine ⟨hw, rfl, ?_⟩
      intro t ht
      exact Option.some.inj ((remember_first rfl).symm.trans ht)
  | false =>
    rw [hcfg, if_neg (by simp)] at hlast
    refine ⟨{ h.processes pid with
      isWaiting := true, info := { (h.processes pid).info with feedbackSlot := slot } }, rfl,
      ?_, hparity, ?_⟩
    · refine ⟨hparity, ?_, ?_⟩
      · intro hround t ht
        have hround : (h.processes pid).round = 0 := hround
        rw [if_neg (by rw [hw, hround]; simp)] at hlast
        exact hlast t ht
      · grind
    · by_cases hround : (h.processes pid).round = 0
      · exact remember_first hround
      · rw [remember_again hround]
        rwa [if_pos (Or.inr hround)] at hlast

theorem postProcessUlsch_spec {s s' : UlCtrl} (h : UlInv cfg s last a f r)
    {sel : Option (Fin maxHarqProcesses)} {slot : ℤ} {tbSize : ℕ}
    (hs : postProcessUlsch cfg s sel slot tbSize = .ok (s', tx)) :
    NdiOnce last tx ∧ ∃ a' f' r', UlInv cfg s' (remember last tx) a' f' r' := by
  rw [postProcessUlsch, bind_returns] at hs
  obtain ⟨⟨pid, harq⟩, htake, hs⟩ := hs
  obtain ⟨a₁, r₁, hh, hproc⟩ := h.lists.takeProcess htake
  dsimp only at hs
  split at hs
  · cases hs
  rename_i hw
  split at hs
  case isFalse => cases hs
  obtain ⟨hs', htx⟩ := ok_inj hs
  have hndi := h.ndi
  rw [← hproc] at hndi
  obtain ⟨p, hocc, honce, hok⟩ := occupy_ndi hndi (Bool.eq_false_iff.mpr hw) slot
  obtain ⟨a₂, f₂, hh₂⟩ := occupy_holds hh slot
  have hself : (occupy cfg harq pid slot).processes pid = p := by
    rw [hocc, Function.update_self]
  rw [hself] at htx hs'
  rw [← htx, ← hs']
  refine ⟨honce, a₂, f₂, r₁, hh₂.congr ?_, ?_⟩
  · grind
  · intro q
    show NdiOk cfg.disableHarq (Function.update (occupy cfg harq pid slot).processes pid _ q) _
    rw [hocc, Function.update_idem]
    by_cases hq : q = pid
    · rw [hq, Function.update_self]
      exact hok
    · grind [Function.update_of_ne, remember_of_ne]

end Transmit

/-! ### Runs -/

/-- **One event keeps the invariant.** -/
theorem watchedStep_inv {cfg : UlConfig} {s s' : Watched} {e : UlEvent} {o : Option Transmission}
    (h : ∃ a f r, UlInv cfg s.ctrl s.lastFirst a f r) (hs : watchedStep cfg s e = .ok (s', o)) :
    (∃ a f r, UlInv cfg s'.ctrl s'.lastFirst a f r) ∧
      ∀ tx, o = some tx → NdiOnce s.lastFirst tx := by
  obtain ⟨a, f, r, h⟩ := h
  rw [watchedStep, bind_returns] at hs
  obtain ⟨⟨ctrl, o₁⟩, hstep, hs⟩ := hs
  obtain ⟨rfl, rfl⟩ := ok_inj hs
  cases e with
  | postProcess sel slot tbSize =>
    rw [ulStep, bind_returns] at hstep
    obtain ⟨⟨ctrl₁, tx⟩, hpost, hstep⟩ := hstep
    obtain ⟨rfl, rfl⟩ := ok_inj hstep
    obtain ⟨honce, hinv⟩ := postProcessUlsch_spec h hpost
    refine ⟨hinv, ?_⟩
    simp_all
  | crc crcHarqId crcStatus =>
    obtain ⟨ctrl₁, a₁, f₁, r₁, hcrc, hinv⟩ := handleNrUlHarq_spec h crcHarqId crcStatus
    rw [ulStep, hcrc] at hstep
    obtain ⟨rfl, rfl⟩ := ok_inj hstep
    exact ⟨⟨a₁, f₁, r₁, hinv⟩, fun _ htx => (by cases htx)⟩
  | reset =>
    obtain ⟨harq, hreset, hh, hproc⟩ :=
      h.lists.reset fun info => { info with feedbackSlot := -1 }
    rw [ulStep, hreset] at hstep
    obtain ⟨rfl, rfl⟩ := ok_inj hstep
    refine ⟨⟨_, _, _, hh, ?_⟩, fun _ htx => (by cases htx)⟩
    intro pid
    obtain ⟨hw, hround, hndi, htoggles⟩ := hproc pid
    refine ⟨?_, ?_⟩
    · rw [hndi, htoggles]
      exact (h.ndi pid).1
    · split
      · exact ⟨hw, hround, fun _ ht => (by cases ht)⟩
      · rw [if_neg (by rw [hw, hround]; simp)]
        exact fun _ ht => (by cases ht)
  | create r17 dci0010 =>
    rw [ulStep, bind_returns] at hstep
    obtain ⟨harq, hcreate, hstep⟩ := hstep
    obtain ⟨rfl, rfl⟩ := ok_inj hstep
    obtain ⟨a₁, hh, hproc⟩ := h.lists.create (nrofHarq_le r17 dci0010) hcreate
    refine ⟨⟨a₁, f, r, hh, ?_⟩, fun _ htx => (by cases htx)⟩
    intro pid
    rw [hproc]
    exact h.ndi pid

theorem ulStart_inv (cfg : UlConfig) (r17 dci0010 : Bool) :
    ∃ a f r, UlInv cfg (ulStart r17 dci0010) (fun _ => none) a f r := by
  obtain ⟨a, ha⟩ := holds_newProcesses cfg.harqRoundMax (⟨0, 0⟩ : PuschInfo)
    (nrofHarq_le r17 dci0010)
  refine ⟨a, [], [], ha, ?_⟩
  intro pid
  refine ⟨rfl, ?_⟩
  split
  · exact ⟨rfl, rfl, fun _ ht => (by cases ht)⟩
  · exact fun _ ht => (by cases ht)

/-- **The uplink HARQ processes of a UE stay partitioned.**  Every transmission that an event makes
has an indicator that changed once since the last first transmission of its process, or not at all
if it is a retransmission. -/
theorem reachable_harq (cfg : UlConfig) (r17 dci0010 : Bool) {s : Watched}
    (h : Reachable (watchedStep cfg) (fun _ _ => True) ⟨ulStart r17 dci0010, fun _ => none⟩ s) :
    Partitioned cfg.harqRoundMax s.ctrl.harq ∧
      ∀ e ctrl tx, ulStep cfg s.ctrl e = .ok (ctrl, some tx) → NdiOnce s.lastFirst tx := by
  have hinv : ∃ a f r, UlInv cfg s.ctrl s.lastFirst a f r :=
    h.invariant (fun s => ∃ a f r, UlInv cfg s.ctrl s.lastFirst a f r)
      (ulStart_inv cfg r17 dci0010) fun _ _ _ _ hinv _ hs => (watchedStep_inv hinv hs).1
  refine ⟨?_, ?_⟩
  · obtain ⟨a, f, r, hinv⟩ := hinv
    exact hinv.lists.partitioned
  · intro e ctrl tx hs
    have hwatched : watchedStep cfg s e
        = .ok (⟨ctrl, watch s.lastFirst e (some tx)⟩, some tx) := by
      rw [watchedStep, hs]
      rfl
    exact (watchedStep_inv hinv hwatched).2 tx rfl

/-- Two first transmissions, of which one indication is missed and one says that the CRC failed; the
first is then retransmitted. -/
theorem reachable_harq_retransmission :
    ∃ s : Watched, Reachable (watchedStep ⟨false, 4⟩) (fun _ _ => True)
        ⟨ulStart false false, fun _ => none⟩ s ∧
      ((s.ctrl.harq.processes 0).round = 1 ∧ s.lastFirst 0 = some 0) ∧
      Partitioned 4 s.ctrl.harq := by
  obtain ⟨s, hs, hf⟩ := exists_reachable (watchedStep ⟨false, 4⟩) (fun _ _ => True)
    ⟨ulStart false false, fun _ => none⟩
    [.postProcess none 3 100, .postProcess none 4 100, .crc 1 true,
      .postProcess (some ⟨0, by decide⟩) 5 100]
    (fun s => ((s.ctrl.harq.processes 0).round, s.lastFirst 0)) (b := (1, some 0))
    (by decide +kernel)
  obtain ⟨hround, hlast⟩ := Prod.mk.inj hf
  exact ⟨s, hs, ⟨hround, hlast⟩, (reachable_harq ⟨false, 4⟩ false false hs).1⟩

end OaiGnb.Mac.UlHarq
