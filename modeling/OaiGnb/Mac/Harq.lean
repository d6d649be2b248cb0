import OaiGnb.Lib.IndexList
import OaiGnb.Lib.Run

/-!
# The lists of HARQ processes

What the uplink and the downlink HARQ of a UE share: three lists of process ids, for the processes
that are available, that wait for feedback and that wait for a retransmission, and the processes
themselves.  `NR_list_t` is the index list of `Lib.IndexList`.

* `Partitioned`: every process is in exactly one list, and its state is the one the list stands for.
* `Holds`: the same while a function holds some processes that are in no list; the functions move
  processes between the lists and its hands.
* `Holds.reset`, `Holds.create`: all processes are taken back, and more processes are added.
-/

namespace OaiGnb.Mac.Harq

open Run IndexList

variable {α : Type}

/-- A call that ends the process or does not return. -/
inductive HarqFault where
  | devAssert
  | assertFatal
  | nullPointer
  | loops
  deriving Repr, DecidableEq

/-- `NR_MAX_HARQ_PROCESSES`. -/
def maxHarqProcesses : ℕ := 32

/-- `NR_UE_harq_t`, `NR_UE_ul_harq_t`: a process.  `toggles` counts the changes of `ndi`; no
function reads it. -/
structure Process (α : Type) where
  isWaiting : Bool
  ndi : Bool
  round : ℕ
  info : α
  toggles : ℕ
  deriving Repr, DecidableEq

/-- The three lists and the processes of one direction. -/
structure HarqLists (α : Type) where
  available : IndexList
  feedback : IndexList
  retrans : IndexList
  processes : ℕ → Process α

/-- The number of processes configured. -/
def HarqLists.size (h : HarqLists α) : ℕ := h.available.len

/-! ### List operations that assert -/

/-- `remove_front_nr_list`. -/
def removeFrontNrList (l : IndexList) : Except HarqFault IndexList :=
  match l.removeFront with
  | none => .error .assertFatal
  | some l' => .ok l'

/-- `remove_nr_list`. -/
def removeNrList (l : IndexList) (id : ℕ) : Except HarqFault IndexList :=
  match l.remove id with
  | none => .error .assertFatal
  | some l' => .ok l'

/-- A process for a transmission: the one selected, or else the first that is available.  This is
how `post_process_ulsch` and `post_process_dlsch` begin. -/
def takeProcess (h : HarqLists α) : Option ℕ → Except HarqFault (ℕ × HarqLists α)
  | none =>
      match h.available.head with
      | none => .error .assertFatal
      | some pid => do
          let available ← removeFrontNrList h.available
          return (pid, { h with available := available })
  | some pid =>
      if (h.processes pid).round = 0 then do
        let available ← removeNrList h.available pid
        return (pid, { h with available := available })
      else do
        let retrans ← removeNrList h.retrans pid
        return (pid, { h with retrans := retrans })

/-- A process whose transmission is over. -/
def Process.finish (p : Process α) : Process α :=
  { p with ndi := !p.ndi, toggles := p.toggles + 1, round := 0 }

/-- `finish_nr_ul_harq`, `finish_nr_dl_harq`. -/
def finish (h : HarqLists α) (pid : ℕ) : HarqLists α :=
  { h with
    processes := Function.update h.processes pid (h.processes pid).finish
    available := h.available.addTail pid }

/-- A failed transmission: the process is to be retransmitted, or the last round has failed.
`harqRoundMax - 1` is at most `round` when `harqRoundMax` is 0. -/
def nextRound (harqRoundMax : ℕ) (h : HarqLists α) (pid : ℕ) : HarqLists α :=
  let p := h.processes pid
  if harqRoundMax - 1 ≤ p.round then finish h pid
  else
    { h with
      processes := Function.update h.processes pid { p with round := p.round + 1 }
      retrans := h.retrans.addTail pid }

theorem nextRound_processes (harqRoundMax : ℕ) (h : HarqLists α) (pid : ℕ) :
    (nextRound harqRoundMax h pid).processes = Function.update h.processes pid
      (if harqRoundMax - 1 ≤ (h.processes pid).round then (h.processes pid).finish
        else { h.processes pid with round := (h.processes pid).round + 1 }) := by
  unfold nextRound
  dsimp only
  split <;> rfl

/-- Remove the first process from the feedback list; it waits no longer. -/
def popFeedback (clear : α → α) (h : HarqLists α) (pid : ℕ) : Except HarqFault (HarqLists α) := do
  let feedback ← removeFrontNrList h.feedback
  let p := h.processes pid
  return { h with
    feedback := feedback
    processes := Function.update h.processes pid
      { p with isWaiting := false, info := clear p.info } }

/-- The transmission waits for feedback. -/
def await (h : HarqLists α) (pid : ℕ) (info : α) : HarqLists α :=
  { h with
    feedback := h.feedback.addTail pid
    processes := Function.update h.processes pid
      { h.processes pid with isWaiting := true, info := info } }

/-- `while ((harq = list.head) >= 0) { remove_front_nr_list(list); add_tail_nr_list(available); }`,
in at most the given number of steps. -/
def moveAll : ℕ → IndexList → IndexList → Except HarqFault (IndexList × IndexList)
  | 0, _, _ => .error .loops
  | n + 1, list, available =>
      match list.head with
      | none => .ok (list, available)
      | some pid => do
          let list ← removeFrontNrList list
          moveAll n list (available.addTail pid)

/-- A process after a reset; `clear` is `feedback_slot = -1`. -/
def clearProcess (clear : α → α) (p : Process α) : Process α :=
  { p with info := clear p.info, round := 0, isWaiting := false }

/-- `reset_ul_harq_list`, `reset_dl_harq_list`. -/
def resetHarqList (clear : α → α) (h : HarqLists α) : Except HarqFault (HarqLists α) := do
  let (feedback, available) ← moveAll (h.feedback.len + 1) h.feedback h.available
  let (retrans, available) ← moveAll (h.retrans.len + 1) h.retrans available
  return { available := available
           feedback := feedback
           retrans := retrans
           processes := fun i =>
             if i < maxHarqProcesses then clearProcess clear (h.processes i)
             else h.processes i }

/-- `for (harq = from; harq < from + n; harq++) add_tail_nr_list(list, harq);` -/
def addRange (list : IndexList) (start : ℕ) : ℕ → IndexList
  | 0 => list
  | n + 1 => (addRange list start n).addTail (start + n)

/-- `create_ul_harq_list`, `create_dl_harq_list` for `nrofHarq` processes. -/
def createHarqList (h : HarqLists α) (nrofHarq : ℕ) : Except HarqFault (HarqLists α) :=
  if h.available.len = 0 then
    .ok { h with
      available := addRange (create nrofHarq) 0 nrofHarq
      feedback := create nrofHarq
      retrans := create nrofHarq }
  else if h.available.len = nrofHarq then .ok h
  else
    let oldNrofHarq := h.available.len
    if nrofHarq > oldNrofHarq then
      .ok { h with
        available := addRange (h.available.resize nrofHarq) oldNrofHarq (nrofHarq - oldNrofHarq)
        feedback := h.feedback.resize nrofHarq
        retrans := h.retrans.resize nrofHarq }
    else .error .assertFatal

/-- A UE without processes. -/
def noProcesses (info : α) : HarqLists α :=
  { available := create 0
    feedback := create 0
    retrans := create 0
    processes := fun _ => ⟨false, false, 0, info, 0⟩ }

/-- A new UE: `nrofHarq` processes, all available. -/
def newProcesses (info : α) (nrofHarq : ℕ) : HarqLists α :=
  { noProcesses info with
    available := addRange (create nrofHarq) 0 nrofHarq
    feedback := create nrofHarq
    retrans := create nrofHarq }

theorem createHarqList_noProcesses (info : α) (nrofHarq : ℕ) :
    createHarqList (noProcesses info) nrofHarq = .ok (newProcesses info nrofHarq) := rfl

/-! ### The partition -/

/-- The ids in a list. -/
def members (l : IndexList) : List ℕ := follow l.next l.len l.head

/-- **The partition.**  Every process is in exactly one list, once; the processes that wait are
those in the feedback list; the round of a process that is available is 0, that of a process to be
retransmitted is between 0 and the maximum. -/
structure Partitioned (harqRoundMax : ℕ) (h : HarqLists α) : Prop where
  once : ∀ pid < h.size,
    (members h.available).count pid + (members h.feedback).count pid
      + (members h.retrans).count pid = 1
  waiting : ∀ pid < h.size, (h.processes pid).isWaiting = true ↔ pid ∈ members h.feedback
  fresh : ∀ pid ∈ members h.available, (h.processes pid).round = 0
  again : ∀ pid ∈ members h.retrans,
    0 < (h.processes pid).round ∧ (h.processes pid).round < harqRoundMax

/-- The partition while a function holds some processes. -/
structure Holds (harqRoundMax : ℕ) (h : HarqLists α) (held a f r : List ℕ) : Prop where
  available : h.available.Represents a
  feedback : h.feedback.Represents f
  retrans : h.retrans.Represents r
  feedbackLen : h.feedback.len = h.size
  retransLen : h.retrans.len = h.size
  sizeLe : h.size ≤ maxHarqProcesses
  once : ∀ pid, held.count pid + a.count pid + f.count pid + r.count pid
    = if pid < h.size then 1 else 0
  waiting : ∀ pid, (h.processes pid).isWaiting = true ↔ pid ∈ f
  fresh : ∀ pid, pid ∉ held → pid ∉ f → pid ∉ r → (h.processes pid).round = 0
  again : ∀ pid ∈ r, 0 < (h.processes pid).round ∧ (h.processes pid).round < harqRoundMax

theorem members_eq {il : IndexList} {l : List ℕ} (h : il.Represents l) : members il = l :=
  h.chain.follow h.length_le

variable {h' : HarqLists α} {n : ℕ}

section Moves

variable {harqRoundMax : ℕ} {h : HarqLists α} {held a f r : List ℕ} {pid : ℕ}

section

variable (hh : Holds harqRoundMax h held a f r)

include hh

theorem Holds.excludes (pid : ℕ) :
    held.count pid + a.count pid + f.count pid + r.count pid ≤ 1 := by
  rw [hh.once pid]
  split <;> omega

theorem Holds.lt_size
    (hpos : 0 < held.count pid + a.count pid + f.count pid + r.count pid) : pid < h.size := by
  by_contra hge
  rw [hh.once pid, if_neg hge] at hpos
  omega

theorem Holds.relist {held' a' f' r' : List ℕ}
    (ha : h'.available.Represents a' ∧ h'.available.len = h.available.len)
    (hf : h'.feedback.Represents f' ∧ h'.feedback.len = h.feedback.len)
    (hr : h'.retrans.Represents r' ∧ h'.retrans.len = h.retrans.len)
    (hcount : ∀ q, held'.count q + a'.count q + f'.count q + r'.count q
      = held.count q + a.count q + f.count q + r.count q)
    (hwaiting : ∀ q, (h'.processes q).isWaiting = true ↔ q ∈ f')
    (hfresh : ∀ q, q ∉ held' → q ∉ f' → q ∉ r' → (h'.processes q).round = 0)
    (hagain : ∀ q ∈ r', 0 < (h'.processes q).round ∧ (h'.processes q).round < harqRoundMax) :
    Holds harqRoundMax h' held' a' f' r' := by
  have hsize : h'.size = h.size := ha.2
  refine ⟨ha.1, hf.1, hr.1, ?_, ?_, ?_, ?_, hwaiting, hfresh, hagain⟩
  · rw [hf.2, hsize, hh.feedbackLen]
  · rw [hr.2, hsize, hh.retransLen]
  · rw [hsize]
    exact hh.sizeLe
  · intro q
    rw [hcount q, hsize]
    exact hh.once q

theorem Holds.take {l : IndexList} {a' : List ℕ}
    (hl : l.Represents a' ∧ l.len = h.available.len) (hperm : a.Perm (pid :: a')) :
    Holds harqRoundMax { h with available := l } (pid :: held) a' f r := by
  refine hh.relist hl ⟨hh.feedback, rfl⟩ ⟨hh.retrans, rfl⟩ ?_ hh.waiting ?_ hh.again
  · intro q
    have := hperm.count_eq q
    grind
  · intro q hq
    exact hh.fresh q fun hmem => hq (List.mem_cons_of_mem _ hmem)

theorem Holds.takeRetrans (hmem : pid ∈ r) :
    ∃ l, h.retrans.remove pid = some l ∧
      Holds harqRoundMax { h with retrans := l } (pid :: held) a f (r.erase pid) := by
  obtain ⟨l, hl, hlen, hrep⟩ := hh.retrans.remove hmem
  refine ⟨l, hl, hh.relist ⟨hh.available, rfl⟩ ⟨hh.feedback, rfl⟩ ⟨hrep, hlen⟩ ?_ hh.waiting ?_
    fun q hq => hh.again q (List.mem_of_mem_erase hq)⟩
  · grind
  · intro q hq hqf hqr
    rw [List.mem_cons, not_or] at hq
    exact hh.fresh q hq.2 hqf fun hmem => hqr ((List.mem_erase_of_ne hq.1).mpr hmem)

end

theorem Holds.partitioned (hh : Holds harqRoundMax h [] a f r) : Partitioned harqRoundMax h := by
  have ha := members_eq hh.available
  have hf := members_eq hh.feedback
  have hr := members_eq hh.retrans
  refine ⟨?_, ?_, ?_, ?_⟩
  · intro pid hpid
    have honce := hh.once pid
    simp_all
  · intro pid _
    rw [hf]
    exact hh.waiting pid
  · intro pid hpid
    rw [ha] at hpid
    have hx := hh.excludes pid
    have hpos := List.count_pos_iff.mpr hpid
    refine hh.fresh pid List.not_mem_nil ?_ ?_
    · exact List.count_eq_zero.mp (by omega)
    · exact List.count_eq_zero.mp (by omega)
  · intro pid hpid
    rw [hr] at hpid
    exact hh.again pid hpid

theorem Holds.takeFeedback (hh : Holds harqRoundMax h held a (pid :: f) r) :
    ∃ l, h.feedback.removeFront = some l ∧
      ∀ p : Process α, p.isWaiting = false →
        Holds harqRoundMax
          { h with feedback := l, processes := Function.update h.processes pid p }
          (pid :: held) a f r := by
  obtain ⟨l, hl, hlen, hrep⟩ := hh.feedback.removeFront
  refine ⟨l, hl, fun p hp => ?_⟩
  have hx := hh.excludes pid
  rw [List.count_cons_self] at hx
  have hpf : pid ∉ f := List.count_eq_zero.mp (by omega)
  have hpr : pid ∉ r := List.count_eq_zero.mp (by omega)
  refine hh.relist ⟨hh.available, rfl⟩ ⟨hrep, hlen⟩ ⟨hh.retrans, rfl⟩ ?_ ?_ ?_ ?_
  · grind
  · intro q
    show (Function.update h.processes pid p q).isWaiting = true ↔ q ∈ f
    by_cases hq : q = pid
    · simp_all
    · rw [Function.update_of_ne hq, hh.waiting q, List.mem_cons]
      exact or_iff_right hq
  · intro q hq hqf hqr
    rw [List.mem_cons, not_or] at hq
    show (Function.update h.processes pid p q).round = 0
    rw [Function.update_of_ne hq.1]
    exact hh.fresh q hq.2 (fun hmem => (List.mem_cons.mp hmem).elim hq.1 hqf) hqr
  · intro q hq
    have hne : q ≠ pid := fun heq => hpr (heq ▸ hq)
    show 0 < (Function.update h.processes pid p q).round
      ∧ (Function.update h.processes pid p q).round < harqRoundMax
    rw [Function.update_of_ne hne]
    exact hh.again q hq

theorem Holds.popFeedback (hh : Holds harqRoundMax h held a (pid :: f) r) (clear : α → α) :
    ∃ h', popFeedback clear h pid = .ok h' ∧ Holds harqRoundMax h' (pid :: held) a f r ∧
      h'.processes = Function.update h.processes pid
        { h.processes pid with isWaiting := false, info := clear (h.processes pid).info } := by
  obtain ⟨l, hl, hh'⟩ := hh.takeFeedback
  refine ⟨_, ?_, hh' _ rfl, rfl⟩
  rw [Harq.popFeedback, removeFrontNrList, hl]
  rfl

theorem Holds.inHand (hh : Holds harqRoundMax h (pid :: held) a f r) :
    pid < h.size ∧ pid ∉ a ∧ pid ∉ f ∧ pid ∉ r := by
  have hx := hh.excludes pid
  rw [List.count_cons_self] at hx
  refine ⟨hh.lt_size ?_, List.count_eq_zero.mp ?_, List.count_eq_zero.mp ?_,
    List.count_eq_zero.mp ?_⟩
  · grind
  all_goals omega

theorem addTail_len (l : IndexList) (id : ℕ) : (l.addTail id).len = l.len := by
  unfold IndexList.addTail
  split <;> rfl

theorem mem_concat_ne {q : ℕ} (hne : q ≠ pid) (l : List ℕ) : q ∈ l ++ [pid] ↔ q ∈ l := by simp_all

section

variable (hh : Holds harqRoundMax h (pid :: held) a f r)

include hh

theorem Holds.put
    {p : Process α} {a' f' r' : List ℕ} (hp : h'.processes = Function.update h.processes pid p)
    (ha : h'.available.Represents a' ∧ h'.available.len = h.available.len)
    (hf : h'.feedback.Represents f' ∧ h'.feedback.len = h.feedback.len)
    (hr : h'.retrans.Represents r' ∧ h'.retrans.len = h.retrans.len)
    (hcount : ∀ q, held.count q + a'.count q + f'.count q + r'.count q
      = (pid :: held).count q + a.count q + f.count q + r.count q)
    (hf' : ∀ q, q ≠ pid → (q ∈ f' ↔ q ∈ f)) (hr' : ∀ q, q ≠ pid → (q ∈ r' ↔ q ∈ r))
    (hwaiting : p.isWaiting = true ↔ pid ∈ f') (hfresh : pid ∉ f' → pid ∉ r' → p.round = 0)
    (hagain : pid ∈ r' → 0 < p.round ∧ p.round < harqRoundMax) :
    Holds harqRoundMax h' held a' f' r' := by
  refine hh.relist ha hf hr hcount ?_ ?_ ?_
  · intro q
    rw [hp]
    by_cases hq : q = pid
    · simp_all
    · rw [Function.update_of_ne hq, hf' q hq]
      exact hh.waiting q
  · intro q hqh hqf hqr
    rw [hp]
    by_cases hq : q = pid
    · simp_all
    · rw [Function.update_of_ne hq]
      rw [hf' q hq] at hqf
      rw [hr' q hq] at hqr
      exact hh.fresh q (fun hmem => (List.mem_cons.mp hmem).elim hq hqh) hqf hqr
  · intro q hqr
    rw [hp]
    by_cases hq : q = pid
    · simp_all
    · rw [Function.update_of_ne hq]
      exact hh.again q ((hr' q hq).mp hqr)

theorem Holds.finish :
    Holds harqRoundMax (finish h pid) held (a ++ [pid]) f r := by
  obtain ⟨hlt, hpa, hpf, hpr⟩ := hh.inHand
  refine hh.put rfl ⟨hh.available.addTail hpa hlt, addTail_len _ _⟩ ⟨hh.feedback, rfl⟩
    ⟨hh.retrans, rfl⟩ ?_ (fun _ _ => Iff.rfl) (fun _ _ => Iff.rfl) (hh.waiting pid)
    (fun _ _ => rfl) fun hmem => absurd hmem hpr
  grind

theorem Holds.nextRound :
    ∃ a' r', Holds harqRoundMax (nextRound harqRoundMax h pid) held a' f r' := by
  obtain ⟨hlt, hpa, hpf, hpr⟩ := hh.inHand
  unfold Harq.nextRound
  by_cases hlast : harqRoundMax - 1 ≤ (h.processes pid).round
  · rw [if_pos hlast]
    exact ⟨_, _, hh.finish⟩
  · rw [if_neg hlast]
    rw [← hh.retransLen] at hlt
    refine ⟨a, r ++ [pid], hh.put rfl ⟨hh.available, rfl⟩ ⟨hh.feedback, rfl⟩
      ⟨hh.retrans.addTail hpr hlt, addTail_len _ _⟩ ?_ (fun _ _ => Iff.rfl)
      (fun _ hne => mem_concat_ne hne r) (hh.waiting pid) ?_ ?_⟩
    · grind
    · simp
    · simp_all

theorem Holds.await (info : α) :
    Holds harqRoundMax (await h pid info) held a (f ++ [pid]) r := by
  obtain ⟨hlt, hpa, hpf, hpr⟩ := hh.inHand
  rw [← hh.feedbackLen] at hlt
  have hmem : pid ∈ f ++ [pid] := List.mem_append_right _ (List.mem_singleton_self pid)
  refine hh.put rfl ⟨hh.available, rfl⟩ ⟨hh.feedback.addTail hpf hlt, addTail_len _ _⟩
    ⟨hh.retrans, rfl⟩ ?_ (fun _ hne => mem_concat_ne hne f) (fun _ _ => Iff.rfl)
    ⟨fun _ => hmem, fun _ => rfl⟩ (fun hnot => absurd hmem hnot) fun hmem => absurd hmem hpr
  grind

end

theorem Holds.congr (hh : Holds harqRoundMax h held a f r) {processes : ℕ → Process α}
    (hp : ∀ q, (processes q).isWaiting = (h.processes q).isWaiting
      ∧ (processes q).round = (h.processes q).round) :
    Holds harqRoundMax { h with processes := processes } held a f r := by
  refine hh.relist ⟨hh.available, rfl⟩ ⟨hh.feedback, rfl⟩ ⟨hh.retrans, rfl⟩ (fun _ => rfl)
    ?_ ?_ ?_
  · intro q
    rw [(hp q).1]
    exact hh.waiting q
  · intro q
    rw [(hp q).2]
    exact hh.fresh q
  · intro q
    rw [(hp q).2]
    exact hh.again q

theorem Holds.takeProcess (hh : Holds harqRoundMax h held a f r) {sel : Option ℕ}
    (ht : takeProcess h sel = .ok (pid, h')) :
    ∃ a' r', Holds harqRoundMax h' (pid :: held) a' f r' ∧ h'.processes = h.processes := by
  cases sel with
  | none =>
    rw [Harq.takeProcess] at ht
    cases a with
    | nil =>
      rw [hh.available.head_nil] at ht
      cases ht
    | cons pid₀ a =>
      obtain ⟨l, hl, hlen, hrep⟩ := hh.available.removeFront
      rw [hh.available.head_cons] at ht
      simp only [removeFrontNrList, hl, ok_bind] at ht
      obtain ⟨rfl, rfl⟩ := ok_inj ht
      exact ⟨a, r, hh.take ⟨hrep, hlen⟩ (List.Perm.refl _), rfl⟩
  | some pid₀ =>
    rw [Harq.takeProcess] at ht
    split at ht
    · by_cases hmem : pid₀ ∈ a
      · obtain ⟨l, hl, hlen, hrep⟩ := hh.available.remove hmem
        simp only [removeNrList, hl, ok_bind] at ht
        obtain ⟨rfl, rfl⟩ := ok_inj ht
        exact ⟨_, r, hh.take ⟨hrep, hlen⟩ (List.perm_cons_erase hmem), rfl⟩
      · simp only [removeNrList, hh.available.remove_none hmem, error_bind] at ht
        cases ht
    · by_cases hmem : pid₀ ∈ r
      · obtain ⟨l, hl, hh'⟩ := hh.takeRetrans hmem
        simp only [removeNrList, hl, ok_bind] at ht
        obtain ⟨rfl, rfl⟩ := ok_inj ht
        exact ⟨a, _, hh', rfl⟩
      · simp only [removeNrList, hh.retrans.remove_none hmem, error_bind] at ht
        cases ht

end Moves

/-! ### Reset and enlargement -/

theorem moveAll_spec {l : List ℕ} {n : ℕ} {list available : IndexList} {a : List ℕ}
    (hn : l.length < n) (hl : list.Represents l) (ha : available.Represents a)
    (hfree : ∀ i ∈ l, i ∉ a) (hlt : ∀ i ∈ l, i < available.len) :
    ∃ list' available', moveAll n list available = .ok (list', available') ∧
      list'.Represents [] ∧ available'.Represents (a ++ l) ∧
      list'.len = list.len ∧ available'.len = available.len := by
  induction l generalizing n list available a with
  | nil =>
    obtain ⟨n, rfl⟩ : ∃ k, n = k + 1 := ⟨n - 1, by rw [List.length_nil] at hn; omega⟩
    refine ⟨list, available, ?_, hl, ?_, rfl, rfl⟩
    · rw [moveAll, hl.head_nil]
    · simp_all
  | cons pid l ih =>
    rw [List.length_cons] at hn
    rcases n with _ | n
    · omega
    obtain ⟨list₁, hlist₁, hlen₁, hrep₁⟩ := hl.removeFront
    have hpid : pid ∈ pid :: l := List.mem_cons_self
    have hadd := ha.addTail (hfree pid hpid) (hlt pid hpid)
    have hpl := (List.nodup_cons.mp hl.nodup).1
    obtain ⟨list', available', hmove, h1, h2, h3, h4⟩ := ih (n := n) (by omega) hrep₁ hadd
      (fun i hi hmem => by simp_all)
      (fun i hi => by grind [addTail_len, List.mem_cons_of_mem])
    refine ⟨list', available', ?_, h1, ?_, h3.trans hlen₁, h4.trans (addTail_len _ _)⟩
    · rw [moveAll, hl.head_cons]
      grind [removeFrontNrList, ok_bind]
    · simp_all

/-- **A reset returns, and every process is available again.** -/
theorem Holds.reset {harqRoundMax : ℕ} {h : HarqLists α} {a f r : List ℕ}
    (hh : Holds harqRoundMax h [] a f r) (clear : α → α) :
    ∃ h', resetHarqList clear h = .ok h' ∧ Holds harqRoundMax h' [] (a ++ f ++ r) [] [] ∧
      ∀ q, (h'.processes q).isWaiting = false ∧ (h'.processes q).round = 0
        ∧ (h'.processes q).ndi = (h.processes q).ndi
        ∧ (h'.processes q).toggles = (h.processes q).toggles := by
  have hfree : ∀ i, a.count i + f.count i + r.count i ≤ 1 := by
    intro i
    have := hh.excludes i
    rwa [List.count_nil, Nat.zero_add] at this
  obtain ⟨f', a₁, hf', hrepf, hrepa, hlenf, hlena⟩ := moveAll_spec
    (Nat.lt_add_one_of_le hh.feedback.length_le) hh.feedback hh.available
    (fun i hi => List.count_eq_zero.mp (by grind))
    (fun i hi => (hh.feedback.bound i hi).trans_eq hh.feedbackLen)
  obtain ⟨r', a₂, hr', hrepr, hrepa₂, hlenr, hlena₂⟩ := moveAll_spec
    (Nat.lt_add_one_of_le hh.retrans.length_le) hh.retrans hrepa
    (fun i hi => List.count_eq_zero.mp (by grind)) (fun i hi => by
      rw [hlena]
      exact (hh.retrans.bound i hi).trans_eq hh.retransLen)
  have hsize := hlena₂.trans hlena
  have hold : ∀ q, ¬ q < maxHarqProcesses →
      (h.processes q).isWaiting = false ∧ (h.processes q).round = 0 := by
    intro q hq
    have honce := hh.once q
    have hle := hh.sizeLe
    rw [if_neg (by omega)] at honce
    have hqf : q ∉ f := List.count_eq_zero.mp (by omega)
    have hqr : q ∉ r := List.count_eq_zero.mp (by omega)
    refine ⟨?_, hh.fresh q List.not_mem_nil hqf hqr⟩
    exact Bool.eq_false_iff.mpr fun hw => hqf ((hh.waiting q).mp hw)
  let processes : ℕ → Process α := fun i =>
    if i < maxHarqProcesses then clearProcess clear (h.processes i) else h.processes i
  have hclear : ∀ q, (processes q).isWaiting = false ∧ (processes q).round = 0
      ∧ (processes q).ndi = (h.processes q).ndi
      ∧ (processes q).toggles = (h.processes q).toggles := by
    intro q
    by_cases hq : q < maxHarqProcesses
    · rw [show processes q = clearProcess clear (h.processes q) from if_pos hq]
      exact ⟨rfl, rfl, rfl, rfl⟩
    · grind
  refine ⟨⟨a₂, f', r', processes⟩, ?_, ?_, hclear⟩
  · rw [resetHarqList, hf', ok_bind]
    show (do let (retrans, available) ← moveAll (h.retrans.len + 1) h.retrans a₁; _) = _
    rw [hr', ok_bind]
    rfl
  · refine ⟨hrepa₂, hrepf, hrepr, ?_, ?_, ?_, ?_, ?_, ?_, ?_⟩
    · exact (hlenf.trans hh.feedbackLen).trans hsize.symm
    · exact (hlenr.trans hh.retransLen).trans hsize.symm
    · exact hsize.trans_le hh.sizeLe
    · intro q
      have honce := hh.once q
      show _ = if q < a₂.len then 1 else 0
      rw [hsize, ← show _ = if q < h.available.len then 1 else 0 from honce]
      grind
    · simp_all
    · simp_all
    · simp

theorem addRange_spec {list : IndexList} {l : List ℕ} (hl : list.Represents l) {start : ℕ}
    (hfree : ∀ i ∈ l, i < start) (n : ℕ) (hn : start + n ≤ list.len) :
    (addRange list start n).Represents (l ++ List.range' start n) ∧
      (addRange list start n).len = list.len := by
  induction n with
  | zero =>
    rw [addRange, List.range'_zero, List.append_nil]
    exact ⟨hl, rfl⟩
  | succ n ih =>
    obtain ⟨hrep, hlen⟩ := ih (by omega)
    rw [addRange, List.range'_1_concat, ← List.append_assoc]
    refine ⟨hrep.addTail ?_ (by rw [hlen]; omega), (addTail_len _ _).trans hlen⟩
    grind

theorem Holds.enlarge {harqRoundMax : ℕ} {h : HarqLists α} {held a f r : List ℕ}
    (hh : Holds harqRoundMax h held a f r) (hn : n ≤ maxHarqProcesses) (hle : h.size ≤ n)
    (ha : h'.available.Represents (a ++ List.range' h.size (n - h.size)) ∧ h'.available.len = n)
    (hf : h'.feedback.Represents f ∧ h'.feedback.len = n)
    (hr : h'.retrans.Represents r ∧ h'.retrans.len = n) (hp : h'.processes = h.processes) :
    Holds harqRoundMax h' held (a ++ List.range' h.size (n - h.size)) f r := by
  have hsize : h'.size = n := ha.2
  refine ⟨ha.1, hf.1, hr.1, ?_, ?_, ?_, ?_, ?_, ?_, ?_⟩
  · rw [hf.2, hsize]
  · rw [hr.2, hsize]
  · rw [hsize]
    exact hn
  · intro q
    have honce := hh.once q
    grind
  · rw [hp]
    exact hh.waiting
  · rw [hp]
    exact hh.fresh
  · rw [hp]
    exact hh.again

/-- **Creating the lists, or making them larger.** -/
theorem Holds.create {harqRoundMax : ℕ} {h : HarqLists α} {held a f r : List ℕ}
    (hh : Holds harqRoundMax h held a f r) (hn : n ≤ maxHarqProcesses)
    (hc : createHarqList h n = .ok h') :
    ∃ a', Holds harqRoundMax h' held a' f r ∧ h'.processes = h.processes := by
  rw [createHarqList] at hc
  split at hc
  next hzero =>
    obtain rfl := Except.ok.inj hc
    have hnil : ∀ {l : List ℕ} {il : IndexList}, il.Represents l → il.len = 0 → l = [] := by
      intro l il hl hlen
      exact List.eq_nil_of_length_eq_zero (by have := hl.length_le; omega)
    have ha := hnil hh.available hzero
    have hf := hnil hh.feedback (hh.feedbackLen.trans hzero)
    have hr := hnil hh.retrans (hh.retransLen.trans hzero)
    have hadd := @addRange_spec _ _ (represents_create n) 0
      (List.forall_mem_nil _) n (by rw [Nat.zero_add]; rfl)
    have hsize : h.size = 0 := hzero
    refine ⟨_, hh.enlarge hn (by rw [hsize]; exact Nat.zero_le n) ?_ ?_ ?_ rfl, rfl⟩
    · rw [ha, hsize, Nat.sub_zero]
      exact hadd
    · rw [hf]
      exact ⟨represents_create n, rfl⟩
    · rw [hr]
      exact ⟨represents_create n, rfl⟩
  · split at hc
    · grind
    · dsimp only at hc
      split at hc
      next hgt =>
        obtain rfl := Except.ok.inj hc
        have hle : h.size ≤ n := hgt.le
        refine ⟨_, hh.enlarge hn hle (addRange_spec (hh.available.resize hle) ?_ _ ?_)
          ⟨hh.feedback.resize ?_, rfl⟩ ⟨hh.retrans.resize ?_, rfl⟩ rfl, rfl⟩
        · intro i hi
          exact hh.available.bound i hi
        · show h.size + (n - h.size) ≤ n
          omega
        · rw [hh.feedbackLen]
          exact hle
        · rw [hh.retransLen]
          exact hle
      · cases hc

theorem holds_noProcesses (harqRoundMax : ℕ) (info : α) :
    Holds harqRoundMax (noProcesses info) [] [] [] [] := by
  refine ⟨represents_create 0, represents_create 0, represents_create 0, rfl, rfl,
    Nat.zero_le _, fun _ => rfl, ?_, fun _ _ _ _ => rfl, ?_⟩
  · intro pid
    show false = true ↔ _
    simp
  · simp

theorem holds_newProcesses (harqRoundMax : ℕ) (info : α) (hn : n ≤ maxHarqProcesses) :
    ∃ a, Holds harqRoundMax (newProcesses info n) [] a [] [] := by
  obtain ⟨a, ha, _⟩ := (holds_noProcesses harqRoundMax info).create hn
    (createHarqList_noProcesses info n)
  exact ⟨a, ha⟩

end OaiGnb.Mac.Harq
