import OaiGnb.Rlc.Pdu
import Mathlib.Data.List.Nodup

/-!
# RLC SDUs and SDU segments

Model of `nr_rlc_sdu.c`.  SDUs are shared by their segments through a pointer and live in a
`Heap`: `sdu i` is the `i`-th SDU ever allocated.  A segment is a node with an address; a
linked list of segments is a `List Segment`, and the tail pointer kept beside it is the
address of a node.  Writing through a tail pointer cuts the list behind the node it points
to, so a stale tail pointer loses segments in the model as it does in the source.
-/

namespace OaiGnb.Rlc

/-- `nr_rlc_sdu_t`; `sn = -1` until the first segment is sent, and `size` is `data.length`. -/
structure Sdu where
  sn : ℤ
  upperLayerId : ℤ
  data : List UInt8
  retxCount : ℤ
  refCount : ℕ
  freeCount : ℕ
  deriving Repr, DecidableEq, Inhabited

/-- The `size` field of the source. -/
def Sdu.size (s : Sdu) : ℕ := s.data.length

/-- `nr_rlc_sdu_segment_t`: its address, the SDU it points to and the bytes it covers. -/
structure Segment where
  addr : ℕ
  sdu : ℕ
  size : ℕ
  so : ℕ
  isFirst : Bool
  isLast : Bool
  deriving Repr, DecidableEq

/-- The SO field, present when the segment is not the first. -/
def putSo (sdu : Segment) (e : Encoder) : Except Fault Encoder :=
  if !sdu.isFirst then putBits e sdu.so 16 else .ok e

/-- The SDUs and segments allocated so far. -/
structure Heap where
  sdu : ℕ → Sdu
  sduTop : ℕ
  segTop : ℕ

/-- Nothing allocated. -/
def Heap.empty : Heap := ⟨fun _ => default, 0, 0⟩

/-- Write one SDU. -/
def Heap.modify (h : Heap) (i : ℕ) (f : Sdu → Sdu) : Heap :=
  { h with sdu := Function.update h.sdu i (f (h.sdu i)) }

/-- `nr_rlc_new_sdu`. -/
def nrRlcNewSdu (h : Heap) (buffer : List UInt8) (upperLayerId : ℤ) : Segment × Heap :=
  (⟨h.segTop, h.sduTop, buffer.length, 0, true, true⟩,
    { sdu := Function.update h.sdu h.sduTop ⟨-1, upperLayerId, buffer, -1, 1, 0⟩
      sduTop := h.sduTop + 1
      segTop := h.segTop + 1 })

/-- `nr_rlc_free_sdu_segment`: returns `true` when the SDU is freed too. -/
def nrRlcFreeSduSegment (h : Heap) (seg : Segment) : Bool × Heap :=
  let h := h.modify seg.sdu (fun s => { s with freeCount := s.freeCount + 1 })
  (decide ((h.sdu seg.sdu).freeCount = (h.sdu seg.sdu).refCount), h)

/-- `nr_rlc_free_sdu_segment_list`. -/
def nrRlcFreeSduSegmentList (h : Heap) : List Segment → Heap
  | [] => h
  | cur :: l => nrRlcFreeSduSegmentList (nrRlcFreeSduSegment h cur).2 l

/-- Find the node an address points to. -/
def derefSegment (list : List Segment) (addr : ℕ) : Option Segment :=
  list.find? (fun s => s.addr == addr)

/-- `p->next = seg` for the node `p` of the list at address `addr`; what followed `p` is no
longer linked. -/
def linkAfter (addr : ℕ) (seg : Segment) : List Segment → List Segment
  | [] => []
  | cur :: l => if cur.addr = addr then [cur, seg] else cur :: linkAfter addr seg l

/-- `nr_rlc_sdu_segment_list_append` on a list and its tail pointer. -/
def nrRlcSduSegmentListAppend (list : List Segment) (listEnd : Option ℕ) (seg : Segment) :
    Except Fault (List Segment × Option ℕ) :=
  match list, listEnd with
  | [], _ => .ok ([seg], some seg.addr)
  | _ :: _, none => .error .badPointer
  | list, some addr =>
      match derefSegment list addr with
      | none => .error .badPointer
      | some _ => .ok (linkAfter addr seg list, some seg.addr)

/-! ### The tail pointer -/

/-- The address of the last node, `none` (NULL) exactly for the empty list. -/
def lastAddr (list : List Segment) : Option ℕ := list.getLast?.map Segment.addr

@[simp] theorem lastAddr_nil : lastAddr [] = none := rfl

@[simp] theorem lastAddr_concat (list : List Segment) (seg : Segment) :
    lastAddr (list ++ [seg]) = some seg.addr := by
  simp [lastAddr]

theorem lastAddr_cons_cons (a b : Segment) (list : List Segment) :
    lastAddr (a :: b :: list) = lastAddr (b :: list) := by
  simp [lastAddr, List.getLast?_cons_cons]

variable {list : List Segment}

theorem lastAddr_eq_none : lastAddr list = none ↔ list = [] := by
  simp [lastAddr]

theorem lastAddr_append_of_ne_nil (l l' : List Segment) (h : l' ≠ []) :
    lastAddr (l ++ l') = lastAddr l' := by
  rw [lastAddr, lastAddr, List.getLast?_append_of_ne_nil l h]

theorem exists_concat_of_lastAddr {a : ℕ} (h : lastAddr list = some a) :
    ∃ init s, list = init ++ [s] ∧ s.addr = a := by
  rcases List.eq_nil_or_concat' list with rfl | ⟨init, s, rfl⟩
  · simp at h
  · simp_all

variable {init : List Segment} {s : Segment}

theorem linkAfter_concat (seg : Segment) (h : ((init ++ [s]).map Segment.addr).Nodup) :
    linkAfter s.addr seg (init ++ [s]) = init ++ [s, seg] := by
  induction init with
  | nil => simp [linkAfter]
  | cons a init ih =>
    simp only [List.cons_append, List.map_cons, List.nodup_cons] at h
    have hne : a.addr ≠ s.addr := by
      intro he
      exact h.1 (he ▸ List.mem_map_of_mem (by simp))
    rw [List.cons_append, linkAfter, if_neg hne, ih h.2, List.cons_append]

theorem derefSegment_concat (h : ((init ++ [s]).map Segment.addr).Nodup) :
    derefSegment (init ++ [s]) s.addr = some s := by
  induction init with
  | nil => simp [derefSegment]
  | cons a init ih =>
    simp only [List.cons_append, List.map_cons, List.nodup_cons] at h
    grind [derefSegment, List.find?_cons_of_neg]

/-- **Appending through a correct tail pointer** puts the node at the end and moves the
pointer to it. -/
theorem nrRlcSduSegmentListAppend_eq (seg : Segment) (h : (list.map Segment.addr).Nodup) :
    nrRlcSduSegmentListAppend list (lastAddr list) seg = .ok (list ++ [seg], some seg.addr) := by
  rcases List.eq_nil_or_concat' list with rfl | ⟨init, s, rfl⟩
  · rfl
  · have hs := derefSegment_concat h
    have hl := linkAfter_concat seg h
    rw [lastAddr_concat]
    cases init with
    | nil => grind [nrRlcSduSegmentListAppend]
    | cons a init =>
      simp only [List.cons_append] at hs hl ⊢
      simp only [nrRlcSduSegmentListAppend, hs, hl, List.append_assoc, List.cons_append,
        List.nil_append]

/-! ### Removing a node -/

/-- Remove a node from the list; the tail pointer moves to the node before it when it pointed
to the removed node. -/
def unlink (list : List Segment) (listEnd : Option ℕ) (cur : Segment) :
    List Segment × Option ℕ :=
  let before := list.takeWhile (fun s => s.addr ≠ cur.addr)
  (before ++ (list.dropWhile (fun s => s.addr ≠ cur.addr)).drop 1,
    if listEnd = some cur.addr then lastAddr before else listEnd)

/-- The first segment in the list of the SDU with this upper layer id. -/
def findSdu (heap : Heap) (list : List Segment) (sduId : ℤ) : Option Segment :=
  list.find? (fun s => (heap.sdu s.sdu).upperLayerId == sduId)

variable {cur : Segment}

theorem unlink_spec (h : cur ∈ list) (hn : (list.map Segment.addr).Nodup) :
    ∃ before after, list = before ++ cur :: after ∧
      unlink list (lastAddr list) cur = (before ++ after, lastAddr (before ++ after)) := by
  obtain ⟨before, after, rfl⟩ := List.append_of_mem h
  rw [List.map_append, List.map_cons, List.nodup_append, List.nodup_cons] at hn
  have hne : ∀ s ∈ before, s.addr ≠ cur.addr := fun s hs =>
    hn.2.2 _ (List.mem_map_of_mem hs) _ List.mem_cons_self
  have htake : (before ++ cur :: after).takeWhile (fun s => s.addr ≠ cur.addr) = before := by
    rw [List.takeWhile_append_of_pos (by simpa using hne)]
    simp
  have hdrop : (before ++ cur :: after).dropWhile (fun s => s.addr ≠ cur.addr) = cur :: after := by
    rw [List.dropWhile_append_of_pos (by simpa using hne)]
    simp
  refine ⟨before, after, rfl, ?_⟩
  simp only [unlink, htake, hdrop, List.drop_succ_cons, List.drop_zero, Prod.mk.injEq, true_and]
  cases after with
  | nil => simp
  | cons a after =>
    have hlast : lastAddr (before ++ cur :: a :: after) = lastAddr (before ++ a :: after) := by
      rw [lastAddr_append_of_ne_nil _ _ (by simp), lastAddr_append_of_ne_nil _ _ (by simp),
        lastAddr_cons_cons]
    have hcur : lastAddr (before ++ a :: after) ≠ some cur.addr := by
      intro he
      obtain ⟨init, s, hs, hsa⟩ := exists_concat_of_lastAddr
        ((lastAddr_append_of_ne_nil before (a :: after) (by simp)).symm.trans he)
      exact hn.2.1.1 (hsa ▸ List.mem_map_of_mem (by rw [hs]; simp))
    rw [hlast, if_neg hcur]

theorem findSdu_mem {heap : Heap} {sduId : ℤ}
    (h : findSdu heap list sduId = some cur) : cur ∈ list :=
  List.mem_of_find?_eq_some h

/-! ### Sums over a list of segments -/

/-- The sum of a quantity over the segments of a list. -/
def sumOver (f : Segment → ℤ) (l : List Segment) : ℤ := (l.map f).sum

@[simp] theorem sumOver_nil (f : Segment → ℤ) : sumOver f [] = 0 := rfl

@[simp] theorem sumOver_cons (f : Segment → ℤ) (s : Segment) (l : List Segment) :
    sumOver f (s :: l) = f s + sumOver f l := by
  simp [sumOver]

@[simp] theorem sumOver_append (f : Segment → ℤ) (l l' : List Segment) :
    sumOver f (l ++ l') = sumOver f l + sumOver f l' := by
  simp [sumOver]

/-! ### The heap -/

@[simp] theorem Heap.modify_sdu_self (h : Heap) (i : ℕ) (f : Sdu → Sdu) :
    (h.modify i f).sdu i = f (h.sdu i) := by
  simp [Heap.modify]

@[simp] theorem Heap.modify_sdu_of_ne (h : Heap) {i j : ℕ} (f : Sdu → Sdu) (hij : j ≠ i) :
    (h.modify i f).sdu j = h.sdu j := by
  simp [Heap.modify, Function.update_of_ne hij]

theorem Heap.modify_sdu (h : Heap) (i j : ℕ) (f : Sdu → Sdu) :
    (h.modify i f).sdu j = if j = i then f (h.sdu j) else h.sdu j := by
  split
  · simp_all
  · simp_all

theorem Heap.modify_field {β : Type} (h : Heap) (i j : ℕ) {f : Sdu → Sdu} (g : Sdu → β)
    (hf : ∀ s, g (f s) = g s) : g ((h.modify i f).sdu j) = g (h.sdu j) := by
  rw [Heap.modify_sdu]
  split
  · exact hf _
  · rfl

@[simp] theorem Heap.modify_segTop (h : Heap) (i : ℕ) (f : Sdu → Sdu) :
    (h.modify i f).segTop = h.segTop := rfl

end OaiGnb.Rlc
