import Mathlib.Tactic.Linarith
import Mathlib.Data.List.Perm.Subperm
import Mathlib.Data.List.Range

/-!
# Linked lists of indices

A singly linked list whose elements are indices: the links are kept in an array, and the head and
the tail beside it.  No link stands for a negative index.

* `Represents`: the links of a list of distinct indices.
* `represents_create`, `Represents.resize`, `Represents.addTail`, `Represents.removeFront`,
  `Represents.remove`: the operations do to the links what they do to the list.
-/

namespace OaiGnb

/-- The links. -/
structure IndexList where
  head : Option ℕ
  next : ℕ → Option ℕ
  tail : Option ℕ
  len : ℕ

namespace IndexList

/-- An empty list for indices below `len`. -/
def create (len : ℕ) : IndexList := ⟨none, fun _ => none, none, len⟩

/-- Make room for indices below `len`; the new links are empty. -/
def resize (l : IndexList) (len : ℕ) : IndexList :=
  { l with next := fun i => if l.len ≤ i ∧ i < len then none else l.next i, len := len }

/-- Add an index at the end. -/
def addTail (l : IndexList) (id : ℕ) : IndexList :=
  match l.tail with
  | none => { l with head := some id, next := Function.update l.next id none, tail := some id }
  | some t =>
      { l with
        next := Function.update (Function.update l.next t (some id)) id none
        tail := some id }

/-- Remove the first index, if there is one. -/
def removeFront (l : IndexList) : Option IndexList :=
  match l.head with
  | none => none
  | some ohead =>
      let head := l.next ohead
      some { l with
        head := head
        next := Function.update l.next ohead none
        tail := if head = none then none else l.tail }

/-- A place where a link is stored: the head, or the successor of an index. -/
inductive Slot where
  | head
  | next (i : ℕ)
  deriving Repr, DecidableEq

/-- The link in a slot. -/
def read (l : IndexList) : Slot → Option ℕ
  | .head => l.head
  | .next i => l.next i

/-- Store a link in a slot. -/
def write (l : IndexList) : Slot → Option ℕ → IndexList
  | .head, link => { l with head := link }
  | .next i, link => { l with next := Function.update l.next i link }

/-- `while (*cur != -1 && *cur != id) { prev = cur; cur = &next[*cur]; }`, in at most the given
number of steps: the slots `prev` and `cur`, none if `id` is not found. -/
def findSlot (l : IndexList) (id : ℕ) : ℕ → Slot → Slot → Option (Slot × Slot)
  | 0, _, _ => none
  | n + 1, prev, cur =>
      match read l cur with
      | none => none
      | some i => if i = id then some (prev, cur) else findSlot l id n cur (.next i)

/-- Remove an index, if it is in the list. -/
def remove (l : IndexList) (id : ℕ) : Option IndexList :=
  match findSlot l id (l.len + 1) .head .head with
  | none => none
  | some (prev, cur) =>
      let l' := write (write l cur (l.next id)) (.next id) none
      some { l' with
        tail := match read l' prev with
          | none => none
          | some p => if (l'.next p).isSome then l.tail else some p }

/-- The indices reached from a link, at most the given number. -/
def follow (next : ℕ → Option ℕ) : ℕ → Option ℕ → List ℕ
  | 0, _ => []
  | _ + 1, none => []
  | n + 1, some i => i :: follow next n (next i)

/-! ### Chains -/

/-- The links from `link` on lead through the given indices. -/
def Chain (next : ℕ → Option ℕ) : Option ℕ → List ℕ → Prop
  | link, [] => link = none
  | link, i :: l => link = some i ∧ Chain next (next i) l

variable {next : ℕ → Option ℕ} {l : List ℕ}

theorem Chain.head {link : Option ℕ} (h : Chain next link l) :
    link = l.head? := by
  cases l with
  | nil => exact h
  | cons i l => exact h.1

theorem Chain.frame {next' : ℕ → Option ℕ} (hf : ∀ i ∈ l, next' i = next i) {link : Option ℕ}
    (h : Chain next link l) : Chain next' link l := by
  induction l generalizing link with
  | nil => exact h
  | cons i l ih =>
    refine ⟨h.1, ?_⟩
    rw [hf i List.mem_cons_self]
    exact ih (List.forall_mem_cons.mp hf).2 h.2

variable {m : List ℕ}

theorem Chain.after {p : ℕ} {link : Option ℕ} (h : Chain next link (l ++ p :: m)) :
    Chain next (next p) m := by
  induction l generalizing link with
  | nil => exact h.2
  | cons i l ih =>
    exact ih h.2

theorem Chain.splice {next : ℕ → Option ℕ} {p : ℕ} {link' : Option ℕ} {l m m' : List ℕ}
    (hp : p ∉ l) (hm : Chain (Function.update next p link') link' m') {link : Option ℕ}
    (h : Chain next link (l ++ p :: m)) :
    Chain (Function.update next p link') link (l ++ p :: m') := by
  induction l generalizing link with
  | nil =>
    refine ⟨h.1, ?_⟩
    simp_all
  | cons i l ih =>
    rw [List.mem_cons, not_or] at hp
    refine ⟨h.1, ?_⟩
    rw [Function.update_of_ne (Ne.symm hp.1)]
    exact ih hp.2 h.2

/-- The links of a list of distinct indices. -/
structure Represents (il : IndexList) (l : List ℕ) : Prop where
  chain : Chain il.next il.head l
  tail : il.tail = l.getLast?
  nodup : l.Nodup
  bound : ∀ i ∈ l, i < il.len

variable {il : IndexList}

theorem Represents.length_le (h : Represents il l) :
    l.length ≤ il.len := by
  have hsub : l.Subperm (List.range il.len) :=
    List.subperm_of_subset h.nodup fun i hi => List.mem_range.mpr (h.bound i hi)
  have := hsub.length_le
  rwa [List.length_range] at this

theorem Chain.follow {n : ℕ} {link : Option ℕ} (h : Chain next link l) (hn : l.length ≤ n) :
    follow next n link = l := by
  induction l generalizing n link with
  | nil =>
    rw [show link = none from h]
    cases n <;> rfl
  | cons i l ih =>
    rw [List.length_cons] at hn
    rcases n with _ | n
    · omega
    rw [h.1, IndexList.follow, ih h.2 (by omega)]

theorem represents_create (len : ℕ) : Represents (create len) [] :=
  ⟨rfl, rfl, List.nodup_nil, List.forall_mem_nil _⟩

theorem Represents.resize (h : Represents il l) {len : ℕ}
    (hlen : il.len ≤ len) : Represents (resize il len) l := by
  refine ⟨h.chain.frame ?_, h.tail, h.nodup, fun i hi => (h.bound i hi).trans_le hlen⟩
  intro i hi
  have := h.bound i hi
  exact if_neg (by omega)

/-! ### The operations -/

variable {id : ℕ}

/-- **Adding an index at the end.** -/
theorem Represents.addTail (h : Represents il l)
    (hnew : id ∉ l) (hid : id < il.len) : Represents (addTail il id) (l ++ [id]) := by
  have hnodup : (l ++ [id]).Nodup := by
    refine List.nodup_append.mpr ⟨h.nodup, by simp, ?_⟩
    intro a ha b hb
    rw [List.mem_singleton.mp hb]
    exact fun heq => hnew (heq ▸ ha)
  have hbound : ∀ i ∈ l ++ [id], i < il.len := by
    intro i hi
    rcases List.mem_append.mp hi with hi | hi
    · exact h.bound i hi
    · simp_all
  rcases List.eq_nil_or_concat' l with rfl | ⟨l, t, rfl⟩
  · have htail : il.tail = none := h.tail
    unfold IndexList.addTail
    rw [htail]
    exact ⟨⟨rfl, Function.update_self ..⟩, rfl, hnodup, hbound⟩
  · have htail : il.tail = some t := by rw [h.tail, List.getLast?_concat]
    have hne : id ≠ t := by
      intro heq
      rw [heq] at hnew
      exact hnew (List.mem_append_right _ (List.mem_singleton_self t))
    have ht : t ∉ l := fun hmem => (List.nodup_append.mp h.nodup).2.2 t hmem t
      (List.mem_singleton_self t) rfl
    unfold IndexList.addTail
    rw [htail]
    refine ⟨?_, ?_, hnodup, hbound⟩
    · show Chain (Function.update (Function.update il.next t (some id)) id none) il.head _
      rw [Function.update_comm hne.symm, List.append_assoc]
      refine @Chain.splice (Function.update il.next id none) t (some id) l [] [id] ht ?_ _ ?_
      · refine ⟨rfl, ?_⟩
        rw [Function.update_of_ne hne, Function.update_self]
        rfl
      · refine h.chain.frame ?_
        grind
    · rw [List.getLast?_concat]

/-- **Removing the first index.** -/
theorem Represents.removeFront (h : Represents il (id :: l)) :
    ∃ il', removeFront il = some il' ∧ il'.len = il.len ∧ Represents il' l := by
  obtain ⟨hid, hnodup⟩ := List.nodup_cons.mp h.nodup
  have hhead : il.head = some id := h.chain.1
  have hnext : il.next id = l.head? := h.chain.2.head
  unfold IndexList.removeFront
  rw [hhead]
  refine ⟨_, rfl, rfl, ?_, ?_, hnodup, (List.forall_mem_cons.mp h.bound).2⟩
  · refine h.chain.2.frame ?_
    grind
  · rw [hnext, h.tail]
    cases l with
    | nil => rfl
    | cons j l => simp

theorem Represents.head_nil (h : Represents il []) : il.head = none := h.chain

theorem Represents.head_cons (h : Represents il (id :: l)) :
    il.head = some id := h.chain.1

/-- The slots `prev` and `cur` after the indices `l`. -/
def walk : Slot → Slot → List ℕ → Slot × Slot
  | prev, cur, [] => (prev, cur)
  | _, cur, i :: l => walk cur (.next i) l

theorem walk_concat (l : List ℕ) (p : ℕ) : ∀ prev cur,
    walk prev cur (l ++ [p]) = ((walk prev cur l).2, .next p) := by
  induction l with
  | nil =>
    intro prev cur
    rfl
  | cons i l ih =>
    intro prev cur
    exact ih cur (.next i)

theorem findSlot_mem (hid : id ∉ l) {n : ℕ} {prev cur : Slot} (hn : l.length < n)
    (h : Chain il.next (read il cur) (l ++ id :: m)) :
    findSlot il id n prev cur = some (walk prev cur l) := by
  induction l generalizing n prev cur with
  | nil =>
    rcases n with _ | n
    · omega
    rw [findSlot, h.1]
    exact if_pos rfl
  | cons i l ih =>
    rw [List.mem_cons, not_or] at hid
    rw [List.length_cons] at hn
    rcases n with _ | n
    · omega
    rw [findSlot, h.1]
    show (if i = id then _ else _) = _
    rw [if_neg (Ne.symm hid.1)]
    exact ih hid.2 (by omega) h.2

theorem findSlot_not_mem (hid : id ∉ l) {n : ℕ} {prev cur : Slot}
    (h : Chain il.next (read il cur) l) : findSlot il id n prev cur = none := by
  induction l generalizing n prev cur with
  | nil =>
    cases n with
    | zero => rfl
    | succ n =>
      rw [findSlot, show read il cur = none from h]
  | cons i l ih =>
    rw [List.mem_cons, not_or] at hid
    cases n with
    | zero => rfl
    | succ n =>
      rw [findSlot, h.1]
      show (if i = id then _ else _) = _
      rw [if_neg (Ne.symm hid.1)]
      exact ih hid.2 h.2

theorem Represents.remove_none (h : Represents il l) (hid : id ∉ l) : remove il id = none := by
  unfold IndexList.remove
  rw [findSlot_not_mem hid (show Chain il.next (read il .head) l from h.chain)]

theorem read_walk {il : IndexList} {p : ℕ} {l m : List ℕ} {prev cur : Slot}
    (h : Chain il.next (read il cur) (l ++ p :: m)) : read il (walk prev cur l).2 = some p := by
  induction l generalizing prev cur with
  | nil => exact h.1
  | cons i l ih =>
    exact @ih cur (.next i) h.2

theorem tail_removed {next : ℕ → Option ℕ} {tail : Option ℕ} {p : ℕ} {l₀ l₁ l₂ : List ℕ}
    (hnext : next p = l₂.head?) (htail : tail = (l₁ ++ l₂).getLast?) :
    (if (next p).isSome then tail else some p) = (l₀ ++ p :: l₂).getLast? := by
  rw [hnext, htail]
  cases l₂ with
  | nil => simp
  | cons j m => simp [List.getLast?_append, List.getLast?_cons]

/-- **Removing an index.** -/
theorem Represents.remove (h : Represents il l) (hid : id ∈ l) :
    ∃ il', remove il id = some il' ∧ il'.len = il.len ∧ Represents il' (l.erase id) := by
  have hlen := h.length_le
  obtain ⟨l₁, l₂, rfl, hl₁⟩ := List.eq_append_cons_of_mem hid
  have herase : (l₁ ++ id :: l₂).erase id = l₁ ++ l₂ := by
    rw [List.erase_append_right _ hl₁, List.erase_cons_head]
  have hnodup : (l₁ ++ l₂).Nodup := herase ▸ h.nodup.erase id
  have hl₂ : id ∉ l₂ := (List.nodup_cons.mp (List.nodup_append.mp h.nodup).2.1).1
  have hbound : ∀ i ∈ l₁ ++ l₂, i < il.len := fun i hi =>
    h.bound i (List.mem_of_mem_erase (herase ▸ hi))
  have hfind : findSlot il id (il.len + 1) .head .head = some (walk .head .head l₁) := by
    refine findSlot_mem hl₁ ?_ (show Chain il.next (read il .head) _ from h.chain)
    rw [List.length_append] at hlen
    omega
  have hframe : ∀ i ∈ l₂, Function.update il.next id none i = il.next i := by
    intro i hi
    have hne : i ≠ id := fun heq => hl₂ (heq ▸ hi)
    exact Function.update_of_ne hne ..
  rw [herase]
  unfold IndexList.remove
  rw [hfind]
  rcases List.eq_nil_or_concat' l₁ with rfl | ⟨l₀, p, rfl⟩
  · -- the index is the first one: both slots are the head
    refine ⟨_, rfl, rfl, h.chain.2.frame hframe, ?_, hnodup, hbound⟩
    have hhead : il.next id = l₂.head? := h.chain.2.head
    cases l₂ with
    | nil => rw [hhead]; rfl
    | cons j m =>
      rw [hhead]
      have hnext : Function.update il.next id none j = m.head? :=
        (hframe j List.mem_cons_self).trans h.chain.2.2.head
      have htail : il.tail = ([id, j] ++ m).getLast? := h.tail
      exact @tail_removed _ _ _ [] _ _ hnext htail
  · have hp₀ : p ∉ l₀ := fun hmem =>
      (List.nodup_append.mp (List.nodup_append.mp hnodup).1).2.2 p hmem p (by simp) rfl
    have hp₂ : p ∉ l₂ := fun hmem =>
      (List.nodup_append.mp hnodup).2.2 p (List.mem_append_right _ (by simp)) p hmem rfl
    have hchain₂ : Chain il.next (il.next id) l₂ := h.chain.after
    have hchain : Chain (Function.update (Function.update il.next p (il.next id)) id none)
        il.head (l₀ ++ p :: l₂) := by
      have hstart : Chain (Function.update il.next p (il.next id)) il.head (l₀ ++ p :: l₂) := by
        refine Chain.splice hp₀ (hchain₂.frame ?_) (List.append_assoc l₀ [p] _ ▸ h.chain)
        intro i hi
        have hne : i ≠ p := fun heq => hp₂ (heq ▸ hi)
        exact Function.update_of_ne hne ..
      refine hstart.frame ?_
      intro i hi
      have hne : i ≠ id := by
        intro heq
        rw [heq, List.append_cons] at hi
        exact (List.mem_append.mp hi).elim hl₁ hl₂
      exact Function.update_of_ne hne ..
    rw [walk_concat]
    refine ⟨_, rfl, rfl, ?_, ?_, hnodup, hbound⟩
    · rw [List.append_assoc]
      exact hchain
    · have hread := @read_walk (write (write il (.next p) (il.next id)) (.next id) none) p l₀ l₂
        .head .head hchain
      rw [hread, List.append_assoc]
      have hnext : Function.update (Function.update il.next p (il.next id)) id none p
          = l₂.head? := hchain.after.head
      have htail : il.tail = ((l₀ ++ [p] ++ [id]) ++ l₂).getLast? := by
        rw [h.tail, List.append_assoc _ [id] l₂]
        rfl
      exact tail_removed hnext htail

end IndexList

end OaiGnb
