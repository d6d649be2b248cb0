import OaiGnb.Lib.Index
import Mathlib.Data.List.Pairwise
import Mathlib.Data.List.Perm.Basic
import Mathlib.Data.Prod.Lex

/-!
# Lists kept sorted by a key

A C program keeps a linked list sorted by walking to the first node that must come after the new
one and linking the new one before it.  `insertBefore` is that loop; `SortedBy key` says that the
keys do not decrease along the list.

* `insertBefore_perm`: nothing is lost or duplicated.
* `sortedBy_insertBefore`: the list stays sorted.
* `insertBefore_concat`: an element that is not the last one in the order does not become the
  last of the list.
-/

namespace OaiGnb.SortedList

variable {α κ : Type}

/-- Link `x` before the first element for which `stop` holds. -/
def insertBefore (stop : α → Bool) (x : α) : List α → List α
  | [] => [x]
  | cur :: l => if stop cur then x :: cur :: l else cur :: insertBefore stop x l

theorem insertBefore_perm (stop : α → Bool) (x : α) (l : List α) :
    (insertBefore stop x l).Perm (x :: l) := by
  induction l with
  | nil => exact List.Perm.refl _
  | cons cur l ih =>
    rw [insertBefore]
    split
    · exact List.Perm.refl _
    · exact (ih.cons cur).trans (List.Perm.swap x cur l)

variable {x : α} {l : List α} {key : α → κ}

theorem insertBefore_congr {stop stop' : α → Bool}
    (h : ∀ a ∈ l, stop a = stop' a) : insertBefore stop x l = insertBefore stop' x l := by
  induction l with
  | nil => rfl
  | cons cur l ih =>
    grind [insertBefore, List.mem_cons_self, List.mem_cons_of_mem]

theorem mem_insertBefore {stop : α → Bool} {y : α} :
    y ∈ insertBefore stop x l ↔ y = x ∨ y ∈ l := by
  rw [(insertBefore_perm stop x l).mem_iff, List.mem_cons]

section Keys

variable [LinearOrder κ]

/-- The keys do not decrease along the list. -/
def SortedBy (key : α → κ) (l : List α) : Prop := l.Pairwise (fun a b => key a ≤ key b)

theorem sortedBy_nil (key : α → κ) : SortedBy key [] := List.Pairwise.nil

theorem sortedBy_cons {a : α} :
    SortedBy key (a :: l) ↔ (∀ b ∈ l, key a ≤ key b) ∧ SortedBy key l := List.pairwise_cons

theorem sortedBy_append {l' : List α} :
    SortedBy key (l ++ l') ↔
      SortedBy key l ∧ SortedBy key l' ∧ ∀ a ∈ l, ∀ b ∈ l', key a ≤ key b := List.pairwise_append

theorem SortedBy.sublist {l' : List α} (h : SortedBy key l)
    (hs : l'.Sublist l) : SortedBy key l' := List.Pairwise.sublist hs h

theorem SortedBy.congr {key' : α → κ} (h : SortedBy key l)
    (hk : ∀ a ∈ l, key' a = key a) : SortedBy key' l := by
  refine List.Pairwise.imp_of_mem ?_ h
  simp_all

/-- **Sorted insertion.** -/
theorem sortedBy_insertBefore (h : SortedBy key l) :
    SortedBy key (insertBefore (fun cur => decide (key x < key cur)) x l) := by
  induction l with
  | nil => exact List.pairwise_singleton _ _
  | cons cur l ih =>
    obtain ⟨h1, h2⟩ := sortedBy_cons.mp h
    rw [insertBefore]
    split
    next hlt =>
      have hlt : key x < key cur := of_decide_eq_true hlt
      refine sortedBy_cons.mpr ⟨?_, h⟩
      intro b hb
      rcases List.mem_cons.mp hb with rfl | hb
      · exact hlt.le
      · exact hlt.le.trans (h1 b hb)
    next hge =>
      have hge : key cur ≤ key x := not_lt.mp (by simpa using hge)
      refine sortedBy_cons.mpr ⟨?_, ih h2⟩
      intro b hb
      rcases mem_insertBefore.mp hb with rfl | hb
      · exact hge
      · exact h1 b hb

theorem insertBefore_concat (key : α → κ) {last : α} (init : List α) (h : key x < key last) :
    ∃ init', insertBefore (fun cur => decide (key x < key cur)) x (init ++ [last]) =
      init' ++ [last] := by
  induction init with
  | nil =>
    refine ⟨[x], ?_⟩
    rw [List.nil_append, insertBefore, if_pos (decide_eq_true h)]
    rfl
  | cons cur init ih =>
    rw [List.cons_append, insertBefore]
    split
    · exact ⟨x :: cur :: init, rfl⟩
    · grind

end Keys

end OaiGnb.SortedList
