import OaiGnb.Lib.Index
import Mathlib

/-!
# Resource grids

A grid has one row of `w` cells for every index, stored as a bitmap; a cell is a pair of a row and
a column.  Allocations are blocks: a range of rows and a bitmap of columns.

* `scanWhile`: the loop that moves an index while a condition holds.
* `used`, `block`, `mark`: the cells of a grid, of a block, and the marking of a range of rows.
* `scan_free`: a range counted from a free row on is free.
* `Packed`: allocations that are pairwise disjoint, avoid what was used before and are marked.
-/

namespace OaiGnb.ResourceGrid

/-! ### Scans -/

/-- At most `n` steps of `while (p(i)) i++`. -/
def scanFrom (p : ℕ → Bool) : ℕ → ℕ → ℕ
  | 0, i => i
  | n + 1, i => if p i then scanFrom p n (i + 1) else i

/-- `while (i < stop && p(i)) i++`. -/
def scanWhile (p : ℕ → Bool) (stop i : ℕ) : ℕ := scanFrom p (stop - i) i

theorem scanFrom_spec (p : ℕ → Bool) (n : ℕ) : ∀ i,
    i ≤ scanFrom p n i ∧ scanFrom p n i ≤ i + n ∧
      (∀ j, i ≤ j → j < scanFrom p n i → p j = true) ∧
      (scanFrom p n i < i + n → p (scanFrom p n i) = false) := by
  induction n with
  | zero =>
    intro i
    exact ⟨le_rfl, le_rfl, fun j h1 h2 => absurd h2 (Nat.not_lt.mpr h1),
      fun h => absurd h (Nat.lt_irrefl _)⟩
  | succ n ih =>
    intro i
    rw [scanFrom]
    split
    next hp =>
      obtain ⟨h1, h2, h3, h4⟩ := ih (i + 1)
      refine ⟨by omega, by omega, ?_, fun h => h4 (by omega)⟩
      intro j hj hlt
      rcases Nat.eq_or_lt_of_le hj with rfl | hj
      · exact hp
      · exact h3 j hj hlt
    · simp_all

theorem le_scanWhile (p : ℕ → Bool) (stop i : ℕ) : i ≤ scanWhile p stop i :=
  (scanFrom_spec p (stop - i) i).1

variable {p : ℕ → Bool} {stop i : ℕ}

theorem scanWhile_le (h : i ≤ stop) : scanWhile p stop i ≤ stop := by
  have := (scanFrom_spec p (stop - i) i).2.1
  rw [scanWhile]
  omega

theorem scanWhile_passed {p : ℕ → Bool} {stop i j : ℕ} (h1 : i ≤ j) (h2 : j < scanWhile p stop i) :
    p j = true :=
  (scanFrom_spec p (stop - i) i).2.2.1 j h1 h2

theorem scanWhile_stopped (h : scanWhile p stop i < stop) :
    p (scanWhile p stop i) = false := by grind [le_scanWhile, scanFrom_spec, scanWhile]

/-! ### Cells -/

variable {w : ℕ}

/-- The cells of the grid that are in use. -/
def used (m : ℕ → BitVec w) : Set (ℕ × ℕ) := {c | (m c.1).getLsbD c.2 = true}

/-- The cells of `n` rows from `lo` on, in the columns of `s`. -/
def block (lo n : ℕ) (s : BitVec w) : Set (ℕ × ℕ) :=
  {c | (lo ≤ c.1 ∧ c.1 < lo + n) ∧ s.getLsbD c.2 = true}

/-- `for (r = lo; r < hi; r++) map[r] |= s`. -/
def mark (m : ℕ → BitVec w) (lo hi : ℕ) (s : BitVec w) : ℕ → BitVec w :=
  fun r => if lo ≤ r ∧ r < hi then m r ||| s else m r

theorem used_mark (m : ℕ → BitVec w) (lo n : ℕ) (s : BitVec w) :
    used (mark m lo (lo + n) s) = used m ∪ block lo n s := by
  ext c
  show (mark m lo (lo + n) s c.1).getLsbD c.2 = true ↔ (m c.1).getLsbD c.2 = true ∨
    ((lo ≤ c.1 ∧ c.1 < lo + n) ∧ s.getLsbD c.2 = true)
  unfold mark
  split
  · simp_all
  · simp_all

/-- A row is free in the columns of `s`. -/
def rowFree (m : ℕ → BitVec w) (s : BitVec w) (r : ℕ) : Bool := m r &&& s == 0

variable {m : ℕ → BitVec w} {s : BitVec w}

theorem rowFree_iff {r : ℕ} :
    rowFree m s r = true ↔ ∀ c, s.getLsbD c = true → (r, c) ∉ used m := by
  rw [rowFree, beq_iff_eq]
  refine ⟨?_, ?_⟩
  · intro hfree c hc hu
    have hbit := congrArg (fun x : BitVec w => x.getLsbD c) hfree
    simp only [BitVec.getLsbD_and, BitVec.ofNat_eq_ofNat, BitVec.getLsbD_zero] at hbit
    rw [show (m r).getLsbD c = true from hu, hc] at hbit
    cases hbit
  · intro h
    refine BitVec.eq_of_getLsbD_eq ?_
    intro c _
    rw [BitVec.getLsbD_and, BitVec.ofNat_eq_ofNat, BitVec.getLsbD_zero, Bool.and_eq_false_iff]
    cases hs : s.getLsbD c with
    | false => exact Or.inr rfl
    | true => exact Or.inl (Bool.eq_false_of_not_eq_true (h c hs))

theorem block_disjoint_used {lo n : ℕ}
    (h : ∀ r, lo ≤ r → r < lo + n → rowFree m s r = true) : Disjoint (block lo n s) (used m) := by
  refine Set.disjoint_left.mpr ?_
  intro c hc hu
  exact rowFree_iff.mp (h c.1 hc.1.1 hc.1.2) c.2 hc.2 hu

/-- **A range counted from a free row on** is free. -/
theorem scan_free {m : ℕ → BitVec w} {s : BitVec w} {base last stop i : ℕ} {p : ℕ → Bool}
    (hi : i ≤ 1) (hle : base ≤ last) (hfirst : rowFree m s base = true)
    (hp : ∀ n, p n = true → base + n ≤ last ∧ rowFree m s (base + n) = true) :
    base + scanWhile p stop i ≤ last + 1 ∧
      ∀ r, base ≤ r → r < base + scanWhile p stop i → rowFree m s r = true := by
  have hpassed : ∀ j, i ≤ j → j < scanWhile p stop i →
      base + j ≤ last ∧ rowFree m s (base + j) = true :=
    fun j h1 h2 => hp j (scanWhile_passed h1 h2)
  refine ⟨?_, ?_⟩
  · rcases Nat.lt_or_ge i (scanWhile p stop i) with hin | hni
    · have := (hpassed (scanWhile p stop i - 1) (by omega) (by omega)).1
      omega
    · omega
  · intro r h1 h2
    rcases Nat.eq_or_lt_of_le h1 with rfl | h1
    · exact hfirst
    · have := (hpassed (r - base) (by omega) (by omega)).2
      rwa [Nat.add_sub_cancel' (h1.le)] at this

/-! ### Packings -/

/-- The allocations `l` are pairwise disjoint, avoid `start`, and are part of `final`, as is
`start`. -/
structure Packed {α : Type} (start : Set α) (l : List (Set α)) (final : Set α) : Prop where
  disjoint : l.Pairwise Disjoint
  free : ∀ a ∈ l, Disjoint a start
  kept : start ⊆ final
  marked : ∀ a ∈ l, a ⊆ final

variable {α : Type}

theorem Packed.nil (start : Set α) : Packed start [] start :=
  ⟨List.Pairwise.nil, List.forall_mem_nil _, subset_rfl,
    List.forall_mem_nil _⟩

/-- **One more allocation** in the free part. -/
theorem Packed.concat {start final final' a : Set α} {l : List (Set α)}
    (h : Packed start l final) (ha : Disjoint a final) (hsub : final ∪ a ⊆ final') :
    Packed start (l ++ [a]) final' where
  disjoint := by
    refine List.pairwise_append.mpr ⟨h.disjoint, List.pairwise_singleton _ _, ?_⟩
    intro b hb c hc
    obtain rfl := List.mem_singleton.mp hc
    exact (ha.mono_right (h.marked b hb)).symm
  free := by
    exact List.forall_mem_append.mpr ⟨h.free, List.forall_mem_singleton.mpr (ha.mono_right h.kept)⟩
  kept := h.kept.trans (Set.subset_union_left.trans hsub)
  marked := by
    intro b hb
    rcases List.mem_append.mp hb with hb | hb
    · exact (h.marked b hb).trans (Set.subset_union_left.trans hsub)
    · simp_all

end OaiGnb.ResourceGrid
