import Mathlib.Data.Nat.ModEq
import Mathlib.Data.Nat.Nth
import OaiGnb.Lib.Run

/-!
# Walks round a ring with holes

A ring of positions is walked from some position on, and the positions that are no holes are visited
in order, any number of times.

* `walk` : the position of a visit.
* `At` : where the walker stands after some visits; `At.visit`, `At.skip`, `At.wrap` and `At.run`
  move it.
* `trace` : what the visits make of a state, one after the other.
* `forRead` : a loop over positions that visits and may jump over holes; `forRead_at` says that it
  follows the walk.
-/

namespace OaiGnb.CyclicWalk

open Run

/-- Whether the position `j` steps after the start is visited. -/
def Visited (size start : ℕ) (hole : ℕ → Prop) (j : ℕ) : Prop :=
  ¬ hole ((start + j) % size)

instance (size start : ℕ) (hole : ℕ → Prop) [DecidablePred hole] :
    DecidablePred (Visited size start hole) :=
  fun j => inferInstanceAs (Decidable ¬ hole ((start + j) % size))

/-- The position of the visit `k`. -/
noncomputable def walk (size start : ℕ) (hole : ℕ → Prop) (k : ℕ) : ℕ :=
  (start + Nat.nth (Visited size start hole) k) % size

variable {k ind : ℕ}

section Walk

variable {size start : ℕ} {hole : ℕ → Prop} [DecidablePred hole]

/-- After `k` visits the walker stands at `ind`, which may be the end of the ring. -/
def At (size start : ℕ) (hole : ℕ → Prop) [DecidablePred hole] (k ind : ℕ) : Prop :=
  ind ≤ size ∧ ∃ j, Nat.count (Visited size start hole) j = k ∧ (start + j) % size = ind % size

theorem At.begin (hstart : start ≤ size) : At size start hole 0 start :=
  ⟨hstart, 0, Nat.count_zero _, rfl⟩

theorem At.wrap (h : At size start hole k size) : At size start hole k 0 := by
  obtain ⟨-, j, hcount, hj⟩ := h
  rw [Nat.mod_self] at hj
  exact ⟨Nat.zero_le size, j, hcount, hj.trans (Nat.zero_mod size).symm⟩

theorem add_succ_mod {a : ℕ} (h : a % size = ind % size) : (a + 1) % size = (ind + 1) % size :=
  Nat.ModEq.add_right 1 h

theorem At.visit (h : At size start hole k ind) (hind : ind < size) (hvisited : ¬ hole ind) :
    walk size start hole k = ind ∧ At size start hole (k + 1) (ind + 1) := by
  obtain ⟨-, j, hcount, hj⟩ := h
  have hpos : (start + j) % size = ind := hj.trans (Nat.mod_eq_of_lt hind)
  have hp : Visited size start hole j := by
    rw [Visited, hpos]
    exact hvisited
  constructor
  · rw [walk, ← hcount, Nat.nth_count hp, hpos]
  · refine ⟨hind, j + 1, ?_, add_succ_mod hj⟩
    rw [Nat.count_succ, if_pos hp, hcount]

theorem At.skip (h : At size start hole k ind) {last : ℕ} (hlast : last ≤ size)
    (hle : ind ≤ last) (hholes : ∀ i, ind ≤ i → i < last → hole i) : At size start hole k last := by
  induction last, hle using Nat.le_induction with
  | base => exact h
  | succ last hle ih =>
    obtain ⟨-, j, hcount, hj⟩ := ih (by omega) fun i hi hil => hholes i hi (by omega)
    refine ⟨hlast, j + 1, ?_, add_succ_mod hj⟩
    have hp : ¬ Visited size start hole j := by
      rw [Visited, hj, Nat.mod_eq_of_lt hlast, Classical.not_not]
      exact hholes last hle (Nat.lt_succ_self last)
    grind

theorem At.run (h : At size start hole k ind) {len : ℕ} (hlen : ind + len ≤ size)
    (hfree : ∀ i, ind ≤ i → i < ind + len → ¬ hole i) :
    (∀ i < len, walk size start hole (k + i) = ind + i) ∧
      At size start hole (k + len) (ind + len) := by
  induction len with
  | zero => simp_all
  | succ len ih =>
    obtain ⟨hwalk, hat⟩ := ih (by omega) fun i hi hil => hfree i hi (by omega)
    obtain ⟨hlast, hnext⟩ := hat.visit (by omega) (hfree _ (by omega) (by omega))
    refine ⟨fun i hi => ?_, hnext⟩
    rcases Nat.lt_succ_iff_lt_or_eq.mp hi with hlt | rfl
    · exact hwalk i hlt
    · exact hlast

end Walk

/-! ### What visits do -/

variable {σ ε : Type}

/-- The state after `k` visits, each of which takes the state, the position and the number of the
visit. -/
def trace (visit : σ → ℕ → ℕ → σ) (positions : ℕ → ℕ) (s : σ) : ℕ → σ
  | 0 => s
  | k + 1 => visit (trace visit positions s k) (positions k) k

/-- `for (; ind < bound && k < total; ind++) { ind = jump(ind); visit(ind, k++); }` -/
def forRead (diverges : ε) (visit : σ → ℕ → ℕ → Except ε σ) (jump : ℕ → ℕ) (bound total : ℕ) :
    ℕ → ℕ → ℕ → σ → Except ε (ℕ × ℕ × σ)
  | 0, _, _, _ => .error diverges
  | fuel + 1, ind, k, s =>
      if ind < bound ∧ k < total then do
        let s ← visit s (jump ind) k
        forRead diverges visit jump bound total fuel (jump ind + 1) (k + 1) s
      else .ok (ind, k, s)

variable {jump : ℕ → ℕ} {bound total fuel : ℕ} {diverges : ε} {visit : σ → ℕ → ℕ → Except ε σ}

/-- **The loop follows the walk**, if each jump goes over holes only and ends at a position that is
visited.  `Safe` is what the jumps need. -/
theorem forRead_at {size start : ℕ} {hole : ℕ → Prop} [DecidablePred hole] {visit' : σ → ℕ → ℕ → σ}
    {s : σ} (Safe : ℕ → ℕ → Prop)
    (hvisit : ∀ s ind k, ind < size → k < total → visit s ind k = .ok (visit' s ind k))
    (hjump : ∀ ind k, Safe ind k → ind < bound → k < total → ind ≤ jump ind ∧ jump ind < size ∧
      (∀ i, ind ≤ i → i < jump ind → hole i) ∧ ¬ hole (jump ind) ∧ Safe (jump ind + 1) (k + 1))
    (hfuel : bound - ind < fuel) (hat : At size start hole k ind)
    (hsafe : Safe ind k) (hk : k ≤ total) :
    ∃ ind' k', forRead diverges visit jump bound total fuel ind k
        (trace visit' (walk size start hole) s k)
          = .ok (ind', k', trace visit' (walk size start hole) s k') ∧
      At size start hole k' ind' ∧ Safe ind' k' ∧ k ≤ k' ∧ k' ≤ total ∧
      (bound ≤ ind' ∨ k' = total) ∧ (ind < bound → k < total → k < k') := by
  induction fuel generalizing ind k with
  | zero => omega
  | succ fuel ih =>
    by_cases hgo : ind < bound ∧ k < total
    · obtain ⟨hle, hlt, hholes, hfree, hnext⟩ := hjump ind k hsafe hgo.1 hgo.2
      obtain ⟨hwalk, hat'⟩ := (hat.skip (hlt.le) hle hholes).visit hlt hfree
      obtain ⟨ind', k', hloop, hat'', hsafe', hkk', hk', hend, -⟩ :=
        ih (by omega) hat' hnext hgo.2
      refine ⟨ind', k', ?_, hat'', hsafe', by omega, hk', hend, fun _ _ => by omega⟩
      rw [forRead, if_pos hgo, hvisit _ _ _ hlt hgo.2, ok_bind, ← hloop, trace, hwalk]
    · refine ⟨ind, k, ?_, hat, hsafe, le_rfl, hk, by omega, fun h h' => absurd ⟨h, h'⟩ hgo⟩
      rw [forRead, if_neg hgo]

theorem forRead_done (hfuel : 0 < fuel) (ind : ℕ) (s : σ) :
    forRead diverges visit jump bound total fuel ind total s = .ok (ind, total, s) := by
  obtain ⟨fuel, rfl⟩ := Nat.exists_eq_succ_of_ne_zero (Nat.pos_iff_ne_zero.mp hfuel)
  rw [forRead, if_neg fun h => Nat.lt_irrefl total h.2]

/-- A loop that comes to a position whose visit fails does not return. -/
theorem forRead_fails {last : ℕ} {s : σ} {r : ℕ × ℕ × σ} (hjump : ∀ i < last, jump i = i)
    (hvisit : ∀ s s' k, visit s (jump last) k ≠ .ok s') (hlast : last < bound) (hind : ind ≤ last)
    (hmore : k + (last - ind) < total) :
    forRead diverges visit jump bound total fuel ind k s ≠ .ok r := by
  induction fuel generalizing ind k s with
  | zero => nofun
  | succ fuel ih =>
    rw [forRead, if_pos (by omega)]
    intro hloop
    obtain ⟨s', hs', hloop⟩ := bind_returns.mp hloop
    rcases hind.lt_or_eq with hlt | rfl
    · rw [hjump ind hlt] at hloop
      exact ih (by omega) (by omega) hloop
    · exact hvisit _ _ _ hs'

end OaiGnb.CyclicWalk
