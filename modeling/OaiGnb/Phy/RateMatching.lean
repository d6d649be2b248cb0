import Mathlib.Tactic.Ring
import OaiGnb.Lib.Buffer
import OaiGnb.Lib.CyclicWalk

/-!
# Bit selection of LDPC codes

The coded bits of a block are read round a buffer from a position that depends on the redundancy
version, and the fillers are passed over.

* `nrRateMatchingLdpc` : copies up to the end of the buffer, then a loop for repetitions.
* `MatchParams.selected` : the position of each bit, as the walk round the buffer gives it.
* `rateMatching_correct` : the bits are those of the walk unless there are fewer than before the
  fillers, the buffer is empty, or the walk comes again to fillers that end it.
-/

namespace OaiGnb.Phy

open Buffer CyclicWalk Run

/-! ### The code -/

inductive MatchFault
  | outOfBounds
  | diverges
deriving DecidableEq

/-- The arguments that are numbers; `e` is the number of bits that are wanted. -/
structure MatchParams where
  tbslbrm : ℕ
  bg : ℕ
  z : ℕ
  c : ℕ
  f : ℕ
  foffset : ℕ
  rvidx : ℕ
  e : ℕ

/-- Sums and differences of 32 bits. -/
def add32 (a b : ℕ) : ℕ := (a + b) % 2 ^ 32

def sub32 (a b : ℕ) : ℕ := (a + 2 ^ 32 - b) % 2 ^ 32

def indexK0 (bg rvidx : ℕ) : ℕ :=
  if bg = 1 then [0, 17, 33, 56].getD rvidx 0 else [0, 13, 25, 43].getD rvidx 0

namespace MatchParams

def n (p : MatchParams) : ℕ := if p.bg = 1 then 66 * p.z else 50 * p.z

/-- The size of the buffer; `3 * Tbslbrm` has 32 bits. -/
def ncb (p : MatchParams) : ℕ :=
  if p.tbslbrm = 0 then p.n else min p.n (3 * p.tbslbrm % 2 ^ 32 / (2 * p.c))

def k0 (p : MatchParams) : ℕ := indexK0 p.bg p.rvidx * p.ncb / p.n * p.z

end MatchParams

variable {α : Type}

/-- `memcpy` between buffers of `dSize` and `eSize` elements. -/
def memcpyWithin (dSize eSize : ℕ) (e : ℕ → α) (dst : ℕ) (d : ℕ → α) (src len : ℕ) :
    Except MatchFault (ℕ → α) :=
  if len = 0 ∨ src + len ≤ dSize ∧ dst + len ≤ eSize then .ok (copy e dst d src len)
  else .error .outOfBounds

/-- The copies up to the end of the buffer: the number of bits and the output. -/
def firstPass (dSize eSize : ℕ) (p : MatchParams) (ind : ℕ) (d e : ℕ → α) :
    Except MatchFault (ℕ × (ℕ → α)) :=
  if ind < p.foffset then do
    let e ← memcpyWithin dSize eSize e 0 d ind (p.foffset - ind)
    if add32 p.e p.f ≤ sub32 p.ncb ind then
      let e ← memcpyWithin dSize eSize e (p.foffset - ind) d (add32 p.foffset p.f)
        (add32 (sub32 p.e p.foffset) ind)
      return (p.e, e)
    else
      let e ← memcpyWithin dSize eSize e (p.foffset - ind) d (add32 p.foffset p.f)
        (sub32 (sub32 p.ncb p.foffset) p.f)
      return (sub32 (sub32 p.ncb p.f) ind, e)
  else if p.e ≤ sub32 p.ncb ind then do
    let e ← memcpyWithin dSize eSize e 0 d ind p.e
    return (p.e, e)
  else do
    let e ← memcpyWithin dSize eSize e 0 d ind (sub32 p.ncb ind)
    return (sub32 p.ncb ind, e)

/-- `e[k] = d[ind]` -/
def selectBit (dSize eSize : ℕ) (d e : ℕ → α) (ind k : ℕ) : Except MatchFault (ℕ → α) :=
  if ind < dSize ∧ k < eSize then .ok (Function.update e k (d ind)) else .error .outOfBounds

/-- The loop of repetitions. -/
def repeatLoop (dSize eSize : ℕ) (p : MatchParams) (d : ℕ → α) :
    ℕ → ℕ → (ℕ → α) → Except MatchFault (ℕ → α)
  | 0, _, _ => .error .diverges
  | fuel + 1, k, e =>
      if k < p.e then do
        let (_, k, e) ← forRead .diverges (selectBit dSize eSize d)
          (fun ind => if ind = p.foffset then add32 p.f p.foffset else ind) p.ncb p.e (p.ncb + 1)
          0 k e
        repeatLoop dSize eSize p d fuel k e
      else .ok e

/-- `nr_rate_matching_ldpc`; none is -1. -/
def nrRateMatchingLdpc (dSize eSize : ℕ) (p : MatchParams) (d e : ℕ → α) :
    Except MatchFault (Option (ℕ → α)) :=
  if p.c = 0 then .ok none
  else if p.e < p.foffset then .ok none
  else if p.ncb < p.foffset then .ok none
  else do
    let ind := if p.foffset ≤ p.k0 ∧ p.k0 < add32 p.f p.foffset then add32 p.f p.foffset else p.k0
    let (k, e) ← firstPass dSize eSize p ind d e
    let e ← repeatLoop dSize eSize p d (p.e + 1) k e
    return some e

/-! ### What bit selection is for -/

namespace MatchParams

/-- The size of the buffer, of the rate 2/3 of a limited one. -/
def specNcb (p : MatchParams) : ℕ :=
  if p.tbslbrm = 0 then p.n else min p.n (3 * p.tbslbrm / (2 * p.c))

def specK0 (p : MatchParams) : ℕ := indexK0 p.bg p.rvidx * p.specNcb / p.n * p.z

def Filler (p : MatchParams) (i : ℕ) : Prop := p.foffset ≤ i ∧ i < p.foffset + p.f

instance (p : MatchParams) : DecidablePred p.Filler :=
  fun i => inferInstanceAs (Decidable (p.foffset ≤ i ∧ i < p.foffset + p.f))

/-- The position of bit `k`: the buffer is read round from the start, without the fillers. -/
noncomputable def selected (p : MatchParams) (k : ℕ) : ℕ := walk p.specNcb p.specK0 p.Filler k

/-- The walk that reads bit `k` next stands at `ind`. -/
abbrev At (p : MatchParams) (k ind : ℕ) : Prop := CyclicWalk.At p.specNcb p.specK0 p.Filler k ind

/-- A base graph, a lifting size, some blocks, fillers in the buffer, one of the redundancy versions
and at least one bit, in the types of the arguments. -/
structure Allowed (p : MatchParams) : Prop where
  bg : p.bg = 1 ∨ p.bg = 2
  z : 0 < p.z ∧ p.z < 2 ^ 16
  c : 0 < p.c ∧ p.c < 2 ^ 8
  fillers : p.foffset + p.f ≤ p.specNcb
  rvidx : p.rvidx < 4
  e : 0 < p.e ∧ p.e < 2 ^ 32

/-- At least as many bits as there are before the fillers; a buffer that is not empty, and no
product or sum of more than 32 bits that counts; and if fillers end the buffer, the walk does not
come to them a second time. -/
structure Fits (p : MatchParams) : Prop where
  enough : p.foffset ≤ p.e
  buffer : p.ncb = p.specNcb
  nonempty : 0 < p.specNcb
  sum : p.specK0 < p.foffset → p.e + p.f < 2 ^ 32
  inside : p.foffset + p.f < p.specNcb ∨ p.f = 0 ∨ p.e ≤ p.foffset - p.specK0 + p.foffset

end MatchParams

/-! ### Sizes -/

variable {a b : ℕ}

theorem add32_eq (h : a + b < 2 ^ 32) : add32 a b = a + b := Nat.mod_eq_of_lt h

theorem sub32_eq (hle : b ≤ a) (ha : a < 2 ^ 32) : sub32 a b = a - b := by
  rw [sub32]
  omega

theorem indexK0_lt (bg rvidx : ℕ) (hbg : bg = 1 ∨ bg = 2) (hrv : rvidx < 4) :
    indexK0 bg rvidx < if bg = 1 then 66 else 50 := by
  rcases hbg with rfl | rfl <;> decide +revert

namespace MatchParams

theorem n_eq (p : MatchParams) : p.n = (if p.bg = 1 then 66 else 50) * p.z := by
  rw [n]
  split <;> rfl

theorem Allowed.n_lt {p : MatchParams} (h : p.Allowed) : p.n < 2 ^ 23 := by
  have := h.z
  rw [n]
  split <;> omega

theorem specNcb_le (p : MatchParams) : p.specNcb ≤ p.n := by
  rw [specNcb]
  grind

theorem k0_eq {p : MatchParams} (h : p.ncb = p.specNcb) : p.k0 = p.specK0 := by
  rw [k0, specK0, h]

theorem Allowed.specNcb_lt {p : MatchParams} (h : p.Allowed) : p.specNcb < 2 ^ 23 :=
  p.specNcb_le.trans_lt h.n_lt

theorem Allowed.k0_lt {p : MatchParams} (h : p.Allowed) (hne : 0 < p.specNcb) :
    p.specK0 < p.specNcb := by
  have hindex := indexK0_lt p.bg p.rvidx h.bg h.rvidx
  have hn := p.n_eq
  rw [specK0]
  generalize (if p.bg = 1 then 66 else 50) = columns at hindex hn
  generalize indexK0 p.bg p.rvidx = index at hindex
  have hdiv : index * p.specNcb / p.n * p.n ≤ index * p.specNcb := Nat.div_mul_le_self ..
  rw [hn] at hdiv ⊢
  have hlt : columns * (index * p.specNcb / (columns * p.z) * p.z) < columns * p.specNcb :=
    calc columns * (index * p.specNcb / (columns * p.z) * p.z)
        = index * p.specNcb / (columns * p.z) * (columns * p.z) := by ring
      _ ≤ index * p.specNcb := hdiv
      _ < columns * p.specNcb := Nat.mul_lt_mul_of_pos_right hindex hne
  exact Nat.lt_of_mul_lt_mul_left hlt

end MatchParams

/-! ### Writing along the walk -/

/-- `e[k] = d[ind]`, where it is allowed. -/
def putBit (d e : ℕ → α) (ind k : ℕ) : ℕ → α := Function.update e k (d ind)

variable {ind k : ℕ}

theorem selectBit_inside {dSize eSize : ℕ} (d e : ℕ → α) (hind : ind < dSize)
    (hk : k < eSize) : selectBit dSize eSize d e ind k = .ok (putBit d e ind k) :=
  if_pos ⟨hind, hk⟩

theorem trace_putBit (d e : ℕ → α) (positions : ℕ → ℕ) (k i : ℕ) :
    trace (putBit d) positions e k i = if i < k then d (positions i) else e i := by
  induction k with
  | zero => rfl
  | succ k ih =>
    rw [trace, putBit]
    grind

theorem copy_trace (d e : ℕ → α) {positions : ℕ → ℕ} {len : ℕ}
    (hrun : ∀ i < len, positions (k + i) = ind + i) :
    copy (trace (putBit d) positions e k) k d ind len = trace (putBit d) positions e (k + len) := by
  induction len with
  | zero => grind [copy_outside]
  | succ len ih =>
    rw [copy_succ, ih fun i hi => hrun i (by omega), ← hrun len (Nat.lt_succ_self len)]
    rfl

section Walk

variable {p : MatchParams} (hallowed : p.Allowed) (hfits : p.Fits) (d e : ℕ → α)

/-- The output after `k` bits. -/
noncomputable def output (p : MatchParams) (d e : ℕ → α) (k : ℕ) : ℕ → α :=
  trace (putBit d) p.selected e k

theorem memcpy_output (len : ℕ) (hat : p.At k ind)
    (hind : ind + len ≤ p.specNcb) (hk : k + len ≤ p.e)
    (hfree : ∀ i, ind ≤ i → i < ind + len → ¬ p.Filler i) :
    memcpyWithin p.specNcb p.e (output p d e k) k d ind len = .ok (output p d e (k + len)) ∧
      p.At (k + len) (ind + len) := by
  obtain ⟨hwalk, hat'⟩ := hat.run hind hfree
  refine ⟨?_, hat'⟩
  rw [memcpyWithin, if_pos (Or.inr ⟨hind, hk⟩)]
  exact congrArg Except.ok (copy_trace d e hwalk)

/-- The first bit, or the one after the fillers if it is one. -/
def firstInd (p : MatchParams) : ℕ :=
  if p.foffset ≤ p.specK0 ∧ p.specK0 < p.foffset + p.f then p.foffset + p.f else p.specK0

/-- The loop is before the fillers, with room behind them or no need to come there, or behind them.
-/
def RepeatSafe (p : MatchParams) (ind k : ℕ) : Prop :=
  (ind ≤ p.foffset ∧
    (p.foffset + p.f < p.specNcb ∨ p.f = 0 ∨ p.e ≤ k + (p.foffset - ind))) ∨
  (p.foffset < ind ∧ p.foffset + p.f ≤ ind)

include hallowed hfits

theorem firstInd_at : p.At 0 (firstInd p) := by
  have hbegin : p.At 0 p.specK0 :=
    At.begin (hallowed.k0_lt hfits.nonempty).le
  rw [firstInd]
  split
  · refine hbegin.skip hallowed.fillers (by omega) fun i hi hlast => ?_
    exact ⟨by omega, hlast⟩
  · exact hbegin

theorem firstPass_before (hbefore : p.specK0 < p.foffset) :
    ∃ k, firstPass p.specNcb p.e p p.specK0 d e = .ok (k, output p d e k) ∧
      p.foffset - p.specK0 ≤ k ∧ k ≤ p.e ∧
      (k = p.e ∨ p.At k p.specNcb) := by
  have hncb := hallowed.specNcb_lt
  have hfillers := hallowed.fillers
  have he := hallowed.e
  have henough := hfits.enough
  have hsum := hfits.sum hbefore
  have hbegin : p.At 0 p.specK0 :=
    At.begin (hallowed.k0_lt hfits.nonempty).le
  obtain ⟨hcopy, hat⟩ := memcpy_output d e (p.foffset - p.specK0) hbegin (by omega) (by omega)
    fun i _ hi hfiller => by have := hfiller.1; omega
  rw [Nat.zero_add] at hcopy hat
  rw [Nat.add_sub_cancel' (hbefore.le)] at hat
  have hbehind : p.At (p.foffset - p.specK0) (p.foffset + p.f) :=
    hat.skip hfillers (Nat.le_add_right ..) fun i hi hlast => ⟨hi, hlast⟩
  have hfree : ∀ i, p.foffset + p.f ≤ i → ¬ p.Filler i := by
    intro i hi hfiller
    have := hfiller.2
    omega
  have hstart : output p d e 0 = e := rfl
  rw [hstart] at hcopy
  rw [firstPass, hfits.buffer, if_pos hbefore, hcopy, ok_bind, add32_eq hsum,
    sub32_eq (by omega) (by omega), add32_eq (a := p.foffset) (by omega)]
  by_cases hlast : p.e + p.f ≤ p.specNcb - p.specK0
  · obtain ⟨hcopy', -⟩ := memcpy_output d e (p.e - p.foffset + p.specK0) hbehind (by omega)
      (by omega) fun i hi _ => hfree i hi
    rw [if_pos hlast, sub32_eq henough he.2, add32_eq (by omega), hcopy', ok_bind]
    refine ⟨p.e, ?_, by omega, le_rfl, Or.inl rfl⟩
    rw [show p.foffset - p.specK0 + (p.e - p.foffset + p.specK0) = p.e from by omega]
    rfl
  · obtain ⟨hcopy', hat'⟩ := memcpy_output d e (p.specNcb - p.foffset - p.f) hbehind (by omega)
      (by omega) fun i hi _ => hfree i hi
    rw [if_neg hlast, sub32_eq (a := p.specNcb) (b := p.foffset) (by omega) (by omega),
      sub32_eq (a := p.specNcb - p.foffset) (by omega) (by omega), hcopy', ok_bind,
      sub32_eq (a := p.specNcb) (b := p.f) (by omega) (by omega), sub32_eq (by omega) (by omega)]
    refine ⟨p.specNcb - p.f - p.specK0, ?_, by omega, by omega, Or.inr ?_⟩
    · rw [show p.foffset - p.specK0 + (p.specNcb - p.foffset - p.f)
        = p.specNcb - p.f - p.specK0 from by omega]
      rfl
    · grind

theorem firstPass_behind (hat : p.At 0 ind)
    (hbehind : p.foffset + p.f ≤ ind) :
    ∃ k, firstPass p.specNcb p.e p ind d e = .ok (k, output p d e k) ∧ k ≤ p.e ∧
      (k = p.e ∨ p.At k p.specNcb) := by
  have hncb := hallowed.specNcb_lt
  have hind := hat.1
  have hfree : ∀ i, ind ≤ i → ¬ p.Filler i := by
    intro i hi hfiller
    have := hfiller.2
    omega
  have hstart : output p d e 0 = e := rfl
  rw [firstPass, hfits.buffer, if_neg (by omega), sub32_eq hind (by omega)]
  by_cases hlast : p.e ≤ p.specNcb - ind
  · obtain ⟨hcopy, -⟩ := memcpy_output d e p.e hat (by omega) (by omega) fun i hi _ => hfree i hi
    simp_all
  · obtain ⟨hcopy, hat'⟩ := memcpy_output d e (p.specNcb - ind) hat (by omega) (by omega)
      fun i hi _ => hfree i hi
    rw [Nat.zero_add, hstart] at hcopy
    rw [Nat.zero_add, Nat.add_sub_cancel' hind] at hat'
    rw [if_neg hlast, hcopy, ok_bind]
    exact ⟨p.specNcb - ind, rfl, by omega, Or.inr hat'⟩

omit hfits in
theorem repeatSafe_jump (hsafe : RepeatSafe p ind k) (hind : ind < p.specNcb) (hk : k < p.e) :
    let next := if ind = p.foffset then p.f + p.foffset else ind
    ind ≤ next ∧ next < p.specNcb ∧ (∀ i, ind ≤ i → i < next → p.Filler i) ∧ ¬ p.Filler next ∧
      RepeatSafe p (next + 1) (k + 1) := by
  intro next
  have hfillers := hallowed.fillers
  by_cases hfirst : ind = p.foffset
  · have hnext : next = p.foffset + p.f := (if_pos hfirst).trans (Nat.add_comm ..)
    have hroom : p.foffset + p.f < p.specNcb := by
      rcases hsafe with ⟨hle, hroom | hnone | hdone⟩ | hbehind <;> omega
    rw [hnext]
    refine ⟨by omega, hroom, fun i hi hlast => ⟨by omega, hlast⟩, fun hfiller => ?_, Or.inr ?_⟩
    · exact Nat.lt_irrefl _ hfiller.2
    · omega
  · have hnext : next = ind := if_neg hfirst
    rw [hnext]
    refine ⟨le_rfl, hind, fun i hi hlast => by omega, fun hfiller => ?_, ?_⟩
    · obtain ⟨hge, hlt⟩ := hfiller
      rcases hsafe with ⟨hle, -⟩ | ⟨-, hbehind⟩ <;> omega
    · rcases hsafe with ⟨hle, hroom | hnone | hdone⟩ | hbehind
      · exact Or.inl ⟨by omega, Or.inl hroom⟩
      · exact Or.inl ⟨by omega, Or.inr (Or.inl hnone)⟩
      · exact Or.inl ⟨by omega, Or.inr (Or.inr (by omega))⟩
      · exact Or.inr ⟨by omega, by omega⟩

theorem repeatLoop_output {fuel : ℕ} (hfuel : p.e - k < fuel) (hk : k ≤ p.e)
    (hend : k = p.e ∨ p.At k p.specNcb)
    (hinside : p.foffset + p.f < p.specNcb ∨ p.f = 0 ∨ p.e ≤ k + p.foffset) :
    repeatLoop p.specNcb p.e p d fuel k (output p d e k) = .ok (output p d e p.e) := by
  induction fuel generalizing k with
  | zero => omega
  | succ fuel ih =>
    rw [repeatLoop]
    by_cases hmore : k < p.e
    · have hncb := hallowed.specNcb_lt
      have hfillers := hallowed.fillers
      have hat : p.At k 0 := by
        rcases hend with heq | hat
        · omega
        · exact hat.wrap
      have hsafe : RepeatSafe p 0 k := Or.inl ⟨Nat.zero_le _, hinside⟩
      obtain ⟨ind', k', hloop, hat', -, hkk', hk', hlast, hprogress⟩ :
          ∃ ind' k', forRead .diverges (selectBit p.specNcb p.e d)
              (fun ind => if ind = p.foffset then p.f + p.foffset else ind) p.specNcb p.e
              (p.specNcb + 1) 0 k (output p d e k) = .ok (ind', k', output p d e k') ∧
            p.At k' ind' ∧ RepeatSafe p ind' k' ∧ k ≤ k' ∧ k' ≤ p.e ∧
            (p.specNcb ≤ ind' ∨ k' = p.e) ∧ (0 < p.specNcb → k < p.e → k < k') :=
        forRead_at (RepeatSafe p) (fun s ind k hind hk => selectBit_inside d s hind hk)
          (fun ind k hsafe hind hk => repeatSafe_jump hallowed hsafe hind hk) (by omega) hat hsafe
          hk
      have hnext := hprogress hfits.nonempty hmore
      rw [if_pos hmore, hfits.buffer, add32_eq (by omega), hloop, ok_bind]
      refine ih (by omega) hk' ?_ (by omega)
      rcases hlast with hend' | hdone
      · have hind' : ind' = p.specNcb := Nat.le_antisymm hat'.1 hend'
        exact Or.inr (hind' ▸ hat')
      · exact Or.inl hdone
    · grind

end Walk

theorem nrRateMatchingLdpc_eq {p : MatchParams} (hallowed : p.Allowed)
    (hbuffer : p.ncb = p.specNcb) (henough : p.foffset ≤ p.e) (d e : ℕ → α) :
    nrRateMatchingLdpc p.specNcb p.e p d e = do
      let (k, e) ← firstPass p.specNcb p.e p (firstInd p) d e
      return some (← repeatLoop p.specNcb p.e p d (p.e + 1) k e) := by
  have hncb := hallowed.specNcb_lt
  have hfillers := hallowed.fillers
  have hc := hallowed.c
  rw [nrRateMatchingLdpc, if_neg (by omega), if_neg (by omega), hbuffer, if_neg (by omega),
    MatchParams.k0_eq hbuffer, add32_eq (by omega), Nat.add_comm p.f, ← firstInd]

theorem nrRateMatchingLdpc_output {p : MatchParams} (hallowed : p.Allowed) (hfits : p.Fits)
    (d e : ℕ → α) :
    nrRateMatchingLdpc p.specNcb p.e p d e = .ok (some (output p d e p.e)) := by
  obtain ⟨k, hfirst, hk, hend, hbits⟩ : ∃ k, firstPass p.specNcb p.e p (firstInd p) d e
      = .ok (k, output p d e k) ∧ k ≤ p.e ∧
      (k = p.e ∨ p.At k p.specNcb) ∧ p.foffset - p.specK0 ≤ k := by
    by_cases hbefore : p.specK0 < p.foffset
    · obtain ⟨k, hfirst, hbits, hk, hend⟩ := firstPass_before hallowed hfits d e hbefore
      grind [firstInd]
    · have hbehind : p.foffset + p.f ≤ firstInd p := by
        rw [firstInd]
        split <;> omega
      simp_all [firstPass_behind, firstInd_at]
  have hinside : p.foffset + p.f < p.specNcb ∨ p.f = 0 ∨ p.e ≤ k + p.foffset :=
    hfits.inside.imp_right (Or.imp_right fun hdone => by omega)
  have hrepeat : repeatLoop p.specNcb p.e p d (p.e + 1) k (output p d e k)
      = .ok (output p d e p.e) :=
    repeatLoop_output hallowed hfits d e (by omega) hk hend hinside
  rw [nrRateMatchingLdpc_eq hallowed hfits.buffer hfits.enough]
  simp only [hfirst, ok_bind, hrepeat, pure_eq_ok]

theorem output_eq (p : MatchParams) (d e : ℕ → α) (i : ℕ) :
    output p d e p.e i = if i < p.e then d (p.selected i) else e i :=
  trace_putBit d e p.selected p.e i

section Fails

variable {p : MatchParams} (hallowed : p.Allowed) (hbuffer : p.ncb = p.specNcb)
  (hend : p.foffset + p.f = p.specNcb) (hholes : p.f ≠ 0 ∨ p.specNcb = 0)
include hallowed hbuffer hend

include hholes in
/-- With fillers at the end of the buffer the jump over them leaves it; an empty one has no bits. -/
theorem repeatLoop_fails {d e e' : ℕ → α} {fuel : ℕ} (hmore : k + p.foffset < p.e) :
    repeatLoop p.specNcb p.e p d fuel k e ≠ .ok e' := by
  have hncb := hallowed.specNcb_lt
  induction fuel with
  | zero => nofun
  | succ fuel ih =>
    rw [repeatLoop, if_pos (by omega), hbuffer, add32_eq (by omega)]
    intro hloop
    obtain ⟨⟨ind', k', e₁⟩, hread, hloop⟩ := bind_returns.mp hloop
    rcases hholes with hsome | hempty
    · refine forRead_fails (fun i (hi : i < p.foffset) => if_neg hi.ne) (fun s s' k => ?_)
        (by omega) (Nat.zero_le _) (by omega) hread
      rw [if_pos rfl, selectBit, if_neg (by omega)]
      nofun
    · rw [forRead, if_neg (by omega)] at hread
      cases hread
      exact ih hloop

/-- The first pass ends at the fillers. -/
theorem firstPass_end {d e e' : ℕ → α} (hsum : p.e + p.f < 2 ^ 32)
    (hmore : p.foffset - p.specK0 + p.foffset < p.e) (hk0 : p.specK0 ≤ p.specNcb)
    (h : firstPass p.specNcb p.e p (firstInd p) d e = .ok (k, e')) :
    k = p.foffset - p.specK0 := by
  have hncb := hallowed.specNcb_lt
  have hind : firstInd p = if p.specK0 < p.foffset then p.specK0 else p.specNcb := by
    grind [firstInd]
  have hsub : ∀ a b, b ≤ a → a ≤ p.specNcb → sub32 a b = a - b := fun a b hab ha =>
    sub32_eq hab (by omega)
  rw [firstPass, hbuffer, hind, add32_eq hsum] at h
  split at h
  · obtain ⟨e₁, -, h⟩ := bind_returns.mp h
    rw [hsub _ _ hk0 le_rfl, if_neg (by omega), hsub p.specNcb p.f (by omega) le_rfl,
      hsub _ p.specK0 (by omega) (by omega)] at h
    obtain ⟨e₂, -, h⟩ := bind_returns.mp h
    cases h
    omega
  · rw [if_neg (by omega), hsub _ _ le_rfl le_rfl, if_neg (by omega)] at h
    obtain ⟨e₁, -, h⟩ := bind_returns.mp h
    cases h
    omega

include hholes in
theorem nrRateMatchingLdpc_fails {d e e' : ℕ → α} (hsum : p.e + p.f < 2 ^ 32)
    (hmore : p.foffset - p.specK0 + p.foffset < p.e) :
    nrRateMatchingLdpc p.specNcb p.e p d e ≠ .ok (some e') := by
  have hk0 : p.specK0 ≤ p.specNcb := by
    rcases Nat.eq_zero_or_pos p.specNcb with hzero | hpos
    · simp [MatchParams.specK0, hzero]
    · exact (hallowed.k0_lt hpos).le
  rw [nrRateMatchingLdpc_eq hallowed hbuffer (by omega)]
  intro h
  obtain ⟨⟨k, e₁⟩, hfirst, h⟩ := bind_returns.mp h
  obtain ⟨e₂, hrepeat, -⟩ := bind_returns.mp h
  rw [firstPass_end hallowed hbuffer hend hsum hmore hk0 hfirst] at hrepeat
  exact repeatLoop_fails hallowed hbuffer hend hholes hmore hrepeat

end Fails

/-- **Bit selection reads round the buffer without the fillers exactly if it fits**; fewer bits than
there are before the fillers are refused. -/
theorem rateMatching_correct {p : MatchParams} (hallowed : p.Allowed)
    (hbuffer : 3 * p.tbslbrm < 2 ^ 32) (hsum : p.e + p.f < 2 ^ 32) (d e : ℕ → α) :
    (p.e < p.foffset → nrRateMatchingLdpc p.specNcb p.e p d e = .ok none) ∧
    ((∃ e', nrRateMatchingLdpc p.specNcb p.e p d e = .ok (some e') ∧
      (∀ k < p.e, e' k = d (p.selected k)) ∧ ∀ k, p.e ≤ k → e' k = e k) ↔ p.Fits) := by
  have hrefuse : p.e < p.foffset → nrRateMatchingLdpc p.specNcb p.e p d e = .ok none := by
    intro hfew
    have hc := hallowed.c
    rw [nrRateMatchingLdpc, if_neg (by omega), if_pos hfew]
  refine ⟨hrefuse, fun ⟨e', hreturns, _⟩ => ?_, fun hfits => ?_⟩
  · have hncb : p.ncb = p.specNcb := by
      rw [MatchParams.ncb, MatchParams.specNcb, Nat.mod_eq_of_lt hbuffer]
    have hfillers := hallowed.fillers
    have he := hallowed.e
    refine ⟨?_, hncb, ?_, fun _ => hsum, ?_⟩
    · by_contra hfew
      rw [hrefuse (by omega)] at hreturns
      cases hreturns
    all_goals
      by_contra hnot
      exact nrRateMatchingLdpc_fails hallowed hncb (by omega) (by omega) hsum (by omega) hreturns
  · refine ⟨_, nrRateMatchingLdpc_output hallowed hfits d e, fun k hk => ?_, fun k hk => ?_⟩
    · rw [output_eq, if_pos hk]
    · rw [output_eq, if_neg (not_lt.mpr hk)]

/-- 250 bits of a block with 4 fillers, from the second redundancy version: the buffer of 100 is
read round two and a half times. -/
theorem rateMatching_correct_sample :
    let p : MatchParams := ⟨0, 2, 2, 1, 4, 10, 1, 250⟩
    ∃ e', nrRateMatchingLdpc p.specNcb p.e p (fun i => i) (fun _ => 0) = .ok (some e') ∧
      (∀ k < p.e, e' k = p.selected k) ∧ ∀ k, p.e ≤ k → e' k = 0 :=
  (rateMatching_correct ⟨by decide, by decide, by decide, by decide, by decide, by decide⟩
    (by decide) (by decide) (fun i => i) (fun _ => 0)).2.mpr
      ⟨by decide, by decide, by decide, by decide, by decide⟩

/-- **With 5 fillers at the end of a buffer of 15, the second round reads behind the buffer.** -/
theorem not_rateMatching_correct :
    ¬ ∀ (p : MatchParams), p.Allowed → p.foffset ≤ p.e → ∀ d e : ℕ → ℕ,
      ∃ e', nrRateMatchingLdpc p.specNcb p.e p d e = .ok (some e') ∧
        (∀ k < p.e, e' k = d (p.selected k)) ∧ ∀ k, p.e ≤ k → e' k = e k := by
  intro hall
  obtain ⟨e', hreturns, -⟩ := hall ⟨10, 2, 2, 1, 5, 10, 0, 30⟩
    ⟨by decide, by decide, by decide, by decide, by decide, by decide⟩ (by decide) (fun i => i)
    (fun _ => 0)
  have hfault : nrRateMatchingLdpc 15 30 ⟨10, 2, 2, 1, 5, 10, 0, 30⟩ (fun i => i) (fun _ => 0)
      = .error .outOfBounds := rfl
  cases hfault.symm.trans hreturns

end OaiGnb.Phy
