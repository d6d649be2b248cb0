import Mathlib.Algebra.Order.BigOperators.Ring.Finset
import OaiGnb.Phy.RateMatching
import OaiGnb.Phy.Segmentation

/-!
# Soft combining of LDPC codes

The soft bits of each transmission of a code block are added up in a buffer, at the positions that
bit selection read them from, and the decoder gets the sums with zeros for the punctured bits and
the largest value for the fillers.

* `CodeBlock.llr` : what the vector should be, from the positions that `nrRateMatchingLdpc` reads.
* `softCombining_correct` : the vector is this in every sequence of transmissions, where bit
  selection works and a limited buffer has zeros behind its end.
* `softCombining_noiseless` : what bit selection sends comes back.
-/

namespace OaiGnb.Phy

open Buffer CyclicWalk Run

/-! ### The code -/

/-- `d[ind] += soft_input[k]` -/
def addSoft (soft : ℕ → BitVec 16) (d : ℕ → BitVec 16) (ind k : ℕ) : ℕ → BitVec 16 :=
  Function.update d ind (d ind + soft k)

/-- `for (; ind < bound && k < E; ind++) d[ind] += soft_input[k++];` -/
def addLoop (p : MatchParams) (soft : ℕ → BitVec 16) (bound ind k : ℕ) (d : ℕ → BitVec 16) :
    Except MatchFault (ℕ × ℕ × (ℕ → BitVec 16)) :=
  forRead .diverges (fun d ind k => .ok (addSoft soft d ind k)) id bound p.e (bound + 1) ind k d

/-- The loop of repetitions. -/
def combineLoop (p : MatchParams) (soft : ℕ → BitVec 16) :
    ℕ → ℕ → (ℕ → BitVec 16) → Except MatchFault (ℕ → BitVec 16)
  | 0, _, _ => .error .diverges
  | fuel + 1, k, d =>
      if k < p.e then do
        let (_, k, d) ← addLoop p soft p.foffset 0 k d
        let (_, k, d) ← addLoop p soft p.ncb (add32 p.foffset p.f) k d
        combineLoop p soft fuel k d
      else .ok d

/-- The first loop, if the walk starts before the fillers. -/
def addBefore (p : MatchParams) (soft d : ℕ → BitVec 16) :
    Except MatchFault (ℕ × ℕ × (ℕ → BitVec 16)) :=
  if p.k0 < p.foffset then addLoop p soft p.foffset p.k0 0 d else .ok (p.k0, 0, d)

/-- `nr_rate_matching_ldpc_rx`; none is -1. -/
def nrRateMatchingLdpcRx (p : MatchParams) (clear : Bool) (d soft : ℕ → BitVec 16) :
    Except MatchFault (Option (ℕ → BitVec 16)) :=
  if p.c = 0 then .ok none
  else if p.e < p.foffset then .ok none
  else if p.ncb < p.foffset then .ok none
  else do
    let d := if clear then fill d 0 p.ncb 0 else d
    let (ind, k, d) ← addBefore p soft d
    let ind := if p.foffset ≤ ind ∧ ind < add32 p.foffset p.f then add32 p.foffset p.f else ind
    let (_, k, d) ← addLoop p soft p.ncb ind k d
    let d ← combineLoop p soft (p.e + 1) k d
    return some d

/-- The parameters of a code block that all its transmissions share. -/
structure CodeBlock where
  tbslbrm : ℕ
  bg : ℕ
  z : ℕ
  c : ℕ
  k : ℕ
  f : ℕ

/-- A transmission: the redundancy version, the number of bits and the soft bits after
deinterleaving. -/
structure Transmission where
  rvIndex : ℕ
  e : ℕ
  soft : ℕ → BitVec 16

def CodeBlock.params (b : CodeBlock) (t : Transmission) : MatchParams :=
  ⟨b.tbslbrm, b.bg, b.z, b.c, b.f, sub32 (sub32 b.k b.f) (2 * b.z), t.rvIndex, t.e⟩

def CodeBlock.kc (b : CodeBlock) : ℕ := if b.bg = 2 then 52 else 68

/-- What is kept of a code block between transmissions. -/
structure SoftState where
  d : ℕ → BitVec 16
  toBeCleared : Bool

/-- `packs_epi16` of one element. -/
def saturate8 (x : ℤ) : ℤ := max (-128) (min 127 x)

/-- The vector before it is saturated, over what the stack held. -/
def decoderInput (b : CodeBlock) (d z : ℕ → BitVec 16) : ℕ → BitVec 16 :=
  let kprime := b.k - b.f
  let z := fill z 0 (2 * b.z) 0
  let z := fill z kprime (kprime + b.f) 0x7f7f
  let z := copy z (2 * b.z) d 0 (kprime - 2 * b.z)
  copy z b.k d (b.k - 2 * b.z) (b.kc * b.z - b.k)

/-- `nr_process_decode_segment` up to the call of the decoder, with the vector that is passed; none
is the return before it. -/
def processDecodeSegment (b : CodeBlock) (stack : ℕ → BitVec 16) (s : SoftState)
    (t : Transmission) : Except MatchFault (SoftState × Option (ℕ → ℤ)) := do
  match ← nrRateMatchingLdpcRx (b.params t) s.toBeCleared s.d t.soft with
  | none => return (s, none)
  | some d => return (⟨d, false⟩, some fun i => saturate8 (decoderInput b d stack i).toInt)

/-! ### What soft combining is for -/

/-- The positions that bit selection reads, in order: it runs on the positions themselves. -/
def MatchParams.readPositions (p : MatchParams) : ℕ → ℕ :=
  match nrRateMatchingLdpc p.specNcb p.e p (fun i => i) (fun _ => 0) with
  | .ok (some positions) => positions
  | _ => fun _ => 0

/-- The sum of the soft bits of a transmission that were read from a position. -/
def CodeBlock.softSum (b : CodeBlock) (t : Transmission) (i : ℕ) : ℤ :=
  ∑ k ∈ Finset.range t.e,
    if (b.params t).readPositions k = i then (t.soft k).toInt else 0

def CodeBlock.total (b : CodeBlock) (ts : List Transmission) (i : ℕ) : ℤ :=
  (ts.map fun t => b.softSum t i).sum

/-- The vector of a block after some transmissions. -/
def CodeBlock.llr (b : CodeBlock) (ts : List Transmission) (i : ℕ) : ℤ :=
  if i < 2 * b.z then 0
  else if b.k - b.f ≤ i ∧ i < b.k then 127
  else saturate8 (b.total ts (i - 2 * b.z))

/-- The number of coded bits, and how many of them the buffer holds. -/
def CodeBlock.coded (b : CodeBlock) : ℕ := if b.bg = 1 then 66 * b.z else 50 * b.z

def CodeBlock.bufferSize (b : CodeBlock) : ℕ :=
  if b.tbslbrm = 0 then b.coded else min b.coded (3 * b.tbslbrm / (2 * b.c))

/-- A code block as segmentation makes it. -/
structure CodeBlock.Allowed (b : CodeBlock) : Prop where
  bg : b.bg = 1 ∨ b.bg = 2
  size : b.k = codeSize b.bg b.z
  fillers : 2 * b.z + b.f ≤ b.k

/-! ### Adding along the walk -/

/-- The buffer after `k` soft bits. -/
noncomputable def combined (p : MatchParams) (soft d : ℕ → BitVec 16) (k : ℕ) : ℕ → BitVec 16 :=
  trace (addSoft soft) p.selected d k

variable {ind k : ℕ} {b : CodeBlock}

section Walk

variable {p : MatchParams} (hallowed : p.Allowed) (hfits : p.Fits) (soft d : ℕ → BitVec 16)

theorem addLoop_done (bound ind : ℕ) : addLoop p soft bound ind p.e d = .ok (ind, p.e, d) :=
  forRead_done (Nat.succ_pos bound) ind d

include hallowed

theorem addLoop_before (hat : p.At k ind)
    (hind : ind ≤ p.foffset) (hk : k ≤ p.e) :
    ∃ ind' k', addLoop p soft p.foffset ind k (combined p soft d k)
        = .ok (ind', k', combined p soft d k') ∧
      p.At k' ind' ∧ ind' ≤ p.foffset ∧ k ≤ k' ∧ k' ≤ p.e ∧
      (p.foffset ≤ ind' ∨ k' = p.e) ∧ (ind < p.foffset → k < p.e → k < k') := by
  have hfillers := hallowed.fillers
  refine forRead_at (fun ind _ => ind ≤ p.foffset) (fun _ _ _ _ _ => rfl) ?_ (by omega) hat hind hk
  intro ind k _ hlt _
  refine ⟨le_rfl, ?_, fun i hi hi' => absurd hi' (not_lt.mpr hi), ?_, hlt⟩
  · grind
  · intro hfiller
    exact not_lt.mpr hfiller.1 hlt

omit hallowed in
theorem addLoop_behind (hat : p.At k ind)
    (hind : p.foffset + p.f ≤ ind) (hk : k ≤ p.e) :
    ∃ ind' k', addLoop p soft p.specNcb ind k (combined p soft d k)
        = .ok (ind', k', combined p soft d k') ∧
      p.At k' ind' ∧ p.foffset + p.f ≤ ind' ∧ k ≤ k' ∧ k' ≤ p.e ∧
      (p.specNcb ≤ ind' ∨ k' = p.e) ∧ (ind < p.specNcb → k < p.e → k < k') := by
  refine forRead_at (fun ind _ => p.foffset + p.f ≤ ind) (fun _ _ _ _ _ => rfl) ?_ (by omega) hat
    hind hk
  intro ind k hsafe hlt _
  refine ⟨le_rfl, hlt, fun i hi hi' => absurd hi' (not_lt.mpr hi), ?_, ?_⟩
  · intro hfiller
    exact not_lt.mpr hsafe hfiller.2
  · exact Nat.le_succ_of_le hsafe

omit hallowed in
theorem addLoop_rest (hk : k ≤ p.e)
    (hstart : k = p.e ∨ p.At k ind ∧ p.foffset + p.f ≤ ind) :
    ∃ ind' k', addLoop p soft p.specNcb ind k (combined p soft d k)
        = .ok (ind', k', combined p soft d k') ∧ k ≤ k' ∧ k' ≤ p.e ∧
      (k' = p.e ∨ p.At k' p.specNcb) ∧
      (ind < p.specNcb → k < p.e → k < k') := by
  rcases hstart with rfl | ⟨hat, hbehind⟩
  · exact ⟨ind, p.e, addLoop_done soft _ _ ind, le_rfl, le_rfl, Or.inl rfl,
      fun _ h => absurd h (Nat.lt_irrefl _)⟩
  · obtain ⟨ind', k', hloop, hat', -, hle, hk', hend, hprogress⟩ :=
      addLoop_behind soft d hat hbehind hk
    refine ⟨ind', k', hloop, hle, hk', ?_, hprogress⟩
    rcases hend with hlast | hdone
    · exact Or.inr (Nat.le_antisymm hat'.1 hlast ▸ hat')
    · exact Or.inl hdone

include hfits

theorem combineLoop_combined {fuel : ℕ} (hfuel : p.e - k < fuel) (hk : k ≤ p.e)
    (hend : k = p.e ∨ p.At k p.specNcb) :
    combineLoop p soft fuel k (combined p soft d k) = .ok (combined p soft d p.e) := by
  induction fuel generalizing k with
  | zero => omega
  | succ fuel ih =>
    rw [combineLoop]
    by_cases hmore : k < p.e
    · have hncb := hallowed.specNcb_lt
      have hfillers := hallowed.fillers
      have hnonempty := hfits.nonempty
      have hat : p.At k 0 := by
        rcases hend with heq | hat
        · omega
        · exact hat.wrap
      obtain ⟨ind₁, k₁, hloop₁, hat₁, hind₁, hle₁, hk₁, hend₁, hprogress₁⟩ :=
        addLoop_before hallowed soft d hat (Nat.zero_le _) hk
      have hrest : k₁ = p.e ∨
          p.At k₁ (p.foffset + p.f) ∧
            p.foffset + p.f ≤ p.foffset + p.f := by
        rcases hend₁ with hlast | hdone
        · exact Or.inr ⟨hat₁.skip hfillers (by omega) fun i hi hi' => ⟨by omega, hi'⟩,
            le_rfl⟩
        · exact Or.inl hdone
      obtain ⟨ind₂, k₂, hloop₂, hle₂, hk₂, hend₂, hprogress₂⟩ :=
        addLoop_rest soft d hk₁ hrest
      rw [if_pos hmore, hloop₁, ok_bind, hfits.buffer, add32_eq (by omega)]
      simp only [hloop₂, ok_bind]
      refine ih ?_ hk₂ hend₂
      have hinside := hfits.inside
      omega
    · grind

/-- **The soft bits are added at the positions of the walk.** -/
theorem nrRateMatchingLdpcRx_combined (clear : Bool) :
    nrRateMatchingLdpcRx p clear d soft = .ok (some (combined p soft
      (if clear then fill d 0 p.specNcb 0 else d) p.e)) := by
  have hncb := hallowed.specNcb_lt
  have hfillers := hallowed.fillers
  have hc := hallowed.c
  have henough := hfits.enough
  have hbegin : p.At 0 p.specK0 :=
    At.begin (hallowed.k0_lt hfits.nonempty).le
  generalize hd' : (if clear then fill d 0 p.specNcb 0 else d) = d'
  have hzero : combined p soft d' 0 = d' := rfl
  obtain ⟨ind₁, k₁, hloop₁, hk₁, hrest₁⟩ : ∃ ind₁ k₁,
      addBefore p soft d' = .ok (ind₁, k₁, combined p soft d' k₁) ∧ k₁ ≤ p.e ∧
      (k₁ = p.e ∨ p.At k₁ ind₁ ∧ p.foffset ≤ ind₁) := by
    rw [addBefore, MatchParams.k0_eq hfits.buffer]
    by_cases hbefore : p.specK0 < p.foffset
    · obtain ⟨ind₁, k₁, hloop₁, hat₁, -, -, hk₁, hend₁, -⟩ :=
        addLoop_before hallowed soft d' hbegin (hbefore.le) (Nat.zero_le _)
      grind
    · grind
  have hrest₂ : k₁ = p.e ∨ p.At k₁
      (if p.foffset ≤ ind₁ ∧ ind₁ < p.foffset + p.f then p.foffset + p.f else ind₁) ∧
      p.foffset + p.f ≤ if p.foffset ≤ ind₁ ∧ ind₁ < p.foffset + p.f then p.foffset + p.f
        else ind₁ := by
    rcases hrest₁ with hdone | ⟨hat₁, hind₁⟩
    · exact Or.inl hdone
    · right
      split
      · exact ⟨hat₁.skip hfillers (by omega) fun i hi hi' => ⟨by omega, hi'⟩, le_rfl⟩
      · exact ⟨hat₁, by omega⟩
  obtain ⟨ind₂, k₂, hloop₂, -, hk₂, hend₂, -⟩ := addLoop_rest soft d' hk₁ hrest₂
  have hrepeat : combineLoop p soft (p.e + 1) k₂ (combined p soft d' k₂)
      = .ok (combined p soft d' p.e) :=
    combineLoop_combined hallowed hfits soft d' (by omega) hk₂ hend₂
  rw [nrRateMatchingLdpcRx, if_neg (by omega), if_neg (by omega), hfits.buffer, if_neg (by omega),
    add32_eq (by omega), hd']
  simp_all

end Walk

/-! ### Sums -/

theorem combined_sum (p : MatchParams) (soft d : ℕ → BitVec 16) (n i : ℕ) :
    combined p soft d n i = d i + BitVec.ofInt 16
      (∑ k ∈ Finset.range n, if p.selected k = i then (soft k).toInt else 0) := by
  induction n with
  | zero => exact (BitVec.add_zero (d i)).symm
  | succ n ih =>
    rw [Finset.sum_range_succ, BitVec.ofInt_add, ← BitVec.add_assoc, ← ih]
    show Function.update (combined p soft d n) (p.selected n)
      (combined p soft d n (p.selected n) + soft n) i = _
    grind

theorem readPositions_eq {p : MatchParams} (hallowed : p.Allowed) (hfits : p.Fits)
    (hk : k < p.e) : p.readPositions k = p.selected k := by
  rw [MatchParams.readPositions, nrRateMatchingLdpc_output hallowed hfits]
  exact (output_eq p (fun i => i) (fun _ => 0) k).trans (if_pos hk)

theorem softSum_eq {t : Transmission} (hallowed : (b.params t).Allowed)
    (hfits : (b.params t).Fits) (i : ℕ) :
    b.softSum t i = ∑ k ∈ Finset.range t.e,
      if (b.params t).selected k = i then (t.soft k).toInt else 0 := by
  refine Finset.sum_congr rfl fun k hk => ?_
  rw [readPositions_eq hallowed hfits (Finset.mem_range.mp hk)]

theorem total_snoc (b : CodeBlock) (ts : List Transmission) (t : Transmission) (i : ℕ) :
    b.total (ts ++ [t]) i = b.total ts i + b.softSum t i := by
  rw [CodeBlock.total, List.map_append, List.sum_append, List.map_singleton, List.sum_singleton,
    CodeBlock.total]

/-! ### The buffer holds the sums -/

/-- The buffer as the next transmission finds it holds the sums of the ones before. -/
def Holds (b : CodeBlock) (ts : List Transmission) (s : SoftState) : Prop :=
  ∀ i < b.coded, (if s.toBeCleared then fill s.d 0 b.bufferSize 0 else s.d) i
    = BitVec.ofInt 16 (b.total ts i)

theorem holds_start {d₀ : ℕ → BitVec 16}
    (htail : ∀ i, b.bufferSize ≤ i → i < b.coded → d₀ i = 0) : Holds b [] ⟨d₀, true⟩ := by
  intro i hi
  show fill d₀ 0 b.bufferSize 0 i = 0
  by_cases hbuffer : i < b.bufferSize
  · exact fill_inside d₀ 0 (Nat.zero_le i) hbuffer
  · grind [fill_outside]

theorem processDecodeSegment_holds {ts : List Transmission} {t : Transmission}
    {s : SoftState} (stack : ℕ → BitVec 16) (hholds : Holds b ts s)
    (hallowed : (b.params t).Allowed) (hfits : (b.params t).Fits) :
    ∃ s', processDecodeSegment b stack s t
        = .ok (s', some fun i => saturate8 (decoderInput b s'.d stack i).toInt) ∧
      s'.toBeCleared = false ∧ Holds b (ts ++ [t]) s' := by
  refine ⟨⟨combined (b.params t) t.soft (if s.toBeCleared then fill s.d 0 b.bufferSize 0 else s.d)
    t.e, false⟩, ?_, rfl, ?_⟩
  · rw [processDecodeSegment, nrRateMatchingLdpcRx_combined hallowed hfits]
    rfl
  · intro i hi
    show combined _ _ _ _ i = _
    rw [combined_sum, hholds i hi, ← softSum_eq hallowed hfits, ← BitVec.ofInt_add, total_snoc]

theorem run_holds {ts₀ : List Transmission} {s₀ : SoftState} (stack : ℕ → BitVec 16)
    (hholds : Holds b ts₀ s₀) (ts : List Transmission)
    (hallowed : ∀ t ∈ ts, (b.params t).Allowed) (hfits : ∀ t ∈ ts, (b.params t).Fits) :
    ∃ s ls, run (processDecodeSegment b stack) s₀ ts = .ok (s, ls) ∧ Holds b (ts₀ ++ ts) s := by
  induction ts generalizing ts₀ s₀ with
  | nil => exact ⟨s₀, [], rfl, by rwa [List.append_nil]⟩
  | cons t ts ih =>
    obtain ⟨s₁, hstep, -, hholds₁⟩ := processDecodeSegment_holds stack hholds
      (hallowed t List.mem_cons_self) (hfits t List.mem_cons_self)
    grind [List.mem_cons_of_mem, saturate8, decoderInput, run, ok_bind, pure_eq_ok]

/-! ### The vector for the decoder -/

theorem decoderInput_eq (hb : b.Allowed) (d stack : ℕ → BitVec 16) {i : ℕ}
    (hi : i < b.kc * b.z) : decoderInput b d stack i =
      if i < 2 * b.z then 0 else if b.k - b.f ≤ i ∧ i < b.k then 0x7f7f else d (i - 2 * b.z) := by
  have hfillers := hb.fillers
  simp only [decoderInput]
  by_cases hpunctured : i < 2 * b.z
  · rw [if_pos hpunctured, copy_outside _ _ (Or.inl (by omega)),
      copy_outside _ _ (Or.inl hpunctured), fill_outside _ _ (Or.inl (by omega)),
      fill_inside _ _ (Nat.zero_le i) hpunctured]
  · rw [if_neg hpunctured]
    by_cases hfiller : b.k - b.f ≤ i ∧ i < b.k
    · rw [if_pos hfiller, copy_outside _ _ (Or.inl hfiller.2), copy_outside _ _ (Or.inr (by omega)),
        fill_inside _ _ hfiller.1 (by omega)]
    · rw [if_neg hfiller]
      by_cases hbefore : i < b.k
      · rw [copy_outside _ _ (Or.inl hbefore), copy, if_pos (by omega), Nat.zero_add]
      · rw [copy, if_pos (by omega), show b.k - 2 * b.z + (i - b.k) = i - 2 * b.z from by omega]

theorem coded_columns (hb : b.Allowed) : b.kc * b.z = b.coded + 2 * b.z := by
  rw [CodeBlock.kc, CodeBlock.coded]
  rcases hb.bg with h | h <;> rw [h] <;> simp <;> ring

/-- The vector after a sequence of transmissions. -/
theorem processDecodeSegment_llr (hb : b.Allowed) {ts : List Transmission} {t : Transmission}
    (hallowed : ∀ t' ∈ ts ++ [t], (b.params t').Allowed)
    (hfits : ∀ t' ∈ ts ++ [t], (b.params t').Fits) {d₀ : ℕ → BitVec 16} (stack : ℕ → BitVec 16)
    (htail : ∀ i, b.bufferSize ≤ i → i < b.coded → d₀ i = 0)
    (hrange : ∀ i, -32768 ≤ b.total (ts ++ [t]) i ∧ b.total (ts ++ [t]) i ≤ 32767) :
    ∃ s ls s' l, run (processDecodeSegment b stack) ⟨d₀, true⟩ ts = .ok (s, ls) ∧
      processDecodeSegment b stack s t = .ok (s', some l) ∧
      ∀ i < b.kc * b.z, l i = b.llr (ts ++ [t]) i := by
  obtain ⟨s, ls, hrun, hholds⟩ := run_holds stack (holds_start htail) ts
    (fun t' ht' => hallowed t' (List.mem_append_left _ ht'))
    fun t' ht' => hfits t' (List.mem_append_left _ ht')
  have hlast : t ∈ ts ++ [t] := List.mem_append_right _ (List.mem_singleton_self t)
  obtain ⟨s', hstep, hclear, hholds'⟩ :=
    processDecodeSegment_holds stack hholds (hallowed t hlast) (hfits t hlast)
  refine ⟨s, ls, s', _, hrun, hstep, fun i hi => ?_⟩
  have hcoded := coded_columns hb
  rw [decoderInput_eq hb _ _ hi, CodeBlock.llr]
  split
  · rfl
  · split
    · rfl
    · have hsum := hholds' (i - 2 * b.z) (by omega)
      grind

/-- **Soft combining undoes bit selection.**  In every sequence of transmissions of a code block
whose buffer was marked to be cleared, the decoder gets, at each position of a coded bit, the sum of
the soft bits that bit selection reads from it, saturated to 8 bits, 0 where nothing was sent, and
127 for fillers, where bit selection works and the buffer has zeros behind its end. -/
theorem softCombining_correct {b : CodeBlock} (hb : b.Allowed) {ts : List Transmission}
    {t : Transmission} (hallowed : ∀ t' ∈ ts ++ [t], (b.params t').Allowed)
    (hfits : ∀ t' ∈ ts ++ [t], (b.params t').Fits) (d₀ stack : ℕ → BitVec 16)
    (htail : ∀ i, b.bufferSize ≤ i → i < b.coded → d₀ i = 0)
    (hrange : ∀ i, -32768 ≤ b.total (ts ++ [t]) i ∧ b.total (ts ++ [t]) i ≤ 32767) :
    ∃ s ls s' l, run (processDecodeSegment b stack) ⟨d₀, true⟩ ts = .ok (s, ls) ∧
      processDecodeSegment b stack s t = .ok (s', some l) ∧
      ∀ i < b.kc * b.z, l i = b.llr (ts ++ [t]) i :=
  processDecodeSegment_llr hb hallowed hfits stack htail hrange

theorem softSum_bounds (b : CodeBlock) (t : Transmission) {high : ℤ}
    (hsoft : ∀ k, |(t.soft k).toInt| ≤ high) (i : ℕ) : |b.softSum t i| ≤ t.e * high := by
  have hhigh : 0 ≤ high := (abs_nonneg _).trans (hsoft 0)
  have hle := Finset.sum_le_card_nsmul (Finset.range t.e)
    (fun k => |if (b.params t).readPositions k = i then (t.soft k).toInt else 0|) high (by
      intro k _
      split_ifs
      · exact hsoft k
      · rwa [abs_zero])
  rw [Finset.card_range, nsmul_eq_mul] at hle
  exact (Finset.abs_sum_le_sum_abs _ _).trans hle

/-- A block of 20 bits of which 2 are fillers, and a transmission of 30 bits. -/
def sampleBlock : CodeBlock := ⟨0, 2, 2, 1, 20, 2⟩

def sampleTransmission : Transmission := ⟨0, 30, fun _ => 3⟩

/-- Two transmissions of the block, in a buffer that held something else. -/
theorem softCombining_correct_sample :
    ∃ s ls s' l, run (processDecodeSegment sampleBlock fun _ => 0) ⟨fun _ => 7, true⟩
        [sampleTransmission] = .ok (s, ls) ∧
      processDecodeSegment sampleBlock (fun _ => 0) s sampleTransmission = .ok (s', some l) ∧
      ∀ i < sampleBlock.kc * sampleBlock.z,
        l i = sampleBlock.llr ([sampleTransmission] ++ [sampleTransmission]) i := by
  have hmem : ∀ t ∈ [sampleTransmission] ++ [sampleTransmission], t = sampleTransmission := by
    intro t ht
    simpa using ht
  refine softCombining_correct ⟨by decide, by decide, by decide⟩ (fun t ht => ?_) (fun t ht => ?_)
    (fun _ => 7) (fun _ => 0) (fun i hlow hhigh => ?_) fun i => ?_
  · rw [hmem t ht]
    exact ⟨by decide, by decide, by decide, by decide, by decide, by decide⟩
  · rw [hmem t ht]
    exact ⟨by decide, by decide, by decide, by decide, by decide⟩
  · exact absurd hhigh (not_lt.mpr hlow)
  · have hthree : |(3 : BitVec 16).toInt| ≤ 3 := by decide
    obtain ⟨hlow, hhigh⟩ := abs_le.mp
      (softSum_bounds sampleBlock sampleTransmission (fun _ => hthree) i)
    rw [total_snoc, CodeBlock.total, List.map_singleton, List.sum_singleton]
    have he : (sampleTransmission.e : ℤ) = 30 := rfl
    omega

/-- A block in a buffer for 60 of 100 coded bits. -/
def limitedBlock : CodeBlock := ⟨40, 2, 2, 1, 20, 2⟩

/-- **What lies behind the end of a limited buffer goes to the decoder.**  Only the buffer is
cleared, but the vector is taken from all coded bits. -/
theorem not_softCombining_correct :
    ¬ ∀ (b : CodeBlock), b.Allowed → ∀ (ts : List Transmission) (t : Transmission),
      (∀ t' ∈ ts ++ [t], (b.params t').Allowed) → ∀ d₀ stack : ℕ → BitVec 16,
      (∀ i, -32768 ≤ b.total (ts ++ [t]) i ∧ b.total (ts ++ [t]) i ≤ 32767) →
      ∃ s ls s' l, run (processDecodeSegment b stack) ⟨d₀, true⟩ ts = .ok (s, ls) ∧
        processDecodeSegment b stack s t = .ok (s', some l) ∧
        ∀ i < b.kc * b.z, l i = b.llr (ts ++ [t]) i := by
  intro hall
  have htotal : ∀ i, limitedBlock.total ([] ++ [⟨0, 30, fun _ => 0⟩]) i = 0 := by
    intro i
    have hzero : |(0 : BitVec 16).toInt| ≤ 0 := by decide
    have hsum := softSum_bounds limitedBlock ⟨0, 30, fun _ => 0⟩ (fun _ => hzero) i
    rw [mul_zero] at hsum
    rw [total_snoc, abs_nonpos_iff.mp hsum]
    rfl
  obtain ⟨s, ls, s', l, hrun, hstep, hvector⟩ := hall limitedBlock ⟨by decide, by decide, by decide⟩
    [] ⟨0, 30, fun _ => 0⟩ (by
      intro t ht
      obtain rfl := List.mem_singleton.mp ht
      exact ⟨by decide, by decide, by decide, by decide, by decide, by decide⟩)
    (fun _ => 5) (fun _ => 0) (fun i => by rw [htotal]; decide)
  have hs : s = ⟨fun _ => 5, true⟩ := (ok_inj hrun).1.symm
  have hobserved : (processDecodeSegment limitedBlock (fun _ => 0) ⟨fun _ => 5, true⟩
      ⟨0, 30, fun _ => 0⟩).toOption.map (fun r => r.2.map (· 74)) = some (some 5) := by
    decide +kernel
  rw [← hs, hstep] at hobserved
  have hfive : l 74 = 5 := Option.some.inj (Option.some.inj hobserved)
  have hllr := hvector 74 (by decide)
  rw [hfive, CodeBlock.llr, if_neg (by decide), if_neg (by decide), htotal] at hllr
  exact absurd hllr (by decide)

/-! ### Bits that are sent come back -/

/-- The soft bits are those that bit selection sends of `bits`, all of the same size. -/
def CodeBlock.Noiseless (b : CodeBlock) (bits : ℕ → Bool) (m : ℤ) (t : Transmission) : Prop :=
  ∃ sent, nrRateMatchingLdpc (b.params t).specNcb t.e (b.params t) bits (fun _ => false)
      = .ok (some sent) ∧ ∀ k < t.e, (t.soft k).toInt = if sent k then -m else m

/-- How often a position is sent. -/
def CodeBlock.sentTimes (b : CodeBlock) (ts : List Transmission) (i : ℕ) : ℤ :=
  b.total (ts.map fun t => { t with soft := fun _ => 1 }) i

section Noiseless

variable {bits : ℕ → Bool} {m : ℤ} {ts : List Transmission}

theorem total_noiseless (hallowed : ∀ t ∈ ts, (b.params t).Allowed)
    (hfits : ∀ t ∈ ts, (b.params t).Fits) (h : ∀ t ∈ ts, b.Noiseless bits m t) (i : ℕ) :
    b.total ts i = (if bits i then -m else m) * b.sentTimes ts i := by
  rw [CodeBlock.sentTimes, CodeBlock.total, CodeBlock.total, List.map_map, ← List.sum_map_mul_left]
  refine congrArg List.sum (List.map_congr_left fun t ht => ?_)
  obtain ⟨sent, hsent, hsoft⟩ := h t ht
  cases (nrRateMatchingLdpc_output (hallowed t ht) (hfits t ht) bits _).symm.trans hsent
  rw [Function.comp_apply, CodeBlock.softSum, CodeBlock.softSum, Finset.mul_sum]
  refine Finset.sum_congr rfl fun k hk => ?_
  have hk : k < (b.params t).e := Finset.mem_range.mp hk
  rw [hsoft k hk, output_eq, if_pos hk, ← readPositions_eq (hallowed t ht) (hfits t ht) hk]
  show _ = _ * if (b.params t).readPositions k = i then 1 else 0
  grind

/-- **What is sent without noise comes back**: after every sequence of transmissions the vector has,
at each position of a coded bit, the sign of the bit and the size of all soft bits sent of it. -/
theorem softCombining_noiseless {t : Transmission} (hb : b.Allowed)
    (hallowed : ∀ u ∈ ts ++ [t], (b.params u).Allowed)
    (hfits : ∀ u ∈ ts ++ [t], (b.params u).Fits)
    (hsent : ∀ u ∈ ts ++ [t], b.Noiseless bits m u)
    (hrange : ∀ i, -32768 ≤ b.total (ts ++ [t]) i ∧ b.total (ts ++ [t]) i ≤ 32767)
    {d₀ : ℕ → BitVec 16} (stack : ℕ → BitVec 16)
    (htail : ∀ i, b.bufferSize ≤ i → i < b.coded → d₀ i = 0) :
    ∃ s ls s' l, run (processDecodeSegment b stack) ⟨d₀, true⟩ ts = .ok (s, ls) ∧
      processDecodeSegment b stack s t = .ok (s', some l) ∧
      ∀ i, 2 * b.z ≤ i → i < b.kc * b.z → ¬ (b.k - b.f ≤ i ∧ i < b.k) → l i = saturate8
        ((if bits (i - 2 * b.z) then -m else m) * b.sentTimes (ts ++ [t]) (i - 2 * b.z)) := by
  obtain ⟨s, ls, s', l, hrun, hstep, hllr⟩ :=
    processDecodeSegment_llr hb hallowed hfits stack htail hrange
  refine ⟨s, ls, s', l, hrun, hstep, fun i hlow hi hfiller => ?_⟩
  rw [hllr i hi, CodeBlock.llr, if_neg (by omega), if_neg hfiller,
    total_noiseless hallowed hfits hsent]

end Noiseless

/-- The transmission of the block when every other coded bit is set. -/
def alternatingTransmission : Transmission :=
  { sampleTransmission with
    soft := fun k => if (sampleBlock.params sampleTransmission).readPositions k % 2 = 1 then -3
      else 3 }

/-- Two transmissions of the block. -/
theorem softCombining_noiseless_alternating :
    ∃ s ls s' l, run (processDecodeSegment sampleBlock fun _ => 0) ⟨fun _ => 7, true⟩
        [alternatingTransmission] = .ok (s, ls) ∧
      processDecodeSegment sampleBlock (fun _ => 0) s alternatingTransmission = .ok (s', some l) ∧
      ∀ i, 4 ≤ i → i < 104 → ¬ (18 ≤ i ∧ i < 20) → l i =
        saturate8 ((if decide ((i - 4) % 2 = 1) then -3 else 3) *
          sampleBlock.sentTimes [alternatingTransmission, alternatingTransmission] (i - 4)) := by
  have hparams : ∀ u ∈ [alternatingTransmission] ++ [alternatingTransmission],
      u = alternatingTransmission ∧
        (sampleBlock.params u).Allowed ∧ (sampleBlock.params u).Fits := by
    intro u hu
    obtain rfl : u = alternatingTransmission := by simpa using hu
    exact ⟨rfl, ⟨by decide, by decide, by decide, by decide, by decide, by decide⟩,
      ⟨by decide, by decide, by decide, by decide, by decide⟩⟩
  refine @softCombining_noiseless sampleBlock (fun i => decide (i % 2 = 1)) 3
    [alternatingTransmission] _ ⟨by decide, by decide, by decide⟩ (fun u hu => (hparams u hu).2.1)
    (fun u hu => (hparams u hu).2.2) (fun u hu => ?_) (fun i => ?_) _ _ fun i hlow hhigh => ?_
  · obtain ⟨rfl, hallowed, hfits⟩ := hparams u hu
    refine ⟨_, nrRateMatchingLdpc_output hallowed hfits _ _, fun k hk => ?_⟩
    have hk : k < (sampleBlock.params alternatingTransmission).e := hk
    rw [output_eq, if_pos hk, ← readPositions_eq hallowed hfits hk]
    show (ite _ _ _ : BitVec 16).toInt = _
    simp only [decide_eq_true_eq]
    split_ifs with hodd hodd' hodd'
    · rfl
    · exact absurd hodd hodd'
    · exact absurd hodd' hodd
    · rfl
  · have hthree : ∀ k, |(alternatingTransmission.soft k).toInt| ≤ 3 := by
      intro k
      show |(ite _ _ _ : BitVec 16).toInt| ≤ 3
      split_ifs <;> decide
    obtain ⟨hlow, hhigh⟩ := abs_le.mp (softSum_bounds sampleBlock _ hthree i)
    have he : (alternatingTransmission.e : ℤ) = 30 := rfl
    rw [total_snoc, CodeBlock.total, List.map_singleton, List.sum_singleton]
    omega
  · exact absurd hhigh (not_lt.mpr hlow)

end OaiGnb.Phy
