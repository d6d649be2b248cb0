import OaiGnb.Lib.ResourceGrid

/-!
# What the uplink and the downlink scheduler share

Symbols and bitmaps of a time domain allocation, the bandwidth part, `nr_find_nb_rb` of
`gNB_scheduler_primitives.c`, and the cells of the resource grid that an allocation occupies: pairs
of a PRB and a symbol.

* `getLsbD_slToBitmap`: the bits of `SL_to_bitmap` are the symbols of the allocation.
* `nrFindNbRb_le`: `nr_find_nb_rb` stays within its maximum.
-/

namespace OaiGnb.Mac

open ResourceGrid

/-- A call that ends the process. -/
inductive Fault where
  | devAssert
  | assertFatal
  deriving Repr, DecidableEq

/-- `NR_tda_info_t`: symbols of a slot. -/
structure TdaInfo where
  startSymbolIndex : ℕ
  nrOfSymbols : ℕ
  fits : startSymbolIndex + nrOfSymbols ≤ 14
  deriving Repr, DecidableEq

/-- All symbols of the slot. -/
def fullSlot : TdaInfo := ⟨0, 14, le_rfl⟩

/-- `bwp_info_t`. -/
structure BwpInfo where
  bwpStart : ℕ
  bwpSize : ℕ
  deriving Repr, DecidableEq

/-- `NR_beam_alloc_t`; no index stands for a negative one. -/
structure BeamAlloc where
  idx : Option ℕ
  newBeam : Bool
  deriving Repr, DecidableEq

/-- The part of a VRB map for one slot and one beam: the symbols in use, for every PRB. -/
abbrev VrbMap := ℕ → BitVec 16

/-- `SL_to_bitmap`. -/
def slToBitmap (startSymbolIndex nrOfSymbols : ℕ) : BitVec 16 :=
  BitVec.ofNat 16 (((1 <<< nrOfSymbols) - 1) <<< startSymbolIndex)

/-- The bitmap of a time domain allocation. -/
def TdaInfo.bitmap (t : TdaInfo) : BitVec 16 := slToBitmap t.startSymbolIndex t.nrOfSymbols

theorem getLsbD_slToBitmap {s n : ℕ} (h : s + n ≤ 16) (k : ℕ) :
    (slToBitmap s n).getLsbD k = true ↔ s ≤ k ∧ k < s + n := by
  rw [slToBitmap, BitVec.getLsbD_ofNat, Nat.one_shiftLeft, Nat.testBit_shiftLeft,
    Nat.testBit_two_pow_sub_one]
  grind

/-- The cells of an allocation: `rbSize` PRBs from `bwpStart + rbStart` on, in the symbols of the
time domain allocation. -/
def allocationCells (bwpStart rbStart rbSize : ℕ) (t : TdaInfo) : Set (ℕ × ℕ) :=
  {c | (bwpStart + rbStart ≤ c.1 ∧ c.1 < bwpStart + rbStart + rbSize) ∧
    t.startSymbolIndex ≤ c.2 ∧ c.2 < t.startSymbolIndex + t.nrOfSymbols}

theorem allocationCells_eq (bwpStart rbStart rbSize : ℕ) (t : TdaInfo) :
    allocationCells bwpStart rbStart rbSize t = block (bwpStart + rbStart) rbSize t.bitmap := by
  ext c
  have h16 : t.startSymbolIndex + t.nrOfSymbols ≤ 16 := t.fits.trans (by decide)
  exact and_congr Iff.rfl (getLsbD_slToBitmap h16 c.2).symm

/-- The cells of the allocations on a beam. -/
def cellsOn {α : Type} (beam : α → ℕ) (cells : α → Set (ℕ × ℕ)) (b : ℕ) (l : List α) :
    List (Set (ℕ × ℕ)) :=
  (l.filter (fun a => beam a = b)).map cells

theorem cellsOn_concat {α : Type} (beam : α → ℕ) (cells : α → Set (ℕ × ℕ)) (b : ℕ) (l : List α)
    (a : α) :
    cellsOn beam cells b (l ++ [a]) =
      cellsOn beam cells b l ++ (if beam a = b then [cells a] else []) := by
  rw [cellsOn, List.filter_append, List.map_append]
  refine congrArg (cellsOn beam cells b l ++ ·) ?_
  by_cases hb : beam a = b
  · simp_all
  · simp_all

/-- The resource blocks of an allocation are free, and inside the BWP. -/
structure Fits (map : VrbMap) (bi : BwpInfo) (rbStart rbSize : ℕ) (slbitmap : BitVec 16) :
    Prop where
  inside : rbStart + rbSize ≤ bi.bwpSize
  free : ∀ r, bi.bwpStart + rbStart ≤ r → r < bi.bwpStart + rbStart + rbSize →
    rowFree map slbitmap r = true

theorem Fits.shorter {map : VrbMap} {bi : BwpInfo} {rbStart n m : ℕ} {slbitmap : BitVec 16}
    (h : Fits map bi rbStart n slbitmap) (hle : m ≤ n) : Fits map bi rbStart m slbitmap :=
  ⟨Nat.le_trans (Nat.add_le_add_left hle _) h.inside, fun r h1 h2 => h.free r h1 (by omega)⟩

/-! ### The number of resource blocks -/

/-- `while (rb % p == 0) rb /= p`, at most `n` times. -/
def stripFactor (p : ℕ) : ℕ → ℕ → ℕ
  | 0, rb => rb
  | n + 1, rb => if rb % p = 0 then stripFactor p n (rb / p) else rb

/-- `multiple_2_3_5`.  The source does not return for 0, which its callers do not pass. -/
def multiple235 (rb : ℕ) : Bool :=
  stripFactor 5 rb (stripFactor 3 rb (stripFactor 2 rb rb)) == 1

/-- `while (!multiple_2_3_5(rb)) rb--`. -/
def multipleBelow : ℕ → ℕ
  | 0 => 0
  | rb + 1 => if multiple235 (rb + 1) then rb + 1 else multipleBelow rb

/-- `nr_compute_tbs`: of the modulation order, the code rate, and the numbers of resource blocks,
symbols, DMRS elements and layers. -/
abbrev ComputeTbs := ℕ → ℕ → ℕ → ℕ → ℕ → ℕ → ℕ

/-- The arguments of `nr_find_nb_rb` that `nr_compute_tbs` depends on. -/
structure TbsParams where
  qm : ℕ
  r : ℕ
  nbSymbSch : ℕ
  nbDmrsPrb : ℕ
  nrOfLayers : ℕ
  deriving Repr, DecidableEq

/-- The transport block size in bytes. -/
def tbsBytes (nrComputeTbs : ComputeTbs) (q : TbsParams) (rb : ℕ) : ℕ :=
  nrComputeTbs q.qm q.r rb q.nbSymbSch q.nbDmrsPrb q.nrOfLayers >>> 3

/-- The binary search of `nr_find_nb_rb`; `hi - lo` gets smaller in every iteration.  With
transform precoding `hi` is a number that `multiple_2_3_5` accepts, so `p` stops there. -/
def searchNbRb (tbs : ℕ → ℕ) (transformPrecoding : Bool) (bytes : ℕ) : ℕ → ℕ → ℕ → ℕ
  | 0, _, hi => hi
  | n + 1, lo, hi =>
      if lo + 1 < hi then
        let p := (hi + lo) / 2
        let p := if transformPrecoding then scanWhile (fun p => !multiple235 p) hi p else p
        if p = hi then hi
        else if bytes = tbs p then p
        else if bytes < tbs p then searchNbRb tbs transformPrecoding bytes n lo p
        else searchNbRb tbs transformPrecoding bytes n p hi
      else hi

/-- What `nr_find_nb_rb` returns. -/
structure NbRb where
  success : Bool
  tbs : ℕ
  nbRb : ℕ
  deriving Repr, DecidableEq

/-- `nr_find_nb_rb`. -/
def nrFindNbRb (nrComputeTbs : ComputeTbs) (q : TbsParams) (transformPrecoding : Bool)
    (bytes nbRbMin nbRbMax : ℕ) : NbRb :=
  let tbs := tbsBytes nrComputeTbs q
  let nbRbMax := if transformPrecoding then multipleBelow nbRbMax else nbRbMax
  if bytes > tbs nbRbMax then ⟨false, tbs nbRbMax, nbRbMax⟩
  else if bytes = tbs nbRbMax then ⟨true, tbs nbRbMax, nbRbMax⟩
  else if bytes ≤ tbs nbRbMin then ⟨true, tbs nbRbMin, nbRbMin⟩
  else
    let hi := searchNbRb tbs transformPrecoding bytes nbRbMax nbRbMin nbRbMax
    ⟨decide (tbs hi ≥ bytes ∧ hi ≤ nbRbMax), tbs hi, hi⟩

theorem multipleBelow_le (rb : ℕ) : multipleBelow rb ≤ rb := by
  induction rb with
  | zero => exact le_rfl
  | succ rb ih =>
    rw [multipleBelow]
    split
    · exact le_rfl
    · exact Nat.le_succ_of_le ih

theorem searchNbRb_le (tbs : ℕ → ℕ) (transformPrecoding : Bool) (bytes n : ℕ) :
    ∀ lo hi, searchNbRb tbs transformPrecoding bytes n lo hi ≤ hi := by
  induction n with
  | zero =>
    intro lo hi
    exact le_rfl
  | succ n ih =>
    intro lo hi
    rw [searchNbRb]
    split
    · dsimp only
      have hmid : (hi + lo) / 2 ≤ hi := by omega
      have hp : (if transformPrecoding then scanWhile (fun p => !multiple235 p) hi ((hi + lo) / 2)
          else (hi + lo) / 2) ≤ hi := by
        split
        · exact scanWhile_le hmid
        · exact hmid
      generalize (if transformPrecoding then scanWhile (fun p => !multiple235 p) hi ((hi + lo) / 2)
        else (hi + lo) / 2) = p at hp
      split
      · exact le_rfl
      · grind
    · exact le_rfl

/-- **The number of resource blocks is at most the maximum.** -/
theorem nrFindNbRb_le {nrComputeTbs : ComputeTbs} {q : TbsParams} {transformPrecoding : Bool}
    {bytes nbRbMin nbRbMax : ℕ} (h : nbRbMin ≤ nbRbMax) :
    (nrFindNbRb nrComputeTbs q transformPrecoding bytes nbRbMin nbRbMax).nbRb ≤ nbRbMax := by
  have hmax : (if transformPrecoding then multipleBelow nbRbMax else nbRbMax) ≤ nbRbMax := by
    split
    · exact multipleBelow_le nbRbMax
    · exact le_rfl
  unfold nrFindNbRb
  dsimp only
  generalize (if transformPrecoding then multipleBelow nbRbMax else nbRbMax) = top at hmax
  split
  · exact hmax
  · grind [Nat.le_trans, searchNbRb_le]

end OaiGnb.Mac
