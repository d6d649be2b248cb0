import OaiGnb.Mac.UeBsr
import OaiGnb.Lib.Run

/-!
# Buffer status reports

The UE writes for a logical channel group the index of a buffer size, which
`nr_locate_BsrIndexByBufferSize` finds by bisection in the tables of TS 38.321, and the gNB looks up
the index behind it.

* `nrLocateBsrIndexByBufferSize_isLeast`: the bisection finds the least index.
* `bsrEstimate_covers`: when the gNB's estimate covers what a BSR reports.  A count of a long BSR
  that takes the last index but one is lost: the value behind it is not an `int`.
-/

namespace OaiGnb.Mac.BufferStatus

open Run Mac.UlPdu Mac.UeBsr

/-- `NR_SHORT_BSR_TABLE`. -/
def nrShortBsrTable : List ℕ :=
  [0, 10, 14, 20, 28, 38, 53, 74, 102, 142, 198, 276, 384, 535, 745, 1038, 1446, 2014, 2806, 3909,
   5446, 7587, 10570, 14726, 20516, 28581, 39818, 55474, 77284, 107669, 150000, 300000]

/-- `NR_LONG_BSR_TABLE`. -/
def nrLongBsrTable : List ℕ :=
  [0, 10, 11, 12, 13, 14, 15, 16, 17, 18, 19, 20, 22, 23, 25, 26, 28, 30, 32, 34, 36, 38, 40, 43,
   46, 49, 52, 55, 59, 62, 66, 71, 75, 80, 85, 91, 97, 103, 110, 117, 124, 132, 141, 150, 160, 170,
   181, 193, 205, 218, 233, 248, 264, 281, 299, 318, 339, 361, 384, 409, 436, 464, 494, 526, 560,
   597, 635, 677, 720, 767, 817, 870, 926, 987, 1051, 1119, 1191, 1269, 1351, 1439, 1532, 1631,
   1737, 1850, 1970, 2098, 2234, 2379, 2533, 2698, 2873, 3059, 3258, 3469, 3694, 3934, 4189, 4461,
   4751, 5059, 5387, 5737, 6109, 6506, 6928, 7378, 7857, 8367, 8910, 9488, 10104, 10760, 11458,
   12202, 12994, 13838, 14736, 15692, 16711, 17795, 18951, 20181, 21491, 22885, 24371, 25953, 27638,
   29431, 31342, 33376, 35543, 37850, 40307, 42923, 45709, 48676, 51836, 55200, 58784, 62599, 66663,
   70990, 75598, 80505, 85730, 91295, 97221, 103532, 110252, 117409, 125030, 133146, 141789, 150992,
   160793, 171231, 182345, 194182, 206786, 220209, 234503, 249725, 265935, 283197, 301579, 321155,
   342002, 364202, 387842, 413018, 439827, 468377, 498780, 531156, 565634, 602350, 641449, 683087,
   727427, 774645, 824928, 878475, 935498, 996222, 1060888, 1129752, 1203085, 1281179, 1364342,
   1452903, 1547213, 1647644, 1754595, 1868488, 1989774, 2118933, 2256475, 2402946, 2558924,
   2725027, 2901912, 3090279, 3290873, 3504487, 3731968, 3974215, 4232186, 4506902, 4799451,
   5110989, 5442750, 5796046, 6172275, 6572925, 6999582, 7453933, 7937777, 8453028, 9001725,
   9586039, 10208280, 10870913, 11576557, 12328006, 13128233, 13980403, 14887889, 15854280,
   16883401, 17979324, 19146385, 20389201, 21712690, 23122088, 24622972, 26221280, 27923336,
   29735875, 31666069, 33721553, 35910462, 38241455, 40723756, 43367187, 46182206, 49179951,
   52372284, 55771835, 59392055, 63247269, 67352729, 71724679, 76380419, 81338368, 162676736,
   4294967295]

/-- `get_short_bsr_value` and `get_long_bsr_value`. -/
def nrBsrTables : BsrTables :=
  ⟨fun i => nrShortBsrTable.getD i 0, fun i => nrLongBsrTable.getD i 0⟩

/-- The conversion of a `uint32_t` to an `int`. -/
def toInt32 (n : ℕ) : ℤ := (BitVec.ofNat 32 n).toInt

/-- The gNB adds up the values of the tables as `int`. -/
def ReadsTables (env : PduEnv) : Prop :=
  (∀ i, env.getShortBsrValue i = toInt32 (nrBsrTables.getShortBsrValue i)) ∧
    ∀ i, env.getLongBsrValue i = toInt32 (nrBsrTables.getLongBsrValue i)

/-- The estimate of the gNB for the octets of a BSR behind its subheader. -/
def bsrEstimate (env : PduEnv) (room : ℕ) (bsr : Bsr) : Except ParseFault ℤ :=
  match bsr with
  | .none => .ok 0
  | .short .. => (readByte (bsrBytes room bsr) 1).map (estimateUlBufferShortBsr env)
  | .long .. => (estimateUlBufferLongBsr env (bsrBytes room bsr) 2).map Prod.snd

/-- The bytes that a BSR reports. -/
def reportedBytes (lcgBytes : ℕ → ℕ) : Bsr → ℕ
  | .none => 0
  | .short _ g _ => lcgBytes g
  | .long .. => ((List.range 8).map lcgBytes).sum

/-! ### The bisection -/

section Bisection

variable {get : ℕ → ℕ} {value : ℕ}

theorem searchIndex_spec (n : ℕ) : ∀ {jl ju : ℕ}, jl < ju → ju ≤ jl + n → get jl ≤ value →
    let r := searchIndex get value true n jl ju
    jl ≤ r ∧ r < ju ∧ get r ≤ value ∧ (r + 1 = ju ∨ value < get (r + 1)) := by
  induction n with
  | zero =>
    intro jl ju h1 h2 _
    omega
  | succ n ih =>
    intro jl ju h1 h2 hl
    dsimp only
    rw [searchIndex]
    split
    · dsimp only
      split
      next hge =>
        obtain ⟨r1, r2, r3, r4⟩ := @ih ((ju + jl) / 2) ju (by omega) (by omega) (by simpa using hge)
        exact ⟨by omega, r2, r3, r4⟩
      next hlt =>
        have hlt : value < get ((ju + jl) / 2) := by simpa using hlt
        obtain ⟨r1, r2, r3, r4⟩ := @ih jl ((ju + jl) / 2) (by omega) (by omega) hl
        refine ⟨r1, by omega, r3, Or.inr ?_⟩
        rcases r4 with heq | hlt'
        · rw [heq]
          exact hlt
        · exact hlt'
    · exact ⟨le_rfl, h1, hl, Or.inl (by omega)⟩

/-- **The bisection finds the least index** whose value is not below the count. -/
theorem nrLocateBsrIndexByBufferSize_isLeast {size : ℕ} (hsize : 2 ≤ size ∧ size ≤ 256)
    (hmono : ∀ i j, i < j → j < size → get i < get j) (hzero : get 0 = 0)
    (hvalue : value ≤ get (size - 2)) :
    value ≤ get (nrLocateBsrIndexByBufferSize get size value) ∧
      nrLocateBsrIndexByBufferSize get size value ≤ size - 2 ∧
      ∀ i < nrLocateBsrIndexByBufferSize get size value, get i < value := by
  unfold nrLocateBsrIndexByBufferSize
  split
  next h0 =>
    exact ⟨by omega, by omega, fun i hi => absurd hi (Nat.not_lt_zero i)⟩
  · have hascend : decide (get (size - 1) ≥ get 0) = true := decide_eq_true (by omega)
    rw [hascend]
    dsimp only
    obtain ⟨_, h2, h3, h4⟩ := searchIndex_spec size (show 0 < size - 1 by omega) (by omega)
      (show get 0 ≤ value by omega)
    generalize searchIndex get value true size 0 (size - 1) = jl at h2 h3 h4
    have hbelow : ∀ i < jl, get i < value := fun i hi =>
      (hmono i jl hi (by omega)).trans_le h3
    split
    next heq =>
      rw [Nat.mod_eq_of_lt (by omega)]
      exact ⟨Nat.le_of_eq heq, by omega, hbelow⟩
    next hne =>
      -- at the last interval the count would be the last value but one
      have hlast : jl + 1 ≠ size - 1 := by
        rintro heq
        rw [show size - 2 = jl by omega] at hvalue
        omega
      rw [Nat.mod_eq_of_lt (by omega)]
      refine ⟨by omega, by omega, fun i hi => ?_⟩
      rcases Nat.lt_or_eq_of_le (Nat.le_of_lt_succ hi) with hlt | rfl
      · exact hbelow i hlt
      · omega

/-- **The value behind the index covers the count**, as long as it is an `int`. -/
theorem estimIndex_covers {size lim : ℕ} (hsize : 2 ≤ size ∧ size ≤ 256)
    (hmono : ∀ i j, i < j → j < size → get i < get j) (hzero : get 0 = 0) (hlim : lim + 1 < size)
    (hint : get (lim + 1) < 2 ^ 31) (hvalue : value ≤ get lim) :
    nrLocateBsrIndexByBufferSize get size value ≤ lim ∧
      (value : ℤ) ≤
        toInt32 (get (estimIndex (nrLocateBsrIndexByBufferSize get size value) (size - 1))) ∧
      (nrLocateBsrIndexByBufferSize get size value = 0 ↔ value = 0) := by
  have hle : ∀ i j, i ≤ j → j < size → get i ≤ get j := by
    intro i j hij hj
    rcases Nat.lt_or_eq_of_le hij with hlt | rfl
    · exact (hmono i j hlt hj).le
    · exact le_rfl
  obtain ⟨h1, h2, h3⟩ := nrLocateBsrIndexByBufferSize_isLeast hsize hmono hzero
    (hvalue.trans (hle lim (size - 2) (by omega) (by omega)))
  have hnil : value = 0 → nrLocateBsrIndexByBufferSize get size value = 0 := by
    rintro rfl
    rfl
  generalize nrLocateBsrIndexByBufferSize get size value = idx at h1 h2 h3 hnil
  have hidx : idx ≤ lim := not_lt.mp fun hlt => absurd (h3 lim hlt) (by omega)
  have hest : idx ≤ estimIndex idx (size - 1) ∧ estimIndex idx (size - 1) ≤ lim + 1 := by
    unfold estimIndex
    split <;> omega
  have hlow := hle idx _ hest.1 (by omega)
  have hhigh := hle _ (lim + 1) hest.2 hlim
  refine ⟨hidx, ?_, ?_, hnil⟩
  · rw [toInt32, BitVec.toInt_eq_toNat_of_lt (by rw [BitVec.toNat_ofNat]; omega),
      BitVec.toNat_ofNat]
    omega
  · rintro rfl
    omega

end Bisection

/-! ### The tables -/

theorem getD_lt_of_pairwise {l : List ℕ} {n i j : ℕ} (h : l.Pairwise (· < ·)) (hn : l.length = n)
    (hij : i < j) (hj : j < n) : l.getD i 0 < l.getD j 0 := by
  subst hn
  have hi : i < l.length := hij.trans hj
  simpa [List.getD, hi, hj] using List.pairwise_iff_getElem.mp h i j hi hj hij

theorem nrShortBsrTable_increasing : ∀ i j, i < j → j < 32 →
    nrBsrTables.getShortBsrValue i < nrBsrTables.getShortBsrValue j := fun _ _ =>
  getD_lt_of_pairwise (by decide +kernel) (by decide +kernel)

theorem nrLongBsrTable_increasing : ∀ i j, i < j → j < 256 →
    nrBsrTables.getLongBsrValue i < nrBsrTables.getLongBsrValue j := fun _ _ =>
  getD_lt_of_pairwise (by decide +kernel) (by decide +kernel)

/-! ### From the UE to the gNB -/

theorem writeLcgs_sum {loc : ℕ → ℕ} {est : ℕ → ℤ} : ∀ (cs : List ℕ) (room i : ℕ),
    (cs.filter fun c => decide (c > 0)).length ≤ room →
    (∀ c ∈ cs, loc c < 256 ∧ (loc c = 0 ↔ c = 0)) →
    let octets := (writeLcgs room i (cs.map loc)).map fun o => UInt8.ofNat o.2
    (octets.map fun b => est b.toNat).sum = (cs.map fun c => if c = 0 then 0 else est (loc c)).sum
      ∧ (cs.sum = 0 → octets = []) := by
  intro cs
  induction cs with
  | nil =>
    intro room i _ _
    exact ⟨rfl, fun _ => rfl⟩
  | cons c cs ih =>
    intro room i hroom hcs
    obtain ⟨hlt, hzero⟩ := hcs c List.mem_cons_self
    have hrest := fun c' hc' => hcs c' (List.mem_cons_of_mem _ hc')
    dsimp only
    rw [List.map_cons, writeLcgs]
    by_cases hc : c = 0
    · subst hc
      rw [if_neg (by simp [hzero])]
      simpa using ih room (i + 1) (by simpa using hroom) hrest
    · have hlen : (cs.filter fun c => decide (c > 0)).length + 1 ≤ room := by
        rwa [List.filter_cons_of_pos (by simpa using Nat.pos_of_ne_zero hc), List.length_cons]
          at hroom
      obtain ⟨h1, _⟩ := ih (room - 1) (i + 1) (by omega) hrest
      have hbyte : (UInt8.ofNat (loc c)).toNat = loc c :=
        UInt8.toNat_ofNat_of_lt' hlt
      rw [if_pos ⟨fun h => hc (hzero.mp h), by omega⟩]
      simp only [List.map_cons, List.sum_cons, hbyte, if_neg hc] at h1 ⊢
      refine ⟨by omega, fun hsum => absurd hsum (by omega)⟩

/-- The counts that a BSR can report: at most the last-but-one entry of its table. -/
def CountsFit (lcgBytes : ℕ → ℕ) : Bsr → Prop
  | .none => True
  | .short _ g _ => lcgBytes g ≤ nrBsrTables.getShortBsrValue 30
  | .long .. => ∀ i < 8, lcgBytes i ≤ nrBsrTables.getLongBsrValue 254

/-- The entry of the long table behind the first one that covers a count; nothing for no bytes. -/
def nextEntry (count : ℕ) : ℕ :=
  match (List.range 256).find? fun i => decide (count ≤ nrBsrTables.getLongBsrValue i) with
  | none => 0
  | some 0 => 0
  | some i => nrBsrTables.getLongBsrValue (i + 1)

/-- What the LCGs in the last interval of the long table lose: their bytes, and the value -1 that is
added for each. -/
def lostBytes (counts : List ℕ) : ℕ :=
  ((counts.filter fun c => decide (nrBsrTables.getLongBsrValue 253 < c)).map fun c => c + 1).sum

/-- What the rounding of the other counts adds. -/
def sparedBytes (counts : List ℕ) : ℕ :=
  ((counts.filter fun c => decide (c ≤ nrBsrTables.getLongBsrValue 253)).map fun c =>
    nextEntry c - c).sum

/-- The rounding makes up for what the LCGs in the last interval lose; only a long BSR has such. -/
def LossCovered (lcgBytes : ℕ → ℕ) : Bsr → Prop
  | .long .. => lostBytes ((List.range 8).map lcgBytes) ≤ sparedBytes ((List.range 8).map lcgBytes)
  | _ => True

/-- The value that the gNB adds for a count. -/
def readEntry (count : ℕ) : ℤ :=
  if nrBsrTables.getLongBsrValue 253 < count then -1 else nextEntry count

theorem le_nextEntry {count : ℕ} (h : count ≤ nrBsrTables.getLongBsrValue 253) :
    count ≤ nextEntry count := by
  unfold nextEntry
  split
  next hnone =>
    have h254 := List.find?_eq_none.mp hnone 253 (by decide)
    simp only [decide_eq_true_eq] at h254
    omega
  next hsome =>
    have hzero : nrBsrTables.getLongBsrValue 0 = 0 := rfl
    simpa [hzero] using (List.find?_range_eq_some.mp hsome).1
  next i _ hsome =>
    obtain ⟨hle, hi, hleast⟩ := List.find?_range_eq_some.mp hsome
    simp only [decide_eq_true_eq] at hle
    have hi253 : i < 254 := by
      by_contra hge
      have hlow := hleast 253 (by omega)
      simp only [Bool.not_eq_true', decide_eq_false_iff_not] at hlow
      omega
    have hlt := nrLongBsrTable_increasing i (i + 1) (Nat.lt_succ_self i) (by omega)
    omega

theorem sum_readEntry (counts : List ℕ) :
    (counts.sum : ℤ) ≤ (counts.map readEntry).sum ↔ lostBytes counts ≤ sparedBytes counts := by
  have hsplit : (counts.map readEntry).sum - counts.sum =
      (sparedBytes counts : ℤ) - lostBytes counts := by
    induction counts with
    | nil => rfl
    | cons c counts ih =>
      unfold lostBytes sparedBytes readEntry at ih ⊢
      by_cases hc : nrBsrTables.getLongBsrValue 253 < c
      · rw [List.filter_cons_of_neg (by simpa using hc), List.filter_cons_of_pos (by simpa using hc)]
        simp only [List.map_cons, List.sum_cons, if_pos hc]
        omega
      · have hle := le_nextEntry (not_lt.mp hc)
        rw [List.filter_cons_of_pos (by simpa using hc),
          List.filter_cons_of_neg (by simpa using hc)]
        simp only [List.map_cons, List.sum_cons, if_neg hc]
        omega
  omega

theorem shortEstimate_covers {env : PduEnv} (henv : ReadsTables env) {value : ℕ} (g : Fin 8)
    (hvalue : value ≤ nrBsrTables.getShortBsrValue 30) :
    let idx := nrLocateBsrIndexByBufferSize nrBsrTables.getShortBsrValue 32 value % 32
    (value : ℤ) ≤ estimateUlBufferShortBsr env (UInt8.ofNat (g * 32 + idx)).toNat ∧
      (value = 0 → estimateUlBufferShortBsr env (UInt8.ofNat (g * 32 + idx)).toNat = 0) := by
  obtain ⟨h1, h2, h3⟩ := @estimIndex_covers nrBsrTables.getShortBsrValue value 32 30 (by decide)
    nrShortBsrTable_increasing rfl (by decide) (by decide) hvalue
  have hread : estimateUlBufferShortBsr env (UInt8.ofNat (g * 32 +
      nrLocateBsrIndexByBufferSize nrBsrTables.getShortBsrValue 32 value % 32)).toNat =
      toInt32 (nrBsrTables.getShortBsrValue (estimIndex
        (nrLocateBsrIndexByBufferSize nrBsrTables.getShortBsrValue 32 value) 31)) := by
    have hg := g.isLt
    rw [estimateUlBufferShortBsr, henv.1, UInt8.toNat_ofNat_of_lt' (show _ < 256 by omega)]
    congr 3
    omega
  dsimp only
  rw [hread]
  refine ⟨h2, ?_⟩
  rintro rfl
  rfl

theorem estimateUlBufferLongBsr_eq {env : PduEnv} {a b bitmap : UInt8} {octets : List UInt8}
    (h : (activeLcgs bitmap.toNat).length = octets.length) :
    estimateUlBufferLongBsr env (a :: b :: bitmap :: octets) 2 = .ok (bitmap :: octets,
      (octets.map fun b => env.getLongBsrValue (estimIndex b.toNat 255)).sum) := by
  have hlen : 2 + (1 + octets.length) ≤ (a :: b :: bitmap :: octets).length := by
    simp only [List.length_cons]
    omega
  rw [estimateUlBufferLongBsr, readByte]
  dsimp only [List.getElem?_cons_succ, List.getElem?_cons_zero, ok_bind]
  rw [h, readRange, if_pos hlen]
  simp [longBsrSize, Nat.add_comm 1]

/-- The value that is read from the table for the index of a count. -/
theorem longValue_eq {count : ℕ} (hpos : count ≠ 0)
    (hcount : count ≤ nrBsrTables.getLongBsrValue 254) :
    toInt32 (nrBsrTables.getLongBsrValue (estimIndex
      (nrLocateBsrIndexByBufferSize nrBsrTables.getLongBsrValue 256 count) 255)) =
        readEntry count := by
  obtain ⟨h1, h2, h3⟩ := nrLocateBsrIndexByBufferSize_isLeast (by decide)
    nrLongBsrTable_increasing rfl hcount
  generalize nrLocateBsrIndexByBufferSize nrBsrTables.getLongBsrValue 256 count = idx at h1 h2 h3
  have hidx : 0 < idx := by
    rcases Nat.eq_zero_or_pos idx with rfl | hidx
    · have hzero : nrBsrTables.getLongBsrValue 0 = 0 := rfl
      omega
    · exact hidx
  have hest : estimIndex idx 255 = idx + 1 := by
    rw [estimIndex, if_pos hidx]
    omega
  have hfind : (List.range 256).find? (fun i => decide (count ≤ nrBsrTables.getLongBsrValue i))
      = some idx := by
    rw [List.find?_range_eq_some]
    exact ⟨by simpa using h1, List.mem_range.mpr (by omega), fun j hj => by simpa using h3 j hj⟩
  rw [hest, readEntry]
  split
  next hlast =>
    have h254 : idx = 254 := by
      rcases Nat.lt_or_ge idx 254 with hlt | hge
      · rcases Nat.lt_or_eq_of_le (Nat.le_of_lt_succ hlt) with hlt' | rfl
        · have := nrLongBsrTable_increasing idx 253 hlt' (by omega)
          omega
        · omega
      · omega
    rw [h254]
    decide +kernel
  next hfits =>
    have hlt : idx < 254 := by
      by_contra hge
      exact hfits (h3 253 (by omega))
    have hint : nrBsrTables.getLongBsrValue (idx + 1) ≤ nrBsrTables.getLongBsrValue 254 := by
      rcases Nat.lt_or_eq_of_le (show idx + 1 ≤ 254 by omega) with hlt' | heq
      · exact (nrLongBsrTable_increasing _ 254 hlt' (by omega)).le
      · rw [heq]
    have h254 : nrBsrTables.getLongBsrValue 254 < 2 ^ 31 := by decide +kernel
    have hnext : nextEntry count = nrBsrTables.getLongBsrValue (idx + 1) := by
      obtain ⟨k, rfl⟩ := Nat.exists_eq_succ_of_ne_zero hidx.ne'
      rw [nextEntry, hfind]
      rfl
    rw [hnext, toInt32, BitVec.toInt_eq_toNat_of_lt (by rw [BitVec.toNat_ofNat]; omega),
      BitVec.toNat_ofNat]
    omega

theorem longEstimate_covers_iff {env : PduEnv} (henv : ReadsTables env) {lcgBytes : ℕ → ℕ}
    {room : ℕ} (hroom : numLcgIdWithData lcgBytes + 3 ≤ room)
    (hfit : ∀ i < 8, lcgBytes i ≤ nrBsrTables.getLongBsrValue 254) :
    ∃ est, bsrEstimate env room (longBsr nrBsrTables lcgBytes false) = .ok est ∧
      ((((List.range 8).map lcgBytes).sum : ℤ) ≤ est ↔
        lostBytes ((List.range 8).map lcgBytes) ≤ sparedBytes ((List.range 8).map lcgBytes)) ∧
      (((List.range 8).map lcgBytes).sum = 0 → est = 0) := by
  set locate := nrLocateBsrIndexByBufferSize nrBsrTables.getLongBsrValue 256
  have hcounts : ∀ c ∈ (List.range 8).map lcgBytes, c ≤ nrBsrTables.getLongBsrValue 254 := by
    intro c hc
    obtain ⟨i, hi, rfl⟩ := List.mem_map.mp hc
    exact hfit i (List.mem_range.mp hi)
  obtain ⟨hsum, hnil⟩ := @writeLcgs_sum locate (fun b => env.getLongBsrValue
    (estimIndex b 255)) ((List.range 8).map lcgBytes) (room - 3) 0 (by
      rw [List.filter_map, List.length_map]
      show numLcgIdWithData lcgBytes ≤ room - 3
      omega)
    (by
      intro c hc
      obtain ⟨h1, h2, -⟩ : c ≤ nrBsrTables.getLongBsrValue (locate c) ∧ locate c ≤ 254 ∧ _ :=
        nrLocateBsrIndexByBufferSize_isLeast (by decide) nrLongBsrTable_increasing rfl
          (hcounts c hc)
      refine ⟨by omega, fun hzero => ?_, fun hzero => by rw [hzero]; rfl⟩
      rw [hzero] at h1
      exact Nat.le_zero.mp h1)
  have hentries : ((List.range 8).map lcgBytes).map
      (fun c => if c = 0 then 0 else env.getLongBsrValue (estimIndex (locate c) 255)) =
        ((List.range 8).map lcgBytes).map readEntry := by
    refine List.map_congr_left fun c hc => ?_
    split
    next hzero =>
      rw [hzero]
      rfl
    next hpos =>
      rw [henv.2]
      exact longValue_eq hpos (hcounts c hc)
  have hsub := writeLcgs_sublist (room - 3) 0 (((List.range 8).map lcgBytes).map locate)
  have hlen : (((List.range 8).map lcgBytes).map locate).length = 8 := by simp
  rw [hlen, ← List.range_eq_range'] at hsub
  have hactive := activeLcgs_bitmap hsub
  rw [hentries] at hsum
  refine ⟨_, ?_, (iff_of_eq (congrArg _ hsum)).trans (sum_readEntry _), fun h => by
    rw [hnil h]
    rfl⟩
  have hmap : (List.range 8).map (fun i => locate (lcgBytes i)) =
      ((List.range 8).map lcgBytes).map locate := by
    rw [List.map_map]
    rfl
  rw [longBsr, bsrEstimate, hmap, bsrBytes]
  generalize writeLcgs (room - 3) 0 (((List.range 8).map lcgBytes).map locate) = octets at hactive
  rw [List.cons_append, List.cons_append, List.cons_append, List.nil_append,
    estimateUlBufferLongBsr_eq (by rw [hactive, List.length_map, List.length_map])]
  rfl

/-- **When the gNB does not underestimate** what a short or a long BSR that is not truncated reports
and finds nothing if nothing is reported: always for a short BSR, and for a long one exactly if the
rounding makes up for the counts in the last interval of the table.  The UE always takes the least
index of both tables. -/
theorem bsrEstimate_covers {env : PduEnv} (henv : ReadsTables env) {lcgBytes : ℕ → ℕ}
    {lcg : Option (Fin 8)} {room : ℕ} {bsr : Bsr}
    (h : chooseBsr nrBsrTables lcgBytes lcg room = .ok bsr)
    (hwhole : (∃ g v, bsr = .short false g v) ∨ ∃ l, bsr = .long false l)
    (hfit : CountsFit lcgBytes bsr) :
    ((∃ est, bsrEstimate env room bsr = .ok est ∧ (reportedBytes lcgBytes bsr : ℤ) ≤ est ∧
      (reportedBytes lcgBytes bsr = 0 → est = 0)) ↔ LossCovered lcgBytes bsr) ∧
    (∀ value ≤ nrBsrTables.getShortBsrValue 30, IsLeast
      {i | value ≤ nrBsrTables.getShortBsrValue i}
      (nrLocateBsrIndexByBufferSize nrBsrTables.getShortBsrValue 32 value)) ∧
    ∀ value ≤ nrBsrTables.getLongBsrValue 254, IsLeast
      {i | value ≤ nrBsrTables.getLongBsrValue i}
      (nrLocateBsrIndexByBufferSize nrBsrTables.getLongBsrValue 256 value) := by
  refine ⟨?_, ?_, ?_⟩
  · rcases chooseBsr_cases h with rfl | ⟨truncated, g, _, _, rfl⟩ | ⟨truncated, rfl, _, hroom⟩
    · simp at hwhole
    · obtain rfl : truncated = false := by simpa using hwhole
      exact ⟨fun _ => trivial, fun _ => ⟨_, rfl, shortEstimate_covers henv g hfit⟩⟩
    · obtain rfl : truncated = false := by simpa [longBsr] using hwhole
      obtain ⟨est, hest, hiff, hzero⟩ := longEstimate_covers_iff henv (hroom rfl) hfit
      rw [hest]
      constructor
      · rintro ⟨_, hsame, hle, -⟩
        obtain rfl := Except.ok.inj hsame
        exact hiff.mp hle
      · exact fun hloss => ⟨est, rfl, hiff.mpr hloss, hzero⟩
  · intro value hv
    obtain ⟨h1, _, h3⟩ := nrLocateBsrIndexByBufferSize_isLeast (by decide)
      nrShortBsrTable_increasing rfl hv
    exact ⟨h1, fun i hi => not_lt.mp fun hlt => absurd (h3 i hlt) (not_lt.mpr hi)⟩
  · intro value hv
    obtain ⟨h1, _, h3⟩ := nrLocateBsrIndexByBufferSize_isLeast (by decide)
      nrLongBsrTable_increasing rfl hv
    exact ⟨h1, fun i hi => not_lt.mp fun hlt => absurd (h3 i hlt) (not_lt.mpr hi)⟩

/-- An environment of the gNB with the tables of the source. -/
def tableEnv : PduEnv := ⟨true, fun _ => some false, fun _ => true, 0, false, 0,
  fun i => toInt32 (nrBsrTables.getShortBsrValue i), fun i => toInt32 (nrBsrTables.getLongBsrValue i)⟩

/-- The first two LCGs have data. -/
def twoLcgs (bytes₀ bytes₁ : ℕ) (i : ℕ) : ℕ := if i = 0 then bytes₀ else if i = 1 then bytes₁ else 0

/-- 100 and 20 bytes: no count is in the last interval. -/
theorem bsrEstimate_covers_two :
    ∃ bsr est, chooseBsr nrBsrTables (twoLcgs 100 20) (some 0) 5 = .ok bsr ∧
      reportedBytes (twoLcgs 100 20) bsr = 120 ∧ bsrEstimate tableEnv 5 bsr = .ok est ∧ 120 ≤ est := by
  have hfit : ∀ i < 8, twoLcgs 100 20 i ≤ nrBsrTables.getLongBsrValue 254 := by decide +kernel
  have h : chooseBsr nrBsrTables (twoLcgs 100 20) (some 0) 5 =
      .ok (longBsr nrBsrTables (twoLcgs 100 20) false) := by decide +kernel
  have hloss : lostBytes ((List.range 8).map (twoLcgs 100 20)) ≤
      sparedBytes ((List.range 8).map (twoLcgs 100 20)) := by decide +kernel
  obtain ⟨est, h1, h2, _⟩ := (@bsrEstimate_covers tableEnv ⟨fun _ => rfl, fun _ => rfl⟩ _ _ _ _ h
    (Or.inr ⟨_, rfl⟩) hfit).1.mpr hloss
  exact ⟨_, est, h, by decide +kernel, h1, h2⟩

/-- **An estimate below zero**: 100 MB in one LCG take the index 254, and the value of the index 255
is -1 as an `int`. -/
theorem not_covered_last_index :
    ¬ ∀ (env : PduEnv) (lcgBytes : ℕ → ℕ) (lcg : Option (Fin 8)) (room : ℕ) (bsr : Bsr) (est : ℤ),
      ReadsTables env → chooseBsr nrBsrTables lcgBytes lcg room = .ok bsr →
      (∃ l, bsr = .long false l) → (∀ i < 8, lcgBytes i ≤ nrBsrTables.getLongBsrValue 254) →
      bsrEstimate env room bsr = .ok est → (reportedBytes lcgBytes bsr : ℤ) ≤ est := by
  intro h
  have hle := h tableEnv (twoLcgs 100000000 20) (some 0) 5
    (longBsr nrBsrTables (twoLcgs 100000000 20) false) 21 ⟨fun _ => rfl, fun _ => rfl⟩
    (by decide +kernel) ⟨_, rfl⟩ (by decide +kernel) (by decide +kernel)
  revert hle
  decide +kernel

end OaiGnb.Mac.BufferStatus
