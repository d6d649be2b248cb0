import OaiGnb.Lib.Index
import Mathlib.Data.Nat.Bitwise
import Mathlib.Data.List.Nodup

/-!
# Fields of a word

A word holds a sequence of fields, the first at its top: a field of width `w` below position `pos`
is the bits from `pos - w` to `pos - 1`.  A writer ors one field after the other into a word; a
reader shifts and masks.  Nothing here refers to a particular format.

* `slice_or`: a field of a disjunction is the disjunction of the fields.
* `Filled.put`: one more field below those that were written.
* `Filled.putBits`: a field written bit by bit.
* `readAll_of_carries`: reading fields with the widths they were written with.
-/

namespace OaiGnb.WordFields

/-! ### Slices -/

/-- The `w` bits of `x` from `p` on. -/
def slice (x p w : ℕ) : ℕ := (x >>> p) % 2 ^ w

theorem slice_or (x y p w : ℕ) : slice (x ||| y) p w = slice x p w ||| slice y p w := by
  unfold slice
  rw [Nat.shiftRight_or_distrib, Nat.or_mod_two_pow]

variable {x p : ℕ}

theorem slice_of_lt (h : x < 2 ^ p) (w : ℕ) : slice x p w = 0 := by
  unfold slice
  rw [Nat.shiftRight_eq_div_pow, Nat.div_eq_of_lt h, Nat.zero_mod]

variable {w : ℕ}

theorem slice_shiftLeft_of_le {s : ℕ} (h : p + w ≤ s) (v : ℕ) : slice (v <<< s) p w = 0 := by
  obtain ⟨d, rfl⟩ := Nat.exists_eq_add_of_le h
  unfold slice
  rw [Nat.shiftRight_eq_div_pow, Nat.shiftLeft_eq, Nat.add_assoc, Nat.pow_add,
    Nat.mul_left_comm, Nat.mul_div_cancel_left _ (Nat.two_pow_pos p), Nat.pow_add,
    Nat.mul_left_comm, Nat.mul_mod_right]

variable {v : ℕ}

theorem slice_shiftLeft_self (h : v < 2 ^ w) (p : ℕ) : slice (v <<< p) p w = v := by
  unfold slice
  rw [Nat.shiftLeft_shiftRight, Nat.mod_eq_of_lt h]

theorem shiftLeft_lt (h : v < 2 ^ w) (s : ℕ) : v <<< s < 2 ^ (s + w) := by
  rw [Nat.shiftLeft_eq, Nat.pow_add, Nat.mul_comm]
  exact Nat.mul_lt_mul_of_pos_left h (Nat.two_pow_pos s)

theorem slice_add (x p a b : ℕ) :
    slice x p (a + b) = slice x (p + b) a * 2 ^ b + slice x p b := by
  grind [slice, Nat.shiftRight_add, Nat.shiftRight_eq_div_pow, Nat.add_comm, Nat.pow_add,
    Nat.mod_mul, Nat.mul_comm]

/-! ### Fields -/

/-- The widths of fields, each given by its width and its value. -/
def width : List (ℕ × ℕ) → ℕ
  | [] => 0
  | f :: fs => f.1 + width fs

@[simp] theorem width_append (fs gs : List (ℕ × ℕ)) : width (fs ++ gs) = width fs + width gs := by
  induction fs with
  | nil => exact (Nat.zero_add _).symm
  | cons f fs ih => rw [List.cons_append, width, width, ih, Nat.add_assoc]

/-- The fields are in the word, from position `pos` downwards. -/
def Carries (x : ℕ) : ℕ → List (ℕ × ℕ) → Prop
  | _, [] => True
  | pos, f :: fs => (f.1 ≤ pos ∧ slice x (pos - f.1) f.1 = f.2) ∧ Carries x (pos - f.1) fs

variable {fs : List (ℕ × ℕ)}

theorem carries_append {gs : List (ℕ × ℕ)} : ∀ {pos : ℕ},
    Carries x pos (fs ++ gs) ↔ Carries x pos fs ∧ Carries x (pos - width fs) gs := by
  induction fs with
  | nil =>
    intro pos
    exact ⟨fun h => ⟨trivial, h⟩, fun h => h.2⟩
  | cons f fs ih =>
    grind [Carries, width, Nat.sub_add_eq]

theorem Carries.or {y : ℕ} {pos : ℕ} (h : Carries x pos fs) (hy : y < 2 ^ (pos - width fs)) :
    Carries (x ||| y) pos fs := by
  induction fs generalizing pos with
  | nil => trivial
  | cons f fs ih =>
    obtain ⟨⟨hle, hslice⟩, hfs⟩ := h
    rw [width, Nat.sub_add_eq] at hy
    refine ⟨⟨hle, ?_⟩, ih hfs hy⟩
    grind [Nat.lt_of_lt_of_le, Nat.pow_le_pow_right, Nat.sub_le, slice_or, slice_of_lt]

/-- What lies above the fields does not matter. -/
theorem Carries.or_above {k : ℕ} (v : ℕ) {pos : ℕ} (h : Carries x pos fs) (hk : pos ≤ k) :
    Carries (x ||| v <<< k) pos fs := by
  induction fs generalizing pos with
  | nil => trivial
  | cons f fs ih =>
    obtain ⟨⟨hw, hslice⟩, hrest⟩ := h
    refine ⟨⟨hw, ?_⟩, ih hrest (by omega)⟩
    rw [slice_or, slice_shiftLeft_of_le (by omega), Nat.or_zero, hslice]

/-- The fields were written to the top of a word of `size` bits, and nothing else. -/
structure Filled (x size : ℕ) (fs : List (ℕ × ℕ)) : Prop where
  fits : width fs ≤ size
  carries : Carries x size fs
  blank : slice x 0 (size - width fs) = 0

theorem filled_nil (size : ℕ) : Filled 0 size [] :=
  ⟨Nat.zero_le _, trivial, slice_of_lt (Nat.two_pow_pos 0) _⟩

variable {size : ℕ}

/-- **One more field.** -/
theorem Filled.put (h : Filled x size fs) (hv : v < 2 ^ w) (hw : width fs + w ≤ size) :
    Filled (x ||| v <<< (size - (width fs + w))) size (fs ++ [(w, v)]) := by
  have hwidth : width (fs ++ [(w, v)]) = width fs + w := width_append _ _
  have hroom : size - width fs = size - (width fs + w) + w := by omega
  have hbelow : v <<< (size - (width fs + w)) < 2 ^ (size - width fs) := by
    rw [hroom]
    exact shiftLeft_lt hv _
  -- the bits of the new field and those below it were blank
  have hparts := slice_add x 0 w (size - (width fs + w))
  rw [Nat.add_comm w, ← hroom, h.blank, Nat.zero_add] at hparts
  obtain ⟨hown, hrest⟩ := Nat.add_eq_zero_iff.mp hparts.symm
  have hown := (Nat.mul_eq_zero.mp hown).resolve_right (Nat.ne_of_gt (Nat.two_pow_pos _))
  refine ⟨by rw [hwidth]; exact hw, carries_append.mpr ⟨h.carries.or hbelow, ⟨?_, ?_⟩, trivial⟩, ?_⟩
  · omega
  · grind [slice, width, Nat.sub_sub, slice_or, slice_shiftLeft_self]
  · rw [hwidth, slice_or, hrest, slice_shiftLeft_of_le (Nat.le_of_eq (Nat.zero_add _)),
      Nat.zero_or]

/-- **More bits in the last field.** -/
theorem Filled.or_last {u : ℕ} (h : Filled x size (fs ++ [(w, v)])) (hu : u < 2 ^ w) :
    Filled (x ||| u <<< (size - (width fs + w))) size (fs ++ [(w, v ||| u)]) := by
  have hwidth : ∀ v, width (fs ++ [(w, v)]) = width fs + w := fun _ => width_append _ _
  obtain ⟨hfits, hcarries, hblank⟩ := h
  rw [hwidth] at hfits hblank
  obtain ⟨hfs, ⟨hw, hv⟩, _⟩ := carries_append.mp hcarries
  dsimp only at hw hv
  have hbelow := shiftLeft_lt hu (size - (width fs + w))
  rw [show size - (width fs + w) + w = size - width fs by omega] at hbelow
  refine ⟨by rw [hwidth]; exact hfits, carries_append.mpr ⟨hfs.or hbelow, ⟨hw, ?_⟩, trivial⟩, ?_⟩
  · rw [Nat.sub_sub] at hv
    rw [Nat.sub_sub, slice_or, hv, slice_shiftLeft_self hu]
  · rw [hwidth, slice_or, hblank, slice_shiftLeft_of_le (Nat.le_of_eq (Nat.zero_add _)),
      Nat.or_zero]

/-- A field of ones cannot be changed any more. -/
theorem slice_or_ones (h : slice x p w = 2 ^ w - 1) (y : ℕ) : slice (x ||| y) p w = 2 ^ w - 1 := by
  have hy : slice y p w < 2 ^ w := Nat.mod_lt _ (Nat.two_pow_pos w)
  rw [slice_or, h]
  refine Nat.eq_of_testBit_eq fun i => ?_
  rw [Nat.testBit_or, Nat.testBit_two_pow_sub_one]
  by_cases hi : i < w
  · simp [hi]
  · rw [Nat.testBit_lt_two_pow (hy.trans_le (Nat.pow_le_pow_right (by decide) (not_lt.mp hi)))]
    simp

theorem Filled.join {a b u : ℕ} (h : Filled x size (fs ++ [(a, u)] ++ [(b, v)])) :
    Filled x size (fs ++ [(a + b, u * 2 ^ b + v)]) := by
  have hwidth : width (fs ++ [(a, u)] ++ [(b, v)]) = width (fs ++ [(a + b, u * 2 ^ b + v)]) := by
    simp only [width_append, width]
    omega
  obtain ⟨hfits, hcarries, hblank⟩ := h
  rw [hwidth] at hfits hblank
  refine ⟨hfits, ?_, hblank⟩
  rw [List.append_assoc] at hcarries
  obtain ⟨hfs, ⟨ha, hu⟩, ⟨hb, hv⟩, _⟩ := carries_append.mp hcarries
  dsimp only at ha hu hb hv
  refine carries_append.mpr ⟨hfs, ⟨?_, ?_⟩, trivial⟩
  · omega
  · grind [slice, width, slice_add, Nat.sub_add_eq, Nat.sub_add_cancel]

/-! ### Fields bit by bit -/

/-- The bits of `v` below bit `w`, from the top, or-ed into a word from position `pos` on. -/
def putBits (v : ℕ) : ℕ → ℕ → ℕ → ℕ
  | 0, _, x => x
  | w + 1, pos, x => putBits v w (pos - 1) (x ||| ((v >>> w) % 2) <<< (pos - 1))

/-- **A field written bit by bit.** -/
theorem Filled.putBits {w x : ℕ} {fs : List (ℕ × ℕ)} (h : Filled x size fs)
    (hw : width fs + w ≤ size) :
    Filled (putBits v w (size - width fs) x) size (fs ++ [(w, v % 2 ^ w)]) := by
  induction w generalizing x fs with
  | zero =>
    have hnil := h.put (show 0 < 2 ^ 0 by decide) hw
    rw [Nat.zero_shiftLeft, Nat.or_zero] at hnil
    rw [Nat.pow_zero, Nat.mod_one]
    exact hnil
  | succ w ih =>
    have hbit := h.put (show (v >>> w) % 2 < 2 ^ 1 from Nat.mod_lt _ (by decide))
      (show width fs + 1 ≤ size by omega)
    have hwidth : width (fs ++ [(1, (v >>> w) % 2)]) = width fs + 1 := width_append _ _
    have hrest := ih hbit (by rw [hwidth]; omega)
    have hjoin := hrest.join
    rw [hwidth] at hjoin
    have hvalue : (v >>> w) % 2 * 2 ^ w + v % 2 ^ w = v % 2 ^ (w + 1) := by
      rw [Nat.shiftRight_eq_div_pow, Nat.pow_succ, Nat.mod_mul, Nat.mul_comm, Nat.add_comm]
    rw [hvalue, Nat.add_comm 1 w, Nat.sub_add_eq] at hjoin
    exact hjoin

/-! ### Readers -/

section Read

variable {ι : Type} [DecidableEq ι]

/-- Read fields, each given by its name and its width, from position `pos` downwards. -/
def readAll (x : ℕ) : List (ι × ℕ) → ℕ → (ι → ℕ) → ι → ℕ
  | [], _, values => values
  | (i, w) :: l, pos, values =>
      readAll x l (pos - w) (Function.update values i (slice x (pos - w) w))

variable {l : List (ι × ℕ)} {i : ι}

theorem readAll_of_not_mem (h : i ∉ l.map Prod.fst) :
    ∀ {pos : ℕ} {values : ι → ℕ}, readAll x l pos values i = values i := by
  induction l with
  | nil =>
    intro pos values
    rfl
  | cons f l ih =>
    simp_all [List.map_cons, List.mem_cons, not_or, readAll, Function.update_of_ne]

/-- **Fields are read back** with the widths they were written with. -/
theorem readAll_of_carries {value : ι → ℕ} :
    ∀ {pos : ℕ} {values : ι → ℕ}, (l.map Prod.fst).Nodup →
      Carries x pos (l.map fun f => (f.2, value f.1)) →
      ∀ i ∈ l.map Prod.fst, readAll x l pos values i = value i := by
  induction l with
  | nil => simp
  | cons f l ih =>
    intro pos values hnodup hcarries i hi
    rw [List.map_cons, List.nodup_cons] at hnodup
    obtain ⟨⟨_, hslice⟩, hrest⟩ := hcarries
    dsimp only at hslice hrest
    show readAll x l (pos - f.2) (Function.update values f.1 (slice x (pos - f.2) f.2)) i = value i
    rcases List.mem_cons.mp hi with rfl | hi
    · rw [readAll_of_not_mem hnodup.1, Function.update_self, hslice]
    · exact ih hnodup.2 hrest i hi

end Read

end OaiGnb.WordFields
