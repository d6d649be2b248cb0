import OaiGnb.Lib.WordFields
import Mathlib.Data.Nat.Log

/-!
# DCI payloads

What the DCI formats share: the fields of `dci_pdu_rel15_t`, the ways in which `fill_dci_pdu_rel15`
writes a field into the 64 bits of the payload, and `readBits` of the UE.

Most fields are written in 64 bits, some in the 32 bits of their type before they are widened, and
some bit by bit.

* `fill_filled`: fields that have room are written one below the other.
* `extract_fill`: they are read back.
-/

namespace OaiGnb.Mac.Dci

open WordFields

/-! ### Fields -/

/-- The fields of `dci_pdu_rel15_t`. -/
inductive Item where
  | formatIndicator
  | raPreambleIndex
  | ssPbchIndex
  | prachMaskIndex
  | mcs
  | ndi
  | rv
  | harqPid
  | tpc
  | tbScaling
  | pucchResourceIndicator
  | systemInfoIndicator
  | ulschIndicator
  | mcs2
  | ndi2
  | rv2
  | frequencyDomainAssignment
  | timeDomainAssignment
  | frequencyHoppingFlag
  | vrbToPrbMapping
  | dai0
  | dai1
  | pdschToHarqFeedbackTimingIndicator
  | carrierIndicator
  | bwpIndicator
  | prbBundlingSizeIndicator
  | rateMatchingIndicator
  | zpCsiRsTrigger
  | transmissionConfigurationIndication
  | srsRequest
  | cbgti
  | cbgfi
  | srsResourceIndicator
  | precodingInformation
  | csiRequest
  | ptrsDmrsAssociation
  | betaOffsetIndicator
  | ulSulIndicator
  | antennaPorts
  | dmrsSequenceInitialization
  deriving Repr, DecidableEq

/-- `nr_dci_format_t`, as far as it is supported. -/
inductive Format where
  | ul00
  | ul01
  | dl10
  | dl11
  deriving Repr, DecidableEq

/-- `searchSpaceType`. -/
inductive SsType where
  | common
  | ueSpecific
  deriving Repr, DecidableEq

/-- `get_rb_bwp_dci`. -/
def getRbBwpDci (format : Format) (ssType : SsType) (cset0BwpSize ulBwpSize dlBwpSize
    initialUlBwpSize initialDlBwpSize : ℕ) : ℕ :=
  match format with
  | .ul00 => if ssType = .common then initialUlBwpSize else ulBwpSize
  | .ul01 => ulBwpSize
  | .dl10 =>
      if ssType = .common then (if cset0BwpSize ≠ 0 then cset0BwpSize else initialDlBwpSize)
      else dlBwpSize
  | .dl11 => dlBwpSize

/-- `(int)ceil(log2((N_RB * (N_RB + 1)) >> 1))`. -/
def rivBits (nRb : ℕ) : ℕ := Nat.clog 2 ((nRb * (nRb + 1)) >>> 1)

/-! ### Writing -/

/-- The arithmetic in which a field is written: of 64 bits, of `uint32_t`, of `int`, or a loop over
the bits. -/
inductive Arith where
  | u64
  | u32
  | int
  | bitwise
  deriving Repr, DecidableEq

/-- An `int` of 32 bits as a `uint64_t`. -/
def widenInt (x : ℕ) : ℕ := if 2 ^ 31 ≤ x then x + (2 ^ 64 - 2 ^ 32) else x

/-- `pos += w; *dci_pdu |= (v & ((1 << w) - 1)) << (dci_size - pos)`, on the payload and `pos`.  In
the loops over the bits `pos` is one ahead. -/
def put (size : ℕ) (a : Arith) (w v : ℕ) (s : ℕ × ℕ) : ℕ × ℕ :=
  let pos := s.2 + w
  let field := (v % 2 ^ w) <<< (size - pos)
  match a with
  | .u64 => (s.1 ||| field % 2 ^ 64, pos)
  | .u32 => (s.1 ||| field % 2 ^ 32, pos)
  | .int => (s.1 ||| widenInt (field % 2 ^ 32), pos)
  | .bitwise => (putBits v w (size - s.2) s.1, pos)

/-- A field, its width and the arithmetic in which it is written. -/
structure Entry where
  item : Item
  width : ℕ
  arith : Arith
  deriving Repr, DecidableEq

/-- The fields of `layout`, one after the other. -/
def fill (size : ℕ) (val : Item → ℕ) (layout : List Entry) (s : ℕ × ℕ) : ℕ × ℕ :=
  layout.foldl (fun s e => put size e.arith e.width (val e.item) s) s

/-- A field whose top bit is below `top` is not cut off. -/
def Arith.room : Arith → ℕ → Prop
  | .u64, top => top ≤ 64
  | .u32, top => top ≤ 32
  | .int, top => top ≤ 31
  | .bitwise, _ => True

/-- The fields have room below `pos` bits. -/
def HasRoom (size : ℕ) : ℕ → List Entry → Prop
  | _, [] => True
  | pos, e :: l => pos + e.width ≤ size ∧ e.arith.room (size - pos) ∧ HasRoom size (pos + e.width) l

/-- The widths and values of a layout. -/
def fieldsOf (val : Item → ℕ) (layout : List Entry) : List (ℕ × ℕ) :=
  layout.map fun e => (e.width, val e.item)

/-- The names and widths of a layout. -/
def names (layout : List Entry) : List (Item × ℕ) := layout.map fun e => (e.item, e.width)

variable {size w v : ℕ} {fs : List (ℕ × ℕ)} {a : Arith}

theorem put_filled {x : ℕ} (h : Filled x size fs)
    (hv : v < 2 ^ w) (hw : width fs + w ≤ size) (hroom : a.room (size - width fs)) :
    Filled (put size a w v (x, width fs)).1 size (fs ++ [(w, v)]) := by
  have hput := h.put hv hw
  have hfield : v <<< (size - (width fs + w)) < 2 ^ (size - width fs) := by
    have := shiftLeft_lt hv (size - (width fs + w))
    rwa [show size - (width fs + w) + w = size - width fs by omega] at this
  have hcut : ∀ {n : ℕ}, size - width fs ≤ n →
      v <<< (size - (width fs + w)) % 2 ^ n = v <<< (size - (width fs + w)) := by
    intro n hn
    exact Nat.mod_eq_of_lt (hfield.trans_le (Nat.pow_le_pow_right (by decide) hn))
  unfold put
  dsimp only
  rw [Nat.mod_eq_of_lt hv]
  cases a with
  | u64 =>
    dsimp only
    rw [hcut hroom]
    exact hput
  | u32 =>
    dsimp only
    rw [hcut hroom]
    exact hput
  | int =>
    have hroom : size - width fs ≤ 31 := hroom
    have hsmall : ¬ 2 ^ 31 ≤ v <<< (size - (width fs + w)) :=
      not_le.mpr (hfield.trans_le (Nat.pow_le_pow_right (by decide) hroom))
    dsimp only
    rw [hcut (hroom.trans (by decide)), widenInt, if_neg hsmall]
    exact hput
  | bitwise =>
    grind [Filled.putBits, Nat.mod_eq_of_lt]

variable {layout : List Entry} {val : Item → ℕ}

/-- **Fields that have room are written one below the other.** -/
theorem fill_filled {x : ℕ} {fs : List (ℕ × ℕ)} (h : Filled x size fs)
    (hroom : HasRoom size (width fs) layout) (hfits : ∀ e ∈ layout, val e.item < 2 ^ e.width) :
    Filled (fill size val layout (x, width fs)).1 size (fs ++ fieldsOf val layout) ∧
      (fill size val layout (x, width fs)).2 = width (fs ++ fieldsOf val layout) := by
  induction layout generalizing x fs with
  | nil =>
    rw [show fieldsOf val [] = [] from rfl, List.append_nil]
    exact ⟨h, rfl⟩
  | cons e layout ih =>
    obtain ⟨hw, ha, hrest⟩ := hroom
    have hput := put_filled h (hfits e List.mem_cons_self) hw ha
    have hwidth : width (fs ++ [(e.width, val e.item)]) = width fs + e.width := width_append _ _
    have hpos : (put size e.arith e.width (val e.item) (x, width fs)).2
        = width (fs ++ [(e.width, val e.item)]) := by
      rw [hwidth]
      unfold put
      cases e.arith <;> rfl
    have hih := ih hput (by rw [hwidth]; exact hrest)
      fun e' he' => hfits e' (List.mem_cons_of_mem _ he')
    rw [← hpos, Prod.mk.eta, List.append_assoc] at hih
    exact hih

theorem fill_from_start (hroom : HasRoom size 0 layout)
    (hfits : ∀ f ∈ names layout, val f.1 < 2 ^ f.2) :
    Filled (fill size val layout (0, 0)).1 size (fieldsOf val layout) ∧
      (fill size val layout (0, 0)).2 = width (fieldsOf val layout) :=
  fill_filled (filled_nil size) hroom fun e he =>
    hfits (e.item, e.width) (List.mem_map_of_mem he)

/-- The values of the fields that are written fit their widths. -/
def Fits (layout : List Entry) (val : Item → ℕ) : Prop :=
  ∀ f ∈ names layout, 0 < f.2 → val f.1 < 2 ^ f.2

instance (layout : List Entry) (val : Item → ℕ) : Decidable (Fits layout val) :=
  inferInstanceAs (Decidable (∀ f ∈ names layout, 0 < f.2 → val f.1 < 2 ^ f.2))

theorem Fits.update (h : Fits layout val) {i : Item}
    (hv : ∀ f ∈ names layout, 0 < f.2 → f.1 = i → v < 2 ^ f.2) :
    Fits layout (Function.update val i v) := by
  intro f hf hpos
  by_cases hi : f.1 = i
  · grind
  · rw [Function.update_of_ne hi]
    exact h f hf hpos

/-- What is written is or-ed to what is there. -/
theorem fill_or (hword : ∀ e ∈ layout, e.arith ≠ .bitwise) (s : ℕ × ℕ) :
    ∃ y, (fill size val layout s).1 = s.1 ||| y := by
  induction layout generalizing s with
  | nil => exact ⟨0, (Nat.or_zero _).symm⟩
  | cons e layout ih =>
    obtain ⟨he, hrest⟩ := List.forall_mem_cons.mp hword
    obtain ⟨y, hy⟩ := ih hrest (put size e.arith e.width (val e.item) s)
    obtain ⟨z, hz⟩ : ∃ z, (put size e.arith e.width (val e.item) s).1 = s.1 ||| z := by
      unfold put
      cases ha : e.arith with
      | bitwise => exact absurd ha he
      | _ => exact ⟨_, rfl⟩
    exact ⟨z ||| y, by rw [← Nat.or_assoc, ← hz]; exact hy⟩

/-! ### Reading -/

/-- **The fields are read back** where the reader knows their order and widths. -/
theorem extract_fill {x size : ℕ} {val values : Item → ℕ} {fs : List (ℕ × ℕ)}
    {layout : List Entry} (h : Carries x size (fs ++ fieldsOf val layout))
    (hnodup : (layout.map Entry.item).Nodup) :
    ∀ i ∈ layout.map Entry.item,
      readAll x (names layout) (size - width fs) values i = val i := by
  have hcarries := (carries_append.mp h).2
  have hitems : (names layout).map Prod.fst = layout.map Entry.item := by
    unfold names
    rw [List.map_map]
    rfl
  rw [← hitems]
  refine readAll_of_carries (by rw [hitems]; exact hnodup) ?_
  unfold names
  rw [List.map_map]
  exact hcarries

theorem mem_names {f : Item × ℕ} (h : f ∈ names layout) :
    f.1 ∈ layout.map Entry.item := by
  obtain ⟨e, he, rfl⟩ := List.mem_map.mp h
  exact List.mem_map_of_mem he

section Indicator

variable {payload : ℕ} {values val : Item → ℕ}

theorem extract_indicator {size indicator : ℕ} {layout : List Entry}
    (h : Carries payload size ((1, indicator) :: fieldsOf val layout))
    (hnodup : (layout.map Entry.item).Nodup) :
    slice payload (size - 1) 1 = indicator ∧ ∀ i ∈ layout.map Entry.item,
      readAll payload (names layout) (size - 1) values i = val i := by
  refine ⟨h.1.2, ?_⟩
  exact @extract_fill payload size val values [(1, indicator)] layout h hnodup

theorem update_indicator {read : Item → ℕ} (h : ∀ i ∈ layout.map Entry.item, read i = val i) :
    ∀ i ∈ Item.formatIndicator :: layout.map Entry.item,
      Function.update read .formatIndicator (val .formatIndicator) i = val i := by grind

end Indicator

end OaiGnb.Mac.Dci
