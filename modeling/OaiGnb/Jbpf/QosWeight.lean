import OaiGnb.Lib.Index
import Mathlib.Data.List.Basic

/-!
# The table of scheduling weights

The MAC scheduler multiplies a UE's coefficient by `qosWeightLookup` of its RNTI.  The table has one
slot per UE of the gNB, found by RNTI; weights are Q16.16 integers, and `oneQ16` is no policy.

* `AllActive` : a property of the RNTI and the weight of every active slot.  Every operation keeps
  it (`allActive_apply`, `allActive_retain`, `allActive_clearAll`), and a lookup returns `oneQ16` or
  a weight with the property (`qosWeightLookup_spec`).
-/

namespace OaiGnb.Jbpf

/-- 1.0, that is no policy. -/
def oneQ16 : ℕ := 65536

/-- `UINT64_MAX`, for a weight that does not expire. -/
def forever : ℕ := 2 ^ 64 - 1

/-- `qos_weight_entry_t`. -/
structure Slot where
  weight : ℕ
  expiryNs : ℕ
  rnti : ℕ
  active : Bool
deriving DecidableEq

/-- `clear_slot`. -/
def clearedSlot : Slot := ⟨oneQ16, 0, 0, false⟩

/-- `find_slot`. -/
def findSlot (table : List Slot) (rnti : ℕ) : Option ℕ :=
  table.findIdx? fun s => s.active && s.rnti == rnti

/-- The weights between 0.25 and 8. -/
def clampWeight (weight : ℕ) : ℕ := min (max weight 16384) 524288

def qosWeightApply (table : List Slot) (rnti weight ttlMs monoNs : ℕ) : List Slot :=
  let weight := clampWeight weight
  if weight = oneQ16 then
    match findSlot table rnti with
    | some i => table.set i clearedSlot
    | none => table
  else
    let expiry := if ttlMs = 0 then forever else (monoNs + ttlMs * 1000000) % 2 ^ 64
    -- a free slot for a new RNTI; the table may be full
    match (findSlot table rnti).or (table.findIdx? fun s => !s.active) with
    | some i => table.set i ⟨weight, expiry, rnti, true⟩
    | none => table

def qosWeightRetain (table : List Slot) (live : List ℕ) : List Slot :=
  if live = [] then table
  else table.map fun s => if s.active && !(live.contains s.rnti) then clearedSlot else s

def qosWeightClearAll (table : List Slot) : List Slot := table.map fun _ => clearedSlot

def qosWeightLookup (table : List Slot) (rnti monoNs : ℕ) : ℕ :=
  match table.find? fun s => s.active && s.rnti == rnti with
  | none => oneQ16
  | some s =>
      if s.weight = oneQ16 then oneQ16
      else if s.expiryNs ≠ forever ∧ s.expiryNs < monoNs then oneQ16
      else s.weight

/-- Every active slot has the property. -/
def AllActive (Q : ℕ → ℕ → Prop) (table : List Slot) : Prop :=
  ∀ s ∈ table, s.active = true → Q s.rnti s.weight

section AllActive

variable {Q : ℕ → ℕ → Prop} {table : List Slot}

theorem AllActive.mono {Q' : ℕ → ℕ → Prop} (h : AllActive Q table)
    (hmono : ∀ rnti weight, Q rnti weight → Q' rnti weight) : AllActive Q' table :=
  fun s hs hactive => hmono _ _ (h s hs hactive)

theorem allActive_set (h : AllActive Q table) (i : ℕ) {s : Slot}
    (hs : s.active = true → Q s.rnti s.weight) : AllActive Q (table.set i s) := by
  intro s' hmem hactive
  rcases List.mem_or_eq_of_mem_set hmem with hold | rfl
  · exact h s' hold hactive
  · exact hs hactive

theorem allActive_clearAll : AllActive Q (qosWeightClearAll table) := by
  intro s hs hactive
  obtain ⟨_, _, rfl⟩ := List.mem_map.mp hs
  cases hactive

theorem allActive_retain (h : AllActive Q table) (live : List ℕ) :
    AllActive Q (qosWeightRetain table live) := by
  unfold qosWeightRetain
  split_ifs
  · exact h
  · intro s hs hactive
    obtain ⟨s₀, hs₀, rfl⟩ := List.mem_map.mp hs
    split_ifs at hactive ⊢ with hgone
    · cases hactive
    · exact h s₀ hs₀ hactive

theorem allActive_apply (h : AllActive Q table) {rnti weight : ℕ} (ttlMs monoNs : ℕ)
    (hnew : Q rnti (clampWeight weight)) :
    AllActive Q (qosWeightApply table rnti weight ttlMs monoNs) := by
  unfold qosWeightApply
  by_cases hone : clampWeight weight = oneQ16
  · rw [if_pos hone]
    cases findSlot table rnti with
    | some i => exact allActive_set h i fun hactive => (by cases hactive)
    | none => exact h
  · rw [if_neg hone]
    cases (findSlot table rnti).or (table.findIdx? fun s => !s.active) with
    | some i => exact allActive_set h i fun _ => hnew
    | none => exact h

theorem qosWeightLookup_spec (h : AllActive Q table) (rnti monoNs : ℕ) :
    qosWeightLookup table rnti monoNs = oneQ16 ∨ Q rnti (qosWeightLookup table rnti monoNs) := by
  unfold qosWeightLookup
  cases hfind : table.find? fun s => s.active && s.rnti == rnti with
  | none => exact Or.inl rfl
  | some s =>
    have hfound := List.find?_some hfind
    obtain ⟨hactive, hrnti⟩ := Bool.and_eq_true_iff.mp hfound
    have hQ := h s (List.mem_of_find?_eq_some hfind) hactive
    rw [eq_of_beq hrnti] at hQ
    dsimp only
    split_ifs
    · exact Or.inl rfl
    · exact Or.inl rfl
    · exact Or.inr hQ

end AllActive

end OaiGnb.Jbpf
