import OaiGnb.Jbpf.QosWeight
import OaiGnb.Lib.Run

/-!
# The table as a map with expiry

* `Policies` : the weight of every RNTI, and when it ends.
* `qosWeight_refines` : a lookup is that of the map, where a policy for a new RNTI finds a slot that
  is not active and its end is a time of 64 bits.
-/

namespace OaiGnb.Jbpf

open Run

/-- The weight and, unless it is for ever, the end. -/
abbrev Policies := ℕ → Option (ℕ × Option ℕ)

inductive TableOp
  | apply (rnti weight ttlMs monoNs : ℕ)
  | retain (live : List ℕ)
  | clearAll

def TableOp.onTable (table : List Slot) : TableOp → List Slot
  | .apply rnti weight ttlMs monoNs => qosWeightApply table rnti weight ttlMs monoNs
  | .retain live => qosWeightRetain table live
  | .clearAll => qosWeightClearAll table

def TableOp.onPolicies (policies : Policies) : TableOp → Policies
  | .apply rnti weight ttlMs monoNs => Function.update policies rnti
      (if clampWeight weight = oneQ16 then none
      else some (clampWeight weight,
        if ttlMs = 0 then none else some (monoNs + ttlMs * 1000000)))
  | .retain live => fun rnti => if live = [] ∨ rnti ∈ live then policies rnti else none
  | .clearAll => fun _ => none

def Policies.lookup (policies : Policies) (rnti monoNs : ℕ) : ℕ :=
  match policies rnti with
  | none => oneQ16
  | some (weight, expiry) => if expiry.any (· < monoNs) then oneQ16 else weight

def tableStep (s : List Slot × Policies) (op : TableOp) :
    Except Empty ((List Slot × Policies) × Unit) :=
  .ok ((op.onTable s.1, op.onPolicies s.2), ())

/-- A new policy has a slot, and ends at a time of 64 bits. -/
def TableOp.Fits (table : List Slot) : TableOp → Prop
  | .apply rnti weight ttlMs monoNs => clampWeight weight ≠ oneQ16 →
      monoNs + ttlMs * 1000000 < forever ∧
        ∃ i, (findSlot table rnti).or (table.findIdx? fun s => !s.active) = some i
  | _ => True

def Slot.policy (s : Slot) : ℕ × Option ℕ :=
  (s.weight, if s.expiryNs = forever then none else some s.expiryNs)

/-- Every RNTI has one active slot for its policy. -/
def Holds (table : List Slot) (policies : Policies) : Prop :=
  ∀ rnti, (table.filter fun s => s.active && s.rnti == rnti).map Slot.policy
    = (policies rnti).toList

section

variable {table : List Slot} {policies : Policies} (h : Holds table policies)

include h

theorem Holds.set {i : ℕ}
    (hi : i < table.length) {rnti : ℕ} {s : Slot} (hs : s.active = true → s.rnti = rnti)
    (hold : table[i].active = true ∧ table[i].rnti = rnti ∨
      table[i].active = false ∧ policies rnti = none) :
    Holds (table.set i s)
      (Function.update policies rnti (if s.active then some s.policy else none)) := by
  intro r
  have hr := h r
  rw [← List.take_append_drop i table, List.drop_eq_getElem_cons hi, List.filter_append,
    List.filter_cons, List.map_append] at hr
  rw [List.set_eq_take_append_cons_drop, if_pos hi, List.filter_append, List.filter_cons,
    List.map_append]
  by_cases hrnti : r = rnti
  · -- no other slot is the RNTI's
    subst hrnti
    have hlen := congrArg List.length hr
    have hone : (policies r).toList.length ≤ 1 := by cases policies r <;> simp
    have hother : (table.take i).filter (fun s => s.active && s.rnti == r) = [] ∧
        (table.drop (i + 1)).filter (fun s => s.active && s.rnti == r) = [] := by
      rw [← List.length_eq_zero_iff, ← List.length_eq_zero_iff]
      rcases hold with ⟨hactive, hsame⟩ | ⟨hfree, hnone⟩
      · simp [hactive, hsame] at hlen
        omega
      · simpa [hfree, hnone] using hlen
    rw [hother.1, hother.2, Function.update_self]
    cases hactive : s.active with
    | true => simp [hs hactive]
    | false => simp
  · rw [Function.update_of_ne hrnti, ← hr]
    grind

theorem Holds.apply
    {rnti weight ttlMs monoNs : ℕ} (hfits : (TableOp.apply rnti weight ttlMs monoNs).Fits table) :
    Holds (qosWeightApply table rnti weight ttlMs monoNs)
      ((TableOp.apply rnti weight ttlMs monoNs).onPolicies policies) := by
  have hnone : findSlot table rnti = none → policies rnti = none := by
    intro hfind
    have hr := h rnti
    rw [List.filter_eq_nil_iff.mpr (by simpa [findSlot] using hfind)] at hr
    cases hp : policies rnti with
    | none => rfl
    | some p => simp [hp] at hr
  unfold qosWeightApply TableOp.onPolicies
  by_cases hone : clampWeight weight = oneQ16
  · simp only [if_pos hone]
    cases hfind : findSlot table rnti with
    | none => rwa [← hnone hfind, Function.update_eq_self]
    | some i =>
      obtain ⟨hi, hslot, -⟩ := List.findIdx?_eq_some_iff_getElem.mp hfind
      exact h.set hi (s := clearedSlot) (by simp [clearedSlot]) (Or.inl (by simpa using hslot))
  · obtain ⟨hend, i, hfind⟩ := hfits hone
    have hset := fun hi => @Holds.set _ _ h i hi rnti
      ⟨clampWeight weight, if ttlMs = 0 then forever else (monoNs + ttlMs * 1000000) % 2 ^ 64, rnti,
        true⟩ (fun _ => rfl)
    have hpolicy : (if ttlMs = 0 then none else some (monoNs + ttlMs * 1000000))
        = (Slot.mk (clampWeight weight)
          (if ttlMs = 0 then forever else (monoNs + ttlMs * 1000000) % 2 ^ 64) rnti true).policy.2
            := by
      unfold forever at hend
      simp only [Slot.policy, forever]
      split_ifs <;> first | rfl | omega | grind
    simp only [if_neg hone, hfind, hpolicy]
    rcases Option.or_eq_some_iff.mp hfind with hown | ⟨hno, hfree⟩
    · obtain ⟨hi, hslot, -⟩ := List.findIdx?_eq_some_iff_getElem.mp hown
      exact hset hi (Or.inl (by simpa using hslot))
    · obtain ⟨hi, hslot, -⟩ := List.findIdx?_eq_some_iff_getElem.mp hfree
      exact hset hi (Or.inr ⟨by simpa using hslot, hnone hno⟩)

theorem Holds.retain (live : List ℕ) :
    Holds (qosWeightRetain table live) ((TableOp.retain live).onPolicies policies) := by
  intro rnti
  have hfilter : (qosWeightRetain table live).filter (fun s => s.active && s.rnti == rnti)
      = if live = [] ∨ rnti ∈ live then table.filter fun s => s.active && s.rnti == rnti
        else [] := by
    unfold qosWeightRetain
    clear h
    induction table with
    | nil => simp
    | cons s rest ih => grind [clearedSlot]
  rw [hfilter]
  dsimp only [TableOp.onPolicies]
  split_ifs
  · exact h rnti
  · rfl

theorem Holds.lookup
    (rnti monoNs : ℕ) : qosWeightLookup table rnti monoNs = policies.lookup rnti monoNs := by
  have hr := h rnti
  unfold qosWeightLookup Policies.lookup
  rw [← List.head?_filter]
  cases hf : table.filter fun s => s.active && s.rnti == rnti with
  | nil =>
    rw [hf] at hr
    cases hp : policies rnti with
    | none => rfl
    | some p => simp [hp] at hr
  | cons s rest =>
    rw [hf] at hr
    cases hp : policies rnti with
    | none => simp [hp] at hr
    | some p =>
      obtain rfl : s.policy = p := by simp_all
      simp only [List.head?_cons, Slot.policy]
      by_cases hforever : s.expiryNs = forever
      · grind
      · grind

end

/-- The static table. -/
def emptyTable : List Slot × Policies := (List.replicate 16 ⟨0, 0, 0, false⟩, fun _ => none)

/-- **The table refines the map** as long as policies find their slots. -/
theorem qosWeight_refines {s : List Slot × Policies}
    (h : Reachable tableStep (fun s op => op.Fits s.1) emptyTable s) (rnti monoNs : ℕ) :
    qosWeightLookup s.1 rnti monoNs = s.2.lookup rnti monoNs := by
  refine Holds.lookup (Reachable.invariant (fun s => Holds s.1 s.2) ?_ ?_ h) rnti monoNs
  · intro rnti
    rfl
  · intro s op s' o hs hfits hstep
    obtain ⟨rfl, -⟩ := ok_inj hstep
    cases op with
    | apply => exact hs.apply hfits
    | retain live => exact hs.retain live
    | clearAll =>
      intro rnti
      simp [TableOp.onTable, TableOp.onPolicies, qosWeightClearAll, clearedSlot]

/-- A weight of 4 for a second for one UE and of 8 for ever for two others, of which one goes. -/
theorem qosWeight_refines_sample :
    ∃ s, Reachable tableStep (fun s op => op.Fits s.1) emptyTable s ∧
      (s.2.lookup 7 5, s.2.lookup 7 (10 ^ 10), s.2.lookup 8 5, s.2.lookup 9 5) =
        (4 * 65536, oneQ16, 8 * 65536, oneQ16) ∧
      ∀ rnti monoNs, qosWeightLookup s.1 rnti monoNs = s.2.lookup rnti monoNs := by
  have hstep : ∀ {s : List Slot × Policies} (op : TableOp),
      Reachable tableStep (fun s op => op.Fits s.1) emptyTable s → op.Fits s.1 →
      Reachable tableStep (fun s op => op.Fits s.1) emptyTable (op.onTable s.1, op.onPolicies s.2) :=
    fun op h hfits => h.step (i := op) hfits rfl
  have h₁ := hstep (.apply 7 (4 * 65536) 1000 0) .start fun _ => ⟨by decide, 0, by decide⟩
  have h₂ := hstep (.apply 8 (8 * 65536) 0 1) h₁ fun _ => ⟨by decide, 1, by decide⟩
  have h₃ := hstep (.apply 9 (8 * 65536) 0 2) h₂ fun _ => ⟨by decide, 2, by decide⟩
  have h₄ := hstep (.retain [7, 8]) h₃ trivial
  exact ⟨_, h₄, by decide, fun rnti monoNs => qosWeight_refines h₄ rnti monoNs⟩

/-- **Slots of policies that have ended are not free.**  A policy is lost after 16 that have all
ended. -/
theorem not_qosWeight_refines :
    ¬ ∀ s, Reachable tableStep (fun _ _ => True) emptyTable s → ∀ rnti weight monoNs,
      (∀ slot ∈ s.1, slot.expiryNs < monoNs) →
      qosWeightLookup (qosWeightApply s.1 rnti weight 0 monoNs) rnti monoNs
        = clampWeight weight := by
  intro hall
  obtain ⟨s, hs, hobserved⟩ := exists_reachable tableStep (fun _ _ => True) emptyTable
    ((List.range 16).map fun k => .apply (k + 1) 131072 1 0)
    (fun s => (s.1.all (·.expiryNs < 1000000000),
      qosWeightLookup (qosWeightApply s.1 17 131072 0 1000000000) 17 1000000000))
    (b := (true, oneQ16)) (by decide +kernel)
  obtain ⟨hended, hlost⟩ := Prod.mk.inj hobserved
  have h := hall s hs 17 131072 1000000000 (by simpa using hended)
  exact absurd (hlost.symm.trans h) (by decide)

end OaiGnb.Jbpf
