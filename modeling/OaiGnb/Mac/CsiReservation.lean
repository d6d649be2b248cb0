import OaiGnb.Mac.Pucch
import OaiGnb.Mac.Scheduler

/-!
# Reservation of resource blocks for CSI reports

The part of `nr_csi_meas_reporting` behind the choice of the slot reserves the resource blocks of
the report in `vrb_map_UL`, one after the other.  A busy block clears the PUCCH entry, but does not
end the loop.

* `reserveRows_spec`: which blocks are marked, and when the entry is left.
* `csiReservation_allOrNothing`: the reservation is all or nothing exactly when the blocks are all
  free or all busy.
-/

namespace OaiGnb.Mac.CsiReservation

open Run ResourceGrid Mac.Pucch

/-- The formats of a PUCCH resource. -/
inductive Format where
  | format2 (nrofPRBs startingSymbolIndex nrofSymbols : ℕ)
  | format3 (nrofPRBs startingSymbolIndex nrofSymbols : ℕ)
  | format4 (startingSymbolIndex nrofSymbols : ℕ)
  | other
  deriving Repr, DecidableEq

/-- `NR_PUCCH_Resource_t`. -/
structure Resource where
  pucchResourceId : ℕ
  startingPRB : ℕ
  format : Format
  deriving Repr, DecidableEq

/-- What the function reads of `pucch_Config`, the BWP and the report: the set with formats above 1,
all resources, of which one has the identity of the report's, and `simultaneousHARQ_ACK_CSI` of the
formats 2, 3 and 4. -/
structure CsiConfig where
  pucchResource : ℕ
  resourceList : List ℕ
  resourceToAddModList : List Resource
  simultaneousHarqAckCsi : ℕ → Bool
  bwpStart : ℕ
  resource : Resource
  resource_unique :
    resourceToAddModList.filter (fun r => r.pucchResourceId == pucchResource) = [resource]

/-- One turn of "verify resources are free". -/
def reserveRow (mask : BitVec 16) (s : SchedPucch × VrbMap) (row : ℕ) : SchedPucch × VrbMap :=
  if rowFree s.2 mask row then (s.1, Function.update s.2 row (s.2 row ||| mask)) else (.zero, s.2)

/-- "verify resources are free", for `len` resource blocks. -/
def reserveRows (mask : BitVec 16) (lo len : ℕ) (s : SchedPucch × VrbMap) : SchedPucch × VrbMap :=
  (List.range' lo len).foldl (reserveRow mask) s

/-- `len`, `mask` and the number of the format. -/
def Format.reads : Format → Option (ℕ × BitVec 16 × ℕ)
  | .format2 len start n => some (len, slToBitmap start n, 2)
  | .format3 len start n => some (len, slToBitmap start n, 3)
  | .format4 start n => some (1, slToBitmap start n, 4)
  | .other => none

/-- The loop body for the resource of the report. -/
def reserveResource (cfg : CsiConfig) (s : SchedPucch × VrbMap) (res : Resource) :
    Except Fault (SchedPucch × VrbMap) :=
  match res.format.reads with
  | none => .error .assertFatal
  | some (len, mask, n) =>
      .ok (reserveRows mask (res.startingPRB + cfg.bwpStart) len
        ({ s.1 with simultaneousHarqcsi := cfg.simultaneousHarqAckCsi n }, s.2))

/-- `nr_csi_meas_reporting` for a report of `bitlen` bits that is due in a slot. -/
def csiReservation (cfg : CsiConfig) (schedFrame schedSlot bitlen : ℕ) (beamFree : Bool)
    (currPucch : SchedPucch) (vrbMapUl : VrbMap) : Except Fault (SchedPucch × VrbMap) :=
  match cfg.resourceList.findIdx? (fun id => id == cfg.pucchResource) with
  | none => .error .assertFatal
  | some resIndex =>
      let e := if currPucch.active then .zero else currPucch
      let e := { e with
        rPucch := -1
        frame := schedFrame
        ulSlot := schedSlot
        resourceIndicator := resIndex
        csiBits := e.csiBits + bitlen
        active := true }
      if beamFree then
        cfg.resourceToAddModList.foldlM (fun s res =>
          if res.pucchResourceId == cfg.pucchResource then reserveResource cfg s res else pure s)
          (e, vrbMapUl)
      else .error .assertFatal

/-! ### The reservation -/

/-- **What the loop does**: it marks the free blocks, and leaves the entry if all are free. -/
theorem reserveRows_spec (mask : BitVec 16) (len : ℕ) (lo : ℕ) (s : SchedPucch × VrbMap) :
    ((∀ r, lo ≤ r → r < lo + len → rowFree s.2 mask r = true) →
        (reserveRows mask lo len s).1 = s.1) ∧
      ((∃ r, lo ≤ r ∧ r < lo + len ∧ rowFree s.2 mask r = false) →
        (reserveRows mask lo len s).1 = .zero) ∧
      ∀ r, (reserveRows mask lo len s).2 r =
        if (lo ≤ r ∧ r < lo + len) ∧ rowFree s.2 mask r then s.2 r ||| mask else s.2 r := by
  induction len generalizing lo s with
  | zero =>
    refine ⟨fun _ => rfl, fun ⟨r, h1, h2, _⟩ => absurd h2 (by omega), fun r => ?_⟩
    rw [if_neg (by omega)]
    rfl
  | succ len ih =>
    have hrows : reserveRows mask lo (len + 1) s =
        reserveRows mask (lo + 1) len (reserveRow mask s lo) := rfl
    -- the other rows are as before the turn
    have hkeep : ∀ r, r ≠ lo → (reserveRow mask s lo).2 r = s.2 r := by
      intro r hr
      unfold reserveRow
      split
      · exact Function.update_of_ne hr ..
      · rfl
    have hfree : ∀ r, r ≠ lo → rowFree (reserveRow mask s lo).2 mask r = rowFree s.2 mask r :=
      fun r hr => by rw [rowFree, rowFree, hkeep r hr]
    obtain ⟨h1, h2, h3⟩ := ih (lo + 1) (reserveRow mask s lo)
    rw [hrows]
    refine ⟨?_, ?_, ?_⟩
    · intro hall
      rw [h1 fun r hr hlt => by rw [hfree r (by omega)]; exact hall r (by omega) (by omega),
        reserveRow, if_pos (hall lo le_rfl (by omega))]
    · rintro ⟨r, hr, hlt, hbusy⟩
      by_cases hex : ∃ r, lo + 1 ≤ r ∧ r < lo + 1 + len ∧
          rowFree (reserveRow mask s lo).2 mask r = false
      · exact h2 hex
      · have hlo : r = lo := by
          by_contra hne
          exact hex ⟨r, by omega, by omega, by rw [hfree r hne]; exact hbusy⟩
        subst hlo
        rw [h1 fun q hq hqlt => by simpa using fun hb => hex ⟨q, hq, hqlt, hb⟩, reserveRow,
          if_neg (by simp [hbusy])]
    · intro r
      rw [h3 r]
      by_cases hr : r = lo
      · subst hr
        rw [if_neg (by omega), reserveRow]
        by_cases hf : rowFree s.2 mask r = true
        · rw [if_pos hf, if_pos ⟨by omega, hf⟩]
          exact Function.update_self ..
        · rw [if_neg hf, if_neg fun hc => hf hc.2]
      · rw [hfree r hr, hkeep r hr]
        exact if_congr (and_congr_left' (by omega)) rfl rfl

/-- Either the entry is active, the blocks were free and are marked, or it is inactive and the map
is as before. -/
def AllOrNothing (mask : BitVec 16) (lo len : ℕ) (before after : VrbMap) (e : SchedPucch) : Prop :=
  e.active = true ∧ (∀ r, lo ≤ r → r < lo + len → rowFree before mask r = true) ∧
      after = mark before lo (lo + len) mask ∨
    e.active = false ∧ after = before

theorem reserveRows_allOrNothing_iff {mask : BitVec 16} {lo len : ℕ} {e : SchedPucch} {m : VrbMap}
    (he : e.active = true) :
    AllOrNothing mask lo len m (reserveRows mask lo len (e, m)).2
        (reserveRows mask lo len (e, m)).1 ↔
      (∀ r, lo ≤ r → r < lo + len → rowFree m mask r = true) ∨
        ∀ r, lo ≤ r → r < lo + len → rowFree m mask r = false := by
  obtain ⟨h1, h2, h3⟩ := reserveRows_spec mask len lo (e, m)
  dsimp only at h1 h2 h3
  constructor
  · rintro (⟨-, hall, -⟩ | ⟨hinactive, hsame⟩)
    · exact Or.inl hall
    · by_cases hbusy : ∃ r, lo ≤ r ∧ r < lo + len ∧ rowFree m mask r = false
      · -- a free block would have been marked, and the mask is not empty: a block is busy in it
        obtain ⟨q, -, -, hq⟩ := hbusy
        refine Or.inr fun r hr hlt => Bool.eq_false_iff.mpr fun hf => ?_
        have hmark := h3 r
        rw [if_pos ⟨⟨hr, hlt⟩, hf⟩, hsame] at hmark
        have hmask : mask = 0 := by
          have habsorb : (m r ||| mask) &&& mask = mask := by
            ext i hi
            simp only [BitVec.getElem_and, BitVec.getElem_or]
            cases mask[i] <;> simp
          rwa [rowFree, beq_iff_eq, hmark, habsorb] at hf
        simp [rowFree, hmask] at hq
      · have hall : ∀ r, lo ≤ r → r < lo + len → rowFree m mask r = true := by
          simpa using hbusy
        rw [h1 hall, he] at hinactive
        cases hinactive
  · intro h
    by_cases hall : ∀ r, lo ≤ r → r < lo + len → rowFree m mask r = true
    · refine Or.inl ⟨by rw [h1 hall]; exact he, hall, funext fun r => ?_⟩
      rw [h3 r, mark]
      exact if_congr (and_iff_left_of_imp fun hr => hall r hr.1 hr.2) rfl rfl
    · have hbusy := h.resolve_left hall
      push Not at hall
      obtain ⟨q, hq, hlt, hne⟩ := hall
      refine Or.inr ⟨?_, funext fun r => ?_⟩
      · rw [h2 ⟨q, hq, hlt, hbusy q hq hlt⟩]
        rfl
      · rw [h3 r, if_neg]
        rintro ⟨hr, hf⟩
        rw [hbusy r hr.1 hr.2] at hf
        cases hf

/-- **When the reservation is all or nothing**: for every PUCCH resource of format 2, 3 or 4,
exactly if its blocks are all free or all busy. -/
theorem csiReservation_allOrNothing {cfg : CsiConfig} {frame slot bitlen len n : ℕ}
    {beamFree : Bool} {e e' : SchedPucch} {m m' : VrbMap} {mask : BitVec 16}
    (hread : cfg.resource.format.reads = some (len, mask, n))
    (h : csiReservation cfg frame slot bitlen beamFree e m = .ok (e', m')) :
    AllOrNothing mask (cfg.resource.startingPRB + cfg.bwpStart) len m m' e' ↔
      (∀ r, cfg.resource.startingPRB + cfg.bwpStart ≤ r →
        r < cfg.resource.startingPRB + cfg.bwpStart + len → rowFree m mask r = true) ∨
      ∀ r, cfg.resource.startingPRB + cfg.bwpStart ≤ r →
        r < cfg.resource.startingPRB + cfg.bwpStart + len → rowFree m mask r = false := by
  unfold csiReservation at h
  split at h
  · cases h
  · dsimp only at h
    generalize (if e.active = true then SchedPucch.zero else e) = e₀ at h
    split at h
    · rw [← List.foldlM_filter, cfg.resource_unique, List.foldlM_cons, reserveResource, hread] at h
      obtain ⟨rfl, rfl⟩ := ok_inj h
      exact reserveRows_allOrNothing_iff rfl
    · cases h

/-- A resource of format 2 with the resource blocks 3 and 4, in all symbols. -/
def twoBlocks : CsiConfig := ⟨0, [0], [⟨0, 3, .format2 2 0 14⟩], fun _ => true, 0,
  ⟨0, 3, .format2 2 0 14⟩, by decide⟩

/-- Both blocks are free. -/
theorem csiReservation_allOrNothing_free :
    ∃ e' m', csiReservation twoBlocks 0 8 4 true .zero (fun _ => 0) = .ok (e', m') ∧
      AllOrNothing (slToBitmap 0 14) 3 2 (fun _ => 0) m' e' :=
  ⟨_, _, rfl, (@csiReservation_allOrNothing twoBlocks 0 8 4 2 2 true .zero _ (fun _ => 0) _ _ rfl
    rfl).mpr (Or.inl fun _ _ _ => show (0 &&& slToBitmap 0 14 == 0) = true by decide)⟩

/-- **Half a reservation**: block 3 is free and block 4 is busy, and block 3 is marked for an entry
that was cleared. -/
theorem not_allOrNothing_second_busy :
    ¬ ∀ (cfg : CsiConfig) (frame slot bitlen len n : ℕ) (beamFree : Bool) (e e' : SchedPucch)
      (m m' : VrbMap) (mask : BitVec 16), cfg.resource.format.reads = some (len, mask, n) →
      csiReservation cfg frame slot bitlen beamFree e m = .ok (e', m') →
      AllOrNothing mask (cfg.resource.startingPRB + cfg.bwpStart) len m m' e' := by
  intro h
  rcases h twoBlocks 0 8 4 2 2 true .zero _ (fun r => if r = 4 then 1 else 0) _ _ rfl rfl with
    ⟨hactive, _⟩ | ⟨_, hsame⟩
  · revert hactive
    decide
  · have h3 := congrFun hsame 3
    revert h3
    decide

end OaiGnb.Mac.CsiReservation
