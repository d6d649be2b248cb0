import OaiGnb.Mac.UlPdu
import Mathlib.Data.List.Sublists

/-!
# Buffer status reports at the UE

What `nr_ue_get_sdu_mac_ce_post` chooses to report behind the SDUs of a PDU,
`nr_locate_BsrIndexByBufferSize`, and the bytes that `nr_write_ce_ulsch_pdu` writes.

* `chooseBsr_cases`: no BSR, a short one or a long one, and room for it.
* `activeLcgs_bitmap`: the gNB finds in the bitmap of a long BSR the groups that were written.
-/

namespace OaiGnb.Mac.UeBsr

open Mac.UlPdu (activeLcgs)

/-- How the functions can fail. -/
inductive MuxFault where
  | outOfBounds
  deriving Repr, DecidableEq

/-- The buffer size tables, `get_short_bsr_value` and `get_long_bsr_value`. -/
structure BsrTables where
  getShortBsrValue : ℕ → ℕ
  getLongBsrValue : ℕ → ℕ

/-- The number of LCGs with data. -/
def numLcgIdWithData (lcgBytes : ℕ → ℕ) : ℕ :=
  ((List.range 8).filter fun i => decide (lcgBytes i > 0)).length

/-- The binary search of `nr_locate_BsrIndexByBufferSize`, in at most the given number of steps. -/
def searchIndex (get : ℕ → ℕ) (value : ℕ) (ascend : Bool) : ℕ → ℕ → ℕ → ℕ
  | 0, jl, _ => jl
  | n + 1, jl, ju =>
      if ju - jl > 1 then
        let jm := (ju + jl) / 2
        if decide (value ≥ get jm) = ascend then searchIndex get value ascend n jm ju
        else searchIndex get value ascend n jl jm
      else jl

/-- `nr_locate_BsrIndexByBufferSize`. -/
def nrLocateBsrIndexByBufferSize (get : ℕ → ℕ) (size value : ℕ) : ℕ :=
  if value = 0 then 0
  else
    let ascend := decide (get (size - 1) ≥ get 0)
    let jl := searchIndex get value ascend size 0 (size - 1)
    (if value = get jl then jl else jl + 1) % 256

/-- `type_bsr_t`. -/
inductive Bsr where
  | none
  | short (truncated : Bool) (lcgId bufferSize : ℕ)
  | long (truncated : Bool) (lcgBsr : List ℕ)
  deriving Repr, DecidableEq

/-- A short BSR; the bytes of an LCG that is not valid are outside the array. -/
def shortBsr (tables : BsrTables) (lcgBytes : ℕ → ℕ) (truncated : Bool) :
    Option (Fin 8) → Except MuxFault Bsr
  | none => .error .outOfBounds
  | some g => .ok (.short truncated g
      (nrLocateBsrIndexByBufferSize tables.getShortBsrValue 32 (lcgBytes g) % 32))

/-- A long BSR. -/
def longBsr (tables : BsrTables) (lcgBytes : ℕ → ℕ) (truncated : Bool) : Bsr :=
  .long truncated ((List.range 8).map fun i =>
    nrLocateBsrIndexByBufferSize tables.getLongBsrValue 256 (lcgBytes i))

/-- The choice of the BSR in `nr_ue_get_sdu_mac_ce_post`. -/
def chooseBsr (tables : BsrTables) (lcgBytes : ℕ → ℕ) (lcg : Option (Fin 8)) (paddingLen : ℕ) :
    Except MuxFault Bsr :=
  let n := numLcgIdWithData lcgBytes
  if n < 2 ∧ paddingLen ≥ 2 then shortBsr tables lcgBytes false lcg
  else if paddingLen ≥ n + 1 + 2 then .ok (longBsr tables lcgBytes false)
  else if paddingLen = 2 then shortBsr tables lcgBytes true lcg
  else if paddingLen ≥ 1 + 2 then .ok (longBsr tables lcgBytes true)
  else .ok .none

/-- The octets of a long BSR and their LCGs, from the LCG `i` on, while there is room. -/
def writeLcgs : ℕ → ℕ → List ℕ → List (ℕ × ℕ)
  | _, _, [] => []
  | room, i, v :: vs =>
      if v ≠ 0 ∧ room > 0 then (i, v) :: writeLcgs (room - 1) (i + 1) vs
      else writeLcgs room (i + 1) vs

/-- The bitmap with the given bits. -/
def bitmap (lcgs : List ℕ) : ℕ := lcgs.foldr (fun i b => b ||| 1 <<< i) 0

/-- The bytes of a BSR of `nr_write_ce_ulsch_pdu`, with room for so many bytes. -/
def bsrBytes (room : ℕ) : Bsr → List UInt8
  | .none => []
  | .short truncated lcgId bufferSize =>
      [UInt8.ofNat (if truncated = true then 0x3B else 0x3D), UInt8.ofNat (lcgId * 32 + bufferSize)]
  | .long truncated lcgBsr =>
      let octets := writeLcgs (room - 3) 0 lcgBsr
      [UInt8.ofNat (if truncated = true then 0x3C else 0x3E), UInt8.ofNat (octets.length + 1),
        UInt8.ofNat (bitmap (octets.map Prod.fst))]
        ++ octets.map fun o => UInt8.ofNat o.2

variable {lcgBytes : ℕ → ℕ} {lcg : Option (Fin 8)} {room : ℕ}

/-- There is no BSR, a short one, or a long one, and room for it. -/
theorem chooseBsr_cases {tables : BsrTables} {bsr : Bsr}
    (h : chooseBsr tables lcgBytes lcg room = .ok bsr) :
    bsr = .none ∨
    (∃ (truncated : Bool) (g : Fin 8), lcg = some g ∧ 2 ≤ room ∧ bsr = .short truncated g
      (nrLocateBsrIndexByBufferSize tables.getShortBsrValue 32 (lcgBytes g) % 32)) ∨
    ∃ truncated, bsr = longBsr tables lcgBytes truncated ∧ 3 ≤ room ∧
      (truncated = false → numLcgIdWithData lcgBytes + 3 ≤ room) := by
  have hshort : ∀ {truncated}, shortBsr tables lcgBytes truncated lcg = .ok bsr →
      ∃ g : Fin 8, lcg = some g ∧ bsr = .short truncated g
        (nrLocateBsrIndexByBufferSize tables.getShortBsrValue 32 (lcgBytes g) % 32) := by
    intro truncated hs
    cases lcg with
    | none => cases hs
    | some g => exact ⟨g, rfl, (Except.ok.inj hs).symm⟩
  rw [chooseBsr] at h
  grind

theorem writeLcgs_sublist (room i : ℕ) (vs : List ℕ) :
    ((writeLcgs room i vs).map Prod.fst).Sublist (List.range' i vs.length) := by
  induction vs generalizing room i with
  | nil => exact .slnil
  | cons v vs ih =>
    grind [writeLcgs, List.length_cons, List.range'_succ]

/-- **The bitmap says which octets follow.** -/
theorem activeLcgs_bitmap {lcgs : List ℕ} (h : lcgs.Sublist (List.range 8)) :
    activeLcgs (UInt8.ofNat (bitmap lcgs)).toNat = lcgs := by
  have hall : ∀ l ∈ (List.range 8).sublists, activeLcgs (UInt8.ofNat (bitmap l)).toNat = l := by
    decide +kernel
  exact hall lcgs (List.mem_sublists.mpr h)

end OaiGnb.Mac.UeBsr
