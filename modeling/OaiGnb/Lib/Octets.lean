import Mathlib.Data.List.Basic
import OaiGnb.Lib.Run

/-!
# Octets of a message

Reads of single octets, checked against the end of the message, and sequences of elements that tile
a part of it: each begins where the one before ends, and says by itself how long it is.

* `octetAt`: a read that fails behind the end.
* `Tiles`: the elements from one position to another, by where they begin.
-/

namespace OaiGnb.Octets

/-! ### Single octets -/

/-- An octet of a message; 0 behind its end. -/
def octet (msg : List UInt8) (i : ℕ) : ℕ := (msg.getD i 0).toNat

theorem octet_lt (msg : List UInt8) (i : ℕ) : octet msg i < 256 := UInt8.toNat_lt _

/-- Two octets, the first one more significant. -/
def octet16 (msg : List UInt8) (i : ℕ) : ℕ := octet msg i * 256 + octet msg (i + 1)

/-- Three octets, the first one most significant. -/
def octet24 (msg : List UInt8) (i : ℕ) : ℕ := octet16 msg i * 256 + octet msg (i + 2)

/-- Four octets, the first one most significant. -/
def octet32 (msg : List UInt8) (i : ℕ) : ℕ := octet24 msg i * 256 + octet msg (i + 3)

variable {ε : Type}

/-- `n` octets from `i` on are read as `value`; behind the end of the message that is a fault. -/
def readAt (fault : ε) (msg : List UInt8) (i n value : ℕ) : Except ε ℕ :=
  if i + n ≤ msg.length then .ok value else .error fault

/-- A read of one octet. -/
def octetAt (fault : ε) (msg : List UInt8) (i : ℕ) : Except ε ℕ :=
  readAt fault msg i 1 (octet msg i)

variable {msg : List UInt8} {i n : ℕ}

theorem readAt_ok (fault : ε) (h : i + n ≤ msg.length) (value : ℕ) :
    readAt fault msg i n value = .ok value := if_pos h

theorem readAt_fault (fault : ε) (h : ¬ i + n ≤ msg.length)
    (value : ℕ) : readAt fault msg i n value = .error fault := if_neg h

theorem readAt_returns {fault : ε} {value v : ℕ} :
    readAt fault msg i n value = .ok v ↔ i + n ≤ msg.length ∧ v = value := by
  by_cases h : i + n ≤ msg.length
  · rw [readAt_ok fault h, Except.ok.injEq]
    omega
  · grind [readAt_fault, absurd]

theorem octetAt_ok (fault : ε) (h : i < msg.length) :
    octetAt fault msg i = .ok (octet msg i) := readAt_ok fault h _

theorem octetAt_bind_returns {β : Type} {fault : ε} {f : ℕ → Except ε β} {b : β} :
    octetAt fault msg i >>= f = .ok b ↔ i < msg.length ∧ f (octet msg i) = .ok b := by
  rw [Run.bind_returns]
  constructor
  · intro ⟨v, hv, hf⟩
    obtain ⟨hi, rfl⟩ := readAt_returns.mp hv
    exact ⟨hi, hf⟩
  · grind [octetAt_ok]

/-! ### Elements that tile a part of a message -/

/-- The elements between two positions begin at the positions of the list; `size p` is the size of
an element that begins at `p`. -/
inductive Tiles (size : ℕ → ℕ) : ℕ → ℕ → List ℕ → Prop
  | nil (p : ℕ) : Tiles size p p []
  | cons {p stop : ℕ} {cuts : List ℕ} (hpos : 0 < size p)
      (hrest : Tiles size (p + size p) stop cuts) : Tiles size p stop (p :: cuts)

variable {size size' : ℕ → ℕ} {p stop : ℕ} {cuts : List ℕ}

/-- Where a tiling starts is seen from its cuts. -/
theorem Tiles.start_eq {p' : ℕ} (h : Tiles size p stop cuts) (h' : Tiles size' p' stop cuts) :
    p = p' := by
  cases h with
  | nil =>
    cases h'
    rfl
  | cons =>
    cases h'
    rfl

/-- Two tilings with the same cuts have the same sizes. -/
theorem Tiles.size_eq {p' : ℕ} (h : Tiles size p stop cuts) (h' : Tiles size' p' stop cuts) :
    ∀ q ∈ cuts, size q = size' q := by
  induction h generalizing p' with
  | nil => exact List.forall_mem_nil _
  | cons _ hrest ih =>
    cases h' with
    | cons _ hrest' =>
      have hstart := hrest.start_eq hrest'
      exact List.forall_mem_cons.mpr ⟨by omega, ih hrest'⟩

theorem Tiles.cons_inv {q : ℕ} (h : Tiles size p stop (q :: cuts)) :
    p = q ∧ Tiles size (q + size q) stop cuts := by
  cases h with
  | cons _ hrest => exact ⟨rfl, hrest⟩

theorem Tiles.le (h : Tiles size p stop cuts) : p ≤ stop := by
  induction h with
  | nil => exact le_rfl
  | cons hpos _ ih => omega

theorem Tiles.congr (h : Tiles size p stop cuts) (hs : ∀ q ∈ cuts, size' q = size q) :
    Tiles size' p stop cuts := by
  induction h with
  | nil p => exact .nil p
  | cons hpos hrest ih =>
    have hp := hs _ List.mem_cons_self
    refine .cons (by omega) ?_
    simp_all

end OaiGnb.Octets
