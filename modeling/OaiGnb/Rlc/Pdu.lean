import OaiGnb.Lib.BitField
import OaiGnb.Lib.Run
import OaiGnb.Lib.SortedList

/-!
# RLC PDUs: reception records, the bit decoder and the bit encoder

Model of `nr_rlc_pdu.c`.  The decoder keeps its byte and bit cursor and the encoder its
partly filled byte, as in the source; `getBits_eq` and `putBits_bits` relate both to the
list of bits of the buffer, and every header round trip is proved on that list.
-/

namespace OaiGnb.Rlc

open BitField Run SortedList

/-- How a call can fail to return: the process exits (`exit(1)`, `AssertFatal`), a pointer
that is NULL or dangling is dereferenced, or a loop never ends. -/
inductive Fault where
  | exit
  | badPointer
  | diverges
  deriving Repr, DecidableEq

/-- `NR_SDU_MAX`. -/
def nrSduMax : ℕ := 16000

/-! ### Reception of PDUs -/

/-- `nr_rlc_pdu_t`: the SDU bytes of a received PDU (`data`, freed once consumed) and their
place in the SDU.  The link to the next PDU is the list the PDU is stored in. -/
structure Pdu where
  sn : ℤ
  data : Option (List UInt8)
  size : ℕ
  so : ℕ
  isFirst : Bool
  isLast : Bool
  deriving Repr, DecidableEq

/-- `nr_rlc_new_pdu`. -/
def nrRlcNewPdu (sn : ℤ) (so : ℕ) (isFirst isLast : Bool) (data : List UInt8) : Pdu :=
  ⟨sn, some data, data.length, so, isFirst, isLast⟩

/-- `nr_rlc_pdu_list_add`: order by `sn`, then by `so`. -/
def nrRlcPduListAdd (snCompare : ℤ → ℤ → ℤ) (list : List Pdu) (pdu : Pdu) : List Pdu :=
  insertBefore
    (fun cur => decide (snCompare cur.sn pdu.sn > 0 ∨ (cur.sn = pdu.sn ∧ cur.so > pdu.so)))
    pdu list

/-! ### The decoder -/

/-- `nr_rlc_pdu_decoder_t`.  The `error` flag is the `none` of the reading functions: every
caller gives up at the first error. -/
structure Decoder where
  byte : ℕ
  bit : ℕ
  buffer : List UInt8
  deriving Repr, DecidableEq

/-- `nr_rlc_pdu_decoder_init`. -/
def Decoder.init (buffer : List UInt8) : Decoder := ⟨0, 0, buffer⟩

/-- Step to the next bit. -/
def Decoder.advance (d : Decoder) : Decoder :=
  if d.bit + 1 = 8 then { d with bit := 0, byte := d.byte + 1 } else { d with bit := d.bit + 1 }

/-- `get_bit`. -/
def getBit (d : Decoder) : Option (Bool × Decoder) :=
  match d.buffer[d.byte]? with
  | none => none
  | some b => some (b.toNat.testBit (7 - d.bit), d.advance)

/-- The loop of `nr_rlc_pdu_decoder_get_bits`, with the value read so far. -/
def getBitsLoop : ℕ → ℕ → Decoder → Option (ℕ × Decoder)
  | 0, ret, d => some (ret, d)
  | n + 1, ret, d => do
      let (b, d) ← getBit d
      getBitsLoop n (ret * 2 + b.toNat) d

/-- `nr_rlc_pdu_decoder_get_bits`. -/
def getBits (d : Decoder) (count : ℕ) : Option (ℕ × Decoder) := getBitsLoop count 0 d

/-- The cursor, in bits. -/
def Decoder.pos (d : Decoder) : ℕ := 8 * d.byte + d.bit

/-- The bits not read yet. -/
def Decoder.rest (d : Decoder) : List Bool := (bytesBits d.buffer).drop d.pos

@[simp] theorem Decoder.init_rest (buffer : List UInt8) :
    (Decoder.init buffer).rest = bytesBits buffer := rfl

@[simp] theorem Decoder.init_pos (buffer : List UInt8) : (Decoder.init buffer).pos = 0 := rfl

theorem Decoder.advance_pos (d : Decoder) : d.advance.pos = d.pos + 1 := by
  grind [Decoder.advance, Decoder.pos]

@[simp] theorem Decoder.advance_buffer (d : Decoder) : d.advance.buffer = d.buffer := by
  unfold Decoder.advance
  split <;> rfl

theorem Decoder.advance_bit (d : Decoder) (h : d.bit < 8) : d.advance.bit < 8 := by
  grind [Decoder.advance]

/-- A decoder positioned after `n` more bits of the same buffer. -/
structure Decoder.Skips (d d' : Decoder) (n : ℕ) : Prop where
  buffer : d'.buffer = d.buffer
  pos : d'.pos = d.pos + n
  bit : d'.bit < 8

variable {d d' : Decoder} {n v : ℕ}

theorem Decoder.Skips.rest (h : d.Skips d' n) :
    d'.rest = d.rest.drop n := by
  rw [Decoder.rest, Decoder.rest, h.buffer, h.pos, List.drop_drop]

theorem Decoder.Skips.trans {d'' : Decoder} {m : ℕ} (h : d.Skips d' m)
    (h' : d'.Skips d'' n) : d.Skips d'' (m + n) :=
  ⟨h'.buffer.trans h.buffer, by rw [h'.pos, h.pos, Nat.add_assoc], h'.bit⟩

theorem Decoder.Skips.byte (h : d.Skips d' n) :
    d'.byte = (d.pos + n) / 8 := by
  have hb := h.bit
  have hp := h.pos
  rw [Decoder.pos] at hp
  omega

theorem Decoder.advance_skips (d : Decoder) (h : d.bit < 8) : d.Skips d.advance 1 :=
  ⟨d.advance_buffer, d.advance_pos, d.advance_bit h⟩

theorem getBit_eq (d : Decoder) (h : d.bit < 8) :
    getBit d = d.rest.head?.map (fun b => (b, d.advance)) := by
  have hget : d.rest.head? = (d.buffer[d.byte]?).map (fun b => b.toNat.testBit (7 - d.bit)) := by
    rw [Decoder.rest, List.head?_drop, bytesBits_getElem?, Decoder.pos]
    rw [show (8 * d.byte + d.bit) / 8 = d.byte by omega,
      show (8 * d.byte + d.bit) % 8 = d.bit by omega]
  grind [getBit]

/-- **The decoder reads fields.**  Reading `n` bits fails when fewer are left, and otherwise
returns the number the next `n` bits denote, above the value accumulated so far. -/
theorem getBitsLoop_eq (n : ℕ) (ret : ℕ) (d : Decoder) (h : d.bit < 8) :
    (d.rest.length < n ∧ getBitsLoop n ret d = none) ∨
      (n ≤ d.rest.length ∧ ∃ d', d.Skips d' n ∧
        getBitsLoop n ret d = some (ret * 2 ^ n + bitsVal (d.rest.take n), d')) := by
  induction n generalizing ret d with
  | zero =>
    refine Or.inr ⟨Nat.zero_le _, d, ⟨rfl, rfl, h⟩, ?_⟩
    simp [getBitsLoop, bitsVal]
  | succ n ih =>
    rw [getBitsLoop, getBit_eq d h]
    cases hr : d.rest with
    | nil => exact Or.inl ⟨by simp, rfl⟩
    | cons b bs =>
      have hsk := d.advance_skips h
      have hrest : d.advance.rest = bs := by rw [hsk.rest, hr]; rfl
      simp only [List.head?_cons, Option.map_some, Option.bind_eq_bind, Option.bind_some]
      rcases ih (ret * 2 + b.toNat) d.advance (d.advance_bit h) with ⟨hlt, hnone⟩ | ⟨hle, d', hd',
        hsome⟩
      · simp_all
      · rw [hrest] at hle hsome
        refine Or.inr ⟨by simpa using hle, d', ?_, ?_⟩
        · rw [Nat.add_comm n 1]
          exact hsk.trans hd'
        · rw [hsome, List.take_succ_cons, bitsVal, List.length_take, Nat.min_eq_left hle, pow_succ]
          ring_nf

theorem getBits_none (hb : d.bit < 8) (h : d.rest.length < n) :
    getBits d n = none := by
  rcases getBitsLoop_eq n 0 d hb with ⟨_, h'⟩ | ⟨h', _⟩
  · exact h'
  · omega

theorem getBits_some (hb : d.bit < 8) (h : n ≤ d.rest.length) :
    ∃ d', d.Skips d' n ∧ getBits d n = some (bitsVal (d.rest.take n), d') := by
  rcases getBitsLoop_eq n 0 d hb with ⟨h', _⟩ | ⟨_, d', hs, h'⟩
  · omega
  · refine ⟨d', hs, ?_⟩
    rw [getBits, h', Nat.zero_mul, Nat.zero_add]

theorem getBits_spec (hb : d.bit < 8) (h : getBits d n = some (v, d')) :
    d.Skips d' n ∧ n ≤ d.rest.length ∧ v = bitsVal (d.rest.take n) := by
  by_cases hlen : n ≤ d.rest.length
  · grind [getBits_some]
  · grind [getBits_none]

theorem getBits_lt (hb : d.bit < 8) (h : getBits d n = some (v, d')) : v < 2 ^ n := by
  obtain ⟨_, hlen, rfl⟩ := getBits_spec hb h
  grind [bitsVal_lt, List.length_take, Nat.min_eq_left]

theorem getBits_field {tail : List Bool} (hb : d.bit < 8)
    (h : d.rest = fieldBits n v ++ tail) (hv : v < 2 ^ n) :
    ∃ d', d.Skips d' n ∧ d'.rest = tail ∧ getBits d n = some (v, d') := by
  obtain ⟨d', hs, hg⟩ := getBits_some (d := d) (n := n) hb (by rw [h]; simp)
  refine ⟨d', hs, ?_, ?_⟩
  · rw [hs.rest, h, List.drop_left' (fieldBits_length n v)]
  · rw [hg, h, List.take_left' (fieldBits_length n v), bitsVal_fieldBits_of_lt hv]

/-! ### The encoder -/

/-- `nr_rlc_pdu_encoder_t`.  `buffer` holds the bytes completed so far and `cur` the byte being
filled.  In the source that byte starts with whatever the caller's buffer held; eight shifts
later nothing of it is left, and every header ends on a byte boundary. -/
structure Encoder where
  buffer : List UInt8
  cur : UInt8
  bit : ℕ
  size : ℕ
  deriving Repr, DecidableEq

/-- `nr_rlc_pdu_encoder_init`. -/
def Encoder.init (size : ℕ) : Encoder := ⟨[], 0, 0, size⟩

/-- The `byte` field of the source. -/
def Encoder.byte (e : Encoder) : ℕ := e.buffer.length

/-- `put_bit`. -/
def putBit (e : Encoder) (bit : Bool) : Except Fault Encoder :=
  if e.byte = e.size then .error .exit
  else
    let cur := e.cur <<< 1 ||| (if bit then 1 else 0)
    if e.bit + 1 = 8 then .ok { e with buffer := e.buffer ++ [cur], cur := 0, bit := 0 }
    else .ok { e with cur := cur, bit := e.bit + 1 }

/-- `nr_rlc_pdu_encoder_put_bits`: from bit `count - 1` of the value down to bit 0. -/
def putBits (e : Encoder) (value : ℕ) : ℕ → Except Fault Encoder
  | 0 => .ok e
  | count + 1 => do
      let e ← putBit e (value.testBit count)
      putBits e value count

/-- The bits written so far. -/
def Encoder.bits (e : Encoder) : List Bool := bytesBits e.buffer ++ fieldBits e.bit e.cur.toNat

/-- The byte being filled holds only the bits put into it. -/
structure Encoder.WF (e : Encoder) : Prop where
  bit : e.bit < 8
  cur : e.cur.toNat < 2 ^ e.bit

variable {e : Encoder} {bs : List Bool} {f : Encoder → Except Fault Encoder}

theorem Encoder.init_wf (size : ℕ) : (Encoder.init size).WF :=
  ⟨Nat.zero_lt_succ 7, Nat.zero_lt_one⟩

@[simp] theorem Encoder.init_bits (size : ℕ) : (Encoder.init size).bits = [] := rfl

@[simp] theorem Encoder.init_size (size : ℕ) : (Encoder.init size).size = size := rfl

theorem Encoder.WF.bits_length (_ : e.WF) :
    e.bits.length = 8 * e.byte + e.bit := by
  rw [Encoder.bits, List.length_append, bytesBits_length, fieldBits_length, Encoder.byte]

theorem shiftIn_bits (cur : UInt8) (n : ℕ) (b : Bool) (hn : n < 8) (h : cur.toNat < 2 ^ n) :
    (cur <<< 1 ||| (if b then 1 else 0)).toNat = cur.toNat * 2 + b.toNat ∧
    fieldBits (n + 1) (cur.toNat * 2 + b.toNat) = fieldBits n cur.toNat ++ [b] := by
  have hlt : cur.toNat * 2 < 256 := by
    have : 2 ^ n ≤ 2 ^ 7 := Nat.pow_le_pow_right (by decide) (by omega)
    omega
  constructor
  · have hs : (cur <<< 1).toNat = cur.toNat * 2 := by
      rw [UInt8.toNat_shiftLeft]
      simp only [UInt8.reduceToNat, Nat.reduceMod, Nat.shiftLeft_eq, Nat.pow_one]
      exact Nat.mod_eq_of_lt hlt
    rw [UInt8.toNat_or, hs]
    cases b with
    | false => simp
    | true =>
      simp only [if_true, UInt8.toNat_one, Bool.toNat_true]
      rw [Nat.mul_comm, ← Nat.two_pow_add_eq_or_of_lt (i := 1) (b := 1) (by decide)]
  · apply bitsVal_inj
    · simp
    · rw [bitsVal_concat, bitsVal_fieldBits_of_lt h, bitsVal_fieldBits_of_lt]
      cases b <;> simp <;> omega

theorem putBit_spec (hw : e.WF) (b : Bool) (h : e.byte < e.size) :
    ∃ e', putBit e b = .ok e' ∧ e'.WF ∧ e'.bits = e.bits ++ [b] ∧ e'.size = e.size := by
  obtain ⟨hv, hf⟩ := shiftIn_bits e.cur e.bit b hw.bit hw.cur
  unfold putBit
  rw [if_neg (by omega)]
  by_cases h8 : e.bit + 1 = 8
  · simp only [h8, if_true]
    refine ⟨_, rfl, ⟨by simp, by simp⟩, ?_, rfl⟩
    simp only [Encoder.bits, bytesBits_append, bytesBits_cons, bytesBits_nil, List.append_nil,
      List.append_assoc, fieldBits]
    rw [← hf, ← hv, h8]
    rfl
  · simp only [h8, if_false]
    refine ⟨_, rfl, ⟨by simp only; have := hw.bit; omega, ?_⟩, ?_, rfl⟩
    · simp only [hv, pow_succ]
      have := hw.cur
      cases b <;> simp <;> omega
    · simp only [Encoder.bits, hv, hf, List.append_assoc]

/-- **The encoder writes fields.**  While the buffer has room, putting `n` bits of a value
appends the corresponding field. -/
theorem putBits_bits (value n : ℕ) : ∀ {e : Encoder}, e.WF → e.bits.length + n ≤ 8 * e.size →
    ∃ e', putBits e value n = .ok e' ∧ e'.WF ∧ e'.bits = e.bits ++ fieldBits n value ∧
      e'.size = e.size := by
  induction n with
  | zero => intro e hw _; exact ⟨e, rfl, hw, by simp [fieldBits], rfl⟩
  | succ n ih =>
    intro e hw h
    have hlen := hw.bits_length
    obtain ⟨e₁, h1, hw1, hb1, hs1⟩ := putBit_spec hw (value.testBit n) (by omega)
    grind [putBits, ok_bind, fieldBits, List.append_assoc]

theorem Encoder.bits_of_aligned (h : e.bit = 0) : e.bits = bytesBits e.buffer := by
  rw [Encoder.bits, h, fieldBits, List.append_nil]

theorem Encoder.WF.aligned (hw : e.WF) (h : e.bits.length = 8 * n) :
    e.bit = 0 ∧ e.byte = n := by
  have := hw.bits_length
  have := hw.bit
  omega

/-! ### Writing a sequence of fields -/

/-- `f` appends the bits `bs` whenever the buffer has room for them. -/
def Writes (bs : List Bool) (f : Encoder → Except Fault Encoder) : Prop :=
  ∀ e : Encoder, e.WF → e.bits.length + bs.length ≤ 8 * e.size →
    ∃ e', f e = .ok e' ∧ e'.WF ∧ e'.bits = e.bits ++ bs ∧ e'.size = e.size

theorem writes_putBits (value n : ℕ) :
    Writes (fieldBits n value) (fun e => putBits e value n) := by
  intro e hw hroom
  simp_all [fieldBits_length, putBits_bits]

theorem writes_nothing : Writes [] (fun e => .ok e) :=
  fun e hw _ => ⟨e, rfl, hw, (List.append_nil _).symm, rfl⟩

variable {bs' : List Bool} {g : Encoder → Except Fault Encoder}

theorem Writes.bind
    (hf : Writes bs f) (hg : Writes bs' g) : Writes (bs ++ bs') (fun e => f e >>= g) := by
  intro e hw hroom
  rw [List.length_append] at hroom
  obtain ⟨e₁, h1, hw1, hb1, hs1⟩ := hf e hw (by omega)
  obtain ⟨e₂, h2, hw2, hb2, hs2⟩ := hg e₁ hw1 (by rw [hb1, hs1, List.length_append]; omega)
  simp_all

theorem Writes.ite {p : Prop} [Decidable p] (hf : Writes bs f) (hg : Writes bs' g) :
    Writes (if p then bs else bs') (fun e => if p then f e else g e) := by
  by_cases hp : p
  · simpa only [if_pos hp] using hf
  · simpa only [if_neg hp] using hg

theorem Writes.header {size : ℕ} (hf : Writes bs f) (hlen : bs.length = 8 * n) (hroom : n ≤ size) :
    ∃ e, f (Encoder.init size) = .ok e ∧ bytesBits e.buffer = bs ∧ e.buffer.length = n := by
  obtain ⟨e, h, hw, hb, _⟩ := hf (Encoder.init size) (Encoder.init_wf size) (by simp; omega)
  rw [Encoder.init_bits, List.nil_append] at hb
  obtain ⟨hbit, hbyte⟩ := hw.aligned (n := n) (by rw [hb, hlen])
  exact ⟨e, h, by rw [← Encoder.bits_of_aligned hbit, hb], hbyte⟩

end OaiGnb.Rlc
