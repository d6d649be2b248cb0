import OaiGnb.Rlc.Am.Entity

/-!
# The format of data PDUs

`serialize_sdu` writes the header of a data PDU and the bytes of the segment behind it.

* `serializeSdu_eq`: the bits of a PDU that is written.
-/

namespace OaiGnb.Rlc.Am

open BitField

/-- The bits of the header of a data PDU: D/C, P, SI, reserved bits, SN and SO. -/
def headerBits (c : Config) (p isFirst isLast : Bool) (sn so : ℕ) : List Bool :=
  true :: p :: (!isFirst) :: (!isLast) ::
    ((if c.snFieldLength = 18 then fieldBits 2 0 else []) ++ (fieldBits c.snFieldLength sn ++
      (if !isFirst then fieldBits 16 so else [])))

theorem headerBits_length {c : Config} (hc : c.Ok) (p : Bool) (s : Segment) (sn : ℕ) :
    (headerBits c p s.isFirst s.isLast sn s.so).length = 8 * computePduHeaderSize c s := by
  unfold headerBits computePduHeaderSize
  rcases hc.length with h | h <;> cases s.isFirst <;> simp [h]

theorem serializeHeader_writes (c : Config) (heap : Heap) (s : Segment) (bufsize : ℕ) :
    ∃ f, Writes (headerBits c false s.isFirst s.isLast (snOf heap s).toNat s.so) f ∧
      serializeHeader c heap s bufsize = f (Encoder.init bufsize) := by
  have hr : Writes (if c.snFieldLength = 18 then fieldBits 2 0 else []) (putReserved c) :=
    (writes_putBits 0 2).ite writes_nothing
  have hso : Writes (if !s.isFirst then fieldBits 16 s.so else []) (putSo s) :=
    (writes_putBits s.so 16).ite writes_nothing
  have hbits : headerBits c false s.isFirst s.isLast (snOf heap s).toNat s.so =
      fieldBits 1 1 ++ (fieldBits 1 0 ++ (fieldBits 1 (1 - s.isFirst.toNat) ++
        (fieldBits 1 (1 - s.isLast.toNat) ++ ((if c.snFieldLength = 18 then fieldBits 2 0 else []) ++
          (fieldBits c.snFieldLength (snOf heap s).toNat ++
            (if !s.isFirst then fieldBits 16 s.so else [])))))) := by
    unfold headerBits
    cases s.isFirst <;> cases s.isLast <;> rfl
  rw [hbits]
  exact ⟨_, (writes_putBits 1 1).bind ((writes_putBits 0 1).bind ((writes_putBits _ 1).bind
    ((writes_putBits _ 1).bind (hr.bind ((writes_putBits _ _).bind hso))))), rfl⟩

theorem setPoll_bits {buffer : List UInt8} {b₀ : Bool} {bs : List Bool} (p : Bool)
    (h : bytesBits buffer = b₀ :: false :: bs) : bytesBits (setPoll p buffer) = b₀ :: p :: bs := by
  cases p with
  | false => exact h
  | true =>
    cases buffer with
    | nil => cases h
    | cons b buffer =>
      have hset : byteBits (b ||| 0x40) = (byteBits b).set 1 true :=
        byteBits_or_pow b 6 (by decide)
      show bytesBits ((b ||| 0x40) :: buffer) = _
      rw [bytesBits_cons, hset]
      rw [bytesBits_cons] at h
      have hb := byteBits_length b
      match hbb : byteBits b, hb with
      | x₀ :: x₁ :: xs, _ =>
        rw [hbb] at h
        simp only [List.cons_append, List.cons.injEq] at h
        obtain ⟨rfl, rfl, rfl⟩ := h
        rfl

/-- **What `serialize_sdu` writes**: the header, then the bytes of the segment. -/
theorem serializeSdu_eq {c : Config} (heap : Heap) {s : Segment} {size : ℕ} (hc : c.Ok)
    (hroom : computePduHeaderSize c s ≤ size) (p : Bool) :
    ∃ buf, serializeSdu c heap s size p = .ok buf ∧
      bytesBits buf = headerBits c p s.isFirst s.isLast (snOf heap s).toNat s.so ++
        bytesBits (((heap.sdu s.sdu).data.drop s.so).take s.size) := by
  obtain ⟨f, hf, hser⟩ := serializeHeader_writes c heap s size
  obtain ⟨e, he, hb, _⟩ := hf.header (headerBits_length hc false s _) hroom
  refine ⟨_, by rw [serializeSdu, hser, he]; rfl, ?_⟩
  apply setPoll_bits
  rw [bytesBits_append, hb]
  rfl

theorem serializeSdu_ne_nil {c : Config} {heap : Heap} {s : Segment} {size : ℕ} {p : Bool}
    (hc : c.Ok) (hroom : computePduHeaderSize c s ≤ size) :
    serializeSdu c heap s size p ≠ .ok [] := by
  intro h
  obtain ⟨buf, hbuf, hbits⟩ := serializeSdu_eq heap hc hroom p
  obtain rfl := Except.ok.inj (h.symm.trans hbuf)
  cases hbits

end OaiGnb.Rlc.Am
