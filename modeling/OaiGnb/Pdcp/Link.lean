import OaiGnb.Pdcp.ReceiveList
import Mathlib.Data.Nat.Bitwise

/-!
# A PDCP link

A transmitting and a receiving PDCP entity with the same bearer and the same security, and between
them a channel that loses, duplicates and reorders PDUs.

* `rcvdCount_eq`: a COUNT within the window is reconstructed from its SN.
* `rcvdSn_header`: the header of both SN sizes carries the SN.
* `decipherPdu_encodePdu`, `decodePdu_encodePdu`: reception inverts transmission.
* `Link.step`: the calls of both users and of the channel.
* `reachable_inOrder`: what is delivered are the accepted SDUs, in strictly increasing order of
  their COUNTs.
-/

namespace OaiGnb.Pdcp

open Run SortedList

/-! ### COUNTs -/

variable {c : Config} {K : Crypto} {buffer : List UInt8}
  {rxDeliv count : ℕ}

/-- **COUNT reconstruction.**  The receiver finds the COUNT of an SN when it lies in the window
around `rx_deliv`. -/
theorem rcvdCount_eq (hsn : 0 < c.snSize) (hcount : count < 2 ^ 32)
    (hlow : (rxDeliv : ℤ) - c.windowSize ≤ count) (hhigh : (count : ℤ) < rxDeliv + c.windowSize) :
    rcvdCount c rxDeliv (count &&& c.snMax) = count := by
  obtain ⟨n, hn⟩ : ∃ n, c.snSize = n + 1 := ⟨c.snSize - 1, by omega⟩
  have hW : c.windowSize = ((2 ^ n : ℕ) : ℤ) := by
    rw [Config.windowSize, hn, Nat.add_sub_cancel, Int.natCast_pow]
    rfl
  have hpow : 2 ^ c.snSize = 2 * 2 ^ n := by rw [hn, Nat.pow_succ, Nat.mul_comm]
  have hmask : ∀ k, k &&& c.snMax = k % 2 ^ c.snSize := by
    intro k
    exact Nat.and_two_pow_sub_one_eq_mod k c.snSize
  simp only [rcvdCount, hmask, hW, Nat.shiftRight_eq_div_pow, hpow] at hlow hhigh ⊢
  generalize hM : 2 ^ n = M at *
  have hd := Nat.div_add_mod rxDeliv (2 * M)
  have hk := Nat.div_add_mod count (2 * M)
  have hdlt := Nat.mod_lt rxDeliv (show 0 < 2 * M by omega)
  have hklt := Nat.mod_lt count (show 0 < 2 * M by omega)
  have hkle := Nat.div_le_self count (2 * M)
  generalize hdh : rxDeliv / (2 * M) = dh at *
  generalize hkh : count / (2 * M) = kh at *
  generalize hks : count % (2 * M) = ks at *
  have hcases : kh = dh ∨ kh = dh + 1 ∨ dh = kh + 1 := by
    by_contra hne
    rcases Nat.lt_or_ge kh dh with h | h
    · have := Nat.mul_le_mul_left (2 * M) (show kh + 2 ≤ dh by omega)
      grind
    · have := Nat.mul_le_mul_left (2 * M) (show dh + 2 ≤ kh by omega)
      grind
  have hjoin : ((kh <<< c.snSize) % 2 ^ 32) ||| ks = count := by
    rw [Nat.mod_eq_of_lt (by rw [Nat.shiftLeft_eq, hpow, Nat.mul_comm]; omega),
      ← Nat.shiftLeft_add_eq_or_of_lt (by rw [hpow]; exact hklt), Nat.shiftLeft_eq, hpow,
      Nat.mul_comm]
    exact hk
  rcases hcases with h | h | h
  · grind
  · rw [h, Nat.mul_add] at hk
    grind
  · rw [h, Nat.mul_add] at hd
    grind

/-! ### PDUs -/

theorem dcByte_twelve : ∀ x < 16, ∀ dc, dc = 0 ∨ dc = 0x80 →
    (UInt8.ofNat (dc ||| (x &&& 0xf))).toNat &&& 0xf = x := by
  intro x hx dc hdc
  rcases hdc with rfl | rfl
  · revert x
    decide
  · revert x
    decide

theorem dcByte_eighteen : ∀ x < 4, ∀ dc, dc = 0 ∨ dc = 0x80 →
    (UInt8.ofNat (dc ||| (x &&& 0x3))).toNat &&& 0x3 = x := by
  intro x hx dc hdc
  rcases hdc with rfl | rfl
  · revert x
    decide
  · revert x
    decide

theorem lowByte_toNat (x : ℕ) : (UInt8.ofNat (x &&& 0xff)).toNat = x % 256 := by
  rw [show (0xff : ℕ) = 2 ^ 8 - 1 from rfl, Nat.and_two_pow_sub_one_eq_mod, UInt8.toNat_ofNat']
  exact Nat.mod_mod x 256

theorem header_length (count : ℕ) : (header c count).length = headerSize c := by
  grind [header, headerSize]

theorem setDc_header (c : Config) (count : ℕ) (rest : List UInt8) :
    setDc c.type (header c count ++ rest) = header c count ++ rest := by
  have hbit : ∀ x < 16, UInt8.ofNat (0x80 ||| x) &&& 0x80 ≠ 0 := by decide
  have hfour : ∀ y : ℕ, y &&& 0xf < 16 := fun y => Nat.and_lt_two_pow y (by decide : 0xf < 2 ^ 4)
  have htwo : ∀ y : ℕ, y &&& 0x3 < 16 :=
    fun y => (Nat.and_lt_two_pow y (by decide : 0x3 < 2 ^ 2)).trans (by decide)
  have hdc : c.type ≠ .srb → c.type = .drbAm ∨ c.type = .drbUm := by
    intro h
    cases ht : c.type with
    | drbAm => exact Or.inl rfl
    | drbUm => exact Or.inr rfl
    | srb => exact absurd ht h
  unfold header
  dsimp only
  split
  · refine if_neg ?_
    grind
  · refine if_neg ?_
    grind

/-- **The header carries the SN**, for both SN sizes. -/
theorem rcvdSn_header (hsize : c.snSize = 12 ∨ c.snSize = 18) (count : ℕ)
    (rest : List UInt8) : rcvdSn c (header c count ++ rest) = count &&& c.snMax := by
  have hlt : count &&& c.snMax < 2 ^ c.snSize :=
    Nat.and_lt_two_pow count (by exact Nat.sub_lt (Nat.two_pow_pos _) Nat.one_pos)
  unfold header rcvdSn
  generalize count &&& c.snMax = sn at hlt
  have hdc : (if c.type = .drbAm ∨ c.type = .drbUm then 0x80 else 0) = 0 ∨
      (if c.type = .drbAm ∨ c.type = .drbUm then 0x80 else 0) = 0x80 := by
    split
    · exact Or.inr rfl
    · exact Or.inl rfl
  rcases hsize with hsize | hsize
  · rw [hsize] at hlt ⊢
    show ((UInt8.ofNat _).toNat &&& 0xf) <<< 8 ||| (UInt8.ofNat _).toNat = sn
    rw [dcByte_twelve _ (by omega) _ hdc, lowByte_toNat,
      ← Nat.shiftLeft_add_eq_or_of_lt (Nat.mod_lt _ (by decide)), Nat.shiftLeft_eq,
      Nat.shiftRight_eq_div_pow]
    omega
  · rw [hsize] at hlt ⊢
    show ((UInt8.ofNat _).toNat &&& 0x3) <<< 16 ||| (UInt8.ofNat _).toNat <<< 8 |||
      (UInt8.ofNat _).toNat = sn
    rw [dcByte_eighteen _ (by omega) _ hdc, lowByte_toNat, lowByte_toNat, Nat.or_assoc,
      ← Nat.shiftLeft_add_eq_or_of_lt (show sn % 256 < 2 ^ 8 from Nat.mod_lt _ (by decide)),
      ← Nat.shiftLeft_add_eq_or_of_lt (by omega),
      Nat.shiftLeft_eq, Nat.shiftLeft_eq, Nat.shiftRight_eq_div_pow, Nat.shiftRight_eq_div_pow]
    omega

theorem cipher_cipher (K : Crypto) (ctx : Context) (bearer : ℤ) (count direction : ℕ)
    (buffer : List UInt8) :
    cipher K ctx bearer count direction (cipher K ctx bearer count direction buffer) = buffer := by
  grind [List.ext_getElem, cipher, List.length_mapIdx, UInt8.xor_assoc,
    UInt8.xor_self, UInt8.xor_zero]

/-- What the two ends of a bearer have in common. -/
structure Matched (tx rx : Config) : Prop where
  type : tx.type = rx.type
  snSize : tx.snSize = rx.snSize
  rbId : tx.rbId = rx.rbId
  isGnb : tx.isGnb = !rx.isGnb
  sdap : tx.hasSdapTx = rx.hasSdapRx
  size : rx.snSize = 12 ∨ rx.snSize = 18

section Matched

variable {tx rx : Config} (hm : Matched tx rx)
include hm

theorem Matched.headerSize_eq : headerSize tx = headerSize rx := by
  rw [headerSize, headerSize, hm.snSize]

theorem Matched.integritySize_eq (s : Security) : integritySize tx s = integritySize rx s := by
  rw [integritySize, integritySize, hm.type]

theorem Matched.header_eq (count : ℕ) : header tx count = header rx count := by
  simp only [header, Config.snMax, hm.snSize, hm.type]

theorem Matched.txDirection_eq : txDirection tx = rxDirection rx := by
  rw [txDirection, rxDirection, hm.isGnb]
  cases rx.isGnb <;> rfl

end Matched

theorem macI_length (K : Crypto) (c : Config) (s : Security) (count : ℕ) (msg : List UInt8) :
    (macI K c s count msg).length = integritySize c s := by
  unfold macI
  split
  next h =>
    rw [integrity, K.mac_length, integritySize, h]
    rfl
  · exact List.length_replicate

/-- A PDU before ciphering. -/
def plainPdu (K : Crypto) (c : Config) (s : Security) (count : ℕ) (buffer : List UInt8) :
    List UInt8 :=
  header c count ++ buffer ++ macI K c s count (header c count ++ buffer)

theorem plainPdu_length (K : Crypto) (c : Config) (s : Security) (count : ℕ)
    (buffer : List UInt8) : (plainPdu K c s count buffer).length =
      headerSize c + buffer.length + integritySize c s := by
  rw [plainPdu, List.length_append, List.length_append, header_length, macI_length]

theorem encodePdu_length (K : Crypto) (c : Config) (s : Security) (count : ℕ)
    (buffer : List UInt8) : (encodePdu K c s count buffer).length =
      headerSize c + buffer.length + integritySize c s := by
  rw [← plainPdu_length K c s count buffer]
  show (if s.hasCiphering then (plainPdu K c s count buffer).take _ ++ cipher K _ _ _ _
    ((plainPdu K c s count buffer).drop _) else plainPdu K c s count buffer).length = _
  grind [cipher, List.length_append, List.length_take, List.length_mapIdx, List.length_drop]

theorem encodePdu_header (K : Crypto) (c : Config) (s : Security) (count : ℕ)
    (buffer : List UInt8) : ∃ rest, encodePdu K c s count buffer = header c count ++ rest := by
  show ∃ rest, (if s.hasCiphering then (plainPdu K c s count buffer).take _ ++ cipher K _ _ _ _
    ((plainPdu K c s count buffer).drop _) else plainPdu K c s count buffer) = _
  split
  · rw [plainPdu, List.append_assoc, ← header_length count, List.take_length_add_append,
      List.append_assoc]
    exact ⟨_, rfl⟩
  · rw [plainPdu, List.append_assoc]
    exact ⟨_, rfl⟩

variable {tx rx : Config}

theorem decipherPdu_encodePdu (hm : Matched tx rx) (K : Crypto) (s : Security)
    (count : ℕ) (hlen : rx.hasSdapRx.toNat ≤ buffer.length) :
    decipherPdu K rx s count (encodePdu K tx s count buffer) = plainPdu K tx s count buffer := by
  have hclear : rxClear rx = headerSize tx + tx.hasSdapTx.toNat := by
    rw [rxClear, hm.headerSize_eq, hm.sdap]
  have htake : ((plainPdu K tx s count buffer).take (rxClear rx)).length = rxClear rx := by
    rw [List.length_take, plainPdu_length, hclear, hm.sdap]
    omega
  unfold decipherPdu
  by_cases hc : s.hasCiphering = true
  · have henc : encodePdu K tx s count buffer = (plainPdu K tx s count buffer).take (rxClear rx) ++
        cipher K s.securityContext rx.rbId count (rxDirection rx)
          ((plainPdu K tx s count buffer).drop (rxClear rx)) := by
      rw [hclear, ← hm.txDirection_eq, ← hm.rbId]
      exact if_pos hc
    rw [if_pos hc, henc, List.take_left' htake, List.drop_left' htake, cipher_cipher,
      List.take_append_drop]
  · rw [if_neg hc]
    exact if_neg hc

/-- **Reception inverts transmission.**  The PDU of an SDU is accepted, with the SDU's bytes and
COUNT. -/
theorem decodePdu_encodePdu (hm : Matched tx rx) (K : Crypto) (s : Security)
    (hlen : rx.hasSdapRx.toNat + 1 ≤ buffer.length)
    (hcount : count < 2 ^ 32) (hlow : (rxDeliv : ℤ) - rx.windowSize ≤ count)
    (hhigh : (count : ℤ) < rxDeliv + rx.windowSize) :
    ∃ d, decodePdu K rx s rxDeliv (encodePdu K tx s count buffer) = some ⟨count, buffer, d⟩ := by
  obtain ⟨rest, hrest⟩ := encodePdu_header K tx s count buffer
  have hsize := encodePdu_length K tx s count buffer
  have hsetDc : setDc rx.type (encodePdu K tx s count buffer) = encodePdu K tx s count buffer := by
    rw [hrest, hm.header_eq]
    exact setDc_header rx count rest
  have hsn : rcvdSn rx (encodePdu K tx s count buffer) = count &&& rx.snMax := by
    rw [hrest, hm.header_eq]
    exact rcvdSn_header hm.size count rest
  have hcnt := rcvdCount_eq (by rcases hm.size with h | h <;> omega) hcount hlow hhigh
  have hdec := decipherPdu_encodePdu hm K s count (show rx.hasSdapRx.toNat ≤ buffer.length by omega)
  have hplain := plainPdu_length K tx s count buffer
  rw [hm.headerSize_eq, hm.integritySize_eq] at hsize hplain
  have hmsg : (header tx count ++ buffer).length = headerSize rx + buffer.length := by
    rw [List.length_append, header_length, hm.headerSize_eq]
  have hn : (plainPdu K tx s count buffer).length - integritySize rx s =
      (header tx count ++ buffer).length := by
    omega
  have hok : integrityOk K rx s count (plainPdu K tx s count buffer) = true := by
    simp only [integrityOk, hn]
    rw [plainPdu, List.take_left, List.drop_left, macI, hm.txDirection_eq, hm.rbId]
    cases hi : s.hasIntegrity with
    | false => rfl
    | true =>
      simp
  unfold decodePdu
  simp only [hsetDc, hsn, hcnt, hdec, hok, hsize]
  rw [if_neg (by omega), if_neg (by omega), if_pos trivial]
  refine ⟨integrityData rx s count (encodePdu K tx s count buffer), ?_⟩
  grind [plainPdu, List.append_assoc, List.drop_left', header_length, List.take_left']

/-! ### The system -/

/-- A processed SDU: its COUNT, its bytes and the PDU that was sent. -/
structure Sent where
  count : ℕ
  sdu : List UInt8
  pdu : List UInt8
  deriving Repr, DecidableEq

/-- The two entities, and the record of the run: what has been sent, and the SDUs passed to
`deliver_sdu`. -/
structure Link where
  tx : Entity
  rx : Entity
  sent : List Sent
  delivered : List Sdu
  deriving Repr, DecidableEq

/-- Two entities as `new_nr_pdcp_entity` leaves them, with equal security settings. -/
def Link.new (tx rx : Config) (s : Security) : Link := ⟨freshEntity tx s, freshEntity rx s, [], []⟩

/-- What can happen: calls of the transmitting entity, the arrival of any PDU that has been sent,
as often as the channel likes, and calls of `set_time`. -/
inductive LinkInput where
  | processSdu (buffer : List UInt8) (pduMaxSize : ℕ)
  | arrive (n : ℕ)
  | setTime (now : UInt64)
  | setTimeTx (now : UInt64)
  deriving Repr, DecidableEq

/-- One event of the link. -/
def Link.step (K : Crypto) (l : Link) : LinkInput → Except Fault (Link × Unit)
  | .processSdu buffer pduMaxSize => do
      let (tx, o) ← Pdcp.step K l.tx (.processSdu buffer pduMaxSize)
      return ({ l with
        tx := tx
        sent := l.sent ++ o.pdu.toList.map fun pdu => ⟨l.tx.txNext, buffer, pdu⟩ }, ())
  | .arrive n =>
      match l.sent[n]? with
      | none => return (l, ())
      | some m => do
          let (rx, o) ← Pdcp.step K l.rx (.recvPdu m.pdu)
          return ({ l with rx := rx, delivered := l.delivered ++ o.delivered }, ())
  | .setTime now => do
      let (rx, o) ← Pdcp.step K l.rx (.setTime now)
      return ({ l with rx := rx, delivered := l.delivered ++ o.delivered }, ())
  | .setTimeTx now => do
      let (tx, _) ← Pdcp.step K l.tx (.setTime now)
      return ({ l with tx := tx }, ())

/-- SDUs have a byte behind their SDAP header, COUNTs are below `2 ^ 32 - 1`, and an arriving COUNT
lies in the window around `rx_deliv`. -/
def LinkScope (l : Link) : LinkInput → Prop
  | .processSdu buffer _ => l.tx.cfg.hasSdapTx.toNat + 1 ≤ buffer.length ∧ l.tx.txNext < 2 ^ 32 - 1
  | .arrive n => ∀ m ∈ l.sent[n]?,
      (l.rx.rx.rxDeliv : ℤ) - l.rx.cfg.windowSize ≤ m.count ∧
        (m.count : ℤ) < l.rx.rx.rxDeliv + l.rx.cfg.windowSize
  | .setTime _ => True
  | .setTimeTx _ => True

instance (l : Link) (i : LinkInput) : Decidable (LinkScope l i) := by
  cases i <;> (unfold LinkScope; infer_instance)

/-- The SDU is one that was sent, with its COUNT. -/
def Original (sent : List Sent) (s : Sdu) : Prop :=
  ∃ m, sent[s.count]? = some m ∧ m.count = s.count ∧ m.sdu = s.buffer

theorem Original.append {sent : List Sent} {s : Sdu} (h : Original sent s) (more : List Sent) :
    Original (sent ++ more) s := by
  obtain ⟨m, hm, h1, h2⟩ := h
  refine ⟨m, ?_, h1, h2⟩
  grind

variable {l : Link}

/-- **In-order delivery.**  Every delivered SDU is one that was sent, byte for byte, and their
COUNTs are strictly increasing. -/
structure InOrder (l : Link) : Prop where
  original : ∀ s ∈ l.delivered, Original l.sent s
  increasing : Sorted l.delivered

/-! ### The invariant -/

/-- What every event of the link keeps. -/
structure LinkInv (K : Crypto) (tx rx : Config) (s : Security) (l : Link) : Prop where
  txCfg : l.tx.cfg = tx
  txSec : l.tx.sec = s
  txOpen : l.tx.entitySuspended = false
  rxCfg : l.rx.cfg = rx
  rxSec : l.rx.sec = s
  rxOpen : l.rx.entitySuspended = false
  next : l.tx.txNext = l.sent.length
  bound : l.sent.length ≤ 2 ^ 32 - 1
  encoded : ∀ n m, l.sent[n]? = some m → m.count = n ∧ tx.hasSdapTx.toNat + 1 ≤ m.sdu.length ∧
    m.pdu = encodePdu K tx s n m.sdu
  core : ListCore l.rx.rx
  timer : TimerOk l.rx.rx
  stored : ∀ s ∈ l.rx.rx.rxList, Original l.sent s
  inOrder : InOrder l
  below : ∀ s ∈ l.delivered, s.count < l.rx.rx.rxDeliv

theorem linkInv_new (K : Crypto) (tx rx : Config) (s : Security) :
    LinkInv K tx rx s (Link.new tx rx s) where
  txCfg := rfl
  txSec := rfl
  txOpen := rfl
  rxCfg := rfl
  rxSec := rfl
  rxOpen := rfl
  next := rfl
  bound := Nat.zero_le _
  encoded := fun n m h => absurd h (by exact fun h => (by cases h))
  core := (@rxInv_initial ⟨0, 0, 0, 0, [], 0⟩ rfl rfl).core
  timer := (@rxInv_initial ⟨0, 0, 0, 0, [], 0⟩ rfl rfl).timer
  stored := List.forall_mem_nil _
  inOrder := ⟨List.forall_mem_nil _, List.Pairwise.nil⟩
  below := List.forall_mem_nil _

variable {s : Security}

/-- **Delivery keeps the order.**  A call of the receiver that delivers the front `out` of a sorted
list, which lies at or behind `rx_deliv`, and moves `rx_deliv` behind it. -/
theorem LinkInv.delivers
    (h : LinkInv K tx rx s l) {rx' : RxState} {list out : List Sdu} {now : UInt64}
    (hcore : ListCore rx') (htimer : TimerOk rx') (hsorted : Sorted list)
    (hlist : list = out ++ rx'.rxList) (hfrom : ∀ s ∈ list, l.rx.rx.rxDeliv ≤ s.count)
    (horig : ∀ s ∈ list, Original l.sent s) (hle : l.rx.rx.rxDeliv ≤ rx'.rxDeliv)
    (hout : ∀ s ∈ out, s.count < rx'.rxDeliv) :
    LinkInv K tx rx s { l with
        rx := { l.rx with rx := rx', tCurrent := now }
        delivered := l.delivered ++ out } where
  txCfg := h.txCfg
  txSec := h.txSec
  txOpen := h.txOpen
  rxCfg := h.rxCfg
  rxSec := h.rxSec
  rxOpen := h.rxOpen
  next := h.next
  bound := h.bound
  encoded := h.encoded
  core := hcore
  timer := htimer
  stored := fun s hs => horig s (by rw [hlist]; exact List.mem_append_right _ hs)
  inOrder := by
    have hmem : ∀ s ∈ out, s ∈ list := fun s hs => by rw [hlist]; exact List.mem_append_left _ hs
    refine ⟨?_, ?_⟩
    · intro s hs
      rcases List.mem_append.mp hs with hs | hs
      · exact h.inOrder.original s hs
      · exact horig s (hmem s hs)
    · refine List.pairwise_append.mpr ⟨h.inOrder.increasing, ?_, ?_⟩
      · rw [hlist] at hsorted
        exact (List.pairwise_append.mp hsorted).1
      · intro a ha b hb
        exact (h.below a ha).trans_le (hfrom b (hmem b hb))
  below := by
    intro s hs
    rcases List.mem_append.mp hs with hs | hs
    · exact (h.below s hs).trans_le hle
    · exact hout s hs

theorem recvPdu_eq {e : Entity} {sdu : Sdu} (hopen : e.entitySuspended = false)
    (hdec : decodePdu K e.cfg e.sec e.rx.rxDeliv buffer = some sdu) :
    recvPdu K e buffer =
      ({ e with rx := (receiveSdu e.tCurrent e.rx sdu (buffer.length - headerSize e.cfg)).1 },
        (receiveSdu e.tCurrent e.rx sdu (buffer.length - headerSize e.cfg)).2) := by
  unfold recvPdu
  simp_all

variable {m : Sent}

theorem LinkInv.decodes (hm : Matched tx rx) (h : LinkInv K tx rx s l) {n : ℕ}
    (hn : l.sent[n]? = some m) (hs : LinkScope l (.arrive n)) :
    ∃ d, decodePdu K l.rx.cfg l.rx.sec l.rx.rx.rxDeliv m.pdu = some ⟨n, m.sdu, d⟩ := by
  obtain ⟨hcount, hlen, hpdu⟩ := h.encoded n m hn
  obtain ⟨hlow, hhigh⟩ := hs m hn
  have hlt := (List.getElem?_eq_some_iff.mp hn).1
  have hb := h.bound
  rw [hcount] at hlow hhigh
  rw [hpdu, h.rxSec]
  rw [h.rxCfg] at hlow hhigh ⊢
  rw [hm.sdap] at hlen
  exact decodePdu_encodePdu hm K s hlen (by omega) hlow hhigh

theorem linkStep_inv (hm : Matched tx rx) {l' : Link}
    {i : LinkInput} {o : Unit} (h : LinkInv K tx rx s l) (hs : LinkScope l i)
    (hstep : Link.step K l i = .ok (l', o)) : LinkInv K tx rx s l' := by
  cases i with
  | processSdu buffer pduMaxSize =>
    obtain ⟨hlen, hnext⟩ := hs
    obtain ⟨⟨tx', o'⟩, h1, rfl, _⟩ := bind_pair_inj hstep
    obtain ⟨⟨e₁, pdu⟩, h3, rfl, rfl⟩ := bind_pair_inj h1
    unfold processSdu at h3
    split at h3
    · cases h3
    · rw [if_neg (by rw [h.txOpen]; exact Bool.false_ne_true)] at h3
      obtain ⟨rfl, rfl⟩ := ok_inj h3
      have hn := h.next
      refine { h with
        next := ?_
        bound := ?_
        encoded := ?_
        stored := fun s hs => (h.stored s hs).append _
        inOrder := ⟨fun s hs => (h.inOrder.original s hs).append _, h.inOrder.increasing⟩ }
      · grind
      · grind
      · intro n m hget
        rcases Nat.lt_or_ge n l.sent.length with hlt | hge
        · exact h.encoded n m ((List.getElem?_append_left hlt).symm.trans hget)
        · replace hget : (l.sent ++ [_])[n]? = some m := hget
          rw [List.getElem?_append_right hge] at hget
          obtain ⟨hlt, rfl⟩ := List.getElem?_eq_some_iff.mp hget
          rw [List.length_singleton] at hlt
          obtain rfl : n = l.sent.length := by omega
          refine ⟨?_, ?_, ?_⟩
          · simp_all
          · simp only [Nat.sub_self, List.getElem_cons_zero]
            rw [← h.txCfg]
            exact hlen
          · simp only [Nat.sub_self, List.getElem_cons_zero]
            rw [← h.txCfg, ← h.txSec, ← hn]
  | arrive n =>
    unfold Link.step at hstep
    dsimp only at hstep
    cases hget : l.sent[n]? with
    | none =>
      simp_all
    | some m =>
      rw [hget] at hstep
      obtain ⟨⟨rx', o'⟩, h1, rfl, _⟩ := bind_pair_inj hstep
      obtain ⟨rfl, rfl⟩ := ok_inj h1
      obtain ⟨d, hdec⟩ := h.decodes hm hget hs
      have hlt := (List.getElem?_eq_some_iff.mp hget).1
      have hb := h.bound
      obtain ⟨hcount, hlen, hpdu⟩ := h.encoded n m hget
      rw [recvPdu_eq h.rxOpen hdec]
      rcases @receiveSdu_spec l.rx.tCurrent l.rx.rx ⟨n, m.sdu, d⟩
        (m.pdu.length - headerSize l.rx.cfg) h.core h.timer (by show n < _; omega) with
        ⟨_, heq⟩ | ⟨hnew, hc, ht, _, _, hlist, hle, hout⟩
      · simp_all
      · rw [not_or, Bool.not_eq_true] at hnew
        refine h.delivers hc ht (sorted_listAdd h.core.sorted hnew.2) hlist ?_ ?_ hle hout
        · intro s' hs'
          rcases mem_insertBefore.mp hs' with rfl | hs'
          · exact not_lt.mp hnew.1
          · exact Nat.le_of_lt (h.core.inside s' hs').1
        · intro s' hs'
          rcases mem_insertBefore.mp hs' with rfl | hs'
          · exact ⟨m, hget, hcount, rfl⟩
          · exact h.stored s' hs'
  | setTime now =>
    obtain ⟨⟨rx', o'⟩, h1, rfl, _⟩ := bind_pair_inj hstep
    obtain ⟨rfl, rfl⟩ := ok_inj h1
    obtain ⟨hc, ht, _, _, hlist, hle, hout⟩ :=
      @checkTReordering_spec l.rx.cfg now l.rx.rx h.core h.timer
    exact h.delivers hc ht h.core.sorted hlist
      (fun s' hs' => Nat.le_of_lt (h.core.inside s' hs').1) h.stored hle hout
  | setTimeTx now =>
    obtain ⟨⟨tx', o'⟩, h1, rfl, _⟩ := bind_pair_inj hstep
    obtain ⟨rfl, rfl⟩ := ok_inj h1
    exact { h with inOrder := ⟨h.inOrder.original, h.inOrder.increasing⟩ }

theorem LinkInv.arrive_delivers (hm : Matched tx rx) (h : LinkInv K tx rx s l)
    (hget : l.sent[l.rx.rx.rxDeliv]? = some m) :
    ∃ l', Link.step K l (.arrive l.rx.rx.rxDeliv) = .ok (l', ()) ∧
      ∃ sdu ∈ l'.delivered, sdu.count = l.rx.rx.rxDeliv ∧ sdu.buffer = m.sdu := by
  have hscope : LinkScope l (.arrive l.rx.rx.rxDeliv) := by
    intro m' hm'
    have hW : 0 < l.rx.cfg.windowSize := Int.pow_pos (by decide)
    obtain ⟨hcount, _⟩ := h.encoded _ m' hm'
    omega
  obtain ⟨d, hdec⟩ := h.decodes hm hget hscope
  have hlt := (List.getElem?_eq_some_iff.mp hget).1
  have hb := h.bound
  have hnew : ¬ (l.rx.rx.rxDeliv < l.rx.rx.rxDeliv ∨
      nrPdcpSduInList l.rx.rx.rxList l.rx.rx.rxDeliv = true) := by
    rintro (hlt' | hin)
    · exact Nat.lt_irrefl _ hlt'
    · obtain ⟨s', hs', heq⟩ := List.any_eq_true.mp hin
      have := (h.core.inside s' hs').1
      simp_all
  refine ⟨{ l with
    rx := (recvPdu K l.rx m.pdu).1
    delivered := l.delivered ++ (recvPdu K l.rx m.pdu).2 }, ?_, ⟨_, m.sdu, d⟩, ?_, rfl, rfl⟩
  · unfold Link.step
    dsimp only
    rw [hget]
    rfl
  · rw [recvPdu_eq h.rxOpen hdec]
    rcases @receiveSdu_spec l.rx.tCurrent l.rx.rx ⟨l.rx.rx.rxDeliv, m.sdu, d⟩
      (m.pdu.length - headerSize l.rx.cfg) h.core h.timer (by show l.rx.rx.rxDeliv < _; omega) with
      ⟨hdup, _⟩ | ⟨_, hc, _, _, _, hlist, hle, _⟩
    · exact absurd hdup hnew
    · have hmem : (⟨l.rx.rx.rxDeliv, m.sdu, d⟩ : Sdu) ∈
          nrPdcpSduListAdd l.rx.rx.rxList ⟨l.rx.rx.rxDeliv, m.sdu, d⟩ :=
        mem_insertBefore.mpr (Or.inl rfl)
      rw [hlist] at hmem
      refine List.mem_append_right _ ?_
      rcases List.mem_append.mp hmem with hmem | hmem
      · exact hmem
      · have := (hc.inside _ hmem).1
        grind

/-- **In-order, duplicate-free delivery**, in every run: the SDUs passed to `deliver_sdu` are SDUs
that were sent, byte for byte, in strictly increasing order of their COUNTs.  The PDU the receiver
waits for is delivered as soon as it arrives. -/
theorem reachable_inOrder {K : Crypto} {tx rx : Config} {s : Security} {l : Link}
    (hm : Matched tx rx) (h : Reachable (Link.step K) LinkScope (Link.new tx rx s) l) :
    InOrder l ∧ ∀ m, l.sent[l.rx.rx.rxDeliv]? = some m →
      ∃ l', Link.step K l (.arrive l.rx.rx.rxDeliv) = .ok (l', ()) ∧
        ∃ sdu ∈ l'.delivered, sdu.count = l.rx.rx.rxDeliv ∧ sdu.buffer = m.sdu := by
  have hinv := h.invariant (LinkInv K tx rx s) (linkInv_new K tx rx s)
    (fun _ _ _ _ hi hg hs => linkStep_inv hm hi hg hs)
  exact ⟨hinv.inOrder, fun m hget => hinv.arrive_delivers hm hget⟩

/-- The other end of `plainDrb`. -/
def peerDrb : Config := ⟨.drbUm, false, 1, false, false, 12, 100⟩

/-- Two SDUs are sent and arrive in the wrong order. -/
def swappedArrivals : List LinkInput :=
  [.processSdu [1] 8, .processSdu [2] 8, .arrive 1, .arrive 0]

/-- Both are delivered, in the order of their COUNTs. -/
theorem reachable_inOrder_swapped :
    Matched plainDrb peerDrb ∧ ∃ l,
      Reachable (Link.step nullCrypto) LinkScope (Link.new plainDrb peerDrb Security.none) l ∧
      l.delivered.map Sdu.buffer = [[1], [2]] ∧ InOrder l := by
  have hm : Matched plainDrb peerDrb := ⟨rfl, rfl, rfl, rfl, rfl, Or.inl rfl⟩
  obtain ⟨l, hl, hobs⟩ := exists_reachable (Link.step nullCrypto) LinkScope
    (Link.new plainDrb peerDrb Security.none) swappedArrivals
    (fun l => l.delivered.map Sdu.buffer) (b := [[1], [2]]) (by decide +kernel)
  exact ⟨hm, l, hl, hobs, (reachable_inOrder hm hl).1⟩

end OaiGnb.Pdcp
