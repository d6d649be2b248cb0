import OaiGnb.Lib.SlotRing

/-!
# The uplink rings of the scheduler

`vrb_map_UL` and `UL_tti_req_ahead`: their size from `nr_mac_config_scc`, `ul_buffer_index`, and for
every slot the entry that `gNB_dlsch_ulsch_scheduler` and `clear_nr_nfapi_information` clear, the
entries that are written ahead, and the entry of the slot itself.

The size is rounded up from the longest feedback time, and PRACH, SRS and MsgA look further ahead.

* `entries_distinct_iff`: when the slots that may be written at one time have entries of their own.
* `schedule_spec`: what one slot does to the entries.
* `ulRings_noAlias`: then, and only then, also in every run an entry is cleared once between its
  uses for two slots.
-/

namespace OaiGnb.Mac.UlLookAhead

open SlotRing

/-- `MAX_FRAME_NUMBER`. -/
def maxFrameNumber : ℕ := 1024

/-- The numerology, the offset of a non-terrestrial network in slots, the duration of PRACH,
`msgA_PUSCH_TimeDomainOffset_r16` (0 without two-step random access), and the longest time from a
grant to its PUSCH or Msg3 (`k2` and, for Msg3, the delay of the numerology). -/
structure RingConfig where
  mu : Fin 4
  koffset : ℕ
  prachLen : ℕ
  msgAOffset : ℕ
  maxK2 : ℕ

namespace RingConfig

/-- `get_slots_per_frame_from_scs`. -/
def slotsFrame (cfg : RingConfig) : ℕ := 10 * 2 ^ (cfg.mu : ℕ)

/-- `vrb_map_UL_size` and `UL_tti_req_ahead_size` of `nr_mac_config_scc`. -/
def size (cfg : RingConfig) : ℕ :=
  cfg.slotsFrame * 2 ^ Nat.clog 2 ((cfg.koffset + 13) / cfg.slotsFrame + 1)

/-- How far ahead PRACH is scheduled: `n_slots_ahead`. -/
def prachAhead (cfg : RingConfig) : ℕ := cfg.slotsFrame - cfg.prachLen + cfg.koffset

/-- The last slot of a long PRACH: `fill_vrb` for `slotP + i`. -/
def prachLast (cfg : RingConfig) : ℕ := cfg.prachAhead + (cfg.prachLen - 1)

/-- How far ahead SRS is scheduled: `n_ahead` of `nr_schedule_srs`. -/
def srsAhead (cfg : RingConfig) : ℕ := cfg.slotsFrame - 1 + cfg.koffset

/-- The PUSCH of MsgA, behind its PRACH: `schedule_nr_MsgA_pusch`. -/
def msgAAhead (cfg : RingConfig) : ℕ := cfg.prachAhead + cfg.msgAOffset

/-- PUSCH and Msg3. -/
def puschAhead (cfg : RingConfig) : ℕ := cfg.maxK2 + cfg.koffset

/-- How far ahead the scheduler may write, feedback apart. -/
def farthest (cfg : RingConfig) : ℕ :=
  max (max cfg.prachLast cfg.srsAhead) (max cfg.msgAAhead cfg.puschAhead)

/-- How far ahead the scheduler may write: the longest feedback time, or the others. -/
def ahead (cfg : RingConfig) : ℕ := max (13 + cfg.koffset) cfg.farthest

/-- The frame of a slot. -/
def frame (cfg : RingConfig) (t : ℕ) : ℕ := t / cfg.slotsFrame % maxFrameNumber

/-- The number of a slot in its frame. -/
def slot (cfg : RingConfig) (t : ℕ) : ℕ := t % cfg.slotsFrame

end RingConfig

/-- `ul_buffer_index`. -/
def ulBufferIndex (frame slot slotsPerFrame size : ℕ) : ℕ := (frame * slotsPerFrame + slot) % size

/-- The entry of a slot. -/
def entry (cfg : RingConfig) (t : ℕ) : ℕ :=
  ulBufferIndex (cfg.frame t) (cfg.slot t) cfg.slotsFrame cfg.size

/-- The entry that is cleared when a slot begins: `prev_slot % size`. -/
def clearedEntry (cfg : RingConfig) (t : ℕ) : ℕ :=
  (cfg.frame t * cfg.slotsFrame + cfg.slot t + cfg.size - 1) % cfg.size

/-- An entry of a ring: the slot it was last used for, how often it was cleared since, and for any
two uses in turn the slots and how often the entry was cleared between them. -/
structure Cell where
  last : Option ℕ
  clears : ℕ
  gaps : List (ℕ × ℕ × ℕ)
  deriving Repr, DecidableEq

/-- An entry is cleared. -/
def Cell.clear (c : Cell) : Cell := { c with clears := c.clears + 1 }

/-- An entry is used for a slot. -/
def Cell.use (c : Cell) (t : ℕ) : Cell :=
  ⟨some t, 0, match c.last with
    | none => c.gaps
    | some u => c.gaps ++ [(u, c.clears, t)]⟩

/-- The rings when a slot begins. -/
structure Rings where
  now : ℕ
  cell : ℕ → Cell

/-- One entry is changed. -/
def Rings.modify (r : Rings) (i : ℕ) (f : Cell → Cell) : Rings :=
  { r with cell := fun j => if j = i then f (r.cell j) else r.cell j }

/-- The entry of a slot is used. -/
def Rings.useFor (cfg : RingConfig) (r : Rings) (t : ℕ) : Rings :=
  r.modify (entry cfg t) fun c => c.use t

/-- `gNB_dlsch_ulsch_scheduler` for one slot: the entry of the slot before is cleared, slots ahead
are prepared, and the entry of the slot itself is given to the PHY. -/
def schedule (cfg : RingConfig) (r : Rings) (writes : List (Fin (cfg.ahead + 1))) : Rings :=
  let cleared := r.modify (clearedEntry cfg r.now) Cell.clear
  let written := writes.foldl (fun r w => r.useFor cfg (r.now + w)) cleared
  { written.useFor cfg r.now with now := r.now + 1 }

/-- The rings before the scheduler's first slot. -/
def start (t : ℕ) : Rings := ⟨t, fun _ => ⟨none, 0, []⟩⟩

/-! ### Entries -/

/-- What the rings need: no frame number comes back within the feedback time, and nothing is
scheduled further ahead than the rings are long. -/
structure Fits (cfg : RingConfig) : Prop where
  feedback : cfg.koffset + 13 < maxFrameNumber * cfg.slotsFrame
  others : cfg.farthest < cfg.size

instance (cfg : RingConfig) : Decidable (Fits cfg) :=
  decidable_of_iff (cfg.koffset + 13 < maxFrameNumber * cfg.slotsFrame ∧ cfg.farthest < cfg.size)
    ⟨fun h => ⟨h.1, h.2⟩, fun h => ⟨h.feedback, h.others⟩⟩

section Entries

variable {cfg : RingConfig}

theorem slotsFrame_pos (cfg : RingConfig) : 0 < cfg.slotsFrame :=
  Nat.mul_pos (by decide) (Nat.two_pow_pos _)

theorem size_pos (cfg : RingConfig) : 0 < cfg.size :=
  Nat.mul_pos (slotsFrame_pos cfg) (Nat.two_pow_pos _)

theorem feedback_lt_size (cfg : RingConfig) : 13 + cfg.koffset < cfg.size := by
  rw [Nat.add_comm]
  exact lt_mul_two_pow_clog (slotsFrame_pos cfg) _

theorem Fits.ahead_lt (h : Fits cfg) : cfg.ahead < cfg.size :=
  max_lt (feedback_lt_size cfg) h.others

theorem size_dvd (h : cfg.koffset + 13 < maxFrameNumber * cfg.slotsFrame) :
    cfg.size ∣ cfg.slotsFrame * maxFrameNumber := by
  have hlog : Nat.clog 2 ((cfg.koffset + 13) / cfg.slotsFrame + 1) ≤ 10 := by
    rw [Nat.clog_le_iff_le_pow (by decide)]
    exact (Nat.div_lt_iff_lt_mul (slotsFrame_pos cfg)).mpr h
  exact Nat.mul_dvd_mul_left _ (Nat.pow_dvd_pow 2 hlog)

theorem Fits.entry_eq (h : Fits cfg) (t : ℕ) : entry cfg t = t % cfg.size :=
  wrapped_mod (size_dvd h.feedback) t

theorem Fits.clearedEntry_eq (h : Fits cfg) (t : ℕ) :
    clearedEntry cfg t = (t + (cfg.size - 1)) % cfg.size := by
  have hpos := size_pos cfg
  have hsub : cfg.frame t * cfg.slotsFrame + cfg.slot t + cfg.size - 1
      = cfg.frame t * cfg.slotsFrame + cfg.slot t + (cfg.size - 1) := by omega
  rw [clearedEntry, hsub, Nat.add_mod]
  show ((t / cfg.slotsFrame % maxFrameNumber * cfg.slotsFrame + t % cfg.slotsFrame) % cfg.size
    + (cfg.size - 1) % cfg.size) % cfg.size = _
  rw [wrapped_mod (size_dvd h.feedback), ← Nat.add_mod]

theorem Fits.entry_eq_cleared_iff (h : Fits cfg) {t u : ℕ} (hlo : t ≤ u + cfg.size)
    (hhi : u + 1 < t + cfg.size) : entry cfg u = clearedEntry cfg t ↔ u + 1 = t := by
  have hpos := size_pos cfg
  rw [h.entry_eq, h.clearedEntry_eq]
  refine ⟨?_, ?_⟩
  · intro heq
    rcases Nat.lt_trichotomy (u + 1) t with hlt | heq' | hlt
    · have hsum : t + (cfg.size - 1) = t - 1 + cfg.size := by omega
      rw [hsum, Nat.add_mod_right] at heq
      exact absurd heq (mod_ne_of_lt (by omega) (by omega))
    · exact heq'
    · exact absurd heq (mod_ne_of_lt (by omega) (by omega))
  · grind [Nat.add_mod_right]

theorem Fits.eq_of_entry_eq (h : Fits cfg) {t u : ℕ} (heq : entry cfg t = entry cfg u)
    (htu : t < u + cfg.size) (hut : u < t + cfg.size) : t = u := by
  rw [h.entry_eq, h.entry_eq] at heq
  rcases Nat.lt_trichotomy t u with hlt | heq' | hlt
  · exact absurd heq (mod_ne_of_lt hlt hut)
  · exact heq'
  · exact absurd heq.symm (mod_ne_of_lt hlt htu)

/-- **The slots that may be written at one time have entries of their own.** -/
theorem entries_distinct (h : Fits cfg) {t u v : ℕ} (hu : t ≤ u ∧ u ≤ t + cfg.ahead)
    (hv : t ≤ v ∧ v ≤ t + cfg.ahead) (heq : entry cfg u = entry cfg v) : u = v := by
  have hlt := h.ahead_lt
  exact h.eq_of_entry_eq heq (by omega) (by omega)

end Entries

/-- **When the slots that may be written at one time have entries of their own.** -/
theorem entries_distinct_iff (cfg : RingConfig) :
    (∀ t u v, t ≤ u ∧ u ≤ t + cfg.ahead → t ≤ v ∧ v ≤ t + cfg.ahead →
      entry cfg u = entry cfg v → u = v) ↔ Fits cfg := by
  refine ⟨?_, fun h t u v hu hv heq => entries_distinct h hu hv heq⟩
  intro hall
  have hpos := slotsFrame_pos cfg
  have hahead : 13 + cfg.koffset ≤ cfg.ahead ∧ cfg.farthest ≤ cfg.ahead :=
    ⟨Nat.le_max_left _ _, Nat.le_max_right _ _⟩
  have hfeedback : cfg.koffset + 13 < maxFrameNumber * cfg.slotsFrame := by
    -- the frame numbers of a whole cycle later are the same
    refine not_le.mp fun hle => ?_
    have heq : entry cfg 0 = entry cfg (maxFrameNumber * cfg.slotsFrame) := by
      unfold entry RingConfig.frame RingConfig.slot
      rw [Nat.mul_div_cancel _ hpos, Nat.mod_self, Nat.mul_mod_left, Nat.zero_div, Nat.zero_mod,
        Nat.zero_mod]
    have hzero := hall 0 0 (maxFrameNumber * cfg.slotsFrame) ⟨le_rfl, Nat.zero_le _⟩
      ⟨Nat.zero_le _, by omega⟩ heq
    have := Nat.mul_pos (show 0 < maxFrameNumber by decide) hpos
    omega
  refine ⟨hfeedback, not_le.mp fun hle => ?_⟩
  have hdvd := size_dvd hfeedback
  have heq : entry cfg 0 = entry cfg cfg.size := by
    show (0 / cfg.slotsFrame % maxFrameNumber * cfg.slotsFrame + 0 % cfg.slotsFrame) % cfg.size
      = (cfg.size / cfg.slotsFrame % maxFrameNumber * cfg.slotsFrame + cfg.size % cfg.slotsFrame)
        % cfg.size
    rw [wrapped_mod hdvd, wrapped_mod hdvd, Nat.mod_self, Nat.zero_mod]
  have hzero := hall 0 0 cfg.size ⟨le_rfl, Nat.zero_le _⟩ ⟨Nat.zero_le _, by omega⟩ heq
  have := size_pos cfg
  omega

/-! ### Runs -/

/-- An entry is cleared between its uses for two slots, once, and not between uses for one slot. -/
def ClearedOnce (g : ℕ × ℕ × ℕ) : Prop := g.2.1 = if g.1 = g.2.2 then 0 else 1

/-- **What is known of an entry**: the slot it was last used for is among those whose entries may be
in use, and the entry was cleared since if that slot is over, by the time `over_`. -/
structure Cell.Inv (cfg : RingConfig) (from_ until_ over_ i : ℕ) (c : Cell) : Prop where
  gaps : ∀ g ∈ c.gaps, ClearedOnce g
  entry : ∀ u, c.last = some u → UlLookAhead.entry cfg u = i
  from_le : ∀ u, c.last = some u → from_ ≤ u + cfg.size
  lt_until : ∀ u, c.last = some u → u < until_
  clears : ∀ u, c.last = some u → c.clears = if u + 1 < over_ then 1 else 0

/-- What is known of the rings. -/
def Rings.Inv (cfg : RingConfig) (from_ until_ over_ : ℕ) (r : Rings) : Prop :=
  ∀ i, (r.cell i).Inv cfg from_ until_ over_ i

theorem Rings.modify_self (r : Rings) (i : ℕ) (f : Cell → Cell) :
    (r.modify i f).cell i = f (r.cell i) :=
  if_pos rfl

theorem Rings.modify_of_ne (r : Rings) {i j : ℕ} (f : Cell → Cell) (h : j ≠ i) :
    (r.modify i f).cell j = r.cell j :=
  if_neg h

section Runs

variable {cfg : RingConfig} {r : Rings} {t : ℕ}

theorem Rings.Inv.clear (h : Fits cfg) (hr : r.Inv cfg t (t + cfg.ahead) t) :
    (r.modify (clearedEntry cfg t) Cell.clear).Inv cfg t (t + cfg.ahead + 1) (t + 1) := by
  have hahead := h.ahead_lt
  intro i
  have hi := hr i
  have hlast : ∀ u, (r.cell i).last = some u → (i = clearedEntry cfg t ↔ u + 1 = t) := by
    intro u hu
    have hlo := hi.from_le u hu
    have hhi := hi.lt_until u hu
    rw [← hi.entry u hu]
    exact h.entry_eq_cleared_iff hlo (by omega)
  by_cases hcleared : i = clearedEntry cfg t
  · rw [hcleared, Rings.modify_self, ← hcleared]
    refine ⟨hi.gaps, hi.entry, hi.from_le, ?_, ?_⟩
    · intro u hu
      exact Nat.lt_succ_of_lt (hi.lt_until u hu)
    · intro u hu
      have hbefore := (hlast u hu).mp hcleared
      show (r.cell i).clears + 1 = _
      rw [hi.clears u hu, if_neg (by omega), if_pos (by omega)]
  · rw [Rings.modify_of_ne r _ hcleared]
    refine ⟨hi.gaps, hi.entry, hi.from_le, ?_, ?_⟩
    · intro u hu
      exact Nat.lt_succ_of_lt (hi.lt_until u hu)
    · intro u hu
      have hbefore : ¬ u + 1 = t := fun heq => hcleared ((hlast u hu).mpr heq)
      rw [hi.clears u hu]
      grind

theorem Rings.Inv.useFor (h : Fits cfg) (hr : r.Inv cfg t (t + cfg.ahead + 1) (t + 1)) {v : ℕ}
    (hfrom : t ≤ v) (huntil : v ≤ t + cfg.ahead) :
    (r.useFor cfg v).Inv cfg t (t + cfg.ahead + 1) (t + 1) := by
  have hahead := h.ahead_lt
  intro i
  have hi := hr i
  by_cases hv : i = UlLookAhead.entry cfg v
  · rw [hv, Rings.useFor, Rings.modify_self, ← hv]
    have hsome : ∀ u, (Cell.use (r.cell i) v).last = some u → u = v := by
      intro u hu
      exact (Option.some.inj hu).symm
    refine ⟨?_, ?_, ?_, ?_, ?_⟩
    · intro g hg
      unfold Cell.use at hg
      dsimp only at hg
      split at hg
      · exact hi.gaps g hg
      rename_i u hu
      rcases List.mem_append.mp hg with hg | hg
      · exact hi.gaps g hg
      · rw [List.mem_singleton.mp hg]
        show (r.cell i).clears = if u = v then 0 else 1
        have hlo := hi.from_le u hu
        have hhi := hi.lt_until u hu
        have hentry := (hi.entry u hu).trans hv
        rw [hi.clears u hu]
        by_cases huv : u = v
        · rw [if_pos huv, if_neg (by omega)]
        · have hpast : u < t := by
            -- a slot that is not over has an entry of its own
            refine not_le.mp fun hle => huv ?_
            exact entries_distinct h ⟨hle, by omega⟩ ⟨hfrom, huntil⟩ hentry
          rw [if_neg huv, if_pos (by omega)]
    · intro u hu
      rw [hsome u hu, hv]
    · grind
    · grind
    · intro u hu
      rw [hsome u hu, if_neg (by omega)]
      rfl
  · grind [Rings.useFor, Rings.modify_of_ne]

theorem Rings.Inv.useFor_foldl (h : Fits cfg) (writes : List (Fin (cfg.ahead + 1)))
    (hnow : r.now = t) (hr : r.Inv cfg t (t + cfg.ahead + 1) (t + 1)) :
    (writes.foldl (fun r w => r.useFor cfg (r.now + w)) r).Inv cfg t (t + cfg.ahead + 1)
      (t + 1) := by
  induction writes generalizing r with
  | nil => exact hr
  | cons w writes ih =>
    have hw := w.isLt
    refine ih hnow (hr.useFor h ?_ ?_)
    · omega
    · omega

/-- **What one slot does to the entries.** -/
theorem schedule_spec (h : Fits cfg) (writes : List (Fin (cfg.ahead + 1)))
    (hr : r.Inv cfg r.now (r.now + cfg.ahead) r.now) :
    (schedule cfg r writes).Inv cfg (r.now + 1) (r.now + 1 + cfg.ahead) (r.now + 1) := by
  have hnow : (r.modify (clearedEntry cfg r.now) Cell.clear).now = r.now := rfl
  have hwritten := (hr.clear h).useFor_foldl h writes hnow
  have hused := hwritten.useFor h le_rfl (Nat.le_add_right _ _)
  intro i
  have hi := hused i
  refine ⟨hi.gaps, hi.entry, ?_, ?_, hi.clears⟩
  · intro u hu
    have hlo := hi.from_le u hu
    have hne : u + cfg.size ≠ r.now := by
      -- the entry of that slot is now used for the current one
      intro heq
      have hsame : UlLookAhead.entry cfg u = UlLookAhead.entry cfg r.now := by
        rw [h.entry_eq, h.entry_eq, ← heq, Nat.add_mod_right]
      have hlast : (((writes.foldl (fun r w => r.useFor cfg (r.now + w))
          (r.modify (clearedEntry cfg r.now) Cell.clear)).useFor cfg r.now).cell i).last
            = some r.now := by
        rw [← hi.entry u hu, hsame, Rings.useFor, Rings.modify_self]
        rfl
      have hpos := size_pos cfg
      have := Option.some.inj (hu.symm.trans hlast)
      omega
    omega
  · intro u hu
    have hhi := hi.lt_until u hu
    omega

/-- **An entry is cleared once between its uses for two slots, in every run.** -/
theorem schedule_inv (h : Fits cfg) (slots : List (List (Fin (cfg.ahead + 1)))) :
    ∀ r : Rings, r.Inv cfg r.now (r.now + cfg.ahead) r.now →
      ((slots.foldl (schedule cfg) r).Inv cfg (slots.foldl (schedule cfg) r).now
        ((slots.foldl (schedule cfg) r).now + cfg.ahead) (slots.foldl (schedule cfg) r).now) := by
  induction slots with
  | nil => exact fun r hr => hr
  | cons writes slots ih => exact fun r hr => ih _ (schedule_spec h writes hr)

end Runs

/-- **When the uplink rings do not alias.**  The slots that may be written at one time have entries
of their own, and in every run of the scheduler, from any slot on, an entry is cleared exactly once
between its uses for two slots, exactly if the feedback time is below 1024 frames and nothing is
scheduled further ahead than the rings are long. -/
theorem ulRings_noAlias (cfg : RingConfig) :
    ((∀ t u v, t ≤ u ∧ u ≤ t + cfg.ahead → t ≤ v ∧ v ≤ t + cfg.ahead →
      entry cfg u = entry cfg v → u = v) ∧
    ∀ (t : ℕ) (slots : List (List (Fin (cfg.ahead + 1)))) (i : ℕ),
      ∀ g ∈ ((slots.foldl (schedule cfg) (start t)).cell i).gaps, ClearedOnce g) ↔ Fits cfg := by
  refine ⟨fun h => (entries_distinct_iff cfg).mp h.1,
    fun h => ⟨(entries_distinct_iff cfg).mpr h, ?_⟩⟩
  intro t slots i
  refine (schedule_inv h slots (start t) ?_ i).gaps
  intro i
  exact ⟨List.forall_mem_nil _, fun _ hu => (by cases hu), fun _ hu => (by cases hu),
    fun _ hu => (by cases hu), fun _ hu => (by cases hu)⟩

/-- Numerology 1 without an offset, and a PRACH of six slots. -/
theorem ulRings_noAlias_sample :
    Fits ⟨1, 0, 6, 0, 6⟩ ∧ (⟨1, 0, 6, 0, 6⟩ : RingConfig).ahead = 19 ∧
      ∀ t u v, t ≤ u ∧ u ≤ t + 19 → t ≤ v ∧ v ≤ t + 19 →
        entry ⟨1, 0, 6, 0, 6⟩ u = entry ⟨1, 0, 6, 0, 6⟩ v → u = v := by
  have hfits : Fits ⟨1, 0, 6, 0, 6⟩ := by decide
  exact ⟨hfits, rfl, ((ulRings_noAlias ⟨1, 0, 6, 0, 6⟩).mpr hfits).1⟩

/-- **With an offset PRACH runs into the slots that are in use.**  For an offset of 6 slots the
rings have 20 entries, and PRACH is scheduled 25 slots ahead. -/
theorem not_ulRings_noAlias :
    ¬ ∀ cfg : RingConfig, 1 ≤ cfg.prachLen ∧ cfg.prachLen ≤ cfg.slotsFrame →
      ∀ t u v, t ≤ u ∧ u ≤ t + cfg.ahead → t ≤ v ∧ v ≤ t + cfg.ahead →
        entry cfg u = entry cfg v → u = v := by
  intro hall
  have h := hall ⟨1, 6, 1, 0, 6⟩ (by decide) 0 5 25 (by decide) (by decide) (by decide)
  exact absurd h (by decide)

end OaiGnb.Mac.UlLookAhead
