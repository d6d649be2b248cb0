import OaiGnb.Mac.Scheduler

/-!
# Resource indication value

The encoding of a first resource block and a number of resource blocks of `nr_common.c`.

* `locationAndBandwidth_bijective`: the values of a BWP of `N` resource blocks are the numbers below
  `N (N + 1) / 2`, each of one allocation.
-/

namespace OaiGnb.Mac

/-- `NRRIV2BW`. -/
def nrriv2bw (locationAndBandwidth nRb : ℕ) : ℕ :=
  let tmp := locationAndBandwidth / nRb
  let tmp2 := locationAndBandwidth % nRb
  if tmp ≤ (nRb >>> 1) + 1 ∧ tmp + tmp2 < nRb then tmp + 1 else nRb + 1 - tmp

/-- `NRRIV2PRBOFFSET`. -/
def nrriv2prboffset (locationAndBandwidth nRb : ℕ) : ℕ :=
  let tmp := locationAndBandwidth / nRb
  let tmp2 := locationAndBandwidth % nRb
  if tmp ≤ (nRb >>> 1) + 1 ∧ tmp + tmp2 < nRb then tmp2 else nRb - 1 - tmp2

/-- `PRBalloc_to_locationandbandwidth0`. -/
def prballocToLocationandbandwidth0 (nprb rbStart bwpSize : ℕ) : Except Fault ℕ :=
  if nprb > 0 ∧ nprb + rbStart ≤ bwpSize then
    if nprb ≤ 1 + (bwpSize >>> 1) then .ok (bwpSize * (nprb - 1) + rbStart)
    else .ok (bwpSize * (bwpSize + 1 - nprb) + (bwpSize - 1 - rbStart))
  else .error .assertFatal

variable {n l s riv : ℕ}

/-- The decoders see the quotient and the remainder that the encoder put together. -/
theorem riv_decoded {q r : ℕ} (hr : r < n) :
    (nrriv2bw (n * q + r) n, nrriv2prboffset (n * q + r) n) =
      if q ≤ n / 2 + 1 ∧ q + r < n then (q + 1, r) else (n + 1 - q, n - 1 - r) := by
  have hdiv : (n * q + r) / n = q := by
    rw [Nat.mul_add_div (by omega), Nat.div_eq_of_lt hr, Nat.add_zero]
  have hmod : (n * q + r) % n = r := by rw [Nat.mul_add_mod, Nat.mod_eq_of_lt hr]
  unfold nrriv2bw nrriv2prboffset
  rw [hdiv, hmod, Nat.shiftRight_one]
  dsimp only
  split <;> rfl

theorem lt_half_iff : riv < n * (n + 1) / 2 ↔ 2 * riv < n * (n + 1) := by
  have := Nat.mul_div_cancel' (Nat.even_mul_succ_self n).two_dvd
  omega

/-- An allocation is encoded below `N (N + 1) / 2` and decoded again. -/
theorem prballoc_returns (hl : 1 ≤ l) (hs : l + s ≤ n) :
    ∃ riv < n * (n + 1) / 2, prballocToLocationandbandwidth0 l s n = .ok riv ∧
      (nrriv2bw riv n, nrriv2prboffset riv n) = (l, s) := by
  unfold prballocToLocationandbandwidth0
  rw [if_pos ⟨hl, hs⟩, Nat.shiftRight_one]
  split
  next hle =>
    refine ⟨_, ?_, rfl, ?_⟩
    · have h2 : 2 * l ≤ n + 2 := by omega
      obtain ⟨m, rfl⟩ : ∃ m, n = m + 1 := ⟨n - 1, by omega⟩
      obtain ⟨k, rfl⟩ : ∃ k, l = k + 1 := ⟨l - 1, by omega⟩
      rw [lt_half_iff, Nat.add_sub_cancel]
      nlinarith
    · rw [riv_decoded (by omega), if_pos (by omega), Nat.sub_add_cancel hl]
  next hgt =>
    refine ⟨_, ?_, rfl, ?_⟩
    · obtain ⟨k, hk⟩ : ∃ k, n + 1 = l + k := ⟨n + 1 - l, by omega⟩
      have h2 : 2 * k + 1 ≤ n := by omega
      rw [lt_half_iff, hk, Nat.add_sub_cancel_left, ← hk]
      have : n - 1 - s + 1 ≤ n := by omega
      nlinarith
    · rw [riv_decoded (by omega), if_neg (by omega), Prod.mk.injEq]
      omega

/-- Every number below `N (N + 1) / 2` is decoded to an allocation whose value it is. -/
theorem riv_encoded (h : riv < n * (n + 1) / 2) :
    1 ≤ nrriv2bw riv n ∧ nrriv2bw riv n + nrriv2prboffset riv n ≤ n ∧
      prballocToLocationandbandwidth0 (nrriv2bw riv n) (nrriv2prboffset riv n) n = .ok riv := by
  have hn : 0 < n := by
    rcases Nat.eq_zero_or_pos n with rfl | hn
    · simp at h
    · exact hn
  obtain ⟨q, r, hr, rfl⟩ : ∃ q r, r < n ∧ riv = n * q + r :=
    ⟨riv / n, riv % n, Nat.mod_lt _ hn, (Nat.div_add_mod riv n).symm⟩
  rw [lt_half_iff] at h
  have hq : 2 * q ≤ n := by
    by_contra hlt
    have := Nat.mul_le_mul_left n (show n + 1 ≤ 2 * q by omega)
    nlinarith
  have hdec := riv_decoded (q := q) hr
  split at hdec
  next hc =>
    obtain ⟨hbw, hoff⟩ := Prod.mk.inj hdec
    rw [hbw, hoff]
    unfold prballocToLocationandbandwidth0
    rw [if_pos (by omega), Nat.shiftRight_one, if_pos (by omega), Nat.add_sub_cancel]
    exact ⟨by omega, by omega, rfl⟩
  next hc =>
    obtain ⟨hbw, hoff⟩ := Prod.mk.inj hdec
    rw [hbw, hoff]
    -- with the quotient `N / 2` the remainder is below `N / 2`, which the other case covers
    have hlt : 2 * q < n := by
      by_contra hge
      obtain rfl : n = 2 * q := by omega
      have : 2 * r < 2 * q := by nlinarith
      omega
    unfold prballocToLocationandbandwidth0
    rw [if_pos (by omega), Nat.shiftRight_one, if_neg (by omega)]
    refine ⟨by omega, by omega, ?_⟩
    rw [show n + 1 - (n + 1 - q) = q by omega, show n - 1 - (n - 1 - r) = r by omega]

/-- **The resource indication value is a bijection**, which `NRRIV2BW` and `NRRIV2PRBOFFSET` invert.
-/
theorem locationAndBandwidth_bijective (n : ℕ) :
    Set.BijOn (fun a : ℕ × ℕ => prballocToLocationandbandwidth0 a.1 a.2 n)
        {a | 1 ≤ a.1 ∧ a.1 + a.2 ≤ n} {r | ∃ riv < n * (n + 1) / 2, r = .ok riv} ∧
      (∀ l s riv, prballocToLocationandbandwidth0 l s n = .ok riv → 1 ≤ l → l + s ≤ n →
        nrriv2bw riv n = l ∧ nrriv2prboffset riv n = s) ∧
      ∀ riv < n * (n + 1) / 2,
        prballocToLocationandbandwidth0 (nrriv2bw riv n) (nrriv2prboffset riv n) n = .ok riv := by
  have hinv : ∀ l s riv, prballocToLocationandbandwidth0 l s n = .ok riv → 1 ≤ l → l + s ≤ n →
      nrriv2bw riv n = l ∧ nrriv2prboffset riv n = s := by
    intro l s riv henc hl hs
    obtain ⟨riv', _, henc', hdec⟩ := prballoc_returns hl hs
    obtain rfl := Except.ok.inj (henc.symm.trans henc')
    exact Prod.mk.inj hdec
  refine ⟨⟨?_, ?_, ?_⟩, hinv, fun riv h => (riv_encoded h).2.2⟩
  · rintro ⟨l, s⟩ ⟨hl, hs⟩
    obtain ⟨riv, hlt, henc, _⟩ := prballoc_returns hl hs
    exact ⟨riv, hlt, henc⟩
  · rintro ⟨l, s⟩ ⟨hl, hs⟩ ⟨l', s'⟩ ⟨hl', hs'⟩ heq
    obtain ⟨riv, _, henc, _⟩ := prballoc_returns hl hs
    obtain ⟨rfl, rfl⟩ := hinv l s riv henc hl hs
    obtain ⟨rfl, rfl⟩ := hinv l' s' riv (heq.symm.trans henc) hl' hs'
    rfl
  · rintro r ⟨riv, hlt, rfl⟩
    obtain ⟨hl, hs, henc⟩ := riv_encoded hlt
    exact ⟨(_, _), ⟨hl, hs⟩, henc⟩

end OaiGnb.Mac
