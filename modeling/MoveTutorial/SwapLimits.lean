import MoveTutorial.SwapSolvency

/-! The limits of the swap's `u64` arithmetic. Where the recorded reserves are what the swap holds and
every supply is a `u64`, the transfers of a swap or a withdrawal always go through, so the call
succeeds exactly when the products that are taken before a division fit. -/

namespace MoveTutorial.Swap

open Move Coin

/-! ### Prices -/

theorem getInputPrice_succeeds_iff {a x y : ℕ} (hx : 0 < x) :
    Succeeds (getInputPrice a x y) ↔ a * 997 * y < 2 ^ 64 ∧ x * 1000 + a * 997 < 2 ^ 64 := by
  constructor
  · rintro ⟨out, h⟩
    simp only [getInputPrice, bind_eq_ok, mul_eq_ok, add_eq_ok, div_eq_ok] at h
    obtain ⟨_, ⟨-, rfl⟩, _, ⟨hproduct, rfl⟩, _, ⟨-, rfl⟩, _, ⟨hsum, rfl⟩, -⟩ := h
    exact ⟨hproduct, hsum⟩
  · rintro ⟨hproduct, hsum⟩
    have hfee : a * 997 < 2 ^ 64 := lt_of_le_of_lt (Nat.le_add_left _ _) hsum
    have hreserve : x * 1000 < 2 ^ 64 := lt_of_le_of_lt (Nat.le_add_right _ _) hsum
    rw [getInputPrice, mul_ok hfee, ok_bind, mul_ok hproduct, ok_bind, mul_ok hreserve, ok_bind, add_ok hsum,
      ok_bind, div_ok (Nat.add_pos_left (Nat.mul_pos hx (by decide)) _)]
    exact ⟨_, rfl⟩

section Calls

variable {coinType1 coinType2 : CoinType} {g : Global} {pool : LiquidityPool} {requester : Address}

/-- The payment of a swap and its output go through. -/
theorem exchange_succeeds {balances : Balances} {reserve1 reserve2 coin1 coin2 b1 b2 : ℕ}
    (hreserve1 : balances (coinType1, coinSwapAddress) = some reserve1)
    (hreserve2 : balances (coinType2, coinSwapAddress) = some reserve2)
    (hsupply : ∀ T, supply balances T < 2 ^ 64) (hne : requester ≠ coinSwapAddress)
    (hb1 : balances (coinType1, requester) = some b1) (hb2 : balances (coinType2, requester) = some b2)
    (hle : coin1 ≤ b1) (hout : coin2 ≤ reserve2) :
    ∃ between after, transfer coinType1 requester coinSwapAddress coin1 balances = .ok between ∧
      transfer coinType2 coinSwapAddress requester coin2 between = .ok after := by
  obtain ⟨between, hfirst⟩ := transfer_succeeds hne hb1 hreserve1 (hsupply coinType1) hle
  -- the payment leaves the second reserve where it is, or raises it if the coin types agree
  have hreserve2' : ∃ c, between (coinType2, coinSwapAddress) = some c ∧ reserve2 ≤ c := by
    by_cases hT : coinType2 = coinType1
    · subst hT
      rw [Option.some.inj (hreserve2.symm.trans hreserve1)]
      exact ⟨_, transfer_dest hreserve1 hfirst, Nat.le_add_right _ _⟩
    · exact ⟨reserve2, (transfer_other hT hfirst).trans hreserve2, le_refl _⟩
  obtain ⟨c, hc, hcovers⟩ := hreserve2'
  obtain ⟨b, hb⟩ := transfer_published hb2 hfirst
  have hsupply2 : supply between coinType2 < 2 ^ 64 := by
    rw [transfer_supply coinType2 hfirst]
    exact hsupply coinType2
  obtain ⟨after, hsecond⟩ := transfer_succeeds hne.symm hc hb hsupply2 (hout.trans hcovers)
  exact ⟨between, after, hfirst, hsecond⟩

/-- A swap succeeds exactly when its price does: its transfers are covered. -/
theorem coin1ToCoin2SwapInput_succeeds_iff {coin1 b1 b2 : ℕ}
    (hpool : g.pools (coinType1, coinType2, coinSwapAddress) = some pool)
    (hreserve1 : g.balances (coinType1, coinSwapAddress) = some pool.coin1)
    (hreserve2 : g.balances (coinType2, coinSwapAddress) = some pool.coin2)
    (hsupply : ∀ T, supply g.balances T < 2 ^ 64) (hne : requester ≠ coinSwapAddress)
    (hb1 : g.balances (coinType1, requester) = some b1) (hb2 : g.balances (coinType2, requester) = some b2)
    (hle : coin1 ≤ b1) :
    Succeeds (coin1ToCoin2SwapInput coinType1 coinType2 coinSwapAddress requester coin1 g) ↔
      Succeeds (getInputPrice coin1 pool.coin1 pool.coin2) := by
  constructor
  · rintro ⟨g', h⟩
    obtain ⟨-, p, coin2, hp, hprice, -⟩ := coin1ToCoin2SwapInput_ok h
    rw [Option.some.inj (hpool.symm.trans hp)]
    exact ⟨coin2, hprice⟩
  · rintro ⟨coin2, hprice⟩
    have hout : coin2 ≤ pool.coin2 := by
      rw [(getInputPrice_ok hprice).1]
      exact Reserves.quote_le _ _ _ _
    have htwo := two_held_le_supply g.balances coinType1 hne
    rw [held_of_some hb1, held_of_some hreserve1] at htwo
    have hsum : pool.coin1 + coin1 < 2 ^ 64 := by
      have := hsupply coinType1
      omega
    obtain ⟨between, after, hfirst, hsecond⟩ :=
      exchange_succeeds hreserve1 hreserve2 hsupply hne hb1 hb2 hle hout
    have hpublished : g.pools (coinType1, coinType2, coinSwapAddress) ≠ none := by
      rw [hpool]
      exact Option.some_ne_none _
    rw [coin1ToCoin2SwapInput, assert_pos _ rfl, ok_bind, assert_pos _ hpublished, ok_bind,
      borrowGlobal_eq_ok.mpr hpool, ok_bind, hprice, ok_bind, add_ok hsum, ok_bind, sub_ok hout, ok_bind, hfirst,
      ok_bind, hsecond, ok_bind]
    exact ⟨_, rfl⟩

theorem removeLiquidity_fits {g' : Global} {share : ℕ}
    (hpool : g.pools (coinType1, coinType2, coinSwapAddress) = some pool)
    (h : removeLiquidity coinType1 coinType2 coinSwapAddress requester share g = .ok g') :
    pool.coin1 * share < 2 ^ 64 ∧ pool.coin2 * share < 2 ^ 64 := by
  simp only [removeLiquidity, bind_eq_ok, borrowGlobal_eq_ok, mul_eq_ok, div_eq_ok] at h
  obtain ⟨p, hp, _, ⟨hfirst, -⟩, _, -, _, ⟨hsecond, -⟩, -⟩ := h
  rw [Option.some.inj (hpool.symm.trans hp)]
  exact ⟨hfirst, hsecond⟩

/-- The two payments of a withdrawal go through, unless they are of one coin type and more than it
has. -/
theorem payments_succeed {balances : Balances} {reserve1 reserve2 removed1 removed2 b1 b2 : ℕ}
    (hreserve1 : balances (coinType1, coinSwapAddress) = some reserve1)
    (hreserve2 : balances (coinType2, coinSwapAddress) = some reserve2)
    (hsupply : ∀ T, supply balances T < 2 ^ 64) (hne : requester ≠ coinSwapAddress)
    (hb1 : balances (coinType1, requester) = some b1) (hb2 : balances (coinType2, requester) = some b2)
    (hle1 : removed1 ≤ reserve1) (hle2 : removed2 ≤ reserve2)
    (hsame : coinType1 = coinType2 → removed1 + removed2 ≤ reserve1) :
    ∃ between after, transfer coinType1 coinSwapAddress requester removed1 balances = .ok between ∧
      transfer coinType2 coinSwapAddress requester removed2 between = .ok after := by
  obtain ⟨between, hfirst⟩ := transfer_succeeds hne.symm hreserve1 hb1 (hsupply coinType1) hle1
  have hsupply2 : supply between coinType2 < 2 ^ 64 := by
    rw [transfer_supply coinType2 hfirst]
    exact hsupply coinType2
  by_cases hT : coinType2 = coinType1
  · subst hT
    have hcovered : removed2 ≤ reserve1 - removed1 := by
      have htotal := hsame rfl
      omega
    obtain ⟨-, hleft⟩ := transfer_sender hreserve1 hfirst
    obtain ⟨after, hsecond⟩ :=
      transfer_succeeds hne.symm hleft (transfer_dest hb1 hfirst) hsupply2 hcovered
    exact ⟨between, after, hfirst, hsecond⟩
  · have hleft := (transfer_other hT hfirst).trans hreserve2
    have hb2' := (transfer_other hT hfirst).trans hb2
    obtain ⟨after, hsecond⟩ := transfer_succeeds hne.symm hleft hb2' hsupply2 hle2
    exact ⟨between, after, hfirst, hsecond⟩

/-- A withdrawal succeeds exactly when its products fit; a pool of one coin type with itself, which
cannot be created, would also have to cover both payments from one balance. -/
theorem removeLiquidity_succeeds_iff {share b1 b2 tokens : ℕ}
    (hpool : g.pools (coinType1, coinType2, coinSwapAddress) = some pool) (hshare : 0 < pool.share)
    (hreserve1 : g.balances (coinType1, coinSwapAddress) = some pool.coin1)
    (hreserve2 : g.balances (coinType2, coinSwapAddress) = some pool.coin2)
    (hsupply : ∀ T, supply g.balances T < 2 ^ 64) (hne : requester ≠ coinSwapAddress)
    (hb1 : g.balances (coinType1, requester) = some b1) (hb2 : g.balances (coinType2, requester) = some b2)
    (htokens : g.balances (.poolToken coinType1 coinType2, requester) = some tokens)
    (hle : share ≤ tokens) (hle' : share ≤ pool.share) :
    Succeeds (removeLiquidity coinType1 coinType2 coinSwapAddress requester share g) ↔
      (pool.coin1 * share < 2 ^ 64 ∧ pool.coin2 * share < 2 ^ 64) ∧
      (coinType1 = coinType2 → 2 * (pool.coin1 * share / pool.share) ≤ pool.coin1) := by
  have hpart : ∀ x, x * share / pool.share ≤ x := fun x =>
    Nat.div_le_of_le_mul (by rw [Nat.mul_comm]; exact Nat.mul_le_mul_right x hle')
  constructor
  · rintro ⟨g', h⟩
    refine ⟨removeLiquidity_fits hpool h, ?_⟩
    intro hT
    subst hT
    obtain ⟨p, removed1, removed2, hp, -, -, rfl, rfl, -, -, -, between, after, hfirst, hsecond, -⟩ :=
      removeLiquidity_ok h
    obtain rfl := Option.some.inj (hpool.symm.trans hp)
    have hreserves : pool.coin1 = pool.coin2 := Option.some.inj (hreserve1.symm.trans hreserve2)
    obtain ⟨-, hleft⟩ := transfer_sender hreserve1 hfirst
    obtain ⟨hcovered, -⟩ := transfer_sender hleft hsecond
    rw [← hreserves] at hcovered
    have hfirstPart := hpart pool.coin1
    omega
  · rintro ⟨⟨hfits1, hfits2⟩, hsame⟩
    have hsame' : coinType1 = coinType2 →
        pool.coin1 * share / pool.share + pool.coin2 * share / pool.share ≤ pool.coin1 := by
      intro hT
      have htwice := hsame hT
      rw [hT] at hreserve1
      rw [← Option.some.inj (hreserve1.symm.trans hreserve2)]
      omega
    obtain ⟨between, after, hfirst, hsecond⟩ :=
      payments_succeed hreserve1 hreserve2 hsupply hne hb1 hb2 (hpart _) (hpart _) hsame'
    have htokens' : after (.poolToken coinType1 coinType2, requester) = some tokens := by
      rw [transfer_other (poolToken_ne_right _ _).symm hsecond, transfer_other (poolToken_ne_left _ _).symm hfirst]
      exact htokens
    have hburn : PoolToken.burn coinType1 coinType2 requester share after = .ok _ :=
      burn_eq_ok.mpr ⟨tokens, htokens', hle, rfl⟩
    rw [removeLiquidity, borrowGlobal_eq_ok.mpr hpool, ok_bind, mul_ok hfits1, ok_bind, div_ok hshare, ok_bind,
      mul_ok hfits2, ok_bind, div_ok hshare, ok_bind, sub_ok (hpart _), ok_bind, sub_ok (hpart _), ok_bind,
      sub_ok hle', ok_bind, hfirst, ok_bind, hsecond, ok_bind, hburn, ok_bind]
    exact ⟨_, rfl⟩

end Calls

/-- **When affordable operations succeed.** With positive reserves that are the swap's own balances,
every supply a `u64` and the balances published, a swap of what the requester has and a withdrawal
of what the requester and the pool have succeed if and only if their intermediate products fit. -/
theorem affordable_operations_succeed_iff {coinType1 coinType2 : CoinType} {g : Global} {pool : LiquidityPool}
    {requester : Address} {b1 b2 : ℕ}
    (hpool : g.pools (coinType1, coinType2, coinSwapAddress) = some pool)
    (hcoin1 : 0 < pool.coin1) (hshare : 0 < pool.share)
    (hreserve1 : g.balances (coinType1, coinSwapAddress) = some pool.coin1)
    (hreserve2 : g.balances (coinType2, coinSwapAddress) = some pool.coin2)
    (hsupply : ∀ T, supply g.balances T < 2 ^ 64) (hne : requester ≠ coinSwapAddress)
    (hb1 : g.balances (coinType1, requester) = some b1) (hb2 : g.balances (coinType2, requester) = some b2) :
    (∀ coin1, coin1 ≤ b1 →
      (Succeeds (coin1ToCoin2SwapInput coinType1 coinType2 coinSwapAddress requester coin1 g) ↔
        coin1 * 997 * pool.coin2 < 2 ^ 64 ∧ pool.coin1 * 1000 + coin1 * 997 < 2 ^ 64)) ∧
    (∀ tokens share, g.balances (.poolToken coinType1 coinType2, requester) = some tokens →
      share ≤ min tokens pool.share →
      (Succeeds (removeLiquidity coinType1 coinType2 coinSwapAddress requester share g) ↔
        (pool.coin1 * share < 2 ^ 64 ∧ pool.coin2 * share < 2 ^ 64) ∧
        (coinType1 = coinType2 → 2 * (pool.coin1 * share / pool.share) ≤ pool.coin1))) := by
  constructor
  · intro coin1 hle
    rw [coin1ToCoin2SwapInput_succeeds_iff hpool hreserve1 hreserve2 hsupply hne hb1 hb2 hle]
    exact getInputPrice_succeeds_iff hcoin1
  · intro tokens share htokens hle
    obtain ⟨hle1, hle2⟩ := le_min_iff.mp hle
    exact removeLiquidity_succeeds_iff hpool hshare hreserve1 hreserve2 hsupply hne hb1 hb2 htokens hle1 hle2

/-- A pool of `n` coins of each of two types for `n` shares, whose owner has as many coins left. -/
def pooled (n : ℕ) : Global where
  balances key :=
    if key = (coinA, alice) ∨ key = (coinB, alice) ∨ key = (.poolToken coinA coinB, alice) ∨
        key = (coinA, coinSwapAddress) ∨ key = (coinB, coinSwapAddress) then some n
    else none
  pools key := if key = (coinA, coinB, coinSwapAddress) then some ⟨n, n, n⟩ else none

theorem pooled_supply (n : ℕ) (T : CoinType) : supply (pooled n).balances T ≤ n + n := by
  have hheld : ∀ a, held (pooled n).balances T a ≤
      (if a = alice then n else 0) + (if a = coinSwapAddress then n else 0) := by
    intro a
    have hle : held (pooled n).balances T a ≤ n := by
      simp only [held, pooled]
      split <;> simp
    by_cases halice : a = alice
    · rw [if_pos halice]
      exact hle.trans (Nat.le_add_right _ _)
    · by_cases hswap : a = coinSwapAddress
      · rw [if_pos hswap]
        exact hle.trans (Nat.le_add_left _ _)
      · simp [held, pooled, halice, hswap]
  calc supply (pooled n).balances T
      ≤ ∑ a : Address, ((if a = alice then n else 0) + (if a = coinSwapAddress then n else 0)) :=
        Finset.sum_le_sum fun a _ => hheld a
    _ = n + n := by
        rw [Finset.sum_add_distrib, Finset.sum_ite_eq', Finset.sum_ite_eq', if_pos (Finset.mem_univ _),
          if_pos (Finset.mem_univ _)]

theorem affordable_operations_succeed_iff_small :
    (pooled 100).pools (coinA, coinB, coinSwapAddress) = some ⟨100, 100, 100⟩ ∧
      Succeeds (coin1ToCoin2SwapInput coinA coinB coinSwapAddress alice 50 (pooled 100)) ∧
      Succeeds (removeLiquidity coinA coinB coinSwapAddress alice 100 (pooled 100)) := by
  have hpool : (pooled 100).pools (coinA, coinB, coinSwapAddress) = some ⟨100, 100, 100⟩ := rfl
  have hreserve1 : (pooled 100).balances (coinA, coinSwapAddress) = some 100 := rfl
  have hreserve2 : (pooled 100).balances (coinB, coinSwapAddress) = some 100 := rfl
  have hb1 : (pooled 100).balances (coinA, alice) = some 100 := rfl
  have hb2 : (pooled 100).balances (coinB, alice) = some 100 := rfl
  have htokens : (pooled 100).balances (.poolToken coinA coinB, alice) = some 100 := rfl
  have hboth := affordable_operations_succeed_iff hpool (by decide) (by decide) hreserve1 hreserve2
    (fun T => (pooled_supply 100 T).trans_lt (by decide)) (by decide) hb1 hb2
  exact ⟨rfl, (hboth.1 50 (by decide)).mpr (by decide), (hboth.2 100 100 htokens (by decide)).mpr (by decide)⟩

/-- With `10 ^ 10` of each coin in the pool and with its owner, who can neither swap the coins nor
withdraw the shares. -/
theorem affordable_operations_overflow :
    ∃ g, g = pooled (10 ^ 10) ∧ (∀ T, supply g.balances T < 2 ^ 64) ∧
      g.pools (coinA, coinB, coinSwapAddress) = some ⟨10 ^ 10, 10 ^ 10, 10 ^ 10⟩ ∧
      (g.balances (coinA, coinSwapAddress) = some (10 ^ 10) ∧
        g.balances (coinB, coinSwapAddress) = some (10 ^ 10)) ∧
      (g.balances (coinA, alice) = some (10 ^ 10) ∧ g.balances (coinB, alice) = some (10 ^ 10) ∧
        g.balances (.poolToken coinA coinB, alice) = some (10 ^ 10)) ∧
      coin1ToCoin2SwapInput coinA coinB coinSwapAddress alice (10 ^ 10) g = .error .arithmetic ∧
      removeLiquidity coinA coinB coinSwapAddress alice (10 ^ 10) g = .error .arithmetic :=
  ⟨_, rfl, fun T => (pooled_supply (10 ^ 10) T).trans_lt (by decide), rfl, ⟨rfl, rfl⟩, ⟨rfl, rfl, rfl⟩,
    rfl, rfl⟩

end MoveTutorial.Swap
