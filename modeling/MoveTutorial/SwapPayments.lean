import MoveTutorial.SwapLimits

/-! What a withdrawal of liquidity pays out, and who pays it. The pool is the one at `@CoinSwap`, but the coins
are taken from the signer that the caller passes, which is not compared with that address. -/

namespace MoveTutorial.Swap

open Move Coin

/-- The coins that leave the pool's records leave the balances of `@CoinSwap` for the requester, who gives
up the shares; no other address is concerned. -/
def MovesBooked (coinType1 coinType2 : CoinType) (requester : Address) (share : ℕ) (g g' : Global) : Prop :=
  ∃ pool pool' paid1 paid2, g.pools (coinType1, coinType2, coinSwapAddress) = some pool ∧
    g'.pools (coinType1, coinType2, coinSwapAddress) = some pool' ∧
    (pool'.coin1 + paid1 = pool.coin1 ∧ pool'.coin2 + paid2 = pool.coin2) ∧
    (held g'.balances coinType1 coinSwapAddress + paid1 = held g.balances coinType1 coinSwapAddress ∧
      held g'.balances coinType2 coinSwapAddress + paid2 = held g.balances coinType2 coinSwapAddress) ∧
    (held g'.balances coinType1 requester = held g.balances coinType1 requester + paid1 ∧
      held g'.balances coinType2 requester = held g.balances coinType2 requester + paid2) ∧
    (held g'.balances (.poolToken coinType1 coinType2) requester + share =
      held g.balances (.poolToken coinType1 coinType2) requester ∧ pool'.share + share = pool.share) ∧
    ∀ addr, addr ≠ coinSwapAddress → addr ≠ requester → ∀ T, g'.balances (T, addr) = g.balances (T, addr)

section Removal

variable {coinType1 coinType2 : CoinType} {coinswap requester : Address} {share removed1 removed2 : ℕ}
  {b b1 b2 b3 : Balances} (h1 : transfer coinType1 coinswap requester removed1 b = .ok b1)
  (h2 : transfer coinType2 coinswap requester removed2 b1 = .ok b2)
  (h3 : PoolToken.burn coinType1 coinType2 requester share b2 = .ok b3)

include h1 h2 h3

/-- What the three steps do to every balance. -/
theorem payments_held (T : CoinType) (addr : Address) :
    held b3 T addr + (if T = coinType1 ∧ addr = coinswap then removed1 else 0) +
        (if T = coinType2 ∧ addr = coinswap then removed2 else 0) +
        (if T = .poolToken coinType1 coinType2 ∧ addr = requester then share else 0) =
      held b T addr + (if T = coinType1 ∧ addr = requester then removed1 else 0) +
        (if T = coinType2 ∧ addr = requester then removed2 else 0) := by
  have hfirst := transfer_held h1 T addr
  have hsecond := transfer_held h2 T addr
  have hburn := burn_held h3 T addr
  omega

theorem payments_bystander {addr : Address} (hpayer : addr ≠ coinswap) (hrequester : addr ≠ requester) (T : CoinType) :
    b3 (T, addr) = b (T, addr) := by
  calc b3 (T, addr) = b2 (T, addr) := burn_bystander hrequester h3
    _ = b1 (T, addr) := transfer_bystander hpayer hrequester h2
    _ = b (T, addr) := transfer_bystander hpayer hrequester h1

/-- The balances of `@CoinSwap` fall by the removed amounts only if it pays them, or nothing is removed. -/
theorem paid_of_fall (hfall1 : held b3 coinType1 coinSwapAddress + removed1 = held b coinType1 coinSwapAddress)
    (hfall2 : held b3 coinType2 coinSwapAddress + removed2 = held b coinType2 coinSwapAddress) :
    (coinswap = coinSwapAddress ∧ coinType1 ≠ coinType2) ∨ (removed1 = 0 ∧ removed2 = 0) := by
  have hout1 := payments_held h1 h2 h3 coinType1 coinSwapAddress
  have hout2 := payments_held h1 h2 h3 coinType2 coinSwapAddress
  have htoken1 := poolToken_ne_left coinType1 coinType2
  have htoken2 := poolToken_ne_right coinType1 coinType2
  by_cases hsigner : coinswap = coinSwapAddress
  · subst hsigner
    by_cases hsame : coinType1 = coinType2
    · have hne : coinSwapAddress ≠ requester := (transfer_eq_ok.mp h1).1
      subst hsame
      simp only [htoken1, hne, and_self, and_false, if_true, if_false] at hout1
      exact Or.inr ⟨by omega, by omega⟩
    · exact Or.inl ⟨rfl, hsame⟩
  · have hpayer : coinSwapAddress ≠ coinswap := fun h => hsigner h.symm
    simp only [htoken1, htoken2, hpayer, true_and, and_false, false_and, if_false] at hout1 hout2
    refine Or.inr ⟨?_, ?_⟩
    · split at hout1 <;> omega
    · split at hout2 <;> omega

/-- The shares are given up whoever pays. -/
theorem token_fall :
    held b3 (.poolToken coinType1 coinType2) requester + share = held b (.poolToken coinType1 coinType2) requester := by
  have htoken := payments_held h1 h2 h3 (.poolToken coinType1 coinType2) requester
  simp only [(poolToken_ne_left coinType1 coinType2).symm, (poolToken_ne_right coinType1 coinType2).symm, true_and,
    false_and, if_true, if_false] at htoken
  exact htoken

/-- Two coins paid by `@CoinSwap`. -/
theorem paid_by_coinSwap (hsigner : coinswap = coinSwapAddress) (hdiff : coinType1 ≠ coinType2) :
    (held b3 coinType1 coinSwapAddress + removed1 = held b coinType1 coinSwapAddress ∧
      held b3 coinType2 coinSwapAddress + removed2 = held b coinType2 coinSwapAddress) ∧
    (held b3 coinType1 requester = held b coinType1 requester + removed1 ∧
      held b3 coinType2 requester = held b coinType2 requester + removed2) := by
  subst hsigner
  have hne : coinSwapAddress ≠ requester := (transfer_eq_ok.mp h1).1
  have htoken1 := poolToken_ne_left coinType1 coinType2
  have htoken2 := poolToken_ne_right coinType1 coinType2
  have hout1 := payments_held h1 h2 h3 coinType1 coinSwapAddress
  have hout2 := payments_held h1 h2 h3 coinType2 coinSwapAddress
  have hin1 := payments_held h1 h2 h3 coinType1 requester
  have hin2 := payments_held h1 h2 h3 coinType2 requester
  simp only [hne, hne.symm, hdiff, hdiff.symm, htoken1, htoken2, and_self, and_false, false_and, if_true, if_false]
    at hout1 hout2 hin1 hin2
  omega

end Removal

section Worthless

variable {coinType1 coinType2 : CoinType} {coinswap requester : Address} {share : ℕ} {b b1 b2 b3 : Balances}
  (h1 : transfer coinType1 coinswap requester 0 b = .ok b1) (h2 : transfer coinType2 coinswap requester 0 b1 = .ok b2)
  (h3 : PoolToken.burn coinType1 coinType2 requester share b2 = .ok b3)

include h1 h2 h3

/-- Where no coin is removed, only the shares of the requester change. -/
theorem nothing_paid :
    (∀ addr, held b3 coinType1 addr = held b coinType1 addr ∧ held b3 coinType2 addr = held b coinType2 addr) ∧
      ∀ addr, addr ≠ requester → ∀ T, b3 (T, addr) = b (T, addr) := by
  obtain rfl : b2 = b := (transfer_zero h2).trans (transfer_zero h1)
  refine ⟨fun addr => ⟨?_, ?_⟩, fun addr hne T => burn_bystander hne h3⟩
  · rw [held, burn_other (poolToken_ne_left coinType1 coinType2) h3, held]
  · rw [held, burn_other (poolToken_ne_right coinType1 coinType2) h3, held]

end Worthless

/-- A successful withdrawal moves what it books exactly if the signer is `@CoinSwap` and the coin types
differ, or if the shares are worth no coin. -/
theorem removal_moves_booked_iff {coinType1 coinType2 : CoinType} {coinswap requester : Address} {share : ℕ}
    {g g' : Global} {pool : LiquidityPool} (hpool : g.pools (coinType1, coinType2, coinSwapAddress) = some pool)
    (hok : removeLiquidity coinType1 coinType2 coinswap requester share g = .ok g') :
    MovesBooked coinType1 coinType2 requester share g g' ↔
      (coinswap = coinSwapAddress ∧ coinType1 ≠ coinType2) ∨
      (pool.coin1 * share < pool.share ∧ pool.coin2 * share < pool.share) := by
  obtain ⟨pool', removed1, removed2, hpool', hpos, hshare, hremoved1, hremoved2, hle1, hle2, hpools, b1, b2, h1, h2,
    h3⟩ := removeLiquidity_ok hok
  obtain rfl : pool = pool' := Option.some.inj (hpool.symm.trans hpool')
  have hafter : g'.pools (coinType1, coinType2, coinSwapAddress) =
      some ⟨pool.coin1 - removed1, pool.coin2 - removed2, pool.share - share⟩ := by
    rw [hpools, Function.update_self]
  have hbooked : pool.coin1 - removed1 + removed1 = pool.coin1 ∧ pool.coin2 - removed2 + removed2 = pool.coin2 :=
    ⟨Nat.sub_add_cancel hle1, Nat.sub_add_cancel hle2⟩
  have hburned := token_fall h1 h2 h3
  rw [← Nat.div_eq_zero_iff_lt hpos, ← Nat.div_eq_zero_iff_lt hpos, ← hremoved1, ← hremoved2]
  constructor
  · rintro ⟨p, p', paid1, paid2, hp, hp', ⟨hpaid1, hpaid2⟩, ⟨hfall1, hfall2⟩, -⟩
    obtain rfl : pool = p := Option.some.inj (hpool.symm.trans hp)
    obtain rfl := Option.some.inj (hafter.symm.trans hp')
    obtain rfl : paid1 = removed1 := Nat.add_left_cancel (hpaid1.trans hbooked.1.symm)
    obtain rfl : paid2 = removed2 := Nat.add_left_cancel (hpaid2.trans hbooked.2.symm)
    exact paid_of_fall h1 h2 h3 hfall1 hfall2
  · rintro (⟨hsigner, hdiff⟩ | ⟨hzero1, hzero2⟩)
    · obtain ⟨hfall, hrise⟩ := paid_by_coinSwap h1 h2 h3 hsigner hdiff
      refine ⟨pool, _, removed1, removed2, hpool, hafter, hbooked, hfall, hrise,
        ⟨hburned, Nat.sub_add_cancel hshare⟩, ?_⟩
      intro addr haddr hrequester T
      exact payments_bystander h1 h2 h3 (hsigner ▸ haddr) hrequester T
    · rw [hzero1] at h1 hafter hbooked
      rw [hzero2] at h2 hafter hbooked
      obtain ⟨hsame, hother⟩ := nothing_paid h1 h2 h3
      exact ⟨pool, _, 0, 0, hpool, hafter, hbooked, hsame coinSwapAddress, hsame requester,
        ⟨hburned, Nat.sub_add_cancel hshare⟩, fun addr _ => hother addr⟩

def bob : Address := 0xb0b

/-- The pool of ten coins of each type, and ten of each with an address that has no part in it. -/
def pooledBeside : Global :=
  { pooled 10 with
    balances := Function.update (Function.update (pooled 10).balances (coinA, bob) (some 10)) (coinB, bob) (some 10) }

theorem removal_moves_booked_iff_small :
    ∃ g', removeLiquidity coinA coinB coinSwapAddress alice 5 pooledBeside = .ok g' ∧
      MovesBooked coinA coinB alice 5 pooledBeside g' := by
  have hpool : pooledBeside.pools (coinA, coinB, coinSwapAddress) = some ⟨10, 10, 10⟩ := rfl
  exact ⟨_, rfl, (removal_moves_booked_iff hpool rfl).mpr (Or.inl ⟨rfl, by decide⟩)⟩

/-- Half of the shares are redeemed with another signer: the pool books out the coins, which are still at
`@CoinSwap`, and the other signer has paid them. -/
theorem bystander_pays_removal :
    ∃ g', removeLiquidity coinA coinB bob alice 5 pooledBeside = .ok g' ∧
      g'.pools (coinA, coinB, coinSwapAddress) = some ⟨5, 5, 5⟩ ∧
      g'.balances (coinA, coinSwapAddress) = some 10 ∧ g'.balances (coinA, bob) = some 5 ∧
      ¬MovesBooked coinA coinB alice 5 pooledBeside g' := by
  refine ⟨_, rfl, rfl, rfl, rfl, ?_⟩
  rintro ⟨-, -, -, -, -, -, -, -, -, -, hother⟩
  have hbob : some 5 = some 10 := hother bob (by decide) (by decide) coinA
  exact absurd (Option.some.inj hbob) (by decide)

end MoveTutorial.Swap
