import MoveTutorial.SwapModel

/-! Whether the reserves a pool records are backed by coins. Swaps and withdrawals book no more than
they move. A deposit books the second coin at the amount it computes from the minted shares and moves
the amount the depositor names, so the reserves stay backed when the depositor names at least what is
booked. -/

namespace MoveTutorial.Swap

open Move Coin

theorem poolToken_ne_left (coinType1 coinType2 : CoinType) : coinType1 ≠ .poolToken coinType1 coinType2 := by
  intro h
  have hsize := congrArg sizeOf h
  rw [CoinType.poolToken.sizeOf_spec] at hsize
  omega

theorem poolToken_ne_right (coinType1 coinType2 : CoinType) : coinType2 ≠ .poolToken coinType1 coinType2 := by
  intro h
  have hsize := congrArg sizeOf h
  rw [CoinType.poolToken.sizeOf_spec] at hsize
  omega

variable (coinType1 coinType2 : CoinType)

/-- The recorded reserves are at most the balances at the address of the swap. -/
def Solvent (g : Global) : Prop :=
  ∃ pool b1 b2, g.pools (coinType1, coinType2, coinSwapAddress) = some pool ∧
    balanceOf coinType1 coinSwapAddress g.balances = .ok b1 ∧ pool.coin1 ≤ b1 ∧
    balanceOf coinType2 coinSwapAddress g.balances = .ok b2 ∧ pool.coin2 ≤ b2

/-- A deposit pays at least the second coin that the pool books for it: the minted shares' part of the
recorded reserve, both quotients rounded down. -/
def PaysBooked (g : Global) : SwapCall → Prop
  | .addLiquidity _ coin1 coin2 => ∀ pool, g.pools (coinType1, coinType2, coinSwapAddress) = some pool →
      coin1 * pool.share / pool.coin1 * pool.coin2 / pool.share ≤ coin2
  | _ => True

variable {coinType1 coinType2} {g g' : Global}

section Calls

variable (hne : coinType1 ≠ coinType2) (hsolvent : Solvent coinType1 coinType2 g)

include hne hsolvent

theorem coin1ToCoin2SwapInput_solvent {coinswap requester : Address} {coin1 : ℕ}
    (h : coin1ToCoin2SwapInput coinType1 coinType2 coinswap requester coin1 g = .ok g') :
    Solvent coinType1 coinType2 g' := by
  obtain ⟨p, b1, b2, hpool, hb1, hle1, hb2, hle2⟩ := hsolvent
  rw [balanceOf_eq_ok] at hb1 hb2
  obtain ⟨-, pool, coin2, hpool', -, hout, hpools, bal, h1, h2⟩ := coin1ToCoin2SwapInput_ok h
  obtain rfl : p = pool := Option.some.inj (hpool.symm.trans hpool')
  have hfirst := transfer_dest hb1 h1
  rw [← transfer_other hne h2] at hfirst
  rw [← transfer_other hne.symm h1] at hb2
  obtain ⟨b2', hsecond, hbound⟩ := transfer_le_add hb2 h2
  refine ⟨_, _, _, by rw [hpools, Function.update_self], balanceOf_eq_ok.mpr hfirst, ?_,
    balanceOf_eq_ok.mpr hsecond, ?_⟩
  · show p.coin1 + coin1 ≤ b1 + coin1
    omega
  · show p.coin2 - coin2 ≤ b2'
    omega

theorem removeLiquidity_solvent {coinswap requester : Address} {share : ℕ}
    (h : removeLiquidity coinType1 coinType2 coinswap requester share g = .ok g') :
    Solvent coinType1 coinType2 g' := by
  obtain ⟨p, b1, b2, hpool, hb1, hle1, hb2, hle2⟩ := hsolvent
  rw [balanceOf_eq_ok] at hb1 hb2
  obtain ⟨pool, r1, r2, hpool', -, -, -, -, -, -, hpools, bal1, bal2, h1, h2, h3⟩ := removeLiquidity_ok h
  obtain rfl : p = pool := Option.some.inj (hpool.symm.trans hpool')
  obtain ⟨b1', hfirst, hbound1⟩ := transfer_le_add hb1 h1
  rw [← transfer_other hne h2, ← burn_other (poolToken_ne_left _ _) h3] at hfirst
  rw [← transfer_other hne.symm h1] at hb2
  obtain ⟨b2', hsecond, hbound2⟩ := transfer_le_add hb2 h2
  rw [← burn_other (poolToken_ne_right _ _) h3] at hsecond
  refine ⟨_, _, _, by rw [hpools, Function.update_self], balanceOf_eq_ok.mpr hfirst, ?_,
    balanceOf_eq_ok.mpr hsecond, ?_⟩
  · show p.coin1 - r1 ≤ b1'
    omega
  · show p.coin2 - r2 ≤ b2'
    omega

omit hsolvent in
/-- What a deposit does to the recorded reserves and to the balances behind them. -/
theorem addLiquidity_reserves {pool : LiquidityPool} {b1 b2 : ℕ} {account : Address} {coin1 coin2 : ℕ}
    (hpool : g.pools (coinType1, coinType2, coinSwapAddress) = some pool)
    (hb1 : g.balances (coinType1, coinSwapAddress) = some b1)
    (hb2 : g.balances (coinType2, coinSwapAddress) = some b2)
    (h : addLiquidity coinType1 coinType2 account coin1 coin2 g = .ok g') :
    (∃ pool', g'.pools (coinType1, coinType2, coinSwapAddress) = some pool' ∧
      pool'.coin1 = pool.coin1 + coin1 ∧
      pool'.coin2 = pool.coin2 + coin1 * pool.share / pool.coin1 * pool.coin2 / pool.share) ∧
    g'.balances (coinType1, coinSwapAddress) = some (b1 + coin1) ∧
    g'.balances (coinType2, coinSwapAddress) = some (b2 + coin2) := by
  obtain ⟨p, minted, added, hpool', -, -, rfl, rfl, hpools, bal1, bal2, h1, h2, h3⟩ := addLiquidity_ok h
  obtain rfl : pool = p := Option.some.inj (hpool.symm.trans hpool')
  have hfirst := transfer_dest hb1 h1
  rw [← transfer_other hne h2, ← mint_other (poolToken_ne_left _ _) h3] at hfirst
  rw [← transfer_other hne.symm h1] at hb2
  have hsecond := transfer_dest hb2 h2
  rw [← mint_other (poolToken_ne_right _ _) h3] at hsecond
  exact ⟨⟨_, by rw [hpools, Function.update_self], rfl, rfl⟩, hfirst, hsecond⟩

theorem addLiquidity_solvent {account : Address} {coin1 coin2 : ℕ}
    (hpaid : PaysBooked coinType1 coinType2 g (.addLiquidity account coin1 coin2))
    (h : addLiquidity coinType1 coinType2 account coin1 coin2 g = .ok g') :
    Solvent coinType1 coinType2 g' := by
  obtain ⟨p, b1, b2, hpool, hb1, hle1, hb2, hle2⟩ := hsolvent
  rw [balanceOf_eq_ok] at hb1 hb2
  obtain ⟨⟨p', hpools, hcoin1, hcoin2⟩, hfirst, hsecond⟩ := addLiquidity_reserves hne hpool hb1 hb2 h
  have hbooked := hpaid p hpool
  exact ⟨p', _, _, hpools, balanceOf_eq_ok.mpr hfirst, by omega, balanceOf_eq_ok.mpr hsecond, by omega⟩

theorem swapExec_solvent {call : SwapCall} {u : Unit} (hpaid : PaysBooked coinType1 coinType2 g call)
    (h : swapExec coinType1 coinType2 call g = .ok (u, g')) : Solvent coinType1 coinType2 g' := by
  rcases swapExec_cases h with ⟨coinswap, requester, coin1, rfl, hswap⟩ | ⟨account, coin1, coin2, rfl, hadd⟩ |
    ⟨coinswap, requester, share, rfl, hremove⟩
  · exact coin1ToCoin2SwapInput_solvent hne hsolvent hswap
  · exact addLiquidity_solvent hne hsolvent hpaid hadd
  · exact removeLiquidity_solvent hne hsolvent hremove

end Calls

/-- From exactly backed reserves, an underpaid deposit leaves a pool that is not backed. -/
theorem addLiquidity_not_solvent (hne : coinType1 ≠ coinType2) {account : Address} {coin1 coin2 : ℕ}
    {pool : LiquidityPool} {b1 : ℕ}
    (hpool : g.pools (coinType1, coinType2, coinSwapAddress) = some pool)
    (hb1 : balanceOf coinType1 coinSwapAddress g.balances = .ok b1)
    (hb2 : balanceOf coinType2 coinSwapAddress g.balances = .ok pool.coin2)
    (hpaid : ¬PaysBooked coinType1 coinType2 g (.addLiquidity account coin1 coin2))
    (h : addLiquidity coinType1 coinType2 account coin1 coin2 g = .ok g') :
    ¬Solvent coinType1 coinType2 g' := by
  rw [balanceOf_eq_ok] at hb1 hb2
  obtain ⟨⟨p', hpools, hcoin1, hcoin2⟩, hfirst, hsecond⟩ := addLiquidity_reserves hne hpool hb1 hb2 h
  rintro ⟨q, c1, c2, hq, -, -, hc2, hle⟩
  obtain rfl : p' = q := Option.some.inj (hpools.symm.trans hq)
  have hc : pool.coin2 + coin2 = c2 := Option.some.inj (hsecond.symm.trans (balanceOf_eq_ok.mp hc2))
  apply hpaid
  intro p hp
  obtain rfl : pool = p := Option.some.inj (hpool.symm.trans hp)
  omega

/-- A new pool has different coin types, since the balance of neither was published before. -/
theorem createPool_ne {coinswap requester : Address} {coin1 coin2 share : ℕ}
    (h : createPool coinType1 coinType2 coinswap requester coin1 coin2 share g = .ok g') :
    coinType1 ≠ coinType2 := by
  obtain ⟨-, -, -, b1, b2, -, -, h1, h2, -⟩ := createPool_ok h
  obtain ⟨-, rfl⟩ := publishBalance_eq_ok.mp h1
  obtain ⟨hnone, -⟩ := publishBalance_eq_ok.mp h2
  intro heq
  rw [heq, Function.update_self] at hnone
  cases hnone

theorem setupAndMint_other {T : CoinType} (hT : T ≠ .poolToken coinType1 coinType2)
    {account addr : Address} {amount : ℕ} {balances balances' : Balances}
    (h : PoolToken.setupAndMint coinType1 coinType2 account amount balances = .ok balances') :
    balances' (T, addr) = balances (T, addr) := by
  simp only [PoolToken.setupAndMint, bind_eq_ok, publishBalance_eq_ok] at h
  obtain ⟨_, ⟨-, rfl⟩, hmint⟩ := h
  rw [mint_other hT hmint, update_balance_of_ne hT]

theorem createPool_solvent {coinswap requester : Address} {coin1 coin2 share : ℕ}
    (h : createPool coinType1 coinType2 coinswap requester coin1 coin2 share g = .ok g') :
    Solvent coinType1 coinType2 g' := by
  have hne := createPool_ne h
  obtain ⟨-, -, hpools, b1, b2, b3, b4, h1, h2, h3, h4, h5⟩ := createPool_ok h
  obtain ⟨-, rfl⟩ := publishBalance_eq_ok.mp h1
  obtain ⟨-, rfl⟩ := publishBalance_eq_ok.mp h2
  have hfirst := transfer_dest (by rw [update_balance_of_ne hne, Function.update_self]) h3
  rw [← transfer_other hne h4, ← setupAndMint_other (poolToken_ne_left _ _) h5] at hfirst
  have hzero : b3 (coinType2, coinSwapAddress) = some 0 := by
    rw [transfer_other hne.symm h3, Function.update_self]
  have hsecond := transfer_dest hzero h4
  rw [← setupAndMint_other (poolToken_ne_right _ _) h5] at hsecond
  refine ⟨_, _, _, by rw [hpools, Function.update_self], balanceOf_eq_ok.mpr hfirst, ?_,
    balanceOf_eq_ok.mpr hsecond, ?_⟩
  · show coin1 ≤ 0 + coin1
    omega
  · show coin2 ≤ 0 + coin2
    omega

/-- **When the reserves are backed.** Every run from the creation of a pool whose deposits pay at least
what the pool books for them ends with backed reserves; and where the second reserve is exactly
backed, the next deposit leaves the reserves backed only if it does so. -/
theorem reserves_backed_of_deposits_paid {coinswap requester : Address} {coin1 coin2 share : ℕ}
    {calls : List SwapCall}
    (hcreate : createPool coinType1 coinType2 coinswap requester coin1 coin2 share g = .ok g')
    (hpaid : Along (swapExec coinType1 coinType2) (PaysBooked coinType1 coinType2) g' calls) :
    Solvent coinType1 coinType2 (run (swapExec coinType1 coinType2) g' calls) ∧
      ∀ reached pool b1 account coin1 coin2 next, reached = run (swapExec coinType1 coinType2) g' calls →
        reached.pools (coinType1, coinType2, coinSwapAddress) = some pool →
        balanceOf coinType1 coinSwapAddress reached.balances = .ok b1 →
        balanceOf coinType2 coinSwapAddress reached.balances = .ok pool.coin2 →
        addLiquidity coinType1 coinType2 account coin1 coin2 reached = .ok next →
        (Solvent coinType1 coinType2 next ↔
          PaysBooked coinType1 coinType2 reached (.addLiquidity account coin1 coin2)) := by
  have hne := createPool_ne hcreate
  have hrun := run_invariant (fun _ _ _ _ hsolvent hpays hok => swapExec_solvent hne hsolvent hpays hok)
    (createPool_solvent hcreate) hpaid
  refine ⟨hrun, ?_⟩
  rintro reached pool b1 account coin1 coin2 next rfl hpool hb1 hb2 hadd
  refine ⟨fun hsolvent => ?_, fun hpays => addLiquidity_solvent hne hrun hpays hadd⟩
  by_contra hunpaid
  exact addLiquidity_not_solvent hne hpool hb1 hb2 hunpaid hadd hsolvent

/-! ### A pool of two coins -/

def alice : Address := 0xa11ce
def coinA : CoinType := .named 0
def coinB : CoinType := .named 1

/-- One address holds coins of two types, and nothing else is published. -/
def twoCoins : Global where
  balances key := if key = (coinA, alice) ∨ key = (coinB, alice) then some 100 else none
  pools _ := none

/-- The state in which that address has put four coins of each type into a pool, for two shares. -/
def twoCoinsPooled : Global :=
  (createPool coinA coinB coinSwapAddress alice 4 4 2 twoCoins).toOption.getD twoCoins

theorem createPool_twoCoins :
    createPool coinA coinB coinSwapAddress alice 4 4 2 twoCoins = .ok twoCoinsPooled := rfl

theorem reserves_backed_of_deposits_paid_small :
    createPool coinA coinB coinSwapAddress alice 4 4 2 twoCoins = .ok twoCoinsPooled ∧
      Along (swapExec coinA coinB) (PaysBooked coinA coinB) twoCoinsPooled [.addLiquidity alice 4 4] ∧
      Solvent coinA coinB (run (swapExec coinA coinB) twoCoinsPooled [.addLiquidity alice 4 4]) := by
  have hpaid : Along (swapExec coinA coinB) (PaysBooked coinA coinB) twoCoinsPooled
      [.addLiquidity alice 4 4] := by
    refine ⟨fun pool hpool => ?_, trivial⟩
    obtain rfl : ⟨4, 4, 2⟩ = pool := Option.some.inj hpool
    decide
  exact ⟨rfl, hpaid, (reserves_backed_of_deposits_paid createPool_twoCoins hpaid).1⟩

/-- A deposit of four of the first coin and none of the second is accepted, and the pool then records
eight of a coin of which it holds four. -/
theorem underpaid_deposit_breaks_backing :
    createPool coinA coinB coinSwapAddress alice 4 4 2 twoCoins = .ok twoCoinsPooled ∧
      Succeeds (swapExec coinA coinB (.addLiquidity alice 4 0) twoCoinsPooled) ∧
      ∃ g, g = run (swapExec coinA coinB) twoCoinsPooled [.addLiquidity alice 4 0] ∧
        g.pools (coinA, coinB, coinSwapAddress) = some ⟨8, 8, 4⟩ ∧
        balanceOf coinB coinSwapAddress g.balances = .ok 4 ∧ ¬Solvent coinA coinB g := by
  refine ⟨rfl, ⟨_, rfl⟩, _, rfl, rfl, rfl, ?_⟩
  rintro ⟨pool, b1, b2, hpool, -, -, hb2, hle⟩
  obtain rfl : ⟨8, 8, 4⟩ = pool := Option.some.inj hpool
  obtain rfl : 4 = b2 := Except.ok.inj hb2
  revert hle
  decide

end MoveTutorial.Swap
