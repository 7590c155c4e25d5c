import MoveTutorial.SwapSolvency

/-! Whether the outstanding pool tokens are the shares of the pool. Every call of `CoinSwap` issues and
destroys as many tokens as it books shares, and transfers move them. `PoolToken` lets anyone issue and
destroy tokens of any pool without booking a share, so the two agree through a run exactly when no
such call with a nonzero amount is made. -/

namespace MoveTutorial.Swap

open Move Coin

variable (coinType1 coinType2 : CoinType)

/-- The sum of the pool-token balances over all addresses is the recorded number of shares. -/
def SharesIssued (g : Global) : Prop :=
  ∃ pool, g.pools (coinType1, coinType2, coinSwapAddress) = some pool ∧
    ∑ addr, held g.balances (.poolToken coinType1 coinType2) addr = pool.share

/-- The call issues or destroys no tokens of the pool past its books. -/
def NoDirectIssue : PublicCall → Prop
  | .token d1 d2 (.setupAndMint _ amount) => (d1, d2) = (coinType1, coinType2) → amount = 0
  | .token d1 d2 (.mint _ amount) => (d1, d2) = (coinType1, coinType2) → amount = 0
  | .token d1 d2 (.burn _ amount) => (d1, d2) = (coinType1, coinType2) → amount = 0
  | _ => True

variable {coinType1 coinType2} {d1 d2 : CoinType} {g g' : Global}

theorem sharesIssued_iff : SharesIssued coinType1 coinType2 g ↔
    ∃ pool, g.pools (coinType1, coinType2, coinSwapAddress) = some pool ∧
      supply g.balances (.poolToken coinType1 coinType2) = pool.share := Iff.rfl

theorem poolToken_ne (h : (d1, d2) ≠ (coinType1, coinType2)) :
    CoinType.poolToken coinType1 coinType2 ≠ .poolToken d1 d2 := by
  intro heq
  obtain ⟨rfl, rfl⟩ := CoinType.poolToken.inj heq
  exact h rfl

/-- Updating the pool of other coin types leaves this one. -/
theorem pools_update_of_ne (h : (d1, d2) ≠ (coinType1, coinType2)) (v : Option LiquidityPool) :
    Function.update g.pools (d1, d2, coinSwapAddress) v (coinType1, coinType2, coinSwapAddress) =
      g.pools (coinType1, coinType2, coinSwapAddress) := by
  apply Function.update_of_ne
  intro heq
  simp only [Prod.mk.injEq] at heq
  exact h (by rw [heq.1, heq.2.1])

theorem setupAndMint_supply {account : Address} {amount : ℕ} {balances balances' : Balances}
    (h : PoolToken.setupAndMint d1 d2 account amount balances = .ok balances') :
    supply balances' (.poolToken d1 d2) = supply balances (.poolToken d1 d2) + amount := by
  simp only [PoolToken.setupAndMint, bind_eq_ok] at h
  obtain ⟨published, hpublish, hmint⟩ := h
  rw [mint_supply hmint, publishBalance_supply _ hpublish]

theorem setupAndMint_supply_of_ne {T : CoinType} (hT : T ≠ .poolToken d1 d2) {account : Address} {amount : ℕ}
    {balances balances' : Balances}
    (h : PoolToken.setupAndMint d1 d2 account amount balances = .ok balances') :
    supply balances' T = supply balances T := by
  simp only [PoolToken.setupAndMint, bind_eq_ok] at h
  obtain ⟨published, hpublish, hmint⟩ := h
  rw [mint_supply_of_ne hT hmint, publishBalance_supply _ hpublish]

section Calls

variable (hissued : SharesIssued coinType1 coinType2 g)

include hissued

/-- A call that replaces one pool, and moves the supply of its token with the shares and no other. -/
theorem sharesIssued_of_update {pool pool' : LiquidityPool} (hpool : g.pools (d1, d2, coinSwapAddress) = some pool)
    (hpools : g'.pools = Function.update g.pools (d1, d2, coinSwapAddress) (some pool'))
    (hsame : supply g.balances (.poolToken d1 d2) = pool.share → supply g'.balances (.poolToken d1 d2) = pool'.share)
    (hother : ∀ T, T ≠ .poolToken d1 d2 → supply g'.balances T = supply g.balances T) :
    SharesIssued coinType1 coinType2 g' := by
  obtain ⟨p, hp, hsum⟩ := sharesIssued_iff.mp hissued
  rw [sharesIssued_iff, hpools]
  by_cases hd : (d1, d2) = (coinType1, coinType2)
  · obtain ⟨rfl, rfl⟩ := Prod.mk.inj hd
    obtain rfl : p = pool := Option.some.inj (hp.symm.trans hpool)
    exact ⟨pool', Function.update_self _ _ _, hsame hsum⟩
  · refine ⟨p, (pools_update_of_ne hd _).trans hp, ?_⟩
    rw [hother _ (poolToken_ne hd), hsum]

theorem coin1ToCoin2SwapInput_sharesIssued {coinswap requester : Address} {coin1 : ℕ}
    (h : coin1ToCoin2SwapInput d1 d2 coinswap requester coin1 g = .ok g') :
    SharesIssued coinType1 coinType2 g' := by
  obtain ⟨-, pool, coin2, hpool, -, -, hpools, b1, h1, h2⟩ := coin1ToCoin2SwapInput_ok h
  have hkept : ∀ T, supply g'.balances T = supply g.balances T := fun T =>
    (transfer_supply T h2).trans (transfer_supply T h1)
  exact sharesIssued_of_update hissued hpool hpools (fun hsum => (hkept _).trans hsum) fun T _ => hkept T

theorem addLiquidity_sharesIssued {account : Address} {coin1 coin2 : ℕ}
    (h : addLiquidity d1 d2 account coin1 coin2 g = .ok g') : SharesIssued coinType1 coinType2 g' := by
  obtain ⟨pool, minted, added, hpool, -, -, -, -, hpools, b1, b2, h1, h2, h3⟩ := addLiquidity_ok h
  have hkept : ∀ T, supply b2 T = supply g.balances T := fun T =>
    (transfer_supply T h2).trans (transfer_supply T h1)
  apply sharesIssued_of_update hissued hpool hpools
  · intro hsum
    rw [mint_supply h3, hkept, hsum]
  · intro T hT
    rw [mint_supply_of_ne hT h3, hkept]

theorem removeLiquidity_sharesIssued {coinswap requester : Address} {share : ℕ}
    (h : removeLiquidity d1 d2 coinswap requester share g = .ok g') : SharesIssued coinType1 coinType2 g' := by
  obtain ⟨pool, r1, r2, hpool, -, hle, -, -, -, -, hpools, b1, b2, h1, h2, h3⟩ := removeLiquidity_ok h
  have hkept : ∀ T, supply b2 T = supply g.balances T := fun T =>
    (transfer_supply T h2).trans (transfer_supply T h1)
  apply sharesIssued_of_update hissued hpool hpools
  · intro hsum
    have hburned := burn_supply h3
    rw [hkept] at hburned
    dsimp only
    omega
  · intro T hT
    rw [burn_supply_of_ne hT h3, hkept]

theorem swapExec_sharesIssued {call : SwapCall} {u : Unit} (h : swapExec d1 d2 call g = .ok (u, g')) :
    SharesIssued coinType1 coinType2 g' := by
  rcases swapExec_cases h with ⟨coinswap, requester, coin1, -, hswap⟩ | ⟨account, coin1, coin2, -, hadd⟩ |
    ⟨coinswap, requester, share, -, hremove⟩
  · exact coin1ToCoin2SwapInput_sharesIssued hissued hswap
  · exact addLiquidity_sharesIssued hissued hadd
  · exact removeLiquidity_sharesIssued hissued hremove

/-- The pools do not change in a call of `PoolToken`, so only the supply decides. -/
theorem tokenExec_sharesIssued_iff {call : TokenCall} {u : Unit} (h : tokenExec d1 d2 call g = .ok (u, g')) :
    SharesIssued coinType1 coinType2 g' ↔ NoDirectIssue coinType1 coinType2 (.token d1 d2 call) := by
  obtain ⟨p, hp, hsum⟩ := sharesIssued_iff.mp hissued
  obtain ⟨hpools, hcall⟩ := tokenExec_cases h
  have hiff : SharesIssued coinType1 coinType2 g' ↔
      supply g'.balances (.poolToken coinType1 coinType2) = supply g.balances (.poolToken coinType1 coinType2) := by
    rw [sharesIssued_iff, hpools, hp, hsum]
    simp
  rw [hiff]
  by_cases hd : (d1, d2) = (coinType1, coinType2)
  · obtain ⟨rfl, rfl⟩ := Prod.mk.inj hd
    rcases hcall with ⟨account, amount, rfl, hmint⟩ | ⟨sender, dest, amount, rfl, htransfer⟩ |
      ⟨mintAddr, amount, rfl, hmint⟩ | ⟨burnAddr, amount, rfl, hburn⟩
    · have hsupply := setupAndMint_supply hmint
      simp only [NoDirectIssue, forall_const]
      omega
    · have hsupply := transfer_supply (.poolToken d1 d2) htransfer
      simpa only [NoDirectIssue, iff_true] using hsupply
    · have hsupply := mint_supply hmint
      simp only [NoDirectIssue, forall_const]
      omega
    · have hsupply := burn_supply hburn
      simp only [NoDirectIssue, forall_const]
      omega
  · have hT := poolToken_ne hd
    have hdirect : NoDirectIssue coinType1 coinType2 (.token d1 d2 call) := by
      cases call <;> simp [NoDirectIssue, hd]
    refine iff_of_true ?_ hdirect
    rcases hcall with ⟨account, amount, rfl, hmint⟩ | ⟨sender, dest, amount, rfl, htransfer⟩ |
      ⟨mintAddr, amount, rfl, hmint⟩ | ⟨burnAddr, amount, rfl, hburn⟩
    · exact setupAndMint_supply_of_ne hT hmint
    · exact transfer_supply _ htransfer
    · exact mint_supply_of_ne hT hmint
    · exact burn_supply_of_ne hT hburn

theorem exec_sharesIssued_iff {call : PublicCall} {u : Unit} (h : exec call g = .ok (u, g')) :
    SharesIssued coinType1 coinType2 g' ↔ NoDirectIssue coinType1 coinType2 call := by
  cases call with
  | swap d1 d2 call => exact iff_of_true (swapExec_sharesIssued hissued h) trivial
  | token d1 d2 call => exact tokenExec_sharesIssued_iff hissued h

end Calls

theorem createPool_sharesIssued {coinswap requester : Address} {coin1 coin2 share : ℕ}
    (hnone : ∑ addr, held g.balances (.poolToken coinType1 coinType2) addr = 0)
    (h : createPool coinType1 coinType2 coinswap requester coin1 coin2 share g = .ok g') :
    SharesIssued coinType1 coinType2 g' := by
  obtain ⟨-, -, hpools, b1, b2, b3, b4, h1, h2, h3, h4, h5⟩ := createPool_ok h
  rw [sharesIssued_iff, hpools]
  refine ⟨_, Function.update_self _ _ _, ?_⟩
  rw [setupAndMint_supply h5, transfer_supply _ h4, transfer_supply _ h3, publishBalance_supply _ h2,
    publishBalance_supply _ h1, supply, hnone, Nat.zero_add]

/-- **When the outstanding tokens are the shares.** In a run of calls of the two modules, at any type
arguments, some of which may abort, the pool tokens sum to the recorded shares in every state reached if
and only if every direct `setup_and_mint`, `mint` and `burn` of this pool's token that succeeds has
amount zero. -/
theorem pool_tokens_eq_shares_iff {coinswap requester : Address} {coin1 coin2 share : ℕ}
    (calls : List PublicCall)
    (hnone : ∑ addr, held g.balances (.poolToken coinType1 coinType2) addr = 0)
    (hcreate : createPool coinType1 coinType2 coinswap requester coin1 coin2 share g = .ok g') :
    (∀ pre, pre <+: calls → SharesIssued coinType1 coinType2 (run exec g' pre)) ↔
      Along exec (fun s call => Succeeds (exec call s) → NoDirectIssue coinType1 coinType2 call) g' calls :=
  forall_prefix_iff (fun _ _ _ _ hissued h => exec_sharesIssued_iff hissued h)
    (createPool_sharesIssued hnone hcreate) calls

theorem twoCoins_no_tokens : ∑ addr, held twoCoins.balances (.poolToken coinA coinB) addr = 0 := by
  apply Finset.sum_eq_zero
  intro addr _
  simp [held, twoCoins, coinA, coinB]

/-- A deposit, and a burn of more tokens than there are, which aborts. -/
theorem pool_tokens_eq_shares_iff_small :
    ∑ addr, held twoCoins.balances (.poolToken coinA coinB) addr = 0 ∧
      createPool coinA coinB coinSwapAddress alice 4 4 2 twoCoins = .ok twoCoinsPooled ∧
      Succeeds (exec (.swap coinA coinB (.addLiquidity alice 4 4)) twoCoinsPooled) ∧
      Aborts (exec (.token coinA coinB (.burn alice 100))
        (run exec twoCoinsPooled [.swap coinA coinB (.addLiquidity alice 4 4)])) ∧
      ∀ pre, pre <+: [.swap coinA coinB (.addLiquidity alice 4 4), .token coinA coinB (.burn alice 100)] →
        SharesIssued coinA coinB (run exec twoCoinsPooled pre) := by
  have habort : Aborts (exec (.token coinA coinB (.burn alice 100))
      (run exec twoCoinsPooled [.swap coinA coinB (.addLiquidity alice 4 4)])) := ⟨_, rfl⟩
  refine ⟨twoCoins_no_tokens, rfl, ⟨_, rfl⟩, habort, ?_⟩
  rw [pool_tokens_eq_shares_iff _ twoCoins_no_tokens createPool_twoCoins]
  exact ⟨fun _ => trivial, fun hburn => absurd hburn (aborts_iff_not_succeeds.mp habort), trivial⟩

/-- Anyone may call `PoolToken::mint`: five tokens more, and still two shares. -/
theorem direct_mint_breaks_shares :
    ∑ addr, held twoCoins.balances (.poolToken coinA coinB) addr = 0 ∧
      createPool coinA coinB coinSwapAddress alice 4 4 2 twoCoins = .ok twoCoinsPooled ∧
      Succeeds (exec (.token coinA coinB (.mint alice 5)) twoCoinsPooled) ∧
      ¬SharesIssued coinA coinB (run exec twoCoinsPooled [.token coinA coinB (.mint alice 5)]) := by
  refine ⟨twoCoins_no_tokens, rfl, ⟨_, rfl⟩, ?_⟩
  have hissued := createPool_sharesIssued twoCoins_no_tokens createPool_twoCoins
  have hmint : exec (.token coinA coinB (.mint alice 5)) twoCoinsPooled =
      .ok ((), run exec twoCoinsPooled [.token coinA coinB (.mint alice 5)]) := rfl
  rw [exec_sharesIssued_iff hissued hmint]
  intro hzero
  exact absurd (hzero rfl) (by decide)

end MoveTutorial.Swap
