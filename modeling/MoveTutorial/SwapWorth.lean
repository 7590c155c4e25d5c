import MoveTutorial.SwapSolvency

/-! The worth of a pool's shares as `CoinSwap` records it. Swaps and withdrawals round for the owners. A
deposit rounds twice, the minted shares down and then the charge for them down; it keeps the worth of
a share exactly when the first remainder outweighs the second. -/

namespace MoveTutorial.Swap

open Move Coin

def LiquidityPool.reserves (pool : LiquidityPool) : Reserves := ⟨pool.coin1, pool.coin2, pool.share⟩

variable (coinType1 coinType2 : CoinType)

/-- What is recorded of the pool, nothing where it does not exist. -/
def recorded (g : Global) : Reserves :=
  ((g.pools (coinType1, coinType2, coinSwapAddress)).map LiquidityPool.reserves).getD ⟨0, 0, 0⟩

/-- What rounding the charge down loses of the second coin is at most what rounding the minted shares
down gains of the first, each remainder weighed by the other side. -/
def RoundsForOwners (g : Global) : SwapCall → Prop
  | .addLiquidity _ coin1 _ => ∀ pool, g.pools (coinType1, coinType2, coinSwapAddress) = some pool →
      coin1 * pool.share / pool.coin1 * pool.coin2 % pool.share * ((pool.coin1 + coin1) * pool.share) ≤
        coin1 * pool.share % pool.coin1 * (pool.coin2 * (pool.share + coin1 * pool.share / pool.coin1))
  | _ => True

variable {coinType1 coinType2} {g g' : Global}

theorem recorded_of_some {pool : LiquidityPool}
    (h : g.pools (coinType1, coinType2, coinSwapAddress) = some pool) :
    recorded coinType1 coinType2 g = pool.reserves := by
  rw [recorded, h]
  rfl

theorem recorded_of_update {pool : LiquidityPool} (h : g'.pools =
    Function.update g.pools (coinType1, coinType2, coinSwapAddress) (some pool)) :
    recorded coinType1 coinType2 g' = pool.reserves :=
  recorded_of_some (by rw [h, Function.update_self])

theorem coin1ToCoin2SwapInput_keepsWorth {coinswap requester : Address} {coin1 : ℕ}
    (h : coin1ToCoin2SwapInput coinType1 coinType2 coinswap requester coin1 g = .ok g') :
    Reserves.KeepsWorth (recorded coinType1 coinType2 g) (recorded coinType1 coinType2 g') := by
  obtain ⟨-, pool, coin2, hpool, hprice, -, hpools, -⟩ := coin1ToCoin2SwapInput_ok h
  rw [recorded_of_some hpool, recorded_of_update hpools, (getInputPrice_ok hprice).1]
  exact Reserves.keepsWorth_trade rfl
    (Reserves.product_le_quote (by decide) (Nat.mul_le_mul_left coin1 (by decide)))

theorem removeLiquidity_keepsWorth {coinswap requester : Address} {share : ℕ}
    (h : removeLiquidity coinType1 coinType2 coinswap requester share g = .ok g') :
    Reserves.KeepsWorth (recorded coinType1 coinType2 g) (recorded coinType1 coinType2 g') := by
  obtain ⟨pool, _, _, hpool, -, -, rfl, rfl, -, -, hpools, -⟩ := removeLiquidity_ok h
  rw [recorded_of_some hpool, recorded_of_update hpools]
  exact (Reserves.keepsParts_redeem (p := pool.reserves) (Nat.div_mul_le_self _ _) (Nat.div_mul_le_self _ _)).keepsWorth

theorem addLiquidity_keepsWorth_iff {account : Address} {coin1 coin2 : ℕ}
    (h : addLiquidity coinType1 coinType2 account coin1 coin2 g = .ok g') :
    Reserves.KeepsWorth (recorded coinType1 coinType2 g) (recorded coinType1 coinType2 g') ↔
      RoundsForOwners coinType1 coinType2 g (.addLiquidity account coin1 coin2) := by
  obtain ⟨pool, _, _, hpool, -, hshare, rfl, rfl, hpools, -⟩ := addLiquidity_ok h
  rw [recorded_of_some hpool, recorded_of_update hpools]
  have hiff := Reserves.notDiluted_rounded_deposit_iff (p := pool.reserves) (a := coin1)
  constructor
  · intro hkeeps p hp
    obtain rfl : pool = p := Option.some.inj (hpool.symm.trans hp)
    exact hiff.mp hkeeps.notDiluted
  · intro hrounds
    exact ⟨hiff.mpr (hrounds pool hpool), fun hzero => absurd hzero hshare.ne'⟩

theorem swapExec_keepsWorth_iff {call : SwapCall} {u : Unit}
    (h : swapExec coinType1 coinType2 call g = .ok (u, g')) :
    Reserves.KeepsWorth (recorded coinType1 coinType2 g) (recorded coinType1 coinType2 g') ↔
      RoundsForOwners coinType1 coinType2 g call := by
  rcases swapExec_cases h with ⟨coinswap, requester, coin1, rfl, hswap⟩ | ⟨account, coin1, coin2, rfl, hadd⟩ |
    ⟨coinswap, requester, share, rfl, hremove⟩
  · exact iff_of_true (coin1ToCoin2SwapInput_keepsWorth hswap) trivial
  · exact addLiquidity_keepsWorth_iff hadd
  · exact iff_of_true (removeLiquidity_keepsWorth hremove) trivial

/-- No call revives a pool without shares: a deposit and a withdrawal divide by the shares. -/
theorem swapExec_no_revival {call : SwapCall} {u : Unit} (h : swapExec coinType1 coinType2 call g = .ok (u, g'))
    (hzero : (recorded coinType1 coinType2 g).shares = 0) : (recorded coinType1 coinType2 g').shares = 0 := by
  rcases swapExec_cases h with ⟨coinswap, requester, coin1, -, hswap⟩ | ⟨account, coin1, coin2, -, hadd⟩ |
    ⟨coinswap, requester, share, -, hremove⟩
  · exact (coin1ToCoin2SwapInput_keepsWorth hswap).no_revival hzero
  · obtain ⟨pool, _, _, hpool, -, hshare, -⟩ := addLiquidity_ok hadd
    rw [recorded_of_some hpool] at hzero
    exact absurd hzero hshare.ne'
  · exact (removeLiquidity_keepsWorth hremove).no_revival hzero

/-- Along any run, only dilution can keep the worth of a share from being kept. -/
theorem run_keepsWorth_iff (g : Global) (calls : List SwapCall) :
    Reserves.KeepsWorth (recorded coinType1 coinType2 g)
        (recorded coinType1 coinType2 (run (swapExec coinType1 coinType2) g calls)) ↔
      Reserves.NotDiluted (recorded coinType1 coinType2 g)
        (recorded coinType1 coinType2 (run (swapExec coinType1 coinType2) g calls)) :=
  ⟨fun h => h.notDiluted, fun h => ⟨h, run_relation (fun _ => True)
    (fun s s' => (recorded coinType1 coinType2 s).shares = 0 → (recorded coinType1 coinType2 s').shares = 0)
    (fun _ => id) (fun hab hbc hzero => hbc (hab hzero)) (fun _ _ _ _ _ _ _ => trivial)
    (fun _ _ _ _ _ _ hok => swapExec_no_revival hok) trivial (along_true g calls)⟩⟩

theorem notDiluted_recorded_iff :
    Reserves.NotDiluted (recorded coinType1 coinType2 g) (recorded coinType1 coinType2 g') ↔
      ∀ p p', g.pools (coinType1, coinType2, coinSwapAddress) = some p →
        g'.pools (coinType1, coinType2, coinSwapAddress) = some p' →
        p'.coin1 * p'.coin2 * p.share ^ 2 ≥ p.coin1 * p.coin2 * p'.share ^ 2 := by
  constructor
  · intro h p p' hp hp'
    rwa [recorded_of_some hp, recorded_of_some hp'] at h
  · intro h
    cases hp : g.pools (coinType1, coinType2, coinSwapAddress) with
    | none => simp [recorded, hp, Reserves.NotDiluted]
    | some p =>
        cases hp' : g'.pools (coinType1, coinType2, coinSwapAddress) with
        | none => simp [recorded, hp', Reserves.NotDiluted]
        | some p' =>
            rw [recorded_of_some hp, recorded_of_some hp']
            exact h p p' hp hp'

/-- **When share holders are not diluted.** In a run of successful calls, the product of the recorded
reserves per squared share does not fall between any two states if and only if every deposit of the
run rounds for the owners. -/
theorem shares_not_diluted_iff {calls : List SwapCall}
    (hok : Along (swapExec coinType1 coinType2)
      (fun s call => Succeeds (swapExec coinType1 coinType2 call s)) g calls) :
    (∀ pre mid p p', pre ++ mid <+: calls →
        (run (swapExec coinType1 coinType2) g pre).pools (coinType1, coinType2, coinSwapAddress) = some p →
        (run (swapExec coinType1 coinType2) g (pre ++ mid)).pools (coinType1, coinType2, coinSwapAddress) =
          some p' →
        p'.coin1 * p'.coin2 * p.share ^ 2 ≥ p.coin1 * p.coin2 * p'.share ^ 2) ↔
      Along (swapExec coinType1 coinType2) (RoundsForOwners coinType1 coinType2) g calls := by
  rw [← forall_segment_iff_along (fun _ => True)
    (fun s s' => Reserves.KeepsWorth (recorded coinType1 coinType2 s) (recorded coinType1 coinType2 s'))
    (fun s => Reserves.KeepsWorth.refl _) Reserves.KeepsWorth.trans (fun _ _ _ _ _ _ => trivial)
    (fun _ _ _ _ _ h => swapExec_keepsWorth_iff h) trivial hok]
  refine forall_congr' fun pre => forall_congr' fun mid => ?_
  rw [run_append, run_keepsWorth_iff, notDiluted_recorded_iff]
  exact ⟨fun h hpre p p' => h p p' hpre, fun h p p' hpre => h hpre p p'⟩

/-- A pool of two and one for two shares, created by the owner of both coins. -/
def roundingPool : Global :=
  (createPool coinA coinB coinSwapAddress alice 2 1 2 twoCoins).toOption.getD twoCoins

theorem shares_not_diluted_iff_small :
    Along (swapExec coinA coinB) (fun s call => Succeeds (swapExec coinA coinB call s)) roundingPool
        [.addLiquidity alice 2 1, .removeLiquidity coinSwapAddress alice 1] ∧
      ((∀ pre mid p p', pre ++ mid <+: [.addLiquidity alice 2 1, .removeLiquidity coinSwapAddress alice 1] →
          (run (swapExec coinA coinB) roundingPool pre).pools (coinA, coinB, coinSwapAddress) = some p →
          (run (swapExec coinA coinB) roundingPool (pre ++ mid)).pools (coinA, coinB, coinSwapAddress) =
            some p' →
          p'.coin1 * p'.coin2 * p.share ^ 2 ≥ p.coin1 * p.coin2 * p'.share ^ 2) ↔
        Along (swapExec coinA coinB) (RoundsForOwners coinA coinB) roundingPool
          [.addLiquidity alice 2 1, .removeLiquidity coinSwapAddress alice 1]) := by
  have hok : Along (swapExec coinA coinB) (fun s call => Succeeds (swapExec coinA coinB call s)) roundingPool
      [.addLiquidity alice 2 1, .removeLiquidity coinSwapAddress alice 1] :=
    ⟨⟨_, rfl⟩, ⟨_, rfl⟩, trivial⟩
  exact ⟨hok, shares_not_diluted_iff hok⟩

/-- One coin buys a third share of that pool and is charged nothing of the second coin. -/
theorem rounded_deposit_dilutes :
    createPool coinA coinB coinSwapAddress alice 2 1 2 twoCoins = .ok roundingPool ∧
      roundingPool.pools (coinA, coinB, coinSwapAddress) = some ⟨2, 1, 2⟩ ∧
      Succeeds (swapExec coinA coinB (.addLiquidity alice 1 1) roundingPool) ∧
      (run (swapExec coinA coinB) roundingPool [.addLiquidity alice 1 1]).pools
        (coinA, coinB, coinSwapAddress) = some ⟨3, 1, 3⟩ ∧
      ¬3 * 1 * 2 ^ 2 ≥ 2 * 1 * 3 ^ 2 :=
  ⟨rfl, rfl, ⟨_, rfl⟩, rfl, by decide⟩

end MoveTutorial.Swap
