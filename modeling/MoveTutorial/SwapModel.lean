import MoveTutorial.CoinModel
import MoveTutorial.ReserveShares

/-! The modules `CoinSwap` and `PoolToken`. A pool records its reserves and its shares as numbers; the
coins themselves are balances of `BasicCoin` at the address of the swap, and the shares are balances of
the pool token. -/

namespace MoveTutorial.Swap

open Move Coin

/-- The address `@CoinSwap` of the package. -/
def coinSwapAddress : Address :=
  0x16066e8be0527197be13a04ea7c5995ccb411a4c2c7447a9927e0c66056b5802

def eCoinswapAddress : ℕ := 0
def ePool : ℕ := 0

structure LiquidityPool where
  coin1 : ℕ
  coin2 : ℕ
  share : ℕ
  deriving DecidableEq, Repr

/-- The published resources: the balances of `BasicCoin` and the pools, by coin types and address. -/
structure Global where
  balances : Balances
  pools : CoinType × CoinType × Address → Option LiquidityPool

/-! ### PoolToken -/

section PoolToken

variable (coinType1 coinType2 : CoinType)

def PoolToken.setupAndMint (account : Address) (amount : ℕ) (balances : Balances) : Exec Balances := do
  let balances ← publishBalance (.poolToken coinType1 coinType2) account balances
  mint (.poolToken coinType1 coinType2) account amount balances

def PoolToken.transfer (sender dest : Address) (amount : ℕ) (balances : Balances) : Exec Balances :=
  Coin.transfer (.poolToken coinType1 coinType2) sender dest amount balances

def PoolToken.mint (mintAddr : Address) (amount : ℕ) (balances : Balances) : Exec Balances :=
  Coin.mint (.poolToken coinType1 coinType2) mintAddr amount balances

def PoolToken.burn (burnAddr : Address) (amount : ℕ) (balances : Balances) : Exec Balances :=
  Coin.burn (.poolToken coinType1 coinType2) burnAddr amount balances

end PoolToken

/-! ### CoinSwap -/

/-- The output of a swap less a fee of three per mille, computed in `u64`. -/
def getInputPrice (inputAmount inputReserve outputReserve : ℕ) : Exec ℕ := do
  let inputAmountWithFee ← mul 64 inputAmount 997
  let numerator ← mul 64 inputAmountWithFee outputReserve
  let scaledReserve ← mul 64 inputReserve 1000
  let denominator ← add 64 scaledReserve inputAmountWithFee
  div numerator denominator

section CoinSwap

variable (coinType1 coinType2 : CoinType)

def createPool (coinswap requester : Address) (coin1 coin2 share : ℕ) (g : Global) : Exec Global := do
  let balances ← publishBalance coinType1 coinswap g.balances
  let balances ← publishBalance coinType2 coinswap balances
  assert (coinswap = coinSwapAddress) eCoinswapAddress
  assert (g.pools (coinType1, coinType2, coinswap) = none) ePool
  let pools ← moveTo g.pools (coinType1, coinType2, coinswap) ⟨coin1, coin2, share⟩
  let balances ← transfer coinType1 requester coinswap coin1 balances
  let balances ← transfer coinType2 requester coinswap coin2 balances
  let balances ← PoolToken.setupAndMint coinType1 coinType2 requester share balances
  return { balances, pools }

def coin1ToCoin2SwapInput (coinswap requester : Address) (coin1 : ℕ) (g : Global) : Exec Global := do
  assert (coinswap = coinSwapAddress) eCoinswapAddress
  assert (g.pools (coinType1, coinType2, coinswap) ≠ none) ePool
  let pool ← borrowGlobal g.pools (coinType1, coinType2, coinswap)
  let coin2 ← getInputPrice coin1 pool.coin1 pool.coin2
  let reserve1 ← add 64 pool.coin1 coin1
  let reserve2 ← sub pool.coin2 coin2
  let pools := Function.update g.pools (coinType1, coinType2, coinswap)
    (some { pool with coin1 := reserve1, coin2 := reserve2 })
  let balances ← transfer coinType1 requester coinswap coin1 g.balances
  let balances ← transfer coinType2 coinswap requester coin2 balances
  return { balances, pools }

/-- The pool books the `coin2Added` it computes, while the account pays the `coin2` it names. -/
def addLiquidity (account : Address) (coin1 coin2 : ℕ) (g : Global) : Exec Global := do
  let pool ← borrowGlobal g.pools (coinType1, coinType2, coinSwapAddress)
  let coin1Added := coin1
  let product1 ← mul 64 coin1Added pool.share
  let shareMinted ← div product1 pool.coin1
  let product2 ← mul 64 shareMinted pool.coin2
  let coin2Added ← div product2 pool.share
  let reserve1 ← add 64 pool.coin1 coin1Added
  let reserve2 ← add 64 pool.coin2 coin2Added
  let share ← add 64 pool.share shareMinted
  let pools := Function.update g.pools (coinType1, coinType2, coinSwapAddress)
    (some ⟨reserve1, reserve2, share⟩)
  let balances ← transfer coinType1 account coinSwapAddress coin1 g.balances
  let balances ← transfer coinType2 account coinSwapAddress coin2 balances
  let balances ← PoolToken.mint coinType1 coinType2 account shareMinted balances
  return { balances, pools }

/-- The signer that pays the coins out is not compared with `@CoinSwap` here. -/
def removeLiquidity (coinswap requester : Address) (share : ℕ) (g : Global) : Exec Global := do
  let pool ← borrowGlobal g.pools (coinType1, coinType2, coinSwapAddress)
  let product1 ← mul 64 pool.coin1 share
  let coin1Removed ← div product1 pool.share
  let product2 ← mul 64 pool.coin2 share
  let coin2Removed ← div product2 pool.share
  let reserve1 ← sub pool.coin1 coin1Removed
  let reserve2 ← sub pool.coin2 coin2Removed
  let rest ← sub pool.share share
  let pools := Function.update g.pools (coinType1, coinType2, coinSwapAddress)
    (some ⟨reserve1, reserve2, rest⟩)
  let balances ← transfer coinType1 coinswap requester coin1Removed g.balances
  let balances ← transfer coinType2 coinswap requester coin2Removed balances
  let balances ← PoolToken.burn coinType1 coinType2 requester share balances
  return { balances, pools }

end CoinSwap

/-! ### The public functions as calls -/

/-- A call of `CoinSwap` on an existing pool. -/
inductive SwapCall where
  | coin1ToCoin2SwapInput (coinswap requester : Address) (coin1 : ℕ)
  | addLiquidity (account : Address) (coin1 coin2 : ℕ)
  | removeLiquidity (coinswap requester : Address) (share : ℕ)
  deriving DecidableEq, Repr

/-- A call of `PoolToken`. -/
inductive TokenCall where
  | setupAndMint (account : Address) (amount : ℕ)
  | transfer (sender dest : Address) (amount : ℕ)
  | mint (mintAddr : Address) (amount : ℕ)
  | burn (burnAddr : Address) (amount : ℕ)
  deriving DecidableEq, Repr

section Calls

variable (coinType1 coinType2 : CoinType)

def swapExec : SwapCall → Global → Exec (Unit × Global)
  | .coin1ToCoin2SwapInput coinswap requester coin1, g =>
      procedure (coin1ToCoin2SwapInput coinType1 coinType2 coinswap requester coin1 g)
  | .addLiquidity account coin1 coin2, g =>
      procedure (addLiquidity coinType1 coinType2 account coin1 coin2 g)
  | .removeLiquidity coinswap requester share, g =>
      procedure (removeLiquidity coinType1 coinType2 coinswap requester share g)

def tokenExec : TokenCall → Global → Exec (Unit × Global)
  | .setupAndMint account amount, g => procedure do
      let balances ← PoolToken.setupAndMint coinType1 coinType2 account amount g.balances
      return { g with balances }
  | .transfer sender dest amount, g => procedure do
      let balances ← PoolToken.transfer coinType1 coinType2 sender dest amount g.balances
      return { g with balances }
  | .mint mintAddr amount, g => procedure do
      let balances ← PoolToken.mint coinType1 coinType2 mintAddr amount g.balances
      return { g with balances }
  | .burn burnAddr amount, g => procedure do
      let balances ← PoolToken.burn coinType1 coinType2 burnAddr amount g.balances
      return { g with balances }

end Calls

/-- A call of either module at any type arguments. -/
inductive PublicCall where
  | swap (coinType1 coinType2 : CoinType) (call : SwapCall)
  | token (coinType1 coinType2 : CoinType) (call : TokenCall)
  deriving DecidableEq, Repr

def exec : PublicCall → Global → Exec (Unit × Global)
  | .swap coinType1 coinType2 call => swapExec coinType1 coinType2 call
  | .token coinType1 coinType2 call => tokenExec coinType1 coinType2 call

/-! ### What a successful call does -/

section Inversion

variable {coinType1 coinType2 : CoinType} {g g' : Global}

theorem getInputPrice_ok {a x y out : ℕ} (h : getInputPrice a x y = .ok out) :
    out = Reserves.quote 1000 (a * 997) x y ∧ 0 < x * 1000 + a * 997 := by
  simp only [getInputPrice, bind_eq_ok, mul_eq_ok, add_eq_ok, div_eq_ok] at h
  obtain ⟨_, ⟨-, rfl⟩, _, ⟨-, rfl⟩, _, ⟨-, rfl⟩, _, ⟨-, rfl⟩, hpos, rfl⟩ := h
  exact ⟨rfl, hpos⟩

theorem createPool_ok {coinswap requester : Address} {coin1 coin2 share : ℕ}
    (h : createPool coinType1 coinType2 coinswap requester coin1 coin2 share g = .ok g') :
    coinswap = coinSwapAddress ∧ g.pools (coinType1, coinType2, coinSwapAddress) = none ∧
      g'.pools = Function.update g.pools (coinType1, coinType2, coinSwapAddress)
        (some ⟨coin1, coin2, share⟩) ∧
      ∃ b1 b2 b3 b4, publishBalance coinType1 coinSwapAddress g.balances = .ok b1 ∧
        publishBalance coinType2 coinSwapAddress b1 = .ok b2 ∧
        transfer coinType1 requester coinSwapAddress coin1 b2 = .ok b3 ∧
        transfer coinType2 requester coinSwapAddress coin2 b3 = .ok b4 ∧
        PoolToken.setupAndMint coinType1 coinType2 requester share b4 = .ok g'.balances := by
  simp only [createPool, bind_eq_ok, assert_eq_ok, moveTo_eq_ok, pure_eq_ok] at h
  obtain ⟨b1, h1, b2, h2, _, rfl, _, hnone, _, ⟨-, rfl⟩, b3, h3, b4, h4, b5, h5, rfl⟩ := h
  exact ⟨rfl, hnone, rfl, b1, b2, b3, b4, h1, h2, h3, h4, h5⟩

theorem coin1ToCoin2SwapInput_ok {coinswap requester : Address} {coin1 : ℕ}
    (h : coin1ToCoin2SwapInput coinType1 coinType2 coinswap requester coin1 g = .ok g') :
    coinswap = coinSwapAddress ∧ ∃ pool coin2,
      g.pools (coinType1, coinType2, coinSwapAddress) = some pool ∧
      getInputPrice coin1 pool.coin1 pool.coin2 = .ok coin2 ∧ coin2 ≤ pool.coin2 ∧
      g'.pools = Function.update g.pools (coinType1, coinType2, coinSwapAddress)
        (some ⟨pool.coin1 + coin1, pool.coin2 - coin2, pool.share⟩) ∧
      ∃ b1, transfer coinType1 requester coinSwapAddress coin1 g.balances = .ok b1 ∧
        transfer coinType2 coinSwapAddress requester coin2 b1 = .ok g'.balances := by
  simp only [coin1ToCoin2SwapInput, bind_eq_ok, assert_eq_ok, borrowGlobal_eq_ok, add_eq_ok, sub_eq_ok,
    pure_eq_ok] at h
  obtain ⟨_, rfl, _, -, pool, hpool, coin2, hprice, _, ⟨-, rfl⟩, _, ⟨hle, rfl⟩, b1, h1, b2, h2, rfl⟩ := h
  exact ⟨rfl, pool, coin2, hpool, hprice, hle, rfl, b1, h1, h2⟩

theorem addLiquidity_ok {account : Address} {coin1 coin2 : ℕ}
    (h : addLiquidity coinType1 coinType2 account coin1 coin2 g = .ok g') :
    ∃ pool minted added, g.pools (coinType1, coinType2, coinSwapAddress) = some pool ∧
      0 < pool.coin1 ∧ 0 < pool.share ∧
      minted = coin1 * pool.share / pool.coin1 ∧ added = minted * pool.coin2 / pool.share ∧
      g'.pools = Function.update g.pools (coinType1, coinType2, coinSwapAddress)
        (some ⟨pool.coin1 + coin1, pool.coin2 + added, pool.share + minted⟩) ∧
      ∃ b1 b2, transfer coinType1 account coinSwapAddress coin1 g.balances = .ok b1 ∧
        transfer coinType2 account coinSwapAddress coin2 b1 = .ok b2 ∧
        PoolToken.mint coinType1 coinType2 account minted b2 = .ok g'.balances := by
  simp only [addLiquidity, bind_eq_ok, borrowGlobal_eq_ok, add_eq_ok, mul_eq_ok, div_eq_ok, pure_eq_ok] at h
  obtain ⟨pool, hpool, _, ⟨-, rfl⟩, _, ⟨hpos1, rfl⟩, _, ⟨-, rfl⟩, _, ⟨hpos, rfl⟩, _, ⟨-, rfl⟩,
    _, ⟨-, rfl⟩, _, ⟨-, rfl⟩, b1, h1, b2, h2, b3, h3, rfl⟩ := h
  exact ⟨pool, _, _, hpool, hpos1, hpos, rfl, rfl, rfl, b1, b2, h1, h2, h3⟩

theorem removeLiquidity_ok {coinswap requester : Address} {share : ℕ}
    (h : removeLiquidity coinType1 coinType2 coinswap requester share g = .ok g') :
    ∃ pool removed1 removed2, g.pools (coinType1, coinType2, coinSwapAddress) = some pool ∧
      0 < pool.share ∧ share ≤ pool.share ∧
      removed1 = pool.coin1 * share / pool.share ∧ removed2 = pool.coin2 * share / pool.share ∧
      removed1 ≤ pool.coin1 ∧ removed2 ≤ pool.coin2 ∧
      g'.pools = Function.update g.pools (coinType1, coinType2, coinSwapAddress)
        (some ⟨pool.coin1 - removed1, pool.coin2 - removed2, pool.share - share⟩) ∧
      ∃ b1 b2, transfer coinType1 coinswap requester removed1 g.balances = .ok b1 ∧
        transfer coinType2 coinswap requester removed2 b1 = .ok b2 ∧
        PoolToken.burn coinType1 coinType2 requester share b2 = .ok g'.balances := by
  simp only [removeLiquidity, bind_eq_ok, borrowGlobal_eq_ok, sub_eq_ok, mul_eq_ok, div_eq_ok, pure_eq_ok] at h
  obtain ⟨pool, hpool, _, ⟨-, rfl⟩, _, ⟨hpos, rfl⟩, _, ⟨-, rfl⟩, _, ⟨-, rfl⟩, _, ⟨hle1, rfl⟩,
    _, ⟨hle2, rfl⟩, _, ⟨hle, rfl⟩, b1, h1, b2, h2, b3, h3, rfl⟩ := h
  exact ⟨pool, _, _, hpool, hpos, hle, rfl, rfl, hle1, hle2, rfl, b1, b2, h1, h2, h3⟩

theorem swapExec_cases {call : SwapCall} {u : Unit} (h : swapExec coinType1 coinType2 call g = .ok (u, g')) :
    (∃ coinswap requester coin1, call = .coin1ToCoin2SwapInput coinswap requester coin1 ∧
      coin1ToCoin2SwapInput coinType1 coinType2 coinswap requester coin1 g = .ok g') ∨
    (∃ account coin1 coin2, call = .addLiquidity account coin1 coin2 ∧
      addLiquidity coinType1 coinType2 account coin1 coin2 g = .ok g') ∨
    (∃ coinswap requester share, call = .removeLiquidity coinswap requester share ∧
      removeLiquidity coinType1 coinType2 coinswap requester share g = .ok g') := by
  cases call with
  | coin1ToCoin2SwapInput coinswap requester coin1 =>
      exact Or.inl ⟨_, _, _, rfl, procedure_eq_ok.mp h⟩
  | addLiquidity account coin1 coin2 =>
      exact Or.inr (Or.inl ⟨_, _, _, rfl, procedure_eq_ok.mp h⟩)
  | removeLiquidity coinswap requester share =>
      exact Or.inr (Or.inr ⟨_, _, _, rfl, procedure_eq_ok.mp h⟩)

theorem tokenExec_cases {call : TokenCall} {u : Unit} (h : tokenExec coinType1 coinType2 call g = .ok (u, g')) :
    g'.pools = g.pools ∧
    ((∃ account amount, call = .setupAndMint account amount ∧
      PoolToken.setupAndMint coinType1 coinType2 account amount g.balances = .ok g'.balances) ∨
    (∃ sender dest amount, call = .transfer sender dest amount ∧
      PoolToken.transfer coinType1 coinType2 sender dest amount g.balances = .ok g'.balances) ∨
    (∃ mintAddr amount, call = .mint mintAddr amount ∧
      PoolToken.mint coinType1 coinType2 mintAddr amount g.balances = .ok g'.balances) ∨
    (∃ burnAddr amount, call = .burn burnAddr amount ∧
      PoolToken.burn coinType1 coinType2 burnAddr amount g.balances = .ok g'.balances)) := by
  cases call with
  | setupAndMint account amount =>
      simp only [tokenExec, procedure_eq_ok, bind_eq_ok, pure_eq_ok] at h
      obtain ⟨_, hcall, rfl⟩ := h
      exact ⟨rfl, Or.inl ⟨_, _, rfl, hcall⟩⟩
  | transfer sender dest amount =>
      simp only [tokenExec, procedure_eq_ok, bind_eq_ok, pure_eq_ok] at h
      obtain ⟨_, hcall, rfl⟩ := h
      exact ⟨rfl, Or.inr (Or.inl ⟨_, _, _, rfl, hcall⟩)⟩
  | mint mintAddr amount =>
      simp only [tokenExec, procedure_eq_ok, bind_eq_ok, pure_eq_ok] at h
      obtain ⟨_, hcall, rfl⟩ := h
      exact ⟨rfl, Or.inr (Or.inr (Or.inl ⟨_, _, rfl, hcall⟩))⟩
  | burn burnAddr amount =>
      simp only [tokenExec, procedure_eq_ok, bind_eq_ok, pure_eq_ok] at h
      obtain ⟨_, hcall, rfl⟩ := h
      exact ⟨rfl, Or.inr (Or.inr (Or.inr ⟨_, _, rfl, hcall⟩))⟩

end Inversion

end MoveTutorial.Swap
