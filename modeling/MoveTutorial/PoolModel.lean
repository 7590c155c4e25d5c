import MoveTutorial.MoveRun
import MoveTutorial.ReserveShares

/-! The liquidity pool `defi::pool` between SUI and one token. The coin and balance types of the Sui
framework are represented by their values, and their operations are the exact additions and
subtractions that abort when the result is not a `u64`. The entry points, which send what the
functions here return to the transaction's sender, and the object id of a pool are left out. -/

namespace MoveTutorial.Defi

open Move

/-- A supplied coin is zero. -/
def eZeroAmount : ℕ := 0

/-- The fee is outside `[0, 10000)`. -/
def eWrongFee : ℕ := 1

/-- A swap in an empty pool. -/
def eReservesEmpty : ℕ := 2

/-- The pool is full. -/
def ePoolFull : ℕ := 4

/-- The scale of the fee, in basis points. -/
def feeScaling : ℕ := 10000

/-- The documented bound on either balance of a pool. -/
def maxPoolValue : ℕ := 18446744073709551615 / 10000

/-- `Pool<P, T>`: the two balances, the supply of `LSP<P, T>` and the fee. -/
@[ext] structure Pool where
  sui : ℕ
  token : ℕ
  lspSupply : ℕ
  feePercent : ℕ
  deriving DecidableEq, Repr

/-! ### The Sui framework -/

/-- `balance::join`, with the joined value. -/
def join (balance value : ℕ) : Exec ℕ := add 64 balance value

/-- `coin::take`: the coin and the balance left. -/
def take (balance value : ℕ) : Exec (ℕ × ℕ) := do
  let rest ← sub balance value
  return (value, rest)

/-- `balance::increase_supply`: the new balance and the supply after it. -/
def increaseSupply (supply value : ℕ) : Exec (ℕ × ℕ) := do
  let total ← add 64 supply value
  return (value, total)

/-- `balance::decrease_supply`. -/
def decreaseSupply (supply value : ℕ) : Exec ℕ := sub supply value

/-! ### The functions of the module -/

/-- The SUI, the token and the LSP supply of a pool. -/
def getAmounts (pool : Pool) : ℕ × ℕ × ℕ := (pool.sui, pool.token, pool.lspSupply)

/-- The output of a swap minus the fee, computed in `u128`. -/
def getInputPrice (inputAmount inputReserve outputReserve feePercent : ℕ) : Exec ℕ := do
  let kept ← sub feeScaling feePercent
  let inputAmountWithFee ← mul 128 inputAmount kept
  let numerator ← mul 128 inputAmountWithFee outputReserve
  let scaledReserve ← mul 128 inputReserve feeScaling
  let denominator ← add 128 scaledReserve inputAmountWithFee
  let price ← div numerator denominator
  checked 64 price

/-- Create a pool; the creator receives the first shares. -/
def createPool (token sui feePercent : ℕ) : Exec (ℕ × Pool) := do
  assert (sui > 0 ∧ token > 0) eZeroAmount
  assert (sui < maxPoolValue ∧ token < maxPoolValue) ePoolFull
  assert (feePercent ≥ 0 ∧ feePercent < 10000) eWrongFee
  let share ← mul 64 (Nat.sqrt sui) (Nat.sqrt token)
  let (lsp, lspSupply) ← increaseSupply 0 share
  return (lsp, { sui, token, lspSupply, feePercent })

/-- Swap SUI for the token. -/
def swapSui (pool : Pool) (sui : ℕ) : Exec (ℕ × Pool) := do
  assert (sui > 0) eZeroAmount
  let (suiReserve, tokenReserve, _) := getAmounts pool
  assert (suiReserve > 0 ∧ tokenReserve > 0) eReservesEmpty
  let outputAmount ← getInputPrice sui suiReserve tokenReserve pool.feePercent
  let suiBalance ← join pool.sui sui
  let (out, tokenBalance) ← take pool.token outputAmount
  return (out, { pool with sui := suiBalance, token := tokenBalance })

/-- Swap the token for SUI. -/
def swapToken (pool : Pool) (token : ℕ) : Exec (ℕ × Pool) := do
  assert (token > 0) eZeroAmount
  let (suiReserve, tokenReserve, _) := getAmounts pool
  assert (suiReserve > 0 ∧ tokenReserve > 0) eReservesEmpty
  let outputAmount ← getInputPrice token tokenReserve suiReserve pool.feePercent
  let tokenBalance ← join pool.token token
  let (out, suiBalance) ← take pool.sui outputAmount
  return (out, { pool with sui := suiBalance, token := tokenBalance })

/-- Deposit both coins for shares. The share is computed in `u64`, from the balances before the
deposit; the bound is checked after it. -/
def addLiquidity (pool : Pool) (sui token : ℕ) : Exec (ℕ × Pool) := do
  assert (sui > 0) eZeroAmount
  assert (token > 0) eZeroAmount
  let (suiAmount, tokAmount, lspSupply) := getAmounts pool
  let suiProduct ← mul 64 sui lspSupply
  let suiShare ← div suiProduct suiAmount
  let tokProduct ← mul 64 token lspSupply
  let tokShare ← div tokProduct tokAmount
  let shareMinted := min suiShare tokShare
  let suiAmt ← join pool.sui sui
  let tokAmt ← join pool.token token
  assert (suiAmt < maxPoolValue) ePoolFull
  assert (tokAmt < maxPoolValue) ePoolFull
  let (balance, supply) ← increaseSupply pool.lspSupply shareMinted
  return (balance, { pool with sui := suiAmt, token := tokAmt, lspSupply := supply })

/-- Burn shares for their part of both balances, computed in `u64`. -/
def removeLiquidity (pool : Pool) (lsp : ℕ) : Exec ((ℕ × ℕ) × Pool) := do
  assert (lsp > 0) eZeroAmount
  let (suiAmt, tokAmt, lspSupply) := getAmounts pool
  let suiProduct ← mul 64 suiAmt lsp
  let suiRemoved ← div suiProduct lspSupply
  let tokProduct ← mul 64 tokAmt lsp
  let tokRemoved ← div tokProduct lspSupply
  let supply ← decreaseSupply pool.lspSupply lsp
  let (sui, suiBalance) ← take pool.sui suiRemoved
  let (token, tokenBalance) ← take pool.token tokRemoved
  return ((sui, token), { pool with sui := suiBalance, token := tokenBalance, lspSupply := supply })

/-! ### The pool as a shared object -/

/-- A call anyone can make on the shared pool, with the values of the coins handed in. -/
inductive Call where
  | swapSui (sui : ℕ)
  | swapToken (token : ℕ)
  | addLiquidity (sui token : ℕ)
  | removeLiquidity (lsp : ℕ)
  deriving DecidableEq, Repr

/-- The coins a call hands back. -/
structure Payout where
  sui : ℕ := 0
  token : ℕ := 0
  lsp : ℕ := 0
  deriving DecidableEq, Repr

def exec : Call → Pool → Exec (Payout × Pool)
  | .swapSui sui, pool => do
      let (token, pool') ← swapSui pool sui
      return ({ token }, pool')
  | .swapToken token, pool => do
      let (sui, pool') ← swapToken pool token
      return ({ sui }, pool')
  | .addLiquidity sui token, pool => do
      let (lsp, pool') ← addLiquidity pool sui token
      return ({ lsp }, pool')
  | .removeLiquidity lsp, pool => do
      let ((sui, token), pool') ← removeLiquidity pool lsp
      return ({ sui, token }, pool')

/-! ### What a successful call does -/

section Inversion

variable {pool pool' : Pool} {out : ℕ}

theorem join_eq_ok {a b c : ℕ} : join a b = .ok c ↔ a + b < 2 ^ 64 ∧ a + b = c := add_eq_ok

theorem take_eq_ok {a b c d : ℕ} : take a b = .ok (c, d) ↔ b ≤ a ∧ b = c ∧ a - b = d := by
  simp only [take, bind_eq_ok, pure_eq_ok, sub_eq_ok, Prod.mk.injEq]
  constructor
  · rintro ⟨rest, ⟨hle, rfl⟩, rfl, rfl⟩
    exact ⟨hle, rfl, rfl⟩
  · rintro ⟨hle, rfl, rfl⟩
    exact ⟨_, ⟨hle, rfl⟩, rfl, rfl⟩

theorem increaseSupply_eq_ok {a b c d : ℕ} :
    increaseSupply a b = .ok (c, d) ↔ a + b < 2 ^ 64 ∧ b = c ∧ a + b = d := by
  simp only [increaseSupply, bind_eq_ok, pure_eq_ok, add_eq_ok, Prod.mk.injEq]
  constructor
  · rintro ⟨total, ⟨hlt, rfl⟩, rfl, rfl⟩
    exact ⟨hlt, rfl, rfl⟩
  · rintro ⟨hlt, rfl, rfl⟩
    exact ⟨_, ⟨hlt, rfl⟩, rfl, rfl⟩

theorem decreaseSupply_eq_ok {a b c : ℕ} : decreaseSupply a b = .ok c ↔ b ≤ a ∧ a - b = c := sub_eq_ok

/-- The price is the constant-product quote of the input less the fee. -/
theorem getInputPrice_quote {a x y fee : ℕ} (h : getInputPrice a x y fee = .ok out) :
    out = Reserves.quote feeScaling (a * (feeScaling - fee)) x y := by
  simp only [getInputPrice, bind_eq_ok, sub_eq_ok, mul_eq_ok, add_eq_ok, div_eq_ok, checked_eq_ok] at h
  obtain ⟨_, ⟨-, rfl⟩, _, ⟨-, rfl⟩, _, ⟨-, rfl⟩, _, ⟨-, rfl⟩, _, ⟨-, rfl⟩, _, ⟨-, rfl⟩, -, rfl⟩ := h
  rfl

theorem createPool_ok {token sui feePercent lsp : ℕ} (h : createPool token sui feePercent = .ok (lsp, pool)) :
    (0 < sui ∧ 0 < token) ∧ (sui < maxPoolValue ∧ token < maxPoolValue) ∧ feePercent < 10000 ∧
      lsp = Nat.sqrt sui * Nat.sqrt token ∧ pool = ⟨sui, token, lsp, feePercent⟩ := by
  simp only [createPool, bind_eq_ok, pure_eq_ok, assert_eq_ok, mul_eq_ok, Prod.exists,
    increaseSupply_eq_ok, Prod.mk.injEq] at h
  obtain ⟨_, hpos, _, hmax, _, hfee, _, ⟨-, rfl⟩, _, _, ⟨-, rfl, rfl⟩, rfl, rfl⟩ := h
  exact ⟨hpos, hmax, hfee.2, rfl, by rw [Nat.zero_add]⟩

theorem swapSui_ok {sui : ℕ} (h : swapSui pool sui = .ok (out, pool')) :
    0 < sui ∧ (0 < pool.sui ∧ 0 < pool.token) ∧
      getInputPrice sui pool.sui pool.token pool.feePercent = .ok out ∧ out ≤ pool.token ∧
      pool' = { pool with sui := pool.sui + sui, token := pool.token - out } := by
  dsimp only [swapSui, getAmounts] at h
  simp only [bind_eq_ok, pure_eq_ok, assert_eq_ok, join_eq_ok, Prod.exists,
    take_eq_ok, Prod.mk.injEq] at h
  obtain ⟨_, hpos, _, hreserves, _, hprice, _, ⟨-, rfl⟩, _, _, ⟨hle, rfl, rfl⟩, rfl, rfl⟩ := h
  exact ⟨hpos, hreserves, hprice, hle, rfl⟩

theorem swapToken_ok {token : ℕ} (h : swapToken pool token = .ok (out, pool')) :
    0 < token ∧ (0 < pool.sui ∧ 0 < pool.token) ∧
      getInputPrice token pool.token pool.sui pool.feePercent = .ok out ∧ out ≤ pool.sui ∧
      pool' = { pool with sui := pool.sui - out, token := pool.token + token } := by
  dsimp only [swapToken, getAmounts] at h
  simp only [bind_eq_ok, pure_eq_ok, assert_eq_ok, join_eq_ok, Prod.exists,
    take_eq_ok, Prod.mk.injEq] at h
  obtain ⟨_, hpos, _, hreserves, _, hprice, _, ⟨-, rfl⟩, _, _, ⟨hle, rfl, rfl⟩, rfl, rfl⟩ := h
  exact ⟨hpos, hreserves, hprice, hle, rfl⟩

theorem addLiquidity_ok {sui token : ℕ} (h : addLiquidity pool sui token = .ok (out, pool')) :
    (0 < sui ∧ 0 < token) ∧ (0 < pool.sui ∧ 0 < pool.token) ∧
      out = min (sui * pool.lspSupply / pool.sui) (token * pool.lspSupply / pool.token) ∧
      (pool.sui + sui < maxPoolValue ∧ pool.token + token < maxPoolValue) ∧
      pool' = { pool with
        sui := pool.sui + sui, token := pool.token + token, lspSupply := pool.lspSupply + out } := by
  simp only [addLiquidity, getAmounts, bind_eq_ok, pure_eq_ok, assert_eq_ok, join_eq_ok, mul_eq_ok,
    div_eq_ok, increaseSupply_eq_ok, Prod.exists, Prod.mk.injEq] at h
  obtain ⟨_, hsui, _, htoken, _, ⟨-, rfl⟩, _, ⟨hx, rfl⟩, _, ⟨-, rfl⟩, _, ⟨hy, rfl⟩, _, ⟨-, rfl⟩,
    _, ⟨-, rfl⟩, _, hfull, _, hfull', _, _, ⟨-, rfl, rfl⟩, rfl, rfl⟩ := h
  exact ⟨⟨hsui, htoken⟩, ⟨hx, hy⟩, rfl, ⟨hfull, hfull'⟩, rfl⟩

/-- A withdrawal succeeds exactly when neither product overflows and the shares exist. -/
theorem removeLiquidity_eq_ok {lsp sui token : ℕ} :
    removeLiquidity pool lsp = .ok ((sui, token), pool') ↔
      0 < lsp ∧ 0 < pool.lspSupply ∧ (pool.sui * lsp < 2 ^ 64 ∧ pool.token * lsp < 2 ^ 64) ∧
      lsp ≤ pool.lspSupply ∧ (sui ≤ pool.sui ∧ token ≤ pool.token) ∧
      sui = pool.sui * lsp / pool.lspSupply ∧ token = pool.token * lsp / pool.lspSupply ∧
      pool' = { pool with
        sui := pool.sui - sui, token := pool.token - token, lspSupply := pool.lspSupply - lsp } := by
  simp only [removeLiquidity, getAmounts, bind_eq_ok, pure_eq_ok, assert_eq_ok, mul_eq_ok, div_eq_ok,
    decreaseSupply_eq_ok, take_eq_ok, Prod.exists, Prod.mk.injEq]
  constructor
  · rintro ⟨_, hpos, _, ⟨hsui, rfl⟩, _, ⟨hsupply, rfl⟩, _, ⟨htoken, rfl⟩, _, ⟨-, rfl⟩, _, ⟨hle, rfl⟩,
      _, _, ⟨hs, rfl, rfl⟩, _, _, ⟨ht, rfl, rfl⟩, ⟨rfl, rfl⟩, rfl⟩
    exact ⟨hpos, hsupply, ⟨hsui, htoken⟩, hle, ⟨hs, ht⟩, rfl, rfl, rfl⟩
  · rintro ⟨hpos, hsupply, ⟨hsui, htoken⟩, hle, ⟨hs, ht⟩, rfl, rfl, rfl⟩
    exact ⟨(), hpos, _, ⟨hsui, rfl⟩, _, ⟨hsupply, rfl⟩, _, ⟨htoken, rfl⟩, _, ⟨hsupply, rfl⟩, _,
      ⟨hle, rfl⟩, _, _, ⟨hs, rfl, rfl⟩, _, _, ⟨ht, rfl, rfl⟩, ⟨rfl, rfl⟩, rfl⟩

end Inversion

/-- What each call did when it succeeded. -/
theorem exec_cases {call : Call} {pool pool' : Pool} {payout : Payout}
    (h : exec call pool = .ok (payout, pool')) :
    (∃ sui, call = .swapSui sui ∧ swapSui pool sui = .ok (payout.token, pool')) ∨
    (∃ token, call = .swapToken token ∧ swapToken pool token = .ok (payout.sui, pool')) ∨
    (∃ sui token, call = .addLiquidity sui token ∧
      addLiquidity pool sui token = .ok (payout.lsp, pool')) ∨
    (∃ lsp, call = .removeLiquidity lsp ∧
      removeLiquidity pool lsp = .ok ((payout.sui, payout.token), pool')) := by
  cases call with
  | swapSui sui =>
      simp only [exec, bind_eq_ok, pure_eq_ok, Prod.exists, Prod.mk.injEq] at h
      obtain ⟨token, _, hswap, rfl, rfl⟩ := h
      exact Or.inl ⟨sui, rfl, hswap⟩
  | swapToken token =>
      simp only [exec, bind_eq_ok, pure_eq_ok, Prod.exists, Prod.mk.injEq] at h
      obtain ⟨sui, _, hswap, rfl, rfl⟩ := h
      exact Or.inr (Or.inl ⟨token, rfl, hswap⟩)
  | addLiquidity sui token =>
      simp only [exec, bind_eq_ok, pure_eq_ok, Prod.exists, Prod.mk.injEq] at h
      obtain ⟨lsp, _, hadd, rfl, rfl⟩ := h
      exact Or.inr (Or.inr (Or.inl ⟨sui, token, rfl, hadd⟩))
  | removeLiquidity lsp =>
      simp only [exec, bind_eq_ok, pure_eq_ok, Prod.exists, Prod.mk.injEq] at h
      obtain ⟨sui, token, _, hremove, rfl, rfl⟩ := h
      exact Or.inr (Or.inr (Or.inr ⟨lsp, rfl, hremove⟩))

end MoveTutorial.Defi
