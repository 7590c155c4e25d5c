import MoveTutorial.PoolModel

/-! The worth of the pool's shares over whole runs. Every successful call keeps the worth of a share,
and a pool is either completely empty or has no empty side; the emptied pool accepts no call, so the
two facts compose over every sequence of calls. -/

namespace MoveTutorial.Defi

open Move

/-- The balances and the supply as reserves owned in shares. -/
def Pool.reserves (pool : Pool) : Reserves := ⟨pool.sui, pool.token, pool.lspSupply⟩

/-- A pool with both balances and outstanding shares, or with none of the three. -/
def AllOrNothing (pool : Pool) : Prop :=
  (0 < pool.sui ∧ 0 < pool.token ∧ 0 < pool.lspSupply) ∨
    (pool.sui = 0 ∧ pool.token = 0 ∧ pool.lspSupply = 0)

section Calls

variable {pool pool' : Pool} {out : ℕ}

theorem kept_le (a fee : ℕ) : a * (feeScaling - fee) ≤ a * feeScaling :=
  Nat.mul_le_mul_left a (Nat.sub_le _ _)

theorem getInputPrice_lt {a x y fee : ℕ} (h : getInputPrice a x y fee = .ok out) (hx : 0 < x) (hy : 0 < y) :
    out < y := by
  rw [getInputPrice_quote h]
  exact Reserves.quote_lt _ (by decide) hx hy

/-- Paying the price for the input does not lower the product of the reserves. -/
theorem product_le_of_price {a x y fee : ℕ} (h : getInputPrice a x y fee = .ok out) :
    x * y ≤ (x + a) * (y - out) := by
  rw [getInputPrice_quote h]
  exact Reserves.product_le_quote (by decide) (kept_le _ _)

theorem swapSui_keepsWorth {sui : ℕ} (h : swapSui pool sui = .ok (out, pool')) :
    Reserves.KeepsWorth pool.reserves pool'.reserves := by
  obtain ⟨-, -, hprice, -, rfl⟩ := swapSui_ok h
  exact Reserves.keepsWorth_trade rfl (product_le_of_price hprice)

theorem swapToken_keepsWorth {token : ℕ} (h : swapToken pool token = .ok (out, pool')) :
    Reserves.KeepsWorth pool.reserves pool'.reserves := by
  obtain ⟨-, -, hprice, -, rfl⟩ := swapToken_ok h
  refine Reserves.keepsWorth_trade rfl ?_
  simp only [Pool.reserves]
  rw [Nat.mul_comm pool.sui, Nat.mul_comm (pool.sui - _)]
  exact product_le_of_price hprice

theorem addLiquidity_keepsParts {sui token : ℕ} (h : addLiquidity pool sui token = .ok (out, pool')) :
    Reserves.KeepsParts pool.reserves pool'.reserves := by
  obtain ⟨-, ⟨hx, hy⟩, hout, -, rfl⟩ := addLiquidity_ok h
  have hsui : out * pool.sui ≤ sui * pool.lspSupply :=
    calc out * pool.sui ≤ sui * pool.lspSupply / pool.sui * pool.sui :=
          Nat.mul_le_mul_right _ (hout.trans_le (min_le_left _ _))
      _ ≤ sui * pool.lspSupply := Nat.div_mul_le_self _ _
  have htoken : out * pool.token ≤ token * pool.lspSupply :=
    calc out * pool.token ≤ token * pool.lspSupply / pool.token * pool.token :=
          Nat.mul_le_mul_right _ (hout.trans_le (min_le_right _ _))
      _ ≤ token * pool.lspSupply := Nat.div_mul_le_self _ _
  exact Reserves.keepsParts_deposit (p := pool.reserves) hx hsui htoken

theorem removeLiquidity_keepsParts {lsp sui token : ℕ}
    (h : removeLiquidity pool lsp = .ok ((sui, token), pool')) :
    Reserves.KeepsParts pool.reserves pool'.reserves := by
  obtain ⟨-, -, -, -, -, rfl, rfl, rfl⟩ := removeLiquidity_eq_ok.mp h
  exact Reserves.keepsParts_redeem (p := pool.reserves) (Nat.div_mul_le_self _ _) (Nat.div_mul_le_self _ _)

theorem exec_keepsWorth {call : Call} {payout : Payout} (h : exec call pool = .ok (payout, pool')) :
    Reserves.KeepsWorth pool.reserves pool'.reserves := by
  rcases exec_cases h with ⟨sui, -, hswap⟩ | ⟨token, -, hswap⟩ | ⟨sui, token, -, hadd⟩ | ⟨lsp, -, hremove⟩
  · exact swapSui_keepsWorth hswap
  · exact swapToken_keepsWorth hswap
  · exact (addLiquidity_keepsParts hadd).keepsWorth
  · exact (removeLiquidity_keepsParts hremove).keepsWorth

theorem removeLiquidity_allOrNothing {lsp sui token : ℕ} (hpool : AllOrNothing pool)
    (h : removeLiquidity pool lsp = .ok ((sui, token), pool')) : AllOrNothing pool' := by
  obtain ⟨-, hsupply, -, hle, -, rfl, rfl, rfl⟩ := removeLiquidity_eq_ok.mp h
  rcases hpool with ⟨hx, hy, -⟩ | ⟨-, -, hzero⟩
  · rcases Nat.lt_or_eq_of_le hle with hlt | rfl
    · left
      have hsui := Reserves.redeem_lt hx hlt
      have htoken := Reserves.redeem_lt hy hlt
      exact ⟨Nat.sub_pos_of_lt hsui, Nat.sub_pos_of_lt htoken, Nat.sub_pos_of_lt hlt⟩
    · right
      simp only [Nat.mul_div_cancel _ hsupply, Nat.sub_self, and_self]
  · omega

theorem exec_allOrNothing {call : Call} {payout : Payout} (hpool : AllOrNothing pool)
    (h : exec call pool = .ok (payout, pool')) : AllOrNothing pool' := by
  rcases exec_cases h with ⟨sui, -, hswap⟩ | ⟨token, -, hswap⟩ | ⟨sui, token, -, hadd⟩ | ⟨lsp, -, hremove⟩
  · obtain ⟨-, ⟨hx, hy⟩, hprice, -, rfl⟩ := swapSui_ok hswap
    have hlt := getInputPrice_lt hprice hx hy
    unfold AllOrNothing at hpool ⊢
    dsimp only
    omega
  · obtain ⟨-, ⟨hx, hy⟩, hprice, -, rfl⟩ := swapToken_ok hswap
    have hlt := getInputPrice_lt hprice hy hx
    unfold AllOrNothing at hpool ⊢
    dsimp only
    omega
  · obtain ⟨-, ⟨hx, hy⟩, -, -, rfl⟩ := addLiquidity_ok hadd
    unfold AllOrNothing at hpool ⊢
    dsimp only
    omega
  · exact removeLiquidity_allOrNothing hpool hremove

end Calls

/-! ### Creation -/

section Creation

variable {token sui feePercent lsp : ℕ} {pool : Pool}

theorem createPool_allOrNothing (h : createPool token sui feePercent = .ok (lsp, pool)) :
    AllOrNothing pool := by
  obtain ⟨⟨hsui, htoken⟩, -, -, rfl, rfl⟩ := createPool_ok h
  exact Or.inl ⟨hsui, htoken, Nat.mul_pos (Nat.sqrt_pos.mpr hsui) (Nat.sqrt_pos.mpr htoken)⟩

theorem createPool_sq_le (h : createPool token sui feePercent = .ok (lsp, pool)) :
    pool.lspSupply ^ 2 ≤ pool.sui * pool.token := by
  obtain ⟨-, -, -, rfl, rfl⟩ := createPool_ok h
  calc (Nat.sqrt sui * Nat.sqrt token) ^ 2 = Nat.sqrt sui ^ 2 * Nat.sqrt token ^ 2 := by ring
    _ ≤ sui * token := Nat.mul_le_mul (Nat.sqrt_le' sui) (Nat.sqrt_le' token)

end Creation

/-! ### Runs -/

theorem run_keepsWorth (pool : Pool) (calls : List Call) :
    Reserves.KeepsWorth pool.reserves (run exec pool calls).reserves :=
  run_relation (fun _ => True) (fun p p' => Reserves.KeepsWorth p.reserves p'.reserves)
    (fun p => Reserves.KeepsWorth.refl p.reserves) Reserves.KeepsWorth.trans
    (fun _ _ _ _ _ _ _ => trivial) (fun _ _ _ _ _ _ h => exec_keepsWorth h) trivial
    (along_true pool calls)

theorem run_allOrNothing {pool : Pool} (hpool : AllOrNothing pool) (calls : List Call) :
    AllOrNothing (run exec pool calls) :=
  run_invariant (fun _ _ _ _ hinv _ h => exec_allOrNothing hinv h) hpool (along_true pool calls)

/-- The supply starts below the geometric mean of the balances and the worth of a share never falls,
so it stays there. -/
theorem run_sq_le {token sui feePercent lsp : ℕ} {pool : Pool}
    (hcreate : createPool token sui feePercent = .ok (lsp, pool)) (calls : List Call) :
    (run exec pool calls).lspSupply ^ 2 ≤ (run exec pool calls).sui * (run exec pool calls).token := by
  have hstart := createPool_sq_le hcreate
  have hworth := (run_keepsWorth pool calls).notDiluted
  obtain ⟨⟨hsui, htoken⟩, -, -, -, rfl⟩ := createPool_ok hcreate
  exact hworth.sq_le hsui htoken hstart

/-- **Liquidity providers are never diluted.** From any state of a pool's life to any later one, the
product of the balances per squared share does not fall. -/
theorem lsp_never_diluted {token sui feePercent lsp : ℕ} {pool p p' : Pool} {calls later : List Call}
    (hcreate : createPool token sui feePercent = .ok (lsp, pool))
    (hp : p = run exec pool calls) (hp' : p' = run exec p later) :
    p'.sui * p'.token * p.lspSupply ^ 2 ≥ p.sui * p.token * p'.lspSupply ^ 2 ∧
      p.lspSupply ^ 2 ≤ p.sui * p.token := by
  subst hp hp'
  exact ⟨(run_keepsWorth (run exec pool calls) later).notDiluted, run_sq_le hcreate calls⟩

theorem createPool_small : createPool 4 9 30 = .ok (6, ⟨9, 4, 6, 30⟩) := by
  rw [createPool, show Nat.sqrt 9 = 3 from Nat.sqrt_eq 3, show Nat.sqrt 4 = 2 from Nat.sqrt_eq 2]
  decide

/-- A pool of nine SUI and four tokens through a swap, a deposit and a withdrawal. -/
theorem lsp_never_diluted_small :
    createPool 4 9 30 = .ok (6, ⟨9, 4, 6, 30⟩) ∧
      run exec ⟨9, 4, 6, 30⟩ [.swapSui 9] = ⟨18, 3, 6, 30⟩ ∧
      run exec ⟨18, 3, 6, 30⟩ [.addLiquidity 18 3, .removeLiquidity 5] = ⟨21, 4, 7, 30⟩ ∧
      21 * 4 * 6 ^ 2 ≥ 18 * 3 * 7 ^ 2 ∧ 6 ^ 2 ≤ 18 * 3 := by
  have hfirst : run exec ⟨9, 4, 6, 30⟩ [.swapSui 9] = ⟨18, 3, 6, 30⟩ := by decide
  have hlater : run exec ⟨18, 3, 6, 30⟩ [.addLiquidity 18 3, .removeLiquidity 5] = ⟨21, 4, 7, 30⟩ := by decide
  exact ⟨createPool_small, hfirst, hlater, lsp_never_diluted createPool_small hfirst.symm hlater.symm⟩

/-- **No empty side.** In every state of a pool's life the three amounts are zero together. -/
theorem pool_empty_together {token sui feePercent lsp : ℕ} {pool p : Pool} {calls : List Call}
    (hcreate : createPool token sui feePercent = .ok (lsp, pool)) (hp : p = run exec pool calls) :
    (p.sui = 0 ↔ p.token = 0) ∧ (p.token = 0 ↔ p.lspSupply = 0) := by
  subst hp
  have h := run_allOrNothing (createPool_allOrNothing hcreate) calls
  unfold AllOrNothing at h
  omega

/-- A pool that is emptied by burning its whole supply. -/
theorem pool_empty_together_burned :
    createPool 4 9 30 = .ok (6, ⟨9, 4, 6, 30⟩) ∧
      ∃ p, p = run exec ⟨9, 4, 6, 30⟩ [.swapSui 9, .removeLiquidity 6] ∧ p.lspSupply = 0 ∧
        (p.sui = 0 ↔ p.token = 0) ∧ (p.token = 0 ↔ p.lspSupply = 0) :=
  ⟨createPool_small, _, rfl, by decide, pool_empty_together createPool_small rfl⟩

end MoveTutorial.Defi
