import MoveTutorial.PoolLimits

/-! Deposits into the pool, and where they differ from what their callers are told. The shares are
computed in `u64` before the bound on the balances is checked, so a deposit can abort on overflow,
and on a division by zero in a pool that was emptied; and the shares are rounded down, so a deposit
can be taken for none. Both are described exactly, for every state of a pool's life. -/

namespace MoveTutorial.Defi

open Move

/-! ### The reasons of an abort -/

/-- The deposit's arithmetic goes through: the pool is not empty, and neither the products with the
supply nor the new balances overflow. -/
def DepositFits (pool : Pool) (sui token : ℕ) : Prop :=
  (0 < pool.sui ∧ 0 < pool.token) ∧ (sui * pool.lspSupply < 2 ^ 64 ∧ token * pool.lspSupply < 2 ^ 64) ∧
    pool.sui + sui < 2 ^ 64 ∧ pool.token + token < 2 ^ 64

section Reasons

variable {pool : Pool} {sui token : ℕ} {e : Abort}

/-- The reasons in the order in which the function comes to them. -/
theorem addLiquidity_eq_error :
    addLiquidity pool sui token = .error e ↔
      ¬sui > 0 ∧ e = .code eZeroAmount ∨ sui > 0 ∧ (¬token > 0 ∧ e = .code eZeroAmount ∨ token > 0 ∧
      (2 ^ 64 ≤ sui * pool.lspSupply ∧ e = .arithmetic ∨ sui * pool.lspSupply < 2 ^ 64 ∧
      (pool.sui = 0 ∧ e = .arithmetic ∨ 0 < pool.sui ∧
      (2 ^ 64 ≤ token * pool.lspSupply ∧ e = .arithmetic ∨ token * pool.lspSupply < 2 ^ 64 ∧
      (pool.token = 0 ∧ e = .arithmetic ∨ 0 < pool.token ∧
      (2 ^ 64 ≤ pool.sui + sui ∧ e = .arithmetic ∨ pool.sui + sui < 2 ^ 64 ∧
      (2 ^ 64 ≤ pool.token + token ∧ e = .arithmetic ∨ pool.token + token < 2 ^ 64 ∧
      (¬pool.sui + sui < maxPoolValue ∧ e = .code ePoolFull ∨ pool.sui + sui < maxPoolValue ∧
      (¬pool.token + token < maxPoolValue ∧ e = .code ePoolFull ∨ pool.token + token < maxPoolValue ∧
        2 ^ 64 ≤ pool.lspSupply +
          min (sui * pool.lspSupply / pool.sui) (token * pool.lspSupply / pool.token) ∧
        e = .arithmetic))))))))) := by
  dsimp only [addLiquidity, getAmounts]
  simp only [bind_eq_error, assert_eq_error, assert_eq_ok, mul_eq_error, mul_eq_ok, div_eq_error, div_eq_ok,
    join, increaseSupply, add_eq_error, add_eq_ok, pure_ne_error, exists_const, and_assoc, exists_eq_left',
    exists_and_left, or_false, and_false, bind_eq_ok]

theorem addLiquidity_zero (h : sui = 0 ∨ token = 0) : addLiquidity pool sui token = .error (.code eZeroAmount) := by
  rw [addLiquidity_eq_error]
  by_cases hsui : sui > 0
  · refine Or.inr ⟨hsui, Or.inl ⟨?_, rfl⟩⟩
    omega
  · exact Or.inl ⟨hsui, rfl⟩

theorem reached_of_lt {a b : ℕ} {p : Prop} (h : a < b → p) : b ≤ a ∨ a < b ∧ p := by
  rcases Nat.lt_or_ge a b with hlt | hge
  · exact Or.inr ⟨hlt, h hlt⟩
  · exact Or.inl hge

theorem reached_of_pos {a : ℕ} {p : Prop} (h : 0 < a → p) : a = 0 ∨ 0 < a ∧ p := by
  rcases Nat.eq_zero_or_pos a with hzero | hpos
  · exact Or.inl hzero
  · exact Or.inr ⟨hpos, h hpos⟩

theorem addLiquidity_overflows (hpos : 0 < sui ∧ 0 < token) (h : ¬DepositFits pool sui token) :
    addLiquidity pool sui token = .error .arithmetic := by
  rw [addLiquidity_eq_error]
  simp only [reduceCtorEq, and_false, and_true, false_or]
  refine ⟨hpos.1, hpos.2, ?_⟩
  -- if no check before the bound stops the deposit, its arithmetic goes through
  apply reached_of_lt
  intro hsui
  apply reached_of_pos
  intro hx
  apply reached_of_lt
  intro htoken
  apply reached_of_pos
  intro hy
  apply reached_of_lt
  intro hsui'
  apply reached_of_lt
  intro htoken'
  exact absurd ⟨⟨hx, hy⟩, ⟨hsui, htoken⟩, hsui', htoken'⟩ h

/-- The supply stays below the geometric mean of the balances, so it cannot overflow where they are
below the bound. -/
theorem supply_fits (hsq : pool.lspSupply ^ 2 ≤ pool.sui * pool.token) (hx : 0 < pool.sui)
    (hy : 0 < pool.token) (hsui : pool.sui + sui < maxPoolValue) (htoken : pool.token + token < maxPoolValue) :
    pool.lspSupply + min (sui * pool.lspSupply / pool.sui) (token * pool.lspSupply / pool.token) < 2 ^ 64 := by
  have hfirst : min (sui * pool.lspSupply / pool.sui) (token * pool.lspSupply / pool.token) * pool.sui ≤
      sui * pool.lspSupply :=
    (Nat.mul_le_mul_right _ (min_le_left _ _)).trans (Nat.div_mul_le_self _ _)
  have hsecond : min (sui * pool.lspSupply / pool.sui) (token * pool.lspSupply / pool.token) * pool.token ≤
      token * pool.lspSupply :=
    (Nat.mul_le_mul_right _ (min_le_right _ _)).trans (Nat.div_mul_le_self _ _)
  generalize min (sui * pool.lspSupply / pool.sui) (token * pool.lspSupply / pool.token) = minted at *
  have hworth := (Reserves.keepsParts_deposit (p := pool.reserves) hx hfirst hsecond).keepsWorth.notDiluted
  have hgrown : (pool.lspSupply + minted) ^ 2 ≤ (pool.sui + sui) * (pool.token + token) := hworth.sq_le hx hy hsq
  have hlt : (pool.lspSupply + minted) ^ 2 < maxPoolValue ^ 2 := by
    rw [sq maxPoolValue]
    exact hgrown.trans_lt (Nat.mul_lt_mul'' hsui htoken)
  exact (lt_of_pow_lt_pow_left₀ 2 (Nat.zero_le _) hlt).trans (by decide)

theorem addLiquidity_reason (hsq : pool.lspSupply ^ 2 ≤ pool.sui * pool.token) (hpos : 0 < sui ∧ 0 < token)
    (hfits : DepositFits pool sui token) (h : addLiquidity pool sui token = .error e) :
    e = .code ePoolFull ∧ (maxPoolValue ≤ pool.sui + sui ∨ maxPoolValue ≤ pool.token + token) := by
  obtain ⟨⟨hx, hy⟩, ⟨hsui, htoken⟩, hsui', htoken'⟩ := hfits
  rw [addLiquidity_eq_error] at h
  simp only [gt_iff_lt, hpos.1, hpos.2, hx, hy, hx.ne', hy.ne', hsui, htoken, hsui', htoken', not_true, not_lt,
    Nat.not_le.mpr hsui, Nat.not_le.mpr htoken, Nat.not_le.mpr hsui', Nat.not_le.mpr htoken', false_and,
    true_and, false_or] at h
  rcases h with ⟨hfull, rfl⟩ | ⟨hsuiCap, ⟨hfull, rfl⟩ | ⟨htokenCap, hsupply, -⟩⟩
  · exact ⟨rfl, Or.inl hfull⟩
  · exact ⟨rfl, Or.inr hfull⟩
  · exact absurd (supply_fits hsq hx hy hsuiCap htokenCap) (Nat.not_lt.mpr hsupply)

end Reasons

/-- **When a deposit fails only for its declared reasons.** In every state of a pool's life and for
every two coins, a deposit aborts with `EZeroAmount` for a zero coin or `EPoolFull` for a balance at
the bound and for nothing else if and only if a coin is zero or the deposit's arithmetic goes
through. -/
theorem deposit_aborts_as_declared_iff {token sui feePercent lsp : ℕ} {pool p : Pool} {calls : List Call}
    (hcreate : createPool token sui feePercent = .ok (lsp, pool)) (hp : p = run exec pool calls) (x y : ℕ) :
    (∀ e, addLiquidity p x y = .error e →
      (e = .code eZeroAmount ∧ (x = 0 ∨ y = 0)) ∨
      (e = .code ePoolFull ∧ (maxPoolValue ≤ p.sui + x ∨ maxPoolValue ≤ p.token + y))) ↔
    x = 0 ∨ y = 0 ∨ (0 < p.sui ∧ (x * p.lspSupply < 2 ^ 64 ∧ y * p.lspSupply < 2 ^ 64) ∧
      p.sui + x < 2 ^ 64 ∧ p.token + y < 2 ^ 64) := by
  subst hp
  have hsq := run_sq_le hcreate calls
  have hempty := run_allOrNothing (createPool_allOrNothing hcreate) calls
  generalize run exec pool calls = p at hsq hempty ⊢
  have hfits : DepositFits p x y ↔ 0 < p.sui ∧ (x * p.lspSupply < 2 ^ 64 ∧ y * p.lspSupply < 2 ^ 64) ∧
      p.sui + x < 2 ^ 64 ∧ p.token + y < 2 ^ 64 := by
    unfold DepositFits
    unfold AllOrNothing at hempty
    omega
  rw [← hfits]
  constructor
  · intro hdeclared
    by_contra hnot
    rw [not_or, not_or] at hnot
    obtain ⟨hx, hy, hover⟩ := hnot
    rcases hdeclared _ (addLiquidity_overflows ⟨Nat.pos_of_ne_zero hx, Nat.pos_of_ne_zero hy⟩ hover) with
      ⟨hcode, -⟩ | ⟨hcode, -⟩ <;> cases hcode
  · intro hcond e he
    by_cases hzero : x = 0 ∨ y = 0
    · rw [addLiquidity_zero hzero] at he
      cases he
      exact Or.inl ⟨rfl, hzero⟩
    · have hfit : DepositFits p x y := by tauto
      exact Or.inr (addLiquidity_reason hsq (by omega) hfit he)

/-- A deposit of a thousand SUI and four tokens, whose product with the supply fits. -/
theorem deposit_aborts_as_declared_iff_small :
    createPool 4 9 30 = .ok (6, ⟨9, 4, 6, 30⟩) ∧
      (∀ e, addLiquidity ⟨18, 3, 6, 30⟩ 1000 4 = .error e →
        (e = .code eZeroAmount ∧ (1000 = 0 ∨ 4 = 0)) ∨
        (e = .code ePoolFull ∧ (maxPoolValue ≤ 18 + 1000 ∨ maxPoolValue ≤ 3 + 4))) := by
  have hp : ⟨18, 3, 6, 30⟩ = run exec ⟨9, 4, 6, 30⟩ [.swapSui 9] := by decide
  exact ⟨createPool_small, (deposit_aborts_as_declared_iff createPool_small hp 1000 4).mpr (by decide)⟩

/-- A pool of nine SUI and four tokens is emptied, and then aborts on every deposit with a division by
zero; a pool of ten SUI and as much of the token aborts on a deposit of its own size with an
overflow. -/
theorem deposit_aborts_undeclared :
    createPool 4 9 30 = .ok (6, ⟨9, 4, 6, 30⟩) ∧
      run exec ⟨9, 4, 6, 30⟩ [.removeLiquidity 6] = ⟨0, 0, 0, 30⟩ ∧
      addLiquidity ⟨0, 0, 0, 30⟩ 1 1 = .error .arithmetic ∧
      createPool (10 ^ 10) (10 ^ 10) 30 = .ok (10 ^ 10, ⟨10 ^ 10, 10 ^ 10, 10 ^ 10, 30⟩) ∧
      addLiquidity ⟨10 ^ 10, 10 ^ 10, 10 ^ 10, 30⟩ (10 ^ 10) (10 ^ 10) = .error .arithmetic ∧
      10 ^ 10 + 10 ^ 10 < maxPoolValue := by
  refine ⟨createPool_small, by decide, by decide, ?_, by decide, by decide⟩
  rw [createPool, show Nat.sqrt (10 ^ 10) = 10 ^ 5 from Nat.sqrt_eq (10 ^ 5)]
  decide

/-! ### Deposits for nothing -/

/-- **When a deposit is not taken for nothing.** In every state of a pool's life, an accepted deposit
mints at least one share if and only if each coin is worth one: times the supply it is no less than
the pool's balance. -/
theorem deposit_mints_iff {pool p p' : Pool} {calls : List Call} {x y minted : ℕ}
    (hp : run exec pool calls = p) (hadd : addLiquidity (run exec pool calls) x y = .ok (minted, p')) :
    1 ≤ minted ↔ p.sui ≤ x * p.lspSupply ∧ p.token ≤ y * p.lspSupply := by
  rw [hp] at hadd
  obtain ⟨-, ⟨hx, hy⟩, hout, -, -⟩ := addLiquidity_ok hadd
  rw [hout, le_min_iff, Nat.le_div_iff_mul_le hx, Nat.le_div_iff_mul_le hy, Nat.one_mul, Nat.one_mul]

theorem deposit_mints_iff_small :
    createPool 4 9 30 = .ok (6, ⟨9, 4, 6, 30⟩) ∧ run exec ⟨9, 4, 6, 30⟩ [.swapSui 9] = ⟨18, 3, 6, 30⟩ ∧
      addLiquidity (run exec ⟨9, 4, 6, 30⟩ [.swapSui 9]) 18 3 = .ok (6, ⟨36, 6, 12, 30⟩) ∧
      (1 ≤ 6 ↔ 18 ≤ 18 * 6 ∧ 3 ≤ 3 * 6) := by
  have hp : run exec ⟨9, 4, 6, 30⟩ [.swapSui 9] = ⟨18, 3, 6, 30⟩ := by decide
  have hadd : addLiquidity (run exec ⟨9, 4, 6, 30⟩ [.swapSui 9]) 18 3 = .ok (6, ⟨36, 6, 12, 30⟩) := by decide
  exact ⟨createPool_small, hp, hadd, deposit_mints_iff hp hadd⟩

/-- One swap of nine SUI doubles the SUI balance of a pool, and a deposit of one SUI and one token is
then taken for no share. -/
theorem deposit_taken_for_nothing :
    createPool 4 9 30 = .ok (6, ⟨9, 4, 6, 30⟩) ∧ run exec ⟨9, 4, 6, 30⟩ [.swapSui 9] = ⟨18, 3, 6, 30⟩ ∧
      addLiquidity ⟨18, 3, 6, 30⟩ 1 1 = .ok (0, ⟨19, 4, 6, 30⟩) :=
  ⟨createPool_small, by decide, by decide⟩

end MoveTutorial.Defi
