import MoveTutorial.PoolLimits

/-! The price of a swap. The bound on the balances is the largest `u64` divided by the scale of the fee, so
that an input of any size, scaled and multiplied by a balance within the bound, fits in `u128`. A pool
within the bound therefore prices every swap, and a pool above it does not price all of them. -/

namespace MoveTutorial.Defi

open Move

/-! ### The computation -/

section Price

variable {a n x y fee : ℕ}

/-- The bound leaves room for the scale of the fee beside an input of any size. -/
theorem scaled_product_fits (ha : a < 2 ^ 64) (hn : n ≤ a * feeScaling) (hy : y ≤ maxPoolValue) :
    n * y < 2 ^ 128 := by
  have hscaled : feeScaling * maxPoolValue ≤ 2 ^ 64 := by decide
  calc n * y ≤ a * feeScaling * maxPoolValue := Nat.mul_le_mul hn hy
    _ = a * (feeScaling * maxPoolValue) := Nat.mul_assoc _ _ _
    _ ≤ a * 2 ^ 64 := Nat.mul_le_mul_left a hscaled
    _ < 2 ^ 64 * 2 ^ 64 := Nat.mul_lt_mul_of_pos_right ha (Nat.two_pow_pos 64)

/-- No step aborts for an output reserve within the bound. -/
theorem getInputPrice_ok (ha : a < 2 ^ 64) (hx : 0 < x) (hx64 : x < 2 ^ 64) (hy : y ≤ maxPoolValue)
    (hfee : fee ≤ feeScaling) :
    getInputPrice a x y fee = .ok (Reserves.quote feeScaling (a * (feeScaling - fee)) x y) := by
  have hkept := kept_le a fee
  have hnumerator : a * (feeScaling - fee) * y < 2 ^ 128 := scaled_product_fits ha hkept hy
  have hdenominator : x * feeScaling + a * (feeScaling - fee) < 2 ^ 128 := by
    rw [feeScaling] at hkept ⊢
    omega
  have hpos : 0 < x * feeScaling + a * (feeScaling - fee) := Nat.add_pos_left (Nat.mul_pos hx (by decide)) _
  have hcast : Reserves.quote feeScaling (a * (feeScaling - fee)) x y < 2 ^ 64 :=
    calc Reserves.quote feeScaling (a * (feeScaling - fee)) x y ≤ y := Reserves.quote_le _ _ _ _
      _ ≤ maxPoolValue := hy
      _ < 2 ^ 64 := by decide
  rw [getInputPrice, sub_ok hfee, ok_bind, mul_ok ((Nat.le_add_left _ _).trans_lt hdenominator), ok_bind,
    mul_ok hnumerator, ok_bind, mul_ok ((Nat.le_add_right _ _).trans_lt hdenominator), ok_bind,
    add_ok hdenominator, ok_bind, div_ok hpos, ok_bind]
  exact if_pos hcast

/-- **The bound is sharp.** Every input can be priced at every fee exactly if the output reserve is
within it. -/
theorem all_inputs_priced_iff (hx : 0 < x) (hx64 : x < 2 ^ 64) :
    (∀ a fee, a < 2 ^ 64 → fee < 10000 → Succeeds (getInputPrice a x y fee)) ↔ y ≤ maxPoolValue := by
  constructor
  · intro hall
    obtain ⟨out, h⟩ := hall (2 ^ 64 - 1) 0 (by decide) (by decide)
    simp only [getInputPrice, bind_eq_ok, sub_eq_ok, mul_eq_ok] at h
    obtain ⟨_, ⟨-, rfl⟩, _, ⟨-, rfl⟩, _, ⟨hnumerator, -⟩, -⟩ := h
    rw [feeScaling] at hnumerator
    rw [maxPoolValue]
    omega
  · intro hy a fee ha hfee
    exact ⟨_, getInputPrice_ok ha hx hx64 hy hfee.le⟩

/-- Nine coins against four. -/
theorem all_inputs_priced_nine_four :
    (∀ a fee, a < 2 ^ 64 → fee < 10000 → Succeeds (getInputPrice a 9 4 fee)) ↔ 4 ≤ maxPoolValue :=
  all_inputs_priced_iff (by decide) (by decide)

end Price

/-- **The price within the bound.** For every input, every two reserves below the bound and every fee the
price is computed without an abort. It is less than the output reserve, and paying it for the input
does not lower the product of the reserves. -/
theorem price_within_bound (inputAmount inputReserve outputReserve feePercent : ℕ) (hinput : inputAmount < 2 ^ 64)
    (hinputReserve : 0 < inputReserve ∧ inputReserve < maxPoolValue)
    (houtputReserve : 0 < outputReserve ∧ outputReserve < maxPoolValue) (hfee : feePercent < 10000) :
    ∃ result, getInputPrice inputAmount inputReserve outputReserve feePercent = .ok result ∧
      result < outputReserve ∧
      inputReserve * outputReserve ≤ (inputReserve + inputAmount) * (outputReserve - result) := by
  have hreserve64 : inputReserve < 2 ^ 64 := hinputReserve.2.trans (by decide)
  have hprice := getInputPrice_ok hinput hinputReserve.1 hreserve64 houtputReserve.2.le hfee.le
  exact ⟨_, hprice, getInputPrice_lt hprice hinputReserve.1 houtputReserve.1, product_le_of_price hprice⟩

/-- The largest input and reserves, without a fee. -/
theorem price_within_bound_largest :
    ∃ result, getInputPrice (2 ^ 64 - 1) (maxPoolValue - 1) (maxPoolValue - 1) 0 = .ok result ∧
      result < maxPoolValue - 1 ∧
      (maxPoolValue - 1) * (maxPoolValue - 1) ≤ (maxPoolValue - 1 + (2 ^ 64 - 1)) * (maxPoolValue - 1 - result) :=
  price_within_bound _ _ _ 0 (by decide) (by decide) (by decide) (by decide)

/-- The values of `test_math_`. -/
example : getInputPrice 10 1000 1000 0 = .ok 9 ∧ getInputPrice 10000 maxPoolValue maxPoolValue 0 = .ok 9999 ∧
    getInputPrice 1000 maxPoolValue maxPoolValue 0 = .ok 999 ∧
    getInputPrice 100 maxPoolValue maxPoolValue 0 = .ok 99 := by decide

/-! ### Swaps -/

/-- The pool is within the bound and keeps part of every input. -/
structure Priced (pool : Pool) : Prop where
  belowCap : BelowCap pool
  fee_lt : pool.feePercent < 10000

section Swaps

variable {pool pool' : Pool} {a : ℕ}

theorem exec_feePercent {call : Call} {payout : Payout} (h : exec call pool = .ok (payout, pool')) :
    pool'.feePercent = pool.feePercent := by
  rcases exec_cases h with ⟨sui, rfl, hswap⟩ | ⟨token, rfl, hswap⟩ | ⟨sui, token, rfl, hadd⟩ |
    ⟨lsp, rfl, hremove⟩
  · obtain ⟨-, -, -, -, rfl⟩ := swapSui_ok hswap
    rfl
  · obtain ⟨-, -, -, -, rfl⟩ := swapToken_ok hswap
    rfl
  · obtain ⟨-, -, -, -, rfl⟩ := addLiquidity_ok hadd
    rfl
  · obtain ⟨-, -, -, -, -, -, -, rfl⟩ := removeLiquidity_eq_ok.mp hremove
    rfl

/-- The body that both swaps share: only the balance paid into can be too large. -/
theorem trade_succeeds_iff {β : Type} {x y fee : ℕ} (ha : a < 2 ^ 64) (hx : 0 < x) (hxCap : x < maxPoolValue)
    (hyCap : y < maxPoolValue) (hfee : fee < 10000) (f : ℕ → ℕ → ℕ → β) :
    Succeeds (do
      let outputAmount ← getInputPrice a x y fee
      let paidInto ← join x a
      let (out, paidFrom) ← take y outputAmount
      return f paidInto out paidFrom) ↔ x + a < 2 ^ 64 := by
  have hle := Reserves.quote_le feeScaling (a * (feeScaling - fee)) x y
  rw [getInputPrice_ok ha hx (hxCap.trans (by decide)) hyCap.le hfee.le, ok_bind]
  constructor
  · rintro ⟨_, h⟩
    obtain ⟨_, hjoin, -⟩ := bind_eq_ok.mp h
    exact (join_eq_ok.mp hjoin).1
  · intro hfits
    rw [join_eq_ok.mpr ⟨hfits, rfl⟩, ok_bind, take_eq_ok.mpr ⟨hle, rfl, rfl⟩]
    exact ⟨_, rfl⟩

theorem swapSui_succeeds_iff (hpool : Priced pool) (ha : a < 2 ^ 64) :
    Succeeds (swapSui pool a) ↔ 0 < a ∧ (0 < pool.sui ∧ 0 < pool.token) ∧ pool.sui + a < 2 ^ 64 := by
  obtain ⟨⟨hsui, htoken⟩, hfee⟩ := hpool
  rw [swapSui, getAmounts, succeeds_assert_bind]
  apply and_congr_right
  intro _
  rw [succeeds_assert_bind]
  apply and_congr_right
  intro hreserves
  exact trade_succeeds_iff ha hreserves.1 hsui htoken hfee fun paidInto out paidFrom =>
    (out, { pool with sui := paidInto, token := paidFrom })

theorem swapToken_succeeds_iff (hpool : Priced pool) (ha : a < 2 ^ 64) :
    Succeeds (swapToken pool a) ↔ 0 < a ∧ (0 < pool.sui ∧ 0 < pool.token) ∧ pool.token + a < 2 ^ 64 := by
  obtain ⟨⟨hsui, htoken⟩, hfee⟩ := hpool
  rw [swapToken, getAmounts, succeeds_assert_bind]
  apply and_congr_right
  intro _
  rw [succeeds_assert_bind]
  apply and_congr_right
  intro hreserves
  exact trade_succeeds_iff ha hreserves.2 htoken hsui hfee fun paidInto out paidFrom =>
    (out, { pool with token := paidInto, sui := paidFrom })

theorem createPool_priced {token sui feePercent lsp : ℕ} (h : createPool token sui feePercent = .ok (lsp, pool)) :
    Priced pool := by
  obtain ⟨-, hmax, hfee, -, rfl⟩ := createPool_ok h
  exact ⟨hmax, hfee⟩

theorem exec_priced {call : Call} {payout : Payout} (hpool : Priced pool) (hcall : SwapWithinCap pool call)
    (h : exec call pool = .ok (payout, pool')) : Priced pool' where
  belowCap := (exec_belowCap_iff hpool.belowCap h).mpr hcall
  fee_lt := by
    rw [exec_feePercent h]
    exact hpool.fee_lt

end Swaps

/-- **Swaps go through.** In every state of a pool's life up to which its swaps stayed within the bound, a
swap succeeds exactly if its coin is not zero, the pool is not empty and the coin fits its balance. -/
theorem swaps_succeed_iff {token sui feePercent lsp : ℕ} {pool : Pool} {calls : List Call}
    (hcreate : createPool token sui feePercent = .ok (lsp, pool)) (hcalls : Along exec SwapWithinCap pool calls)
    {a : ℕ} (ha : a < 2 ^ 64) :
    (Succeeds (swapSui (run exec pool calls) a) ↔
      0 < a ∧ (0 < (run exec pool calls).sui ∧ 0 < (run exec pool calls).token) ∧
        (run exec pool calls).sui + a < 2 ^ 64) ∧
    (Succeeds (swapToken (run exec pool calls) a) ↔
      0 < a ∧ (0 < (run exec pool calls).sui ∧ 0 < (run exec pool calls).token) ∧
        (run exec pool calls).token + a < 2 ^ 64) := by
  have hpriced : Priced (run exec pool calls) :=
    run_invariant (fun _ _ _ _ hpool hcall hok => exec_priced hpool hcall hok) (createPool_priced hcreate) hcalls
  exact ⟨swapSui_succeeds_iff hpriced ha, swapToken_succeeds_iff hpriced ha⟩

/-- The pool of nine SUI and four tokens after a swap of nine SUI. -/
theorem swaps_succeed_iff_small :
    (Succeeds (swapSui (run exec ⟨9, 4, 6, 30⟩ [.swapSui 9]) 5) ↔
      0 < 5 ∧ (0 < (run exec ⟨9, 4, 6, 30⟩ [.swapSui 9]).sui ∧ 0 < (run exec ⟨9, 4, 6, 30⟩ [.swapSui 9]).token) ∧
        (run exec ⟨9, 4, 6, 30⟩ [.swapSui 9]).sui + 5 < 2 ^ 64) ∧
    (Succeeds (swapToken (run exec ⟨9, 4, 6, 30⟩ [.swapSui 9]) 5) ↔
      0 < 5 ∧ (0 < (run exec ⟨9, 4, 6, 30⟩ [.swapSui 9]).sui ∧ 0 < (run exec ⟨9, 4, 6, 30⟩ [.swapSui 9]).token) ∧
        (run exec ⟨9, 4, 6, 30⟩ [.swapSui 9]).token + 5 < 2 ^ 64) := by
  have hcalls : Along exec SwapWithinCap ⟨9, 4, 6, 30⟩ [.swapSui 9] :=
    ⟨(by decide : 9 + 9 < maxPoolValue), trivial⟩
  exact swaps_succeed_iff createPool_small hcalls (by decide)

end MoveTutorial.Defi
