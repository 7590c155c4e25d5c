import MoveTutorial.PoolWorth

/-! The two limits of the pool's `u64` amounts. A withdrawal multiplies a balance by the burned shares
before it divides, and so goes through exactly when neither product overflows. The bound on the
balances is checked at creation and by deposits but not by swaps, and so holds through a run exactly
when no swap crosses it. -/

namespace MoveTutorial.Defi

open Move

/-! ### Withdrawals -/

/-- **When liquidity can be withdrawn.** In every state that calls lead to and for every coin of
outstanding shares, the withdrawal succeeds with the floors of the proportional parts if and only if
both balances times the coin's value stay below `2 ^ 64`. -/
theorem withdrawal_succeeds_iff {pool p : Pool} {calls : List Call} {l : ℕ} (hp : run exec pool calls = p)
    (hpos : 0 < l) (hle : l ≤ p.lspSupply) :
    (∃ p', removeLiquidity (run exec pool calls) l =
        .ok ((p.sui * l / p.lspSupply, p.token * l / p.lspSupply), p')) ↔
      p.sui * l < 2 ^ 64 ∧ p.token * l < 2 ^ 64 := by
  rw [hp]
  have hpart : ∀ x, x * l / p.lspSupply ≤ x := fun x =>
    Nat.div_le_of_le_mul (by rw [Nat.mul_comm]; exact Nat.mul_le_mul_right x hle)
  constructor
  · rintro ⟨p', h⟩
    exact (removeLiquidity_eq_ok.mp h).2.2.1
  · intro hfits
    exact ⟨_, removeLiquidity_eq_ok.mpr ⟨hpos, by omega, hfits, hle, ⟨hpart _, hpart _⟩, rfl, rfl, rfl⟩⟩

theorem withdrawal_succeeds_iff_small :
    createPool 4 9 30 = .ok (6, ⟨9, 4, 6, 30⟩) ∧ run exec ⟨9, 4, 6, 30⟩ [.swapSui 9] = ⟨18, 3, 6, 30⟩ ∧
      ((∃ p', removeLiquidity (run exec ⟨9, 4, 6, 30⟩ [.swapSui 9]) 5 = .ok ((18 * 5 / 6, 3 * 5 / 6), p')) ↔
        18 * 5 < 2 ^ 64 ∧ 3 * 5 < 2 ^ 64) := by
  have hrun : run exec ⟨9, 4, 6, 30⟩ [.swapSui 9] = ⟨18, 3, 6, 30⟩ := by decide
  exact ⟨createPool_small, hrun, withdrawal_succeeds_iff hrun (by decide) (by decide)⟩

/-- Ten SUI (in units of `10 ^ -9`) and as much of the token give a share of `10 ^ 10`, which its
owner cannot withdraw: the product of balance and share is `10 ^ 20`. -/
theorem withdrawal_overflows :
    createPool (10 ^ 10) (10 ^ 10) 30 = .ok (10 ^ 10, ⟨10 ^ 10, 10 ^ 10, 10 ^ 10, 30⟩) ∧
      removeLiquidity (run exec ⟨10 ^ 10, 10 ^ 10, 10 ^ 10, 30⟩ []) (10 ^ 10) = .error .arithmetic := by
  constructor
  · rw [createPool, show Nat.sqrt (10 ^ 10) = 10 ^ 5 from Nat.sqrt_eq (10 ^ 5)]
    decide
  · decide

/-! ### The bound on the balances -/

/-- Both balances are below the documented bound. -/
def BelowCap (pool : Pool) : Prop := pool.sui < maxPoolValue ∧ pool.token < maxPoolValue

/-- The balance that a swap pays into stays below the bound. -/
def SwapWithinCap (pool : Pool) : Call → Prop
  | .swapSui sui => pool.sui + sui < maxPoolValue
  | .swapToken token => pool.token + token < maxPoolValue
  | _ => True

theorem exec_belowCap_iff {call : Call} {pool pool' : Pool} {payout : Payout} (hpool : BelowCap pool)
    (h : exec call pool = .ok (payout, pool')) : BelowCap pool' ↔ SwapWithinCap pool call := by
  obtain ⟨hsui, htoken⟩ := hpool
  rcases exec_cases h with ⟨sui, rfl, hswap⟩ | ⟨token, rfl, hswap⟩ | ⟨sui, token, rfl, hadd⟩ |
    ⟨lsp, rfl, hremove⟩
  · obtain ⟨-, -, -, -, rfl⟩ := swapSui_ok hswap
    simp only [BelowCap, SwapWithinCap]
    omega
  · obtain ⟨-, -, -, -, rfl⟩ := swapToken_ok hswap
    simp only [BelowCap, SwapWithinCap]
    omega
  · obtain ⟨-, -, -, hfull, rfl⟩ := addLiquidity_ok hadd
    simpa only [BelowCap, SwapWithinCap, iff_true] using hfull
  · obtain ⟨-, -, -, -, -, -, -, rfl⟩ := removeLiquidity_eq_ok.mp hremove
    simp only [BelowCap, SwapWithinCap, iff_true]
    omega

/-- **When the bound holds.** A run of successful calls keeps both balances below the bound in every
state it reaches if and only if every swap of the run leaves the balance it pays into below it. -/
theorem balances_below_cap_iff {token sui feePercent lsp : ℕ} {pool : Pool} {calls : List Call}
    (hcreate : createPool token sui feePercent = .ok (lsp, pool))
    (hok : Along exec (fun p call => Succeeds (exec call p)) pool calls) :
    (∀ pre, pre <+: calls → (run exec pool pre).sui < maxPoolValue ∧ (run exec pool pre).token < maxPoolValue) ↔
      Along exec SwapWithinCap pool calls := by
  have hstart : BelowCap pool := by
    obtain ⟨-, hmax, -, -, rfl⟩ := createPool_ok hcreate
    exact hmax
  exact forall_prefix_iff_along (fun _ _ _ _ hpool h => exec_belowCap_iff hpool h) hstart hok

theorem balances_below_cap_iff_small :
    createPool 4 9 30 = .ok (6, ⟨9, 4, 6, 30⟩) ∧
      Along exec (fun p call => Succeeds (exec call p)) ⟨9, 4, 6, 30⟩ [.swapSui 9] ∧
      ((∀ pre, pre <+: [.swapSui 9] → (run exec ⟨9, 4, 6, 30⟩ pre).sui < maxPoolValue ∧
          (run exec ⟨9, 4, 6, 30⟩ pre).token < maxPoolValue) ↔
        Along exec SwapWithinCap ⟨9, 4, 6, 30⟩ [.swapSui 9]) := by
  have hok : Along exec (fun p call => Succeeds (exec call p)) ⟨9, 4, 6, 30⟩ [.swapSui 9] :=
    ⟨⟨({ token := 1 }, ⟨18, 3, 6, 30⟩), by decide⟩, trivial⟩
  exact ⟨createPool_small, hok, balances_below_cap_iff createPool_small hok⟩

/-- One swap of `10 ^ 19` into a pool of nine SUI succeeds and takes the SUI balance far above the
bound. -/
theorem swap_exceeds_cap :
    createPool 4 9 30 = .ok (6, ⟨9, 4, 6, 30⟩) ∧
      exec (.swapSui (10 ^ 19)) ⟨9, 4, 6, 30⟩ = .ok ({ token := 3 }, ⟨10 ^ 19 + 9, 1, 6, 30⟩) ∧
      ¬(run exec ⟨9, 4, 6, 30⟩ [.swapSui (10 ^ 19)]).sui < maxPoolValue :=
  ⟨createPool_small, by decide, by decide⟩

end MoveTutorial.Defi
