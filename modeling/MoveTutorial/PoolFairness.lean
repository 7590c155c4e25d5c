import MoveTutorial.PoolWorth

/-! The same amounts in another order or in other pieces. Deposits and withdrawals keep what one share
owns of each balance, so a round trip gains neither coin, pieces of a deposit mint no more than the
whole, and redeeming the supply pays everyone the same up to rounding in every order. Pieces of a
swap are quotes against balances in which the earlier fees remain, and pay no more than the whole. -/

namespace MoveTutorial.Defi

open Move

/-! ### Redemptions -/

section Redemptions

variable {pool pool' : Pool} {coins : List ℕ} {payouts : List (ℕ × ℕ)}

theorem removals_keepParts
    (h : successive (fun l p => removeLiquidity p l) pool coins = .ok (payouts, pool')) :
    Reserves.KeepsParts pool.reserves pool'.reserves := by
  refine successive_preorder (R := fun p p' => Reserves.KeepsParts p.reserves p'.reserves)
    (fun p => Reserves.KeepsParts.refl p.reserves) Reserves.KeepsParts.trans ?_ h
  intro p l paid p' hcall
  exact removeLiquidity_keepsParts hcall

/-- What is paid comes from the balances and what is redeemed from the supply. -/
theorem removals_totals
    (h : successive (fun l p => removeLiquidity p l) pool coins = .ok (payouts, pool')) :
    pool'.sui + (payouts.map Prod.fst).sum = pool.sui ∧ pool'.token + (payouts.map Prod.snd).sum = pool.token ∧
      pool'.lspSupply + coins.sum = pool.lspSupply := by
  refine successive_rule (P := fun p coins payouts p' => p'.sui + (payouts.map Prod.fst).sum = p.sui ∧
    p'.token + (payouts.map Prod.snd).sum = p.token ∧ p'.lspSupply + coins.sum = p.lspSupply) ?_ ?_ h
  · intro p
    exact ⟨rfl, rfl, rfl⟩
  · intro p mid last l paid coins payouts hcall hrest
    obtain ⟨-, -, -, hle, ⟨hsui, htoken⟩, -, -, rfl⟩ := removeLiquidity_eq_ok.mp hcall
    simp only [List.map_cons, List.sum_cons] at hrest ⊢
    omega

/-- Whoever redeems the last share takes all that is left. -/
theorem removeLiquidity_drains {l : ℕ} {paid : ℕ × ℕ} (h : removeLiquidity pool l = .ok (paid, pool'))
    (hlast : pool'.lspSupply = 0) : pool'.sui = 0 ∧ pool'.token = 0 := by
  obtain ⟨-, hsupply, -, hle, -, hsui, htoken, rfl⟩ := removeLiquidity_eq_ok.mp h
  have hall : l = pool.lspSupply := by
    dsimp only at hlast
    omega
  rw [hall, Nat.mul_div_cancel _ hsupply] at hsui htoken
  simp only [hsui, htoken, Nat.sub_self, and_self]

theorem removals_drain
    (h : successive (fun l p => removeLiquidity p l) pool coins = .ok (payouts, pool'))
    (hsupply : 0 < pool.lspSupply) (hlast : pool'.lspSupply = 0) : pool'.sui = 0 ∧ pool'.token = 0 := by
  have hdrained : (pool.lspSupply = 0 → pool.sui = 0 ∧ pool.token = 0) →
      pool'.lspSupply = 0 → pool'.sui = 0 ∧ pool'.token = 0 := by
    refine successive_rule (P := fun p _ _ p' => (p.lspSupply = 0 → p.sui = 0 ∧ p.token = 0) →
      p'.lspSupply = 0 → p'.sui = 0 ∧ p'.token = 0) ?_ ?_ h
    · intro p hp
      exact hp
    · intro p mid last l paid _ _ hcall hrest _
      exact hrest (removeLiquidity_drains hcall)
  exact hdrained (fun hzero => absurd hzero (by omega)) hlast

/-- **The order of redemptions is neutral up to rounding.** When coins worth the whole supply are
redeemed one after another, each pays at least its part of the balances before the first, every
prefix at most its part, and the last leaves nothing. -/
theorem redemption_order_neutral (hsupply : 0 < pool.lspSupply) (hsum : coins.sum = pool.lspSupply)
    (h : successive (fun l p => removeLiquidity p l) pool coins = .ok (payouts, pool')) :
    (∀ (k l : ℕ), coins[k]? = some l → ∃ sui token, payouts[k]? = some (sui, token) ∧
      pool.sui * l / pool.lspSupply ≤ sui ∧ pool.token * l / pool.lspSupply ≤ token) ∧
    (∀ k, ((payouts.take k).map Prod.fst).sum ≤ pool.sui * (coins.take k).sum / pool.lspSupply ∧
      ((payouts.take k).map Prod.snd).sum ≤ pool.token * (coins.take k).sum / pool.lspSupply) ∧
    pool'.sui = 0 ∧ pool'.token = 0 ∧ pool'.lspSupply = 0 := by
  refine ⟨fun k l hk => ?_, fun k => ?_, ?_⟩
  · obtain ⟨mid, hfront, hback⟩ := successive_split h k
    have hcoins : coins.drop k = l :: coins.drop (k + 1) := by
      obtain ⟨hlt, hget⟩ := List.getElem?_eq_some_iff.mp hk
      rw [List.drop_eq_getElem_cons hlt, hget]
    rw [hcoins] at hback
    obtain ⟨⟨sui, token⟩, mid', later, hcall, -, hpayouts⟩ := successive_cons_ok.mp hback
    have hparts := removals_keepParts hfront
    obtain ⟨-, hmid, -, -, -, hsui, htoken, -⟩ := removeLiquidity_eq_ok.mp hcall
    refine ⟨sui, token, ?_, ?_, ?_⟩
    · have hhead : (payouts.drop k)[0]? = some (sui, token) := by rw [hpayouts]; rfl
      rwa [List.getElem?_drop, Nat.add_zero] at hhead
    · rw [hsui]
      exact Reserves.redeem_le_redeem l hparts.x_le hsupply hmid
    · rw [htoken]
      exact Reserves.redeem_le_redeem l hparts.y_le hsupply hmid
  · obtain ⟨mid, hfront, -⟩ := successive_split h k
    have hparts := removals_keepParts hfront
    obtain ⟨hsui, htoken, hlsp⟩ := removals_totals hfront
    exact ⟨Reserves.paid_le_of_part hparts.x_le hsui hlsp hsupply,
      Reserves.paid_le_of_part hparts.y_le htoken hlsp hsupply⟩
  · obtain ⟨-, -, hlsp⟩ := removals_totals h
    have hlast : pool'.lspSupply = 0 := by omega
    obtain ⟨hsui, htoken⟩ := removals_drain h hsupply hlast
    exact ⟨hsui, htoken, hlast⟩

end Redemptions

/-- Six shares of eighteen SUI and three tokens in coins of one, three and two: the second pays one
token where its part of the first balances is one and a half. -/
theorem redemption_order_neutral_small :
    successive (fun l p => removeLiquidity p l) ⟨18, 3, 6, 30⟩ [1, 3, 2] =
        .ok ([(3, 0), (9, 1), (6, 2)], ⟨0, 0, 0, 30⟩) ∧
      (∀ (k l : ℕ), [1, 3, 2][k]? = some l → ∃ sui token, [(3, 0), (9, 1), (6, 2)][k]? = some (sui, token) ∧
        18 * l / 6 ≤ sui ∧ 3 * l / 6 ≤ token) := by
  have h : successive (fun l p => removeLiquidity p l) ⟨18, 3, 6, 30⟩ [1, 3, 2] =
      .ok ([(3, 0), (9, 1), (6, 2)], ⟨0, 0, 0, 30⟩) := by decide
  exact ⟨h, (redemption_order_neutral (by decide) (by decide) h).1⟩

/-! ### Deposits -/

section Deposits

variable {pool pool' : Pool}

theorem deposits_keepParts {deposits : List (ℕ × ℕ)} {minted : List ℕ}
    (h : successive (fun d p => addLiquidity p d.1 d.2) pool deposits = .ok (minted, pool')) :
    Reserves.KeepsParts pool.reserves pool'.reserves := by
  refine successive_preorder (R := fun p p' => Reserves.KeepsParts p.reserves p'.reserves)
    (fun p => Reserves.KeepsParts.refl p.reserves) Reserves.KeepsParts.trans ?_ h
  intro p d lsp p' hcall
  exact addLiquidity_keepsParts hcall

theorem deposits_totals {deposits : List (ℕ × ℕ)} {minted : List ℕ}
    (h : successive (fun d p => addLiquidity p d.1 d.2) pool deposits = .ok (minted, pool')) :
    pool'.sui = pool.sui + (deposits.map Prod.fst).sum ∧
      pool'.token = pool.token + (deposits.map Prod.snd).sum ∧
      pool'.lspSupply = pool.lspSupply + minted.sum := by
  refine successive_rule (P := fun p deposits minted p' => p'.sui = p.sui + (deposits.map Prod.fst).sum ∧
    p'.token = p.token + (deposits.map Prod.snd).sum ∧ p'.lspSupply = p.lspSupply + minted.sum) ?_ ?_ h
  · intro p
    exact ⟨rfl, rfl, rfl⟩
  · intro p mid last d lsp deposits minted hcall hrest
    obtain ⟨-, -, -, -, rfl⟩ := addLiquidity_ok hcall
    simp only [List.map_cons, List.sum_cons] at hrest ⊢
    omega

/-- **Splitting a deposit never mints more.** -/
theorem split_deposit_mints_le {deposits : List (ℕ × ℕ)} {minted : List ℕ} {single : ℕ} {pool'' : Pool}
    (hsplit : successive (fun d p => addLiquidity p d.1 d.2) pool deposits = .ok (minted, pool'))
    (hsingle : addLiquidity pool (deposits.map Prod.fst).sum (deposits.map Prod.snd).sum = .ok (single, pool'')) :
    minted.sum ≤ single := by
  obtain ⟨-, ⟨hx, hy⟩, hout, -, -⟩ := addLiquidity_ok hsingle
  have hparts := deposits_keepParts hsplit
  obtain ⟨hsui, htoken, hlsp⟩ := deposits_totals hsplit
  rw [hout]
  exact le_min (Reserves.minted_le_of_part hparts.x_le hsui hlsp hx)
    (Reserves.minted_le_of_part hparts.y_le htoken hlsp hy)

/-- Two deposits of opposite ratio mint two shares, and their sum at once four. -/
theorem split_deposit_mints_le_small :
    successive (fun d p => addLiquidity p d.1 d.2) ⟨9, 4, 6, 30⟩ [(2, 3), (4, 1)] =
        .ok ([1, 1], ⟨15, 8, 8, 30⟩) ∧
      addLiquidity ⟨9, 4, 6, 30⟩ 6 4 = .ok (4, ⟨15, 8, 10, 30⟩) ∧ [1, 1].sum ≤ 4 := by
  have hsplit : successive (fun d p => addLiquidity p d.1 d.2) ⟨9, 4, 6, 30⟩ [(2, 3), (4, 1)] =
      .ok ([1, 1], ⟨15, 8, 8, 30⟩) := by decide
  have hsingle : addLiquidity ⟨9, 4, 6, 30⟩ 6 4 = .ok (4, ⟨15, 8, 10, 30⟩) := by decide
  exact ⟨hsplit, hsingle, split_deposit_mints_le hsplit hsingle⟩

/-- **A round trip gains neither coin.** -/
theorem deposit_withdraw_gains_nothing {x y s sui token : ℕ} {pool'' : Pool} (hsupply : 0 < pool.lspSupply)
    (hadd : addLiquidity pool x y = .ok (s, pool'))
    (hremove : removeLiquidity pool' s = .ok ((sui, token), pool'')) : sui ≤ x ∧ token ≤ y := by
  have hparts := (addLiquidity_keepsParts hadd).trans (removeLiquidity_keepsParts hremove)
  obtain ⟨-, -, -, -, rfl⟩ := addLiquidity_ok hadd
  obtain ⟨-, -, -, -, ⟨hsui, htoken⟩, -, -, rfl⟩ := removeLiquidity_eq_ok.mp hremove
  have hx := hparts.x_le
  have hy := hparts.y_le
  simp only [Pool.reserves, Nat.add_sub_cancel] at hx hy
  have hx' := Nat.le_of_mul_le_mul_right hx hsupply
  have hy' := Nat.le_of_mul_le_mul_right hy hsupply
  dsimp only at hsui htoken
  omega

/-- Two SUI and three tokens come back as one of each. -/
theorem deposit_withdraw_gains_nothing_small :
    addLiquidity ⟨9, 4, 6, 30⟩ 2 3 = .ok (1, ⟨11, 7, 7, 30⟩) ∧
      removeLiquidity ⟨11, 7, 7, 30⟩ 1 = .ok ((1, 1), ⟨10, 6, 6, 30⟩) ∧ 1 ≤ 2 ∧ 1 ≤ 3 := by
  have hadd : addLiquidity ⟨9, 4, 6, 30⟩ 2 3 = .ok (1, ⟨11, 7, 7, 30⟩) := by decide
  have hremove : removeLiquidity ⟨11, 7, 7, 30⟩ 1 = .ok ((1, 1), ⟨10, 6, 6, 30⟩) := by decide
  exact ⟨hadd, hremove, deposit_withdraw_gains_nothing (by decide) hadd hremove⟩

end Deposits

/-! ### Swaps -/

section Swaps

variable {pool pool' : Pool} {amounts outs : List ℕ}

theorem swapsSui_quotes (h : successive (fun a p => swapSui p a) pool amounts = .ok (outs, pool')) :
    outs = Reserves.quotes feeScaling (feeScaling - pool.feePercent) pool.sui pool.token amounts := by
  refine successive_rule (P := fun p amounts outs _ =>
    outs = Reserves.quotes feeScaling (feeScaling - p.feePercent) p.sui p.token amounts) ?_ ?_ h
  · intro p
    rfl
  · intro p mid last a out amounts outs hcall hrest
    obtain ⟨-, -, hprice, -, rfl⟩ := swapSui_ok hcall
    rw [hrest, Reserves.quotes, ← getInputPrice_quote hprice]

theorem swapsToken_quotes (h : successive (fun a p => swapToken p a) pool amounts = .ok (outs, pool')) :
    outs = Reserves.quotes feeScaling (feeScaling - pool.feePercent) pool.token pool.sui amounts := by
  refine successive_rule (P := fun p amounts outs _ =>
    outs = Reserves.quotes feeScaling (feeScaling - p.feePercent) p.token p.sui amounts) ?_ ?_ h
  · intro p
    rfl
  · intro p mid last a out amounts outs hcall hrest
    obtain ⟨-, -, hprice, -, rfl⟩ := swapToken_ok hcall
    rw [hrest, Reserves.quotes, ← getInputPrice_quote hprice]

/-- **Splitting a swap never pays**, in either direction. -/
theorem split_swap_pays_le (pool : Pool) (amounts : List ℕ) :
    (∀ outs pool' out pool'', successive (fun a p => swapSui p a) pool amounts = .ok (outs, pool') →
      swapSui pool amounts.sum = .ok (out, pool'') → outs.sum ≤ out) ∧
    (∀ outs pool' out pool'', successive (fun a p => swapToken p a) pool amounts = .ok (outs, pool') →
      swapToken pool amounts.sum = .ok (out, pool'') → outs.sum ≤ out) := by
  have hkept : feeScaling - pool.feePercent ≤ feeScaling := Nat.sub_le _ _
  constructor
  · intro outs pool' out pool'' hsplit hsingle
    obtain ⟨-, ⟨hx, -⟩, hprice, -, -⟩ := swapSui_ok hsingle
    rw [getInputPrice_quote hprice, swapsSui_quotes hsplit]
    exact Reserves.quotes_sum_le amounts (by decide) hkept hx
  · intro outs pool' out pool'' hsplit hsingle
    obtain ⟨-, ⟨-, hy⟩, hprice, -, -⟩ := swapToken_ok hsingle
    rw [getInputPrice_quote hprice, swapsToken_quotes hsplit]
    exact Reserves.quotes_sum_le amounts (by decide) hkept hy

/-- A hundred, two hundred and three hundred of one coin buy 373 of the other one after another, and 374 at
once. -/
theorem split_swap_pays_le_small :
    (successive (fun a p => swapSui p a) ⟨1000, 1000, 1000, 30⟩ [100, 200, 300] =
        .ok ([90, 139, 144], ⟨1600, 627, 1000, 30⟩) ∧
      swapSui ⟨1000, 1000, 1000, 30⟩ 600 = .ok (374, ⟨1600, 626, 1000, 30⟩) ∧ [90, 139, 144].sum ≤ 374) ∧
    (successive (fun a p => swapToken p a) ⟨1000, 1000, 1000, 30⟩ [100, 200, 300] =
        .ok ([90, 139, 144], ⟨627, 1600, 1000, 30⟩) ∧
      swapToken ⟨1000, 1000, 1000, 30⟩ 600 = .ok (374, ⟨626, 1600, 1000, 30⟩) ∧ [90, 139, 144].sum ≤ 374) := by
  have hsui : successive (fun a p => swapSui p a) ⟨1000, 1000, 1000, 30⟩ [100, 200, 300] =
      .ok ([90, 139, 144], ⟨1600, 627, 1000, 30⟩) := by decide
  have hsui' : swapSui ⟨1000, 1000, 1000, 30⟩ 600 = .ok (374, ⟨1600, 626, 1000, 30⟩) := by decide
  have htoken : successive (fun a p => swapToken p a) ⟨1000, 1000, 1000, 30⟩ [100, 200, 300] =
      .ok ([90, 139, 144], ⟨627, 1600, 1000, 30⟩) := by decide
  have htoken' : swapToken ⟨1000, 1000, 1000, 30⟩ 600 = .ok (374, ⟨626, 1600, 1000, 30⟩) := by decide
  obtain ⟨hle, hle'⟩ := split_swap_pays_le ⟨1000, 1000, 1000, 30⟩ [100, 200, 300]
  exact ⟨⟨hsui, hsui', hle _ _ _ _ hsui hsui'⟩, htoken, htoken', hle' _ _ _ _ htoken htoken'⟩

end Swaps

end MoveTutorial.Defi
