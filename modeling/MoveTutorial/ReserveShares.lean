import MoveTutorial.MoveExec

/-! Reserves of two assets owned in shares. The worth of a share is measured by the product of the
reserves over the square of the shares; a step keeps it when the later quotient is at least the
earlier one, cross-multiplied so that no division occurs. Trades that do not lower the product,
deposits that mint no more than either ratio allows and redemptions that pay no more than the
redeemed part all keep it. -/

namespace MoveTutorial

/-- Two reserves and the number of shares they are owned in. -/
@[ext] structure Reserves where
  x : ℕ
  y : ℕ
  shares : ℕ
  deriving DecidableEq, Repr

namespace Reserves

/-- The product of the reserves per squared share does not fall from `p` to `p'`. -/
def NotDiluted (p p' : Reserves) : Prop := p.x * p.y * p'.shares ^ 2 ≤ p'.x * p'.y * p.shares ^ 2

instance (p p' : Reserves) : Decidable (NotDiluted p p') := inferInstanceAs (Decidable (_ ≤ _))

/-- `p'` can follow `p` without loss to the owners: their shares are not diluted, and shares are not
issued again once all are gone. -/
structure KeepsWorth (p p' : Reserves) : Prop where
  notDiluted : NotDiluted p p'
  no_revival : p.shares = 0 → p'.shares = 0

theorem KeepsWorth.refl (p : Reserves) : KeepsWorth p p := ⟨le_refl _, id⟩

theorem KeepsWorth.trans {p q r : Reserves} (hpq : KeepsWorth p q) (hqr : KeepsWorth q r) :
    KeepsWorth p r := by
  refine ⟨?_, fun h => hqr.no_revival (hpq.no_revival h)⟩
  unfold NotDiluted
  rcases Nat.eq_zero_or_pos q.shares with hzero | hpos
  · rw [hqr.no_revival hzero]
    simp
  · have hscaled : q.shares ^ 2 * (p.x * p.y * r.shares ^ 2) ≤ q.shares ^ 2 * (r.x * r.y * p.shares ^ 2) :=
      calc q.shares ^ 2 * (p.x * p.y * r.shares ^ 2)
          = p.x * p.y * q.shares ^ 2 * r.shares ^ 2 := by ring
        _ ≤ q.x * q.y * p.shares ^ 2 * r.shares ^ 2 := Nat.mul_le_mul_right _ hpq.notDiluted
        _ = q.x * q.y * r.shares ^ 2 * p.shares ^ 2 := by ring
        _ ≤ r.x * r.y * q.shares ^ 2 * p.shares ^ 2 := Nat.mul_le_mul_right _ hqr.notDiluted
        _ = q.shares ^ 2 * (r.x * r.y * p.shares ^ 2) := by ring
    exact Nat.le_of_mul_le_mul_left hscaled (by positivity)

/-- Reserves that each grow at least as fast as the shares keep the worth of a share. -/
theorem notDiluted_of_scaled {p p' : Reserves} (hx : p.x * p'.shares ≤ p'.x * p.shares)
    (hy : p.y * p'.shares ≤ p'.y * p.shares) : NotDiluted p p' :=
  calc p.x * p.y * p'.shares ^ 2 = (p.x * p'.shares) * (p.y * p'.shares) := by ring
    _ ≤ (p'.x * p.shares) * (p'.y * p.shares) := Nat.mul_le_mul hx hy
    _ = p'.x * p'.y * p.shares ^ 2 := by ring

/-- Shares that start below the geometric mean of the reserves stay there. -/
theorem NotDiluted.sq_le {p p' : Reserves} (h : NotDiluted p p') (hx : 0 < p.x) (hy : 0 < p.y)
    (hp : p.shares ^ 2 ≤ p.x * p.y) : p'.shares ^ 2 ≤ p'.x * p'.y := by
  have hscaled : p.x * p.y * p'.shares ^ 2 ≤ p.x * p.y * (p'.x * p'.y) :=
    calc p.x * p.y * p'.shares ^ 2 ≤ p'.x * p'.y * p.shares ^ 2 := h
      _ ≤ p'.x * p'.y * (p.x * p.y) := Nat.mul_le_mul_left _ hp
      _ = p.x * p.y * (p'.x * p'.y) := by ring
  exact Nat.le_of_mul_le_mul_left hscaled (Nat.mul_pos hx hy)

theorem keepsWorth_trade {p p' : Reserves} (hshares : p'.shares = p.shares)
    (hproduct : p.x * p.y ≤ p'.x * p'.y) : KeepsWorth p p' := by
  refine ⟨?_, fun h => hshares.trans h⟩
  rw [NotDiluted, hshares]
  exact Nat.mul_le_mul_right _ hproduct

/-! ### The part of one share

Deposits and redemptions keep more than the product: what one share owns of each reserve. -/

/-- Neither reserve falls per share from `p` to `p'`, and shares are not issued again once all are
gone. -/
structure KeepsParts (p p' : Reserves) : Prop where
  x_le : p.x * p'.shares ≤ p'.x * p.shares
  y_le : p.y * p'.shares ≤ p'.y * p.shares
  no_revival : p.shares = 0 → p'.shares = 0

theorem KeepsParts.refl (p : Reserves) : KeepsParts p p := ⟨le_refl _, le_refl _, id⟩

theorem part_le_trans {x y z a b c : ℕ} (hmid : b = 0 → c = 0) (hxy : x * b ≤ y * a) (hyz : y * c ≤ z * b) :
    x * c ≤ z * a := by
  rcases Nat.eq_zero_or_pos b with hzero | hpos
  · rw [hmid hzero, Nat.mul_zero]
    exact Nat.zero_le _
  · have hscaled : b * (x * c) ≤ b * (z * a) :=
      calc b * (x * c) = x * b * c := by ring
        _ ≤ y * a * c := Nat.mul_le_mul_right c hxy
        _ = y * c * a := by ring
        _ ≤ z * b * a := Nat.mul_le_mul_right a hyz
        _ = b * (z * a) := by ring
    exact Nat.le_of_mul_le_mul_left hscaled hpos

theorem KeepsParts.trans {p q r : Reserves} (hpq : KeepsParts p q) (hqr : KeepsParts q r) : KeepsParts p r where
  x_le := part_le_trans hqr.no_revival hpq.x_le hqr.x_le
  y_le := part_le_trans hqr.no_revival hpq.y_le hqr.y_le
  no_revival h := hqr.no_revival (hpq.no_revival h)

theorem KeepsParts.keepsWorth {p p' : Reserves} (h : KeepsParts p p') : KeepsWorth p p' :=
  ⟨notDiluted_of_scaled h.x_le h.y_le, h.no_revival⟩

theorem add_part_le {x a shares minted : ℕ} (ha : minted * x ≤ a * shares) :
    x * (shares + minted) ≤ (x + a) * shares := by
  rw [Nat.mul_add, Nat.add_mul, Nat.mul_comm x minted]
  exact Nat.add_le_add_left ha _

/-- A deposit of `a` and `b` for `minted` shares, neither ratio exceeded. -/
theorem keepsParts_deposit {p : Reserves} {a b minted : ℕ} (hx : 0 < p.x)
    (ha : minted * p.x ≤ a * p.shares) (hb : minted * p.y ≤ b * p.shares) :
    KeepsParts p ⟨p.x + a, p.y + b, p.shares + minted⟩ := by
  refine ⟨add_part_le ha, add_part_le hb, ?_⟩
  intro hzero
  rw [hzero, Nat.mul_zero] at ha
  have hminted : minted = 0 := by
    rcases Nat.mul_eq_zero.mp (Nat.le_zero.mp ha) with h | h
    · exact h
    · omega
  show p.shares + minted = 0
  omega

theorem le_sub_of_redeem {x shares burned paid : ℕ} (hpaid : paid * shares ≤ x * burned) :
    x * (shares - burned) ≤ (x - paid) * shares := by
  rw [Nat.mul_sub, Nat.sub_mul]
  exact Nat.sub_le_sub_left hpaid _

/-- A redemption of `burned` shares for `a` and `b`, neither above its proportional part. -/
theorem keepsParts_redeem {p : Reserves} {a b burned : ℕ}
    (ha : a * p.shares ≤ p.x * burned) (hb : b * p.shares ≤ p.y * burned) :
    KeepsParts p ⟨p.x - a, p.y - b, p.shares - burned⟩ := by
  refine ⟨le_sub_of_redeem ha, le_sub_of_redeem hb, ?_⟩
  intro h
  show p.shares - burned = 0
  omega

/-- Where a share owns more of a reserve, its redemption pays more. -/
theorem redeem_le_redeem {x x' shares shares' : ℕ} (burned : ℕ) (h : x * shares' ≤ x' * shares)
    (hshares : 0 < shares) (hshares' : 0 < shares') : x * burned / shares ≤ x' * burned / shares' := by
  rw [Nat.le_div_iff_mul_le hshares']
  have hfloor : x * burned / shares * shares ≤ x * burned := Nat.div_mul_le_self _ _
  generalize x * burned / shares = part at hfloor ⊢
  have hscaled : shares * (part * shares') ≤ shares * (x' * burned) :=
    calc shares * (part * shares') = part * shares * shares' := by ring
      _ ≤ x * burned * shares' := Nat.mul_le_mul_right _ hfloor
      _ = x * shares' * burned := by ring
      _ ≤ x' * shares * burned := Nat.mul_le_mul_right _ h
      _ = shares * (x' * burned) := by ring
  exact Nat.le_of_mul_le_mul_left hscaled hshares

/-- What a reserve has paid when the rest per share has not fallen is at most the part of the shares
that are gone. -/
theorem paid_le_of_part {x x' paid shares shares' burned : ℕ} (h : x * shares' ≤ x' * shares)
    (hpaid : x' + paid = x) (hburned : shares' + burned = shares) (hshares : 0 < shares) :
    paid ≤ x * burned / shares := by
  rw [Nat.le_div_iff_mul_le hshares]
  subst hpaid hburned
  rw [Nat.add_mul, Nat.mul_add] at h
  rw [Nat.mul_add, Nat.add_mul]
  omega

/-- What is issued when the reserve per share has not fallen is at most the part of the deposit. -/
theorem minted_le_of_part {x x' shares shares' added minted : ℕ} (h : x * shares' ≤ x' * shares)
    (hadded : x' = x + added) (hminted : shares' = shares + minted) (hx : 0 < x) :
    minted ≤ added * shares / x := by
  rw [Nat.le_div_iff_mul_le hx, Nat.mul_comm minted x]
  subst hadded hminted
  rw [Nat.mul_add, Nat.add_mul] at h
  omega

/-- A deposit of `a` for the shares it buys of the first reserve, with the second reserve charged for
those shares. Both quotients are rounded down, the first for the owners and the second against
them; the owners are not diluted exactly when the first remainder outweighs the second. -/
theorem notDiluted_rounded_deposit_iff {p : Reserves} {a : ℕ} :
    NotDiluted p ⟨p.x + a, p.y + a * p.shares / p.x * p.y / p.shares, p.shares + a * p.shares / p.x⟩ ↔
      a * p.shares / p.x * p.y % p.shares * ((p.x + a) * p.shares) ≤
        a * p.shares % p.x * (p.y * (p.shares + a * p.shares / p.x)) := by
  obtain ⟨x, y, shares⟩ := p
  have hfirst := Nat.div_add_mod (a * shares) x
  generalize a * shares / x = minted at hfirst ⊢
  generalize a * shares % x = rem1 at hfirst ⊢
  have hsecond := Nat.div_add_mod (minted * y) shares
  generalize minted * y / shares = added at hsecond ⊢
  generalize minted * y % shares = rem2 at hsecond ⊢
  -- both sides of the inequality differ from a common value by the two weighed remainders
  have hgain : (x + a) * shares = x * (shares + minted) + rem1 := by
    rw [Nat.add_mul, ← hfirst]
    ring
  have hloss : (y + added) * shares + rem2 = y * (shares + minted) := by
    rw [Nat.mul_add, Nat.mul_comm y minted, ← hsecond]
    ring
  have hbalance : (x + a) * (y + added) * shares ^ 2 + rem2 * ((x + a) * shares) =
      x * y * (shares + minted) ^ 2 + rem1 * (y * (shares + minted)) :=
    calc (x + a) * (y + added) * shares ^ 2 + rem2 * ((x + a) * shares)
        = (x + a) * shares * ((y + added) * shares + rem2) := by ring
      _ = (x * (shares + minted) + rem1) * (y * (shares + minted)) := by rw [hloss, hgain]
      _ = x * y * (shares + minted) ^ 2 + rem1 * (y * (shares + minted)) := by ring
  show x * y * (shares + minted) ^ 2 ≤ (x + a) * (y + added) * shares ^ 2 ↔
    rem2 * ((x + a) * shares) ≤ rem1 * (y * (shares + minted))
  omega

/-- A partial redemption leaves something of every reserve that had something. -/
theorem redeem_lt {x shares burned : ℕ} (hx : 0 < x) (hburned : burned < shares) :
    x * burned / shares < x := by
  apply Nat.div_lt_of_lt_mul
  rw [Nat.mul_comm shares x]
  exact Nat.mul_lt_mul_of_pos_left hburned hx

/-! ### The constant-product quote -/

/-- What an input counted as `n` in units of `1 / c` buys of the reserve `y` against `x`. -/
def quote (c n x y : ℕ) : ℕ := n * y / (x * c + n)

theorem quote_le (c n x y : ℕ) : quote c n x y ≤ y := by
  unfold quote
  apply Nat.div_le_of_le_mul
  exact Nat.mul_le_mul_right y (Nat.le_add_left n (x * c))

theorem quote_lt {c x y : ℕ} (n : ℕ) (hc : 0 < c) (hx : 0 < x) (hy : 0 < y) : quote c n x y < y := by
  unfold quote
  apply Nat.div_lt_of_lt_mul
  exact Nat.mul_lt_mul_of_pos_right (by have := Nat.mul_pos hx hc; omega) hy

/-- A quote at no more than the full input never lowers the product of the reserves. -/
theorem product_le_quote {c n a x y : ℕ} (hc : 0 < c) (hn : n ≤ a * c) :
    x * y ≤ (x + a) * (y - quote c n x y) := by
  have hle := quote_le c n x y
  have hfloor : quote c n x y * (x * c + n) ≤ n * y := Nat.div_mul_le_self _ _
  generalize quote c n x y = out at hle hfloor ⊢
  have hscaled : c * ((x + a) * out) ≤ c * (a * y) :=
    calc c * ((x + a) * out) = out * (x * c + n) + out * (a * c - n) := by
          rw [← Nat.mul_add, Nat.add_assoc, Nat.add_sub_of_le hn]
          ring
      _ ≤ n * y + y * (a * c - n) := Nat.add_le_add hfloor (Nat.mul_le_mul_right _ hle)
      _ = y * (n + (a * c - n)) := by ring
      _ = c * (a * y) := by
          rw [Nat.add_sub_of_le hn]
          ring
  have hout : (x + a) * out ≤ a * y := Nat.le_of_mul_le_mul_left hscaled hc
  rw [Nat.mul_sub, Nat.add_mul x a y]
  omega

/-- One trade of a split: if `d` is at most the input reserve in units of `1 / c`, a bound `k` on
`y * d` passes to the output reserve left and `d` with the input added. -/
theorem le_quote_rest {c n x y d k : ℕ} (hpos : 0 < x * c + n) (hd : d ≤ x * c) (hk : k ≤ y * d) :
    k ≤ (y - quote c n x y) * (d + n) := by
  have hfloor : quote c n x y * (x * c + n) ≤ n * y := Nat.div_mul_le_self _ _
  have hle := quote_le c n x y
  generalize quote c n x y = out at hfloor hle ⊢
  have hrest : y * (x * c) ≤ (y - out) * (x * c + n) := by
    rw [Nat.sub_mul, Nat.mul_add, Nat.mul_comm y n]
    omega
  have hgrow : d * (x * c + n) ≤ x * c * (d + n) := by
    rw [Nat.mul_add, Nat.mul_add, Nat.mul_comm d (x * c)]
    exact Nat.add_le_add_left (Nat.mul_le_mul_right n hd) _
  have hscaled : (x * c + n) * k ≤ (x * c + n) * ((y - out) * (d + n)) :=
    calc (x * c + n) * k ≤ (x * c + n) * (y * d) := Nat.mul_le_mul_left _ hk
      _ = y * (d * (x * c + n)) := by ring
      _ ≤ y * (x * c * (d + n)) := Nat.mul_le_mul_left _ hgrow
      _ = y * (x * c) * (d + n) := by ring
      _ ≤ (y - out) * (x * c + n) * (d + n) := Nat.mul_le_mul_right _ hrest
      _ = (x * c + n) * ((y - out) * (d + n)) := by ring
  exact Nat.le_of_mul_le_mul_left hscaled hpos

/-- The quotes of successive inputs, each kept at `kept` of its `c` units: an input joins the reserve
`x` in full and its quote leaves `y`. -/
def quotes (c kept x y : ℕ) : List ℕ → List ℕ
  | [] => []
  | a :: as => quote c (a * kept) x y :: quotes c kept (x + a) (y - quote c (a * kept) x y) as

theorem quotes_rest {c kept x y d k : ℕ} (amounts : List ℕ) (hc : 0 < c) (hkept : kept ≤ c) (hx : 0 < x)
    (hd : d ≤ x * c) (hk : k ≤ y * d) :
    (quotes c kept x y amounts).sum ≤ y ∧
      k ≤ (y - (quotes c kept x y amounts).sum) * (d + amounts.sum * kept) := by
  induction amounts generalizing x y d with
  | nil => simpa [quotes] using hk
  | cons a amounts ih =>
      have hpos : 0 < x * c + a * kept := Nat.add_pos_left (Nat.mul_pos hx hc) _
      have hd' : d + a * kept ≤ (x + a) * c := by
        rw [Nat.add_mul]
        exact Nat.add_le_add hd (Nat.mul_le_mul_left a hkept)
      have hle := quote_le c (a * kept) x y
      obtain ⟨hsum, hrest⟩ := ih (by omega) hd' (le_quote_rest hpos hd hk)
      simp only [quotes, List.sum_cons]
      refine ⟨by omega, ?_⟩
      rw [Nat.add_mul, ← Nat.sub_sub, ← Nat.add_assoc]
      exact hrest

/-- **Splitting an input never buys more.** -/
theorem quotes_sum_le {c kept x y : ℕ} (amounts : List ℕ) (hc : 0 < c) (hkept : kept ≤ c) (hx : 0 < x) :
    (quotes c kept x y amounts).sum ≤ quote c (amounts.sum * kept) x y := by
  obtain ⟨hsum, hrest⟩ := quotes_rest amounts hc hkept hx (le_refl (x * c)) (le_refl (y * (x * c)))
  generalize (quotes c kept x y amounts).sum = paid at hsum hrest ⊢
  generalize amounts.sum * kept = n at hrest ⊢
  unfold quote
  rw [Nat.le_div_iff_mul_le (Nat.add_pos_left (Nat.mul_pos hx hc) n)]
  rw [Nat.sub_mul, Nat.mul_add y] at hrest
  rw [Nat.mul_comm n y]
  have hpaid : paid * (x * c + n) ≤ y * (x * c + n) := Nat.mul_le_mul_right _ hsum
  rw [Nat.mul_add y] at hpaid
  omega

end Reserves

end MoveTutorial
