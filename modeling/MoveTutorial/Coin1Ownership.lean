import MoveTutorial.CoinModel

/-! The module `Coin1`, and who can lower a balance in it. Its `transfer` asks for the owner's signer,
but the `withdraw` it is made of is public as well and asks for the owner's address only; the coin it
returns can be deposited anywhere. Balances are `u128`. The coins that callers hold between calls are
part of the state, so that a call can be given what an earlier one returned. -/

namespace MoveTutorial.Coin1

open Move
open Coin (CoinType Address Balances)

def errAlreadyExist : ℕ := 1000
def errNotExist : ℕ := 1001
def errDupAddr : ℕ := 1002
def errNotEnough : ℕ := 1003

section Functions

variable (T : CoinType)

def initBalance (account : Address) (balances : Balances) : Exec Balances := do
  assert (balances (T, account) = none) errAlreadyExist
  moveTo balances (T, account) 0

def balanceOf (owner : Address) (balances : Balances) : Exec ℕ :=
  borrowGlobal balances (T, owner)

def mint (dest : Address) (amt : ℕ) (balances : Balances) : Exec Balances := do
  assert (balances (T, dest) ≠ none) errNotExist
  let balance ← borrowGlobal balances (T, dest)
  let total ← add 128 balance amt
  return Function.update balances (T, dest) (some total)

/-- The coin taken out, as its balance, and the balances after it. -/
def withdraw (addr : Address) (val : ℕ) (balances : Balances) : Exec (ℕ × Balances) := do
  let currentBalance ← balanceOf T addr balances
  assert (currentBalance ≥ val) errNotEnough
  let balance ← borrowGlobal balances (T, addr)
  let rest ← sub balance val
  return (val, Function.update balances (T, addr) (some rest))

def deposit (dest : Address) (coin : ℕ) (balances : Balances) : Exec Balances := do
  let target ← borrowGlobal balances (T, dest)
  let total ← add 128 target coin
  return Function.update balances (T, dest) (some total)

def transfer (sender dest : Address) (val : ℕ) (balances : Balances) : Exec Balances := do
  assert (sender ≠ dest) errDupAddr
  let (out, balances) ← withdraw T sender val balances
  deposit T dest out balances

end Functions

/-! ### The public functions as calls -/

/-- The published balances, and the coins that callers hold. -/
structure Global where
  balances : Balances
  coins : List (CoinType × ℕ)

/-- A call by anyone. The functions that take a signer name its address first. -/
inductive Call where
  | initBalance (T : CoinType) (account : Address)
  | mint (T : CoinType) (dest : Address) (amt : ℕ)
  | transfer (T : CoinType) (sender dest : Address) (val : ℕ)
  | withdraw (T : CoinType) (addr : Address) (val : ℕ)
  | deposit (dest : Address) (k : ℕ)
  deriving DecidableEq, Repr

/-- The coin in place `k` among those that callers hold. -/
def heldCoin (coins : List (CoinType × ℕ)) (k : ℕ) : Exec (CoinType × ℕ) :=
  match coins[k]? with
  | some coin => .ok coin
  | none => .error .missingData

def exec : Call → Global → Exec (Unit × Global)
  | .initBalance T account, g => do
      let balances ← initBalance T account g.balances
      return ((), { g with balances })
  | .mint T dest amt, g => do
      let balances ← mint T dest amt g.balances
      return ((), { g with balances })
  | .transfer T sender dest val, g => do
      let balances ← transfer T sender dest val g.balances
      return ((), { g with balances })
  | .withdraw T addr val, g => do
      let (coin, balances) ← withdraw T addr val g.balances
      return ((), { balances, coins := g.coins ++ [(T, coin)] })
  | .deposit dest k, g => do
      let (T, coin) ← heldCoin g.coins k
      let balances ← deposit T dest coin g.balances
      return ((), { balances, coins := g.coins.eraseIdx k })

/-- The call is given the signer of an address. -/
def Call.SignedBy (addr : Address) : Call → Prop
  | .initBalance _ account => account = addr
  | .transfer _ sender _ _ => sender = addr
  | _ => False

/-- Nothing is published and no coin is held. -/
def genesis : Global := ⟨fun _ => none, []⟩

/-! ### One balance under one call -/

section Calls

variable {T T' : CoinType} {a addr dest sender : Address} {balances balances' : Balances} {b val : ℕ}

theorem withdraw_eq_ok {coin : ℕ} : withdraw T addr val balances = .ok (coin, balances') ↔
    ∃ b, balances (T, addr) = some b ∧ val ≤ b ∧ coin = val ∧
      balances' = Function.update balances (T, addr) (some (b - val)) := by
  simp only [withdraw, balanceOf, bind_eq_ok, borrowGlobal_eq_ok, assert_eq_ok, sub_eq_ok, pure_eq_ok,
    Prod.mk.injEq]
  constructor
  · rintro ⟨b, hb, _, hle, b', hb', _, ⟨-, rfl⟩, rfl, rfl⟩
    rw [Option.some.inj (hb'.symm.trans hb)]
    exact ⟨b, hb, hle, rfl, rfl⟩
  · rintro ⟨b, hb, hle, rfl, rfl⟩
    exact ⟨b, hb, (), hle, b, hb, _, ⟨hle, rfl⟩, rfl, rfl⟩

/-- The balance of a coin type at an address does not decrease between two states. -/
def NotDecreased (T : CoinType) (a : Address) (balances balances' : Balances) : Prop :=
  ∀ b, balances (T, a) = some b → ∃ b', balances' (T, a) = some b' ∧ b ≤ b'

theorem NotDecreased.refl (T : CoinType) (a : Address) (balances : Balances) : NotDecreased T a balances balances :=
  fun b hb => ⟨b, hb, le_refl b⟩

theorem NotDecreased.trans {balances'' : Balances} (h : NotDecreased T a balances balances')
    (h' : NotDecreased T a balances' balances'') : NotDecreased T a balances balances'' := by
  intro b hb
  obtain ⟨b', hb', hle⟩ := h b hb
  obtain ⟨b'', hb'', hle'⟩ := h' b' hb'
  exact ⟨b'', hb'', hle.trans hle'⟩

/-- Writing a balance does not decrease another one. -/
theorem notDecreased_update_of_ne (v : Option ℕ) (hkey : (T, a) ≠ (T', addr)) :
    NotDecreased T a balances (Function.update balances (T', addr) v) := by
  intro b hb
  refine ⟨b, ?_, le_refl b⟩
  rwa [Function.update_of_ne hkey]

/-- Raising a balance decreases none. -/
theorem notDecreased_update {c v : ℕ} (hc : balances (T', addr) = some c) (hle : c ≤ v) :
    NotDecreased T a balances (Function.update balances (T', addr) (some v)) := by
  by_cases hkey : (T, a) = (T', addr)
  · intro b hb
    rw [hkey] at hb ⊢
    rw [hc] at hb
    refine ⟨v, Function.update_self _ _ _, ?_⟩
    rwa [← Option.some.inj hb]
  · exact notDecreased_update_of_ne _ hkey

theorem deposit_notDecreased {coin : ℕ} (h : deposit T' dest coin balances = .ok balances') :
    NotDecreased T a balances balances' := by
  simp only [deposit, bind_eq_ok, borrowGlobal_eq_ok, add_eq_ok, pure_eq_ok] at h
  obtain ⟨c, hc, _, ⟨-, rfl⟩, rfl⟩ := h
  exact notDecreased_update hc (Nat.le_add_right _ _)

theorem mint_notDecreased {amt : ℕ} (h : mint T' dest amt balances = .ok balances') :
    NotDecreased T a balances balances' := by
  simp only [mint, bind_eq_ok, assert_eq_ok, borrowGlobal_eq_ok, add_eq_ok, pure_eq_ok] at h
  obtain ⟨_, -, c, hc, _, ⟨-, rfl⟩, rfl⟩ := h
  exact notDecreased_update hc (Nat.le_add_right _ _)

theorem withdraw_notDecreased {coin : ℕ} (hkey : (T, a) ≠ (T', addr))
    (h : withdraw T' addr val balances = .ok (coin, balances')) : NotDecreased T a balances balances' := by
  obtain ⟨c, -, -, -, rfl⟩ := withdraw_eq_ok.mp h
  exact notDecreased_update_of_ne _ hkey

/-- A transfer that someone else signs. -/
theorem transfer_notDecreased (hsender : sender ≠ a) (h : transfer T' sender dest val balances = .ok balances') :
    NotDecreased T a balances balances' := by
  simp only [transfer, bind_eq_ok, assert_eq_ok, Prod.exists] at h
  obtain ⟨_, -, coin, between, hwithdraw, hdeposit⟩ := h
  have hkey : (T, a) ≠ (T', sender) := fun heq => hsender (Prod.mk.inj heq).2.symm
  exact (withdraw_notDecreased hkey hwithdraw).trans (deposit_notDecreased hdeposit)

/-- A withdrawal decreases the balance it is made from, unless it takes nothing. -/
theorem withdraw_notDecreased_iff {coin : ℕ} (h : withdraw T a val balances = .ok (coin, balances')) :
    NotDecreased T a balances balances' ↔ val = 0 := by
  obtain ⟨c, hc, hle, -, rfl⟩ := withdraw_eq_ok.mp h
  constructor
  · intro hkept
    obtain ⟨b', hb', hge⟩ := hkept c hc
    rw [Function.update_self] at hb'
    have hrest := Option.some.inj hb'
    omega
  · intro hzero
    exact notDecreased_update hc (by omega)

/-- What a call that succeeds without the owner's signer can do to the owner's balance. -/
theorem exec_notDecreased {call : Call} {u : Unit} {g g' : Global} (hsigner : ¬call.SignedBy a)
    (hother : ∀ val, call ≠ .withdraw T a val) (h : exec call g = .ok (u, g')) :
    NotDecreased T a g.balances g'.balances := by
  cases call with
  | initBalance T' account =>
      simp only [exec, initBalance, bind_eq_ok, assert_eq_ok, moveTo_eq_ok, pure_eq_ok, Prod.mk.injEq] at h
      obtain ⟨_, ⟨_, -, -, rfl⟩, -, rfl⟩ := h
      refine notDecreased_update_of_ne _ fun heq => ?_
      exact hsigner (Prod.mk.inj heq).2.symm
  | mint T' dest amt =>
      simp only [exec, bind_eq_ok, pure_eq_ok, Prod.mk.injEq] at h
      obtain ⟨_, hmint, -, rfl⟩ := h
      exact mint_notDecreased hmint
  | transfer T' sender dest val =>
      simp only [exec, bind_eq_ok, pure_eq_ok, Prod.mk.injEq] at h
      obtain ⟨_, htransfer, -, rfl⟩ := h
      exact transfer_notDecreased hsigner htransfer
  | withdraw T' addr val =>
      simp only [exec, bind_eq_ok, pure_eq_ok, Prod.mk.injEq, Prod.exists] at h
      obtain ⟨coin, _, hwithdraw, -, rfl⟩ := h
      refine withdraw_notDecreased (fun heq => ?_) hwithdraw
      obtain ⟨rfl, rfl⟩ := Prod.mk.inj heq
      exact hother val rfl
  | deposit dest k =>
      simp only [exec, bind_eq_ok, pure_eq_ok, Prod.mk.injEq, Prod.exists] at h
      obtain ⟨T', coin, -, _, hdeposit, -, rfl⟩ := h
      exact deposit_notDecreased hdeposit

/-- A call that reverts or succeeds leaves the balance at least where it was exactly when it is not a
withdrawal from it of something that is there. -/
theorem commit_notDecreased_iff {call : Call} {g : Global} (hheld : g.balances (T, a) = some b)
    (hsigner : ¬call.SignedBy a) :
    NotDecreased T a g.balances (commit exec g call).balances ↔
      ∀ val, call = .withdraw T a val → val = 0 ∨ b < val := by
  by_cases hother : ∀ val, call ≠ .withdraw T a val
  · refine iff_of_true ?_ (fun val hcall => absurd hcall (hother val))
    rcases commit_cases exec g call with ⟨u, g', hok, heq⟩ | heq
    · rw [heq]
      exact exec_notDecreased hsigner hother hok
    · rw [heq]
      exact NotDecreased.refl T a g.balances
  · simp only [ne_eq, not_forall, not_not] at hother
    obtain ⟨val, rfl⟩ := hother
    simp only [Call.withdraw.injEq, true_and, forall_eq']
    cases hexec : withdraw T a val g.balances with
    | error e =>
        have hrevert : exec (.withdraw T a val) g = .error e := by rw [exec, hexec]; rfl
        rw [commit_error hrevert]
        refine iff_of_true (NotDecreased.refl T a g.balances) (Or.inr ?_)
        by_contra hle
        have hok := withdraw_eq_ok.mpr ⟨b, hheld, Nat.not_lt.mp hle, rfl, rfl⟩
        rw [hexec] at hok
        cases hok
    | ok result =>
        obtain ⟨coin, balances'⟩ := result
        have hok : exec (.withdraw T a val) g = .ok ((), ⟨balances', g.coins ++ [(T, coin)]⟩) := by
          rw [exec, hexec]; rfl
        rw [commit_ok hok, withdraw_notDecreased_iff hexec]
        obtain ⟨c, hc, hle, -, -⟩ := withdraw_eq_ok.mp hexec
        rw [hheld] at hc
        have hcb := Option.some.inj hc
        omega

/-- A published balance stays published. -/
theorem commit_held {call : Call} {g : Global} (hheld : ∃ b, g.balances (T, a) = some b)
    (hsigner : ¬call.SignedBy a) : ∃ b, (commit exec g call).balances (T, a) = some b := by
  obtain ⟨b, hb⟩ := hheld
  by_cases hkept : NotDecreased T a g.balances (commit exec g call).balances
  · obtain ⟨b', hb', -⟩ := hkept b hb
    exact ⟨b', hb'⟩
  · rw [commit_notDecreased_iff hb hsigner] at hkept
    simp only [not_forall] at hkept
    obtain ⟨val, rfl, -⟩ := hkept
    rcases commit_cases exec g (.withdraw T a val) with ⟨u, g', hok, heq⟩ | heq
    · simp only [exec, bind_eq_ok, pure_eq_ok, Prod.mk.injEq, Prod.exists] at hok
      obtain ⟨coin, _, hwithdraw, -, rfl⟩ := hok
      obtain ⟨c, -, -, -, rfl⟩ := withdraw_eq_ok.mp hwithdraw
      rw [heq]
      exact ⟨_, Function.update_self _ _ _⟩
    · rw [heq]
      exact ⟨b, hb⟩

end Calls

/-! ### Runs -/

/-- **When a balance is safe without its owner.** From any state in which `a` holds a balance and
through any calls that are not given `a`'s signer, the balance never decreases if and only if every
withdrawal from it takes nothing or more than is there. -/
theorem balance_never_decreases_iff {T : CoinType} {a : Address} {g : Global} {b : ℕ} {calls : List Call}
    (hheld : g.balances (T, a) = some b) (hsigner : ∀ call ∈ calls, ¬call.SignedBy a) :
    (∀ pre mid, pre ++ mid <+: calls →
      NotDecreased T a (run exec g pre).balances (run exec g (pre ++ mid)).balances) ↔
    Along exec (fun g call => ∀ val b, g.balances (T, a) = some b → call = .withdraw T a val →
      val = 0 ∨ b < val) g calls := by
  have hadmits : Along exec (fun _ call => ¬Call.SignedBy a call) g calls := along_const.mpr hsigner
  refine segments_iff_along (fun g => ∃ b, g.balances (T, a) = some b)
    (fun g g' => NotDecreased T a g.balances g'.balances)
    (fun g => NotDecreased.refl T a g.balances) NotDecreased.trans ?_ ?_ ⟨b, hheld⟩ hadmits
  · intro g call hheld hsigner
    exact commit_held hheld hsigner
  · intro g call hheld hsigner
    obtain ⟨b, hb⟩ := hheld
    rw [commit_notDecreased_iff hb hsigner]
    constructor
    · intro h val b' hb' hcall
      rw [Option.some.inj (hb'.symm.trans hb)]
      exact h val hcall
    · intro h val hcall
      exact h val b hb hcall

/-- Two owners and ten coins of the first. -/
def tenCoins : Global := run exec genesis [.initBalance (.named 0) 1, .initBalance (.named 0) 2, .mint (.named 0) 1 10]

/-- A mint to the first owner and a withdrawal from the second. -/
theorem balance_never_decreases_iff_small :
    tenCoins.balances (.named 0, 1) = some 10 ∧
      (∀ pre mid, pre ++ mid <+: [.mint (.named 0) 1 5, .withdraw (.named 0) 2 0] →
        NotDecreased (.named 0) 1 (run exec tenCoins pre).balances (run exec tenCoins (pre ++ mid)).balances) := by
  have hheld : tenCoins.balances (.named 0, 1) = some 10 := by decide
  refine ⟨hheld, (balance_never_decreases_iff hheld ?_).mpr ?_⟩
  · simp [Call.SignedBy]
  · simp [Along]

/-- Anyone takes the ten coins of the first owner and deposits them with the second; no call is given
the first owner's signer. -/
theorem balance_decreases :
    tenCoins.balances (.named 0, 1) = some 10 ∧
      (∀ call ∈ [Call.withdraw (.named 0) 1 10, .deposit 2 0], ¬call.SignedBy 1) ∧
      (run exec tenCoins [.withdraw (.named 0) 1 10]).balances (.named 0, 1) = some 0 ∧
      (run exec tenCoins [.withdraw (.named 0) 1 10, .deposit 2 0]).balances (.named 0, 2) = some 10 := by
  refine ⟨by decide, ?_, by decide, by decide⟩
  simp [Call.SignedBy]

end MoveTutorial.Coin1
