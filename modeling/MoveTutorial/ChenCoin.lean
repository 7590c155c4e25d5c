import MoveTutorial.CoinModel

/-! The module `BasicCoin` of `move-chen`, with the specifications written beside its functions. They agree
with the functions except for `withdraw`, which asks for more than the amount: a balance cannot be
transferred as a whole. -/

namespace MoveTutorial.ChenCoin

open Move
open Coin (CoinType Address Balances)

def eInsufficientBalance : ℕ := 1
def eAlreadyHasBalance : ℕ := 2
def eEqualAddr : ℕ := 4

section Functions

variable (T : CoinType)

def generate (account : Address) (balances : Balances) : Exec Balances := do
  assert (balances (T, account) = none) eAlreadyHasBalance
  moveTo balances (T, account) 0

def balanceOf (owner : Address) (balances : Balances) : Exec ℕ :=
  borrowGlobal balances (T, owner)

def deposit (addr : Address) (check : ℕ) (balances : Balances) : Exec Balances := do
  let balance ← balanceOf T addr balances
  let total ← add 64 balance check
  return Function.update balances (T, addr) (some total)

def mint (mintAddr : Address) (amount : ℕ) (balances : Balances) : Exec Balances :=
  deposit T mintAddr amount balances

/-- The comparison is strict. -/
def withdraw (addr : Address) (amount : ℕ) (balances : Balances) : Exec (ℕ × Balances) := do
  let balance ← balanceOf T addr balances
  assert (balance > amount) eInsufficientBalance
  let rest ← sub balance amount
  return (amount, Function.update balances (T, addr) (some rest))

def transfer (sender dest : Address) (amount : ℕ) (balances : Balances) : Exec Balances := do
  assert (sender ≠ dest) eEqualAddr
  let (check, balances) ← withdraw T sender amount balances
  deposit T dest check balances

end Functions

variable {T : CoinType} {balances balances' : Balances} {addr sender dest : Address} {amount check : ℕ}

/-! ### What a successful call does -/

theorem generate_eq_ok : generate T addr balances = .ok balances' ↔
    balances (T, addr) = none ∧ balances' = Function.update balances (T, addr) (some 0) :=
  -- `publish_balance` of the other `BasicCoin` under another name
  Coin.publishBalance_eq_ok

theorem deposit_eq_ok : deposit T addr check balances = .ok balances' ↔
    ∃ b, balances (T, addr) = some b ∧ b + check < 2 ^ 64 ∧
      balances' = Function.update balances (T, addr) (some (b + check)) :=
  -- the two modules deposit alike
  Coin.deposit_eq_ok

theorem withdraw_eq_ok : withdraw T addr amount balances = .ok (check, balances') ↔
    ∃ b, balances (T, addr) = some b ∧ amount < b ∧ check = amount ∧
      balances' = Function.update balances (T, addr) (some (b - amount)) := by
  simp only [withdraw, balanceOf, bind_eq_ok, borrowGlobal_eq_ok, assert_eq_ok, sub_eq_ok, pure_eq_ok,
    Prod.mk.injEq]
  constructor
  · rintro ⟨b, hb, _, hlt, _, ⟨-, rfl⟩, rfl, rfl⟩
    exact ⟨b, hb, hlt, rfl, rfl⟩
  · rintro ⟨b, hb, hlt, rfl, rfl⟩
    exact ⟨b, hb, (), hlt, _, ⟨Nat.le_of_lt hlt, rfl⟩, rfl, rfl⟩

theorem transfer_eq_ok : transfer T sender dest amount balances = .ok balances' ↔
    sender ≠ dest ∧ ∃ b c, balances (T, sender) = some b ∧ amount < b ∧
      balances (T, dest) = some c ∧ c + amount < 2 ^ 64 ∧
      balances' = Function.update (Function.update balances (T, sender) (some (b - amount)))
        (T, dest) (some (c + amount)) := by
  simp only [transfer, bind_eq_ok, assert_eq_ok, Prod.exists, withdraw_eq_ok, deposit_eq_ok]
  constructor
  · rintro ⟨_, hne, _, _, ⟨b, hb, hlt, rfl, rfl⟩, c, hc, hfits, rfl⟩
    rw [Coin.update_balance_of_addr_ne hne.symm] at hc
    exact ⟨hne, b, c, hb, hlt, hc, hfits, rfl⟩
  · rintro ⟨hne, b, c, hb, hlt, hc, hfits, rfl⟩
    refine ⟨(), hne, _, _, ⟨b, hb, hlt, rfl, rfl⟩, c, ?_, hfits, rfl⟩
    rw [Coin.update_balance_of_addr_ne hne.symm, hc]

/-! ### Specifications -/

section Specs

variable (T) (balances)

/-- The `aborts_if` conditions of `deposit` and `mint`. -/
def DepositAbortsIf (addr : Address) (amount : ℕ) : Prop :=
  balances (T, addr) = none ∨ ∃ b, balances (T, addr) = some b ∧ 2 ^ 64 ≤ b + amount

/-- Their `ensures` condition, and that nothing else changes. -/
def DepositEnsures (addr : Address) (amount : ℕ) (balances' : Balances) : Prop :=
  (∃ b, balances (T, addr) = some b ∧ balances' (T, addr) = some (b + amount)) ∧
    ∀ key, key ≠ (T, addr) → balances' key = balances key

/-- The `aborts_if` conditions of `transfer`. -/
def TransferAbortsIf (sender dest : Address) (amount : ℕ) : Prop :=
  balances (T, sender) = none ∨ balances (T, dest) = none ∨
    (∃ b, balances (T, sender) = some b ∧ b < amount) ∨
    (∃ c, balances (T, dest) = some c ∧ 2 ^ 64 ≤ c + amount) ∨ sender = dest

/-- Its `ensures` conditions, and that nothing else changes. -/
def TransferEnsures (sender dest : Address) (amount : ℕ) (balances' : Balances) : Prop :=
  (∃ b, balances (T, sender) = some b ∧ amount ≤ b ∧ balances' (T, sender) = some (b - amount)) ∧
    (∃ c, balances (T, dest) = some c ∧ balances' (T, dest) = some (c + amount)) ∧
    ∀ key, key ≠ (T, sender) → key ≠ (T, dest) → balances' key = balances key

end Specs

theorem generate_meets : Meets (generate T addr balances) (balances (T, addr) ≠ none)
    (fun balances' => balances' = Function.update balances (T, addr) (some 0)) where
  aborts_iff := by
    rw [aborts_iff_not_succeeds]
    simp only [Succeeds, generate_eq_ok, exists_and_left, exists_eq, and_true, ne_eq]
  ensures balances' h := (generate_eq_ok.mp h).2

theorem deposit_meets (T : CoinType) (balances : Balances) (addr : Address) (amount : ℕ) :
    Meets (deposit T addr amount balances) (DepositAbortsIf T balances addr amount)
      (DepositEnsures T balances addr amount) where
  aborts_iff := by
    rw [aborts_iff_not_succeeds, DepositAbortsIf]
    simp only [Succeeds, deposit_eq_ok]
    cases hb : balances (T, addr) with
    | none => simp
    | some b => simp
  ensures balances' h := by
    obtain ⟨b, hb, -, rfl⟩ := deposit_eq_ok.mp h
    refine ⟨⟨b, hb, Function.update_self _ _ _⟩, fun key hkey => Function.update_of_ne hkey _ _⟩

theorem mint_meets (T : CoinType) (balances : Balances) (addr : Address) (amount : ℕ) :
    Meets (mint T addr amount balances) (DepositAbortsIf T balances addr amount)
      (DepositEnsures T balances addr amount) :=
  deposit_meets T balances addr amount

theorem transfer_ensures (h : transfer T sender dest amount balances = .ok balances') :
    TransferEnsures T balances sender dest amount balances' := by
  obtain ⟨hne, b, c, hb, hlt, hc, -, rfl⟩ := transfer_eq_ok.mp h
  refine ⟨⟨b, hb, Nat.le_of_lt hlt, ?_⟩, ⟨c, hc, Function.update_self _ _ _⟩, ?_⟩
  · rw [Coin.update_balance_of_addr_ne hne, Function.update_self]
  · intro key hsender hdest
    rw [Function.update_of_ne hdest, Function.update_of_ne hsender]

theorem transfer_succeeds_iff : Succeeds (transfer T sender dest amount balances) ↔
    sender ≠ dest ∧ ∃ b c, balances (T, sender) = some b ∧ amount < b ∧ balances (T, dest) = some c ∧
      c + amount < 2 ^ 64 := by
  constructor
  · rintro ⟨_, h⟩
    obtain ⟨hne, b, c, hb, hlt, hc, hfits, -⟩ := transfer_eq_ok.mp h
    exact ⟨hne, b, c, hb, hlt, hc, hfits⟩
  · rintro ⟨hne, b, c, hb, hlt, hc, hfits⟩
    exact ⟨_, transfer_eq_ok.mpr ⟨hne, b, c, hb, hlt, hc, hfits, rfl⟩⟩

/-- None of the conditions of `transfer` to abort holds. -/
theorem not_transferAbortsIf_iff : ¬TransferAbortsIf T balances sender dest amount ↔
    sender ≠ dest ∧ ∃ b c, balances (T, sender) = some b ∧ amount ≤ b ∧ balances (T, dest) = some c ∧
      c + amount < 2 ^ 64 := by
  rw [TransferAbortsIf]
  cases hb : balances (T, sender) with
  | none => simp
  | some b =>
      cases hc : balances (T, dest) with
      | none => simp
      | some c =>
          simp only [reduceCtorEq, false_or, Option.some.injEq, exists_eq_left', not_or, Nat.not_lt, Nat.not_le]
          constructor
          · rintro ⟨hle, hfits, hne⟩
            exact ⟨hne, b, c, rfl, hle, rfl, hfits⟩
          · rintro ⟨hne, _, _, rfl, hle, rfl, hfits⟩
            exact ⟨hle, hfits, hne⟩

/-- A transfer meets its specification unless the amount is the whole balance of the sender and nothing
else is in its way. -/
theorem transfer_meets_spec_iff (T : CoinType) (sender dest : Address) (amount : ℕ) (balances : Balances) :
    Meets (transfer T sender dest amount balances) (TransferAbortsIf T balances sender dest amount)
        (TransferEnsures T balances sender dest amount) ↔
      ¬(sender ≠ dest ∧ balances (T, sender) = some amount ∧
        ∃ c, balances (T, dest) = some c ∧ c + amount < 2 ^ 64) := by
  constructor
  · rintro ⟨haborts, -⟩ ⟨hne, hb, c, hc, hfits⟩
    have hok : ¬TransferAbortsIf T balances sender dest amount :=
      not_transferAbortsIf_iff.mpr ⟨hne, amount, c, hb, Nat.le_refl _, hc, hfits⟩
    rw [← haborts, aborts_iff_not_succeeds, not_not, transfer_succeeds_iff] at hok
    obtain ⟨-, b, _, hb', hlt, -⟩ := hok
    obtain rfl : amount = b := Option.some.inj (hb.symm.trans hb')
    exact Nat.lt_irrefl _ hlt
  · intro hwhole
    refine ⟨?_, fun _ => transfer_ensures⟩
    rw [aborts_iff_not_succeeds, ← not_iff_not, not_not, not_transferAbortsIf_iff, transfer_succeeds_iff]
    constructor
    · rintro ⟨hne, b, c, hb, hlt, hc, hfits⟩
      exact ⟨hne, b, c, hb, Nat.le_of_lt hlt, hc, hfits⟩
    · rintro ⟨hne, b, c, hb, hle, hc, hfits⟩
      refine ⟨hne, b, c, hb, Nat.lt_of_le_of_ne hle ?_, hc, hfits⟩
      rintro rfl
      exact hwhole ⟨hne, hb, c, hc, hfits⟩

/-- One address has ten coins, another an empty balance. -/
def tenCoins : Balances := fun key =>
  if key = (.named 0, 0xa11ce) then some 10 else if key = (.named 0, 0xb0b) then some 0 else none

/-- All ten coins cannot be transferred, though the specification has no reason to abort. -/
theorem whole_balance_not_transferable :
    transfer (.named 0) 0xa11ce 0xb0b 10 tenCoins = .error (.code eInsufficientBalance) ∧
      ¬TransferAbortsIf (.named 0) tenCoins 0xa11ce 0xb0b 10 ∧
      ¬Meets (transfer (.named 0) 0xa11ce 0xb0b 10 tenCoins) (TransferAbortsIf (.named 0) tenCoins 0xa11ce 0xb0b 10)
        (TransferEnsures (.named 0) tenCoins 0xa11ce 0xb0b 10) := by
  have hcode : transfer (.named 0) 0xa11ce 0xb0b 10 tenCoins = .error (.code eInsufficientBalance) := rfl
  have hspec : ¬TransferAbortsIf (.named 0) tenCoins 0xa11ce 0xb0b 10 :=
    not_transferAbortsIf_iff.mpr ⟨by decide, 10, 0, rfl, by decide, rfl, by decide⟩
  exact ⟨hcode, hspec, fun h => hspec (h.aborts_iff.mp ⟨_, hcode⟩)⟩

end MoveTutorial.ChenCoin
