import MoveTutorial.MoveRun
import MoveTutorial.MoveStorage

/-! The module `BasicCoin`: balances of any number of coin types at any number of addresses. A signer
is represented by its address. The witness that `mint`, `burn` and `transfer` ask for carries no data
and is left out; which modules can produce it decides who may call them. -/

namespace MoveTutorial.Coin

open Move

/-- The coin types: those declared by some module, and the pool token of two coin types. -/
inductive CoinType where
  | named (id : ℕ)
  | poolToken (coinType1 coinType2 : CoinType)
  deriving DecidableEq, Repr

abbrev Address := Fin (2 ^ 256)

/-- The resources `Balance<CoinType>`, by coin type and address. -/
abbrev Balances := CoinType × Address → Option ℕ

def eInsufficientBalance : ℕ := 1
def eAlreadyHasBalance : ℕ := 2
def eEqualAddr : ℕ := 4

variable (T : CoinType)

def publishBalance (account : Address) (balances : Balances) : Exec Balances := do
  assert (balances (T, account) = none) eAlreadyHasBalance
  moveTo balances (T, account) 0

def balanceOf (owner : Address) (balances : Balances) : Exec ℕ :=
  borrowGlobal balances (T, owner)

def withdraw (addr : Address) (amount : ℕ) (balances : Balances) : Exec (ℕ × Balances) := do
  let balance ← balanceOf T addr balances
  assert (balance ≥ amount) eInsufficientBalance
  let rest ← sub balance amount
  return (amount, Function.update balances (T, addr) (some rest))

def deposit (addr : Address) (check : ℕ) (balances : Balances) : Exec Balances := do
  let balance ← balanceOf T addr balances
  let total ← add 64 balance check
  return Function.update balances (T, addr) (some total)

def mint (mintAddr : Address) (amount : ℕ) (balances : Balances) : Exec Balances :=
  deposit T mintAddr amount balances

def burn (burnAddr : Address) (amount : ℕ) (balances : Balances) : Exec Balances := do
  let (_, balances') ← withdraw T burnAddr amount balances
  return balances'

def transfer (sender dest : Address) (amount : ℕ) (balances : Balances) : Exec Balances := do
  assert (sender ≠ dest) eEqualAddr
  let (check, balances') ← withdraw T sender amount balances
  deposit T dest check balances'

/-! ### What a successful call does -/

section Inversion

variable {T} {T' : CoinType} {balances balances' : Balances} {addr addr' sender dest : Address} {amount check : ℕ}

theorem update_balance_of_ne (hT : T' ≠ T) (v : Option ℕ) :
    Function.update balances (T, addr) v (T', addr') = balances (T', addr') :=
  Function.update_of_ne (fun h => hT (Prod.mk.inj h).1) v balances

theorem update_balance_of_addr_ne (haddr : addr' ≠ addr) (v : Option ℕ) :
    Function.update balances (T, addr) v (T', addr') = balances (T', addr') :=
  Function.update_of_ne (fun h => haddr (Prod.mk.inj h).2) v balances

theorem publishBalance_eq_ok : publishBalance T addr balances = .ok balances' ↔
    balances (T, addr) = none ∧ balances' = Function.update balances (T, addr) (some 0) := by
  simp only [publishBalance, bind_eq_ok, assert_eq_ok, moveTo_eq_ok, exists_const]
  tauto

theorem balanceOf_eq_ok {n : ℕ} : balanceOf T addr balances = .ok n ↔ balances (T, addr) = some n :=
  borrowGlobal_eq_ok

theorem withdraw_eq_ok : withdraw T addr amount balances = .ok (check, balances') ↔
    ∃ b, balances (T, addr) = some b ∧ amount ≤ b ∧ check = amount ∧
      balances' = Function.update balances (T, addr) (some (b - amount)) := by
  simp only [withdraw, bind_eq_ok, balanceOf_eq_ok, assert_eq_ok, sub_eq_ok, pure_eq_ok, Prod.mk.injEq]
  constructor
  · rintro ⟨b, hb, _, hle, _, ⟨-, rfl⟩, rfl, rfl⟩
    exact ⟨b, hb, hle, rfl, rfl⟩
  · rintro ⟨b, hb, hle, rfl, rfl⟩
    exact ⟨b, hb, (), hle, _, ⟨hle, rfl⟩, rfl, rfl⟩

theorem deposit_eq_ok : deposit T addr amount balances = .ok balances' ↔
    ∃ b, balances (T, addr) = some b ∧ b + amount < 2 ^ 64 ∧
      balances' = Function.update balances (T, addr) (some (b + amount)) := by
  simp only [deposit, bind_eq_ok, balanceOf_eq_ok, add_eq_ok, pure_eq_ok]
  constructor
  · rintro ⟨b, hb, _, ⟨hlt, rfl⟩, rfl⟩
    exact ⟨b, hb, hlt, rfl⟩
  · rintro ⟨b, hb, hlt, rfl⟩
    exact ⟨b, hb, _, ⟨hlt, rfl⟩, rfl⟩

theorem burn_eq_ok : burn T addr amount balances = .ok balances' ↔
    ∃ b, balances (T, addr) = some b ∧ amount ≤ b ∧
      balances' = Function.update balances (T, addr) (some (b - amount)) := by
  simp only [burn, bind_eq_ok, Prod.exists, withdraw_eq_ok, pure_eq_ok]
  constructor
  · rintro ⟨_, _, ⟨b, hb, hle, rfl, rfl⟩, rfl⟩
    exact ⟨b, hb, hle, rfl⟩
  · rintro ⟨b, hb, hle, rfl⟩
    exact ⟨_, _, ⟨b, hb, hle, rfl, rfl⟩, rfl⟩

/-- A transfer is between different addresses, so the two updates do not meet. -/
theorem transfer_eq_ok : transfer T sender dest amount balances = .ok balances' ↔
    sender ≠ dest ∧ ∃ b c, balances (T, sender) = some b ∧ amount ≤ b ∧
      balances (T, dest) = some c ∧ c + amount < 2 ^ 64 ∧
      balances' = Function.update (Function.update balances (T, sender) (some (b - amount)))
        (T, dest) (some (c + amount)) := by
  simp only [transfer, bind_eq_ok, assert_eq_ok, Prod.exists, withdraw_eq_ok, deposit_eq_ok]
  constructor
  · rintro ⟨_, hne, _, _, ⟨b, hb, hle, rfl, rfl⟩, c, hc, hlt, rfl⟩
    rw [update_balance_of_addr_ne hne.symm] at hc
    exact ⟨hne, b, c, hb, hle, hc, hlt, rfl⟩
  · rintro ⟨hne, b, c, hb, hle, hc, hlt, rfl⟩
    refine ⟨(), hne, _, _, ⟨b, hb, hle, rfl, rfl⟩, c, ?_, hlt, rfl⟩
    rw [update_balance_of_addr_ne hne.symm, hc]

end Inversion

/-! ### Single balances -/

section Single

variable {T} {T' : CoinType} {balances balances' : Balances} {addr addr' sender dest : Address} {amount : ℕ}

theorem mint_other (hT : T' ≠ T) (h : mint T addr amount balances = .ok balances') :
    balances' (T', addr') = balances (T', addr') := by
  obtain ⟨b, -, -, rfl⟩ := deposit_eq_ok.mp h
  exact update_balance_of_ne hT _

theorem burn_other (hT : T' ≠ T) (h : burn T addr amount balances = .ok balances') :
    balances' (T', addr') = balances (T', addr') := by
  obtain ⟨b, -, -, rfl⟩ := burn_eq_ok.mp h
  exact update_balance_of_ne hT _

theorem transfer_other (hT : T' ≠ T) (h : transfer T sender dest amount balances = .ok balances') :
    balances' (T', addr') = balances (T', addr') := by
  obtain ⟨-, b, c, -, -, -, -, rfl⟩ := transfer_eq_ok.mp h
  rw [update_balance_of_ne hT, update_balance_of_ne hT]

theorem transfer_dest {c : ℕ} (hc : balances (T, dest) = some c)
    (h : transfer T sender dest amount balances = .ok balances') :
    balances' (T, dest) = some (c + amount) := by
  obtain ⟨-, b, c', -, -, hc', -, rfl⟩ := transfer_eq_ok.mp h
  rw [Function.update_self, Option.some.inj (hc.symm.trans hc')]

theorem transfer_sender {b : ℕ} (hb : balances (T, sender) = some b)
    (h : transfer T sender dest amount balances = .ok balances') :
    amount ≤ b ∧ balances' (T, sender) = some (b - amount) := by
  obtain ⟨hne, b', c, hb', hle, -, -, rfl⟩ := transfer_eq_ok.mp h
  rw [Option.some.inj (hb.symm.trans hb'), update_balance_of_addr_ne hne, Function.update_self]
  exact ⟨hle, rfl⟩

/-- No balance falls by more than the amount of a transfer, whoever the parties are. -/
theorem transfer_le_add {b : ℕ} (hb : balances (T, addr) = some b)
    (h : transfer T sender dest amount balances = .ok balances') :
    ∃ b', balances' (T, addr) = some b' ∧ b ≤ b' + amount := by
  obtain ⟨hne, s, d, hs, hle, hd, -, rfl⟩ := transfer_eq_ok.mp h
  by_cases hdest : addr = dest
  · subst hdest
    rw [Option.some.inj (hb.symm.trans hd), Function.update_self]
    exact ⟨_, rfl, by omega⟩
  · rw [update_balance_of_addr_ne hdest]
    by_cases hsender : addr = sender
    · subst hsender
      rw [Option.some.inj (hb.symm.trans hs), Function.update_self]
      exact ⟨_, rfl, by omega⟩
    · rw [update_balance_of_addr_ne hsender]
      exact ⟨b, hb, by omega⟩

/-- What is published stays published. -/
theorem transfer_published {b : ℕ} (hb : balances (T', addr) = some b)
    (h : transfer T sender dest amount balances = .ok balances') : ∃ b', balances' (T', addr) = some b' := by
  by_cases hT : T' = T
  · subst hT
    obtain ⟨b', hb', -⟩ := transfer_le_add hb h
    exact ⟨b', hb'⟩
  · exact ⟨b, (transfer_other hT h).trans hb⟩

/-- A transfer concerns the two parties. -/
theorem transfer_bystander (hsender : addr ≠ sender) (hdest : addr ≠ dest)
    (h : transfer T sender dest amount balances = .ok balances') : balances' (T', addr) = balances (T', addr) := by
  obtain ⟨-, b, c, -, -, -, -, rfl⟩ := transfer_eq_ok.mp h
  rw [update_balance_of_addr_ne hdest, update_balance_of_addr_ne hsender]

theorem burn_bystander (haddr : addr' ≠ addr) (h : burn T addr amount balances = .ok balances') :
    balances' (T', addr') = balances (T', addr') := by
  obtain ⟨b, -, -, rfl⟩ := burn_eq_ok.mp h
  exact update_balance_of_addr_ne haddr _

/-- A transfer of nothing changes nothing. -/
theorem transfer_zero (h : transfer T sender dest 0 balances = .ok balances') : balances' = balances := by
  obtain ⟨hne, b, c, hb, -, hc, -, rfl⟩ := transfer_eq_ok.mp h
  rw [Nat.sub_zero, Nat.add_zero, ← hb, ← hc, Function.update_eq_self, Function.update_eq_self]

end Single

/-! ### Supply -/

/-- The balance of an address, zero where none is published. -/
def held (balances : Balances) (T : CoinType) (addr : Address) : ℕ := (balances (T, addr)).getD 0

/-- The sum of all balances of a coin type. -/
def supply (balances : Balances) (T : CoinType) : ℕ := ∑ addr, held balances T addr

section Supply

variable {T} {balances balances' : Balances} {addr sender dest : Address} {amount : ℕ}

theorem held_of_some {b : ℕ} (h : balances (T, addr) = some b) : held balances T addr = b := by
  rw [held, h, Option.getD_some]

theorem held_update (balances : Balances) (T T' : CoinType) (addr addr' : Address) (v : ℕ) :
    held (Function.update balances (T, addr) (some v)) T' addr' =
      if T' = T ∧ addr' = addr then v else held balances T' addr' := by
  by_cases hkey : T' = T ∧ addr' = addr
  · obtain ⟨rfl, rfl⟩ := hkey
    rw [if_pos ⟨rfl, rfl⟩, held, Function.update_self, Option.getD_some]
  · rw [if_neg hkey, held, Function.update_of_ne (fun h => hkey (Prod.mk.inj h)), held]

/-- What a burn does to every balance. -/
theorem burn_held (h : burn T addr amount balances = .ok balances') (T' : CoinType) (addr' : Address) :
    held balances' T' addr' + (if T' = T ∧ addr' = addr then amount else 0) = held balances T' addr' := by
  obtain ⟨b, hb, hle, rfl⟩ := burn_eq_ok.mp h
  rw [held_update]
  by_cases hkey : T' = T ∧ addr' = addr
  · rw [if_pos hkey, if_pos hkey, hkey.1, hkey.2, held_of_some hb]
    omega
  · rw [if_neg hkey, if_neg hkey, Nat.add_zero]

/-- What a transfer does to every balance. -/
theorem transfer_held (h : transfer T sender dest amount balances = .ok balances') (T' : CoinType) (addr' : Address) :
    held balances' T' addr' + (if T' = T ∧ addr' = sender then amount else 0) =
      held balances T' addr' + (if T' = T ∧ addr' = dest then amount else 0) := by
  obtain ⟨hne, b, c, hb, hle, hc, -, rfl⟩ := transfer_eq_ok.mp h
  rw [held_update, held_update]
  by_cases hdest : T' = T ∧ addr' = dest
  · have hsender : ¬(T' = T ∧ addr' = sender) := fun hkey => hne (hkey.2.symm.trans hdest.2)
    rw [if_pos hdest, if_pos hdest, if_neg hsender, hdest.1, hdest.2, held_of_some hc]
    rfl
  · rw [if_neg hdest, if_neg hdest]
    by_cases hsender : T' = T ∧ addr' = sender
    · rw [if_pos hsender, if_pos hsender, hsender.1, hsender.2, held_of_some hb]
      omega
    · rw [if_neg hsender, if_neg hsender]

/-- Writing one balance replaces it in the sum of its coin type. -/
theorem supply_update (balances : Balances) (T : CoinType) (addr : Address) (v : ℕ) :
    supply (Function.update balances (T, addr) (some v)) T + held balances T addr =
      supply balances T + v := by
  have hheld : (fun a => held (Function.update balances (T, addr) (some v)) T a) =
      Function.update (held balances T) addr v := by
    funext a
    by_cases ha : a = addr
    · subst ha
      simp [held]
    · rw [Function.update_of_ne ha, held, update_balance_of_addr_ne ha, held]
  rw [supply, hheld, Finset.sum_update_of_mem (Finset.mem_univ addr), Finset.sdiff_singleton_eq_erase,
    supply, ← Finset.add_sum_erase _ (held balances T) (Finset.mem_univ addr)]
  omega

theorem supply_update_of_ne {T' : CoinType} (h : T' ≠ T) (v : ℕ) :
    supply (Function.update balances (T, addr) (some v)) T' = supply balances T' := by
  apply Finset.sum_congr rfl
  intro a _
  rw [held, update_balance_of_ne h, held]

theorem publishBalance_supply (T' : CoinType) (h : publishBalance T addr balances = .ok balances') :
    supply balances' T' = supply balances T' := by
  obtain ⟨hnone, rfl⟩ := publishBalance_eq_ok.mp h
  by_cases hT : T' = T
  · subst hT
    have hsum := supply_update balances T' addr 0
    rw [held, hnone] at hsum
    simpa using hsum
  · exact supply_update_of_ne hT 0

theorem mint_supply (h : mint T addr amount balances = .ok balances') :
    supply balances' T = supply balances T + amount := by
  obtain ⟨b, hb, -, rfl⟩ := deposit_eq_ok.mp h
  have hsum := supply_update balances T addr (b + amount)
  rw [held_of_some hb] at hsum
  omega

theorem mint_supply_of_ne {T' : CoinType} (hT : T' ≠ T) (h : mint T addr amount balances = .ok balances') :
    supply balances' T' = supply balances T' := by
  obtain ⟨b, -, -, rfl⟩ := deposit_eq_ok.mp h
  exact supply_update_of_ne hT _

theorem burn_supply (h : burn T addr amount balances = .ok balances') :
    supply balances' T + amount = supply balances T := by
  obtain ⟨b, hb, hle, rfl⟩ := burn_eq_ok.mp h
  have hsum := supply_update balances T addr (b - amount)
  rw [held_of_some hb] at hsum
  omega

theorem burn_supply_of_ne {T' : CoinType} (hT : T' ≠ T) (h : burn T addr amount balances = .ok balances') :
    supply balances' T' = supply balances T' := by
  obtain ⟨b, -, -, rfl⟩ := burn_eq_ok.mp h
  exact supply_update_of_ne hT _

theorem transfer_supply (T' : CoinType) (h : transfer T sender dest amount balances = .ok balances') :
    supply balances' T' = supply balances T' := by
  obtain ⟨hne, b, c, hb, hle, hc, -, rfl⟩ := transfer_eq_ok.mp h
  by_cases hT : T' = T
  · subst hT
    have hout := supply_update balances T' sender (b - amount)
    have hin := supply_update (Function.update balances (T', sender) (some (b - amount))) T' dest (c + amount)
    rw [held_of_some hb] at hout
    rw [held, update_balance_of_addr_ne hne.symm, hc, Option.getD_some] at hin
    omega
  · rw [supply_update_of_ne hT, supply_update_of_ne hT]

/-- Two balances are parts of one supply. -/
theorem two_held_le_supply (balances : Balances) (T : CoinType) (hne : sender ≠ dest) :
    held balances T sender + held balances T dest ≤ supply balances T := by
  rw [supply, ← Finset.sum_pair hne]
  exact Finset.sum_le_sum_of_subset (Finset.subset_univ _)

/-- Where the supply is a `u64`, a transfer of what the sender has goes through. -/
theorem transfer_succeeds {b c : ℕ} (hne : sender ≠ dest) (hb : balances (T, sender) = some b)
    (hc : balances (T, dest) = some c) (hsupply : supply balances T < 2 ^ 64) (hle : amount ≤ b) :
    ∃ balances', transfer T sender dest amount balances = .ok balances' := by
  have htwo := two_held_le_supply balances T hne
  rw [held_of_some hb, held_of_some hc] at htwo
  exact ⟨_, transfer_eq_ok.mpr ⟨hne, b, c, hb, hle, hc, by omega, rfl⟩⟩

end Supply

end MoveTutorial.Coin
