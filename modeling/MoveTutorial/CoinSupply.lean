import MoveTutorial.CoinModel

/-! Conservation of the coins of `BasicCoin`. Coins come from mints and go with burns alone: over any
sequence of calls, by anyone, at any coin types, the sum of all balances of a coin type is what was
minted less what was burned, and no call touches a balance it does not name. -/

namespace MoveTutorial.Coin

open Move

/-- A call of the module's public functions at any coin type. -/
inductive Call where
  | publishBalance (T : CoinType) (account : Address)
  | mint (T : CoinType) (mintAddr : Address) (amount : ℕ)
  | burn (T : CoinType) (burnAddr : Address) (amount : ℕ)
  | transfer (T : CoinType) (sender dest : Address) (amount : ℕ)
  deriving DecidableEq, Repr

def exec : Call → Balances → Exec (Unit × Balances)
  | .publishBalance T account, balances => procedure (publishBalance T account balances)
  | .mint T mintAddr amount, balances => procedure (mint T mintAddr amount balances)
  | .burn T burnAddr amount, balances => procedure (burn T burnAddr amount balances)
  | .transfer T sender dest amount, balances => procedure (transfer T sender dest amount balances)

/-- Before any call, no balance is published. -/
def genesis : Balances := fun _ => none

/-- What a call mints of a coin type. -/
def Call.minted (T : CoinType) : Call → ℕ
  | .publishBalance _ _ => 0
  | .mint T' _ amount => if T' = T then amount else 0
  | .burn _ _ _ => 0
  | .transfer _ _ _ _ => 0

/-- What a call burns of a coin type. -/
def Call.burned (T : CoinType) : Call → ℕ
  | .publishBalance _ _ => 0
  | .mint _ _ _ => 0
  | .burn T' _ amount => if T' = T then amount else 0
  | .transfer _ _ _ _ => 0

/-- The balances a call names: its coin type at its addresses. -/
def Call.Names (T : CoinType) (addr : Address) : Call → Prop
  | .publishBalance T' account => T = T' ∧ addr = account
  | .mint T' mintAddr _ => T = T' ∧ addr = mintAddr
  | .burn T' burnAddr _ => T = T' ∧ addr = burnAddr
  | .transfer T' sender dest _ => T = T' ∧ (addr = sender ∨ addr = dest)

/-! ### One call -/

section Calls

variable {balances balances' : Balances}

theorem exec_supply (T : CoinType) {call : Call} {u : Unit} (h : exec call balances = .ok (u, balances')) :
    supply balances' T + call.burned T = supply balances T + call.minted T := by
  cases call with
  | publishBalance T' account =>
      rw [publishBalance_supply T (procedure_eq_ok.mp h), Call.burned, Call.minted]
  | mint T' mintAddr amount =>
      have hmint := procedure_eq_ok.mp h
      rw [Call.burned, Call.minted, Nat.add_zero]
      by_cases hT : T' = T
      · subst hT
        rw [if_pos rfl, mint_supply hmint]
      · rw [if_neg hT, mint_supply_of_ne (Ne.symm hT) hmint, Nat.add_zero]
  | burn T' burnAddr amount =>
      have hburn := procedure_eq_ok.mp h
      rw [Call.burned, Call.minted, Nat.add_zero]
      by_cases hT : T' = T
      · subst hT
        rw [if_pos rfl, burn_supply hburn]
      · rw [if_neg hT, burn_supply_of_ne (Ne.symm hT) hburn, Nat.add_zero]
  | transfer T' sender dest amount =>
      rw [transfer_supply T (procedure_eq_ok.mp h), Call.burned, Call.minted]

/-- Every balance is a `u64`. -/
def Fits (balances : Balances) : Prop := ∀ T addr b, balances (T, addr) = some b → b < 2 ^ 64

theorem Fits.update (hfits : Fits balances) {T : CoinType} {addr : Address} {v : ℕ} (hv : v < 2 ^ 64) :
    Fits (Function.update balances (T, addr) (some v)) := by
  intro T' addr' b hb
  by_cases hkey : (T', addr') = (T, addr)
  · rw [hkey, Function.update_self] at hb
    rwa [← Option.some.inj hb]
  · rw [Function.update_of_ne hkey] at hb
    exact hfits T' addr' b hb

theorem exec_fits {call : Call} {u : Unit} (hfits : Fits balances) (h : exec call balances = .ok (u, balances')) :
    Fits balances' := by
  cases call with
  | publishBalance T account =>
      obtain ⟨-, rfl⟩ := publishBalance_eq_ok.mp (procedure_eq_ok.mp h)
      exact hfits.update (by decide)
  | mint T mintAddr amount =>
      obtain ⟨b, -, hlt, rfl⟩ := deposit_eq_ok.mp (procedure_eq_ok.mp h)
      exact hfits.update hlt
  | burn T burnAddr amount =>
      obtain ⟨b, hb, -, rfl⟩ := burn_eq_ok.mp (procedure_eq_ok.mp h)
      have hlt := hfits T burnAddr b hb
      exact hfits.update (by omega)
  | transfer T sender dest amount =>
      obtain ⟨-, b, c, hb, -, -, hlt, rfl⟩ := transfer_eq_ok.mp (procedure_eq_ok.mp h)
      have hsender := hfits T sender b hb
      apply Fits.update
      · exact hfits.update (by omega)
      · exact hlt

theorem exec_frame {call : Call} {u : Unit} {T : CoinType} {addr : Address} (hname : ¬call.Names T addr)
    (h : exec call balances = .ok (u, balances')) : balances' (T, addr) = balances (T, addr) := by
  cases call with
  | publishBalance T' account =>
      obtain ⟨-, rfl⟩ := publishBalance_eq_ok.mp (procedure_eq_ok.mp h)
      apply Function.update_of_ne
      simpa [Call.Names] using hname
  | mint T' mintAddr amount =>
      obtain ⟨b, -, -, rfl⟩ := deposit_eq_ok.mp (procedure_eq_ok.mp h)
      apply Function.update_of_ne
      simpa [Call.Names] using hname
  | burn T' burnAddr amount =>
      obtain ⟨b, -, -, rfl⟩ := burn_eq_ok.mp (procedure_eq_ok.mp h)
      apply Function.update_of_ne
      simpa [Call.Names] using hname
  | transfer T' sender dest amount =>
      obtain ⟨-, b, c, -, -, -, -, rfl⟩ := transfer_eq_ok.mp (procedure_eq_ok.mp h)
      have hparties : (T, addr) ≠ (T', sender) ∧ (T, addr) ≠ (T', dest) := by
        simp only [Call.Names, not_and, not_or, ne_eq, Prod.mk.injEq] at hname ⊢
        tauto
      rw [Function.update_of_ne hparties.2, Function.update_of_ne hparties.1]

end Calls

/-! ### Runs -/

theorem genesis_supply (T : CoinType) : supply genesis T = 0 := by
  apply Finset.sum_eq_zero
  intro addr _
  rfl

/-- **Coins are conserved.** After any calls, the balances of every coin type add up to its mints less
its burns, every balance is a `u64`, and the next call leaves every balance it does not name as it
is. -/
theorem coins_conserved (calls : List Call) :
    (∀ T, supply (run exec genesis calls) T + tally exec (Call.burned T) genesis calls =
      tally exec (Call.minted T) genesis calls) ∧
    (∀ T addr b, run exec genesis calls (T, addr) = some b → b < 2 ^ 64) ∧
    (∀ call T addr, ¬call.Names T addr →
      run exec genesis (calls ++ [call]) (T, addr) = run exec genesis calls (T, addr)) := by
  refine ⟨fun T => ?_, ?_, fun call T addr hname => ?_⟩
  · have htotal := run_tally (fun balances => supply balances T) (Call.minted T) (Call.burned T)
      (fun s call out s' h => exec_supply T h) genesis calls
    rwa [genesis_supply, Nat.zero_add] at htotal
  · have hstart : Fits genesis := fun T addr b hb => nomatch hb
    exact run_invariant (fun s call out s' hs _ h => exec_fits hs h) hstart (along_true genesis calls)
  · rw [run_concat]
    rcases commit_cases exec (run exec genesis calls) call with ⟨out, s', hok, heq⟩ | heq
    · rw [heq]
      exact exec_frame hname hok
    · rw [heq]

/-- Ten coins minted, four sent on and three burned. -/
example : run exec genesis [.publishBalance (.named 0) 1, .publishBalance (.named 0) 2, .mint (.named 0) 1 10,
    .transfer (.named 0) 1 2 4, .transfer (.named 0) 1 3 4, .burn (.named 0) 2 3] (.named 0, 2) = some 1 := by
  decide

end MoveTutorial.Coin
