import MoveTutorial.SchedulerModel

/-! Who owns a transaction. The status of a transaction says what is done with it, and while it is executed,
suspended or aborted there is exactly one thread that does it. This module keeps of the scheduler only the
statuses, the dependency lists and the condition variables, and of the threads what they hold of
these, and proves the ownership for all interleavings. -/

namespace MoveTutorial.Executor

open Interleaving

/-- What the statuses, the dependency lists and the condition variables say. -/
structure Board where
  status : TxnIndex → TransactionStatus
  dependency : TxnIndex → List TxnIndex
  condvars : ℕ
  resolved : DependencyCondvar → Bool

/-- What a thread holds. -/
inductive Hold where
  | nothing
  /-- the execution of a version -/
  | running (version : Version)
  /-- an execution that is suspended, but not yet in a dependency list -/
  | parking (version : Version) (condvar : DependencyCondvar)
  | waiting (version : Version) (condvar : DependencyCondvar)
  | aborting (version : Version)
  /-- transactions to resume -/
  | carrying (txnDeps : List TxnIndex)
  | notifying (condvar : DependencyCondvar)
  deriving DecidableEq

/-- The transaction that a thread works on. -/
def Hold.owned : Hold → Option TxnIndex
  | .running version => some version.1
  | .parking version _ => some version.1
  | .waiting version _ => some version.1
  | .aborting version => some version.1
  | _ => none

/-- The transactions that a thread has taken from a dependency list. -/
def Hold.carried : Hold → List TxnIndex
  | .carrying txnDeps => txnDeps
  | _ => []

/-- The condition variable of a suspended transaction. -/
def TransactionStatus.condvar? : TransactionStatus → Option DependencyCondvar
  | .readyToExecute _ condvar => condvar
  | .suspended _ condvar => some condvar
  | _ => none

/-- No thread works on the transaction. -/
def TransactionStatus.Free : TransactionStatus → Prop
  | .readyToExecute _ none => True
  | .executed _ => True
  | _ => False

/-- What the status is while a thread holds the transaction. -/
def Hold.Fits : Hold → TransactionStatus → Prop
  | .running version, status => status = .executing version.2
  | .parking version condvar, status => status = .suspended version.2 condvar
  | .waiting version condvar, status =>
      status = .suspended version.2 condvar ∨ status = .readyToExecute version.2 (some condvar) ∨
        status = .executing version.2
  | .aborting version, status => status = .aborting version.2
  | _, _ => True

/-- What a step does to the board and to what its thread holds. -/
inductive Transfer : Board → Hold → Board → Hold → Prop
  | keep {b : Board} {h : Hold} : Transfer b h b h
  | incarnate {b : Board} {i : TxnIndex} {incarnation : Incarnation}
      (ready : b.status i = .readyToExecute incarnation none) :
      Transfer b .nothing { b with status := Function.update b.status i (.executing incarnation) }
        (.running (i, incarnation))
  | wakeUp {b : Board} {i : TxnIndex} {incarnation : Incarnation} {condvar : DependencyCondvar}
      (ready : b.status i = .readyToExecute incarnation (some condvar)) :
      Transfer b .nothing { b with status := Function.update b.status i (.executing incarnation) } (.notifying condvar)
  | notify {b : Board} {condvar : DependencyCondvar} :
      Transfer b (.notifying condvar) { b with resolved := Function.update b.resolved condvar true } .nothing
  | suspend {b : Board} {version : Version} :
      Transfer b (.running version)
        { b with
          status := Function.update b.status version.1 (.suspended version.2 b.condvars)
          condvars := b.condvars + 1 }
        (.parking version b.condvars)
  | push {b : Board} {version : Version} {condvar : DependencyCondvar} {j : TxnIndex} :
      Transfer b (.parking version condvar)
        { b with dependency := Function.update b.dependency j (b.dependency j ++ [version.1]) }
        (.waiting version condvar)
  | wake {b : Board} {version : Version} {condvar : DependencyCondvar} (h : b.resolved condvar = true) :
      Transfer b (.waiting version condvar) b (.running version)
  | execute {b : Board} {version : Version} :
      Transfer b (.running version)
        { b with status := Function.update b.status version.1 (.executed version.2) } .nothing
  | take {b : Board} {j : TxnIndex} :
      Transfer b .nothing { b with dependency := Function.update b.dependency j [] } (.carrying (b.dependency j))
  | resume {b : Board} {d : TxnIndex} {txnDeps : List TxnIndex} {incarnation : Incarnation} {condvar : DependencyCondvar}
      (suspended : b.status d = .suspended incarnation condvar) :
      Transfer b (.carrying (d :: txnDeps))
        { b with status := Function.update b.status d (.readyToExecute incarnation (some condvar)) }
        (.carrying txnDeps)
  | finish {b : Board} : Transfer b (.carrying []) b .nothing
  | abort {b : Board} {version : Version} (executed : b.status version.1 = .executed version.2) :
      Transfer b .nothing { b with status := Function.update b.status version.1 (.aborting version.2) }
        (.aborting version)
  | release {b : Board} {version : Version} :
      Transfer b (.aborting version)
        { b with status := Function.update b.status version.1 (.readyToExecute (version.2 + 1) none) } .nothing

section Ownership

variable {Thread : Type} {b b' : Board} {holds : Thread → Hold} {t : Thread} {p : Hold} {i : TxnIndex}
  {place : TxnIndex → Option (TxnIndex ⊕ Thread)}

/-- Every transaction that is not free is owned by exactly one thread, whose hold fits the status. -/
structure Owned (b : Board) (holds : Thread → Hold) : Prop where
  exclusive : Exclusive Hold.owned holds
  fits : ∀ t i, (holds t).owned = some i → (holds t).Fits (b.status i)
  owner : ∀ i, ¬(b.status i).Free → ∃ t, (holds t).owned = some i

/-- A condition variable belongs to one transaction, until a thread has it to notify. -/
structure Condvars (b : Board) (holds : Thread → Hold) : Prop where
  distinct : ∀ i j condvar, (b.status i).condvar? = some condvar → (b.status j).condvar? = some condvar → i = j
  fresh : ∀ i condvar, (b.status i).condvar? = some condvar → condvar < b.condvars
  freshResolved : ∀ condvar, b.resolved condvar = true → condvar < b.condvars
  freshNotifying : ∀ t condvar, holds t = .notifying condvar → condvar < b.condvars
  spentResolved : ∀ i condvar, b.resolved condvar = true → (b.status i).condvar? ≠ some condvar
  spentNotifying : ∀ t i condvar, holds t = .notifying condvar → (b.status i).condvar? ≠ some condvar

/-- A thread that waits for a transaction that runs again is about to be notified. -/
def Noticed (b : Board) (holds : Thread → Hold) : Prop :=
  ∀ t version condvar, holds t = .waiting version condvar → b.status version.1 = .executing version.2 →
    b.resolved condvar = true ∨ ∃ t', holds t' = .notifying condvar

/-- Where a suspended transaction is recorded: in the list of a transaction, or with a thread that took it. -/
structure Placed (b : Board) (holds : Thread → Hold) (place : TxnIndex → Option (TxnIndex ⊕ Thread)) : Prop where
  listed : ∀ d j, d ∈ b.dependency j ↔ place d = some (.inl j)
  carried : ∀ d t, d ∈ (holds t).carried ↔ place d = some (.inr t)
  nodupListed : ∀ j, (b.dependency j).Nodup
  nodupCarried : ∀ t, (holds t).carried.Nodup
  suspended : ∀ d, place d ≠ none → ∃ incarnation condvar, b.status d = .suspended incarnation condvar
  recorded : ∀ d incarnation condvar, b.status d = .suspended incarnation condvar →
    place d ≠ none ∨ ∃ t, holds t = .parking (d, incarnation) condvar
  unrecorded : ∀ t version condvar, holds t = .parking version condvar → place version.1 = none

theorem Hold.Fits.not_free {hold : Hold} {status : TransactionStatus} (h : hold.Fits status)
    (hown : hold.owned = some i) : ¬status.Free := by
  cases hold with
  | running version => rw [Hold.Fits] at h; subst h; exact id
  | parking version condvar => rw [Hold.Fits] at h; subst h; exact id
  | waiting version condvar =>
      rcases h with rfl | rfl | rfl
      · exact id
      · exact id
      · exact id
  | aborting version => rw [Hold.Fits] at h; subst h; exact id
  | _ => cases hown

/-- Nobody owns a free transaction. -/
theorem Owned.unowned (h : Owned b holds) (hfree : (b.status i).Free) (t : Thread) : (holds t).owned ≠ some i :=
  fun hown => (h.fits t i hown).not_free hown hfree

theorem Owned.others (h : Owned b holds) (hown : (holds t).owned = some i) {t' : Thread} (hne : t' ≠ t) :
    (holds t').owned ≠ some i :=
  fun hown' => hne (h.exclusive t' t i hown' hown)

variable [DecidableEq Thread]

/-- A step that keeps every status and what its thread owns. -/
theorem Owned.same (h : Owned b holds) (hstatus : b'.status = b.status) (howned : p.owned = (holds t).owned)
    (hfits : ∀ j, p.owned = some j → p.Fits (b.status j)) : Owned b' (Function.update holds t p) := by
  refine ⟨h.exclusive.keep fun r hr => howned ▸ hr, ?_, ?_⟩
  · intro t' j hown
    rw [hstatus]
    by_cases ht : t' = t
    · rw [ht, Function.update_self] at hown ⊢
      exact hfits j hown
    · rw [Function.update_of_ne ht] at hown ⊢
      exact h.fits t' j hown
  · intro j hfree
    rw [hstatus] at hfree
    obtain ⟨t', ht'⟩ := h.owner j hfree
    refine ⟨t', ?_⟩
    by_cases ht : t' = t
    · rw [ht, Function.update_self, howned, ← ht]
      exact ht'
    · rw [Function.update_of_ne ht]
      exact ht'

/-- A step that changes the status of one transaction, and of its thread at most whether it owns this one. -/
theorem Owned.change (h : Owned b holds) (hstatus : ∀ j ≠ i, b'.status j = b.status j)
    (hbefore : ∀ j, (holds t).owned = some j → j = i) (hafter : ∀ j, p.owned = some j → j = i)
    (hothers : ∀ t' ≠ t, (holds t').owned = some i → p.owned = none ∧ (holds t').Fits (b'.status i))
    (hfits : p.owned = some i → p.Fits (b'.status i))
    (howner : ¬(b'.status i).Free → p.owned = some i ∨ ∃ t' ≠ t, (holds t').owned = some i) :
    Owned b' (Function.update holds t p) := by
  refine ⟨h.exclusive.update fun j hj t' ht hown => ?_, ?_, ?_⟩
  · obtain rfl := hafter j hj
    have hnone := (hothers t' ht hown).1
    rw [hnone] at hj
    cases hj
  · intro t' j hown
    by_cases ht : t' = t
    · rw [ht, Function.update_self] at hown ⊢
      obtain rfl := hafter j hown
      exact hfits hown
    · rw [Function.update_of_ne ht] at hown ⊢
      by_cases hji : j = i
      · subst hji
        exact (hothers t' ht hown).2
      · rw [hstatus j hji]
        exact h.fits t' j hown
  · intro j hfree
    by_cases hji : j = i
    · subst hji
      rcases howner hfree with hown | ⟨t', ht, hown⟩
      · exact ⟨t, by rw [Function.update_self]; exact hown⟩
      · exact ⟨t', by rw [Function.update_of_ne ht]; exact hown⟩
    · rw [hstatus j hji] at hfree
      obtain ⟨t', ht'⟩ := h.owner j hfree
      have hne : t' ≠ t := fun ht => hji (hbefore j (ht ▸ ht'))
      exact ⟨t', by rw [Function.update_of_ne hne]; exact ht'⟩

/-- The thread takes a free transaction. -/
theorem Owned.acquire (h : Owned b holds) (hstatus : ∀ j ≠ i, b'.status j = b.status j) (hfree : (b.status i).Free)
    (hbefore : (holds t).owned = none) (hafter : p.owned = some i) (hfits : p.Fits (b'.status i)) :
    Owned b' (Function.update holds t p) := by
  apply h.change hstatus
  · intro j hj
    rw [hbefore] at hj
    cases hj
  · intro j hj
    exact (Option.some.inj (hafter.symm.trans hj)).symm
  · intro t' _ hown
    exact absurd hown (h.unowned hfree t')
  · intro _
    exact hfits
  · intro _
    exact Or.inl hafter

/-- The thread keeps its transaction. -/
theorem Owned.retain (h : Owned b holds) (hstatus : ∀ j ≠ i, b'.status j = b.status j)
    (hbefore : (holds t).owned = some i) (hafter : p.owned = some i) (hfits : p.Fits (b'.status i)) :
    Owned b' (Function.update holds t p) := by
  apply h.change hstatus
  · intro j hj
    exact (Option.some.inj (hbefore.symm.trans hj)).symm
  · intro j hj
    exact (Option.some.inj (hafter.symm.trans hj)).symm
  · intro t' ht hown
    exact absurd hown (h.others hbefore ht)
  · intro _
    exact hfits
  · intro _
    exact Or.inl hafter

/-- The thread gives its transaction free. -/
theorem Owned.give (h : Owned b holds) (hstatus : ∀ j ≠ i, b'.status j = b.status j)
    (hbefore : (holds t).owned = some i) (hafter : p.owned = none) (hfree : (b'.status i).Free) :
    Owned b' (Function.update holds t p) := by
  apply h.change hstatus
  · intro j hj
    exact (Option.some.inj (hbefore.symm.trans hj)).symm
  · intro j hj
    rw [hafter] at hj
    cases hj
  · intro t' ht hown
    exact absurd hown (h.others hbefore ht)
  · intro hown
    rw [hafter] at hown
    cases hown
  · intro hnot
    exact absurd hfree hnot

/-- The thread changes the status of a transaction that another one owns. -/
theorem Owned.pass (h : Owned b holds) (hstatus : ∀ j ≠ i, b'.status j = b.status j)
    (hnot : ¬(b.status i).Free) (hbefore : (holds t).owned = none) (hafter : p.owned = none)
    (hfits : ∀ t', (holds t').owned = some i → (holds t').Fits (b'.status i)) :
    Owned b' (Function.update holds t p) := by
  apply h.change hstatus
  · intro j hj
    rw [hbefore] at hj
    cases hj
  · intro j hj
    rw [hafter] at hj
    cases hj
  · intro t' _ hown
    exact ⟨hafter, hfits t' hown⟩
  · intro hown
    rw [hafter] at hown
    cases hown
  · intro _
    obtain ⟨t', ht'⟩ := h.owner i hnot
    refine Or.inr ⟨t', fun ht => ?_, ht'⟩
    rw [ht, hbefore] at ht'
    cases ht'

/-- **Ownership is kept by every step.** -/
theorem Owned.next (h : Owned b holds) (hplaced : Placed b holds place) (hcondvars : Condvars b holds)
    (hstep : Transfer b (holds t) b' p) : Owned b' (Function.update holds t p) := by
  generalize hhold : holds t = hold at hstep
  have howned : (holds t).owned = hold.owned := congrArg Hold.owned hhold
  cases hstep with
  | keep =>
      rw [← hhold, Function.update_eq_self]
      exact h
  | @incarnate i incarnation ready =>
      refine h.acquire (i := i) (fun j hj => Function.update_of_ne hj _ _) ?_ howned rfl ?_
      · rw [ready]
        trivial
      · exact Function.update_self ..
  | @wakeUp i incarnation condvar ready =>
      refine h.pass (i := i) (fun j hj => Function.update_of_ne hj _ _) ?_ howned rfl ?_
      · rw [ready]
        exact id
      · intro t' hown
        have hfits := h.fits t' i hown
        rw [ready] at hfits
        cases hh : holds t' with
        | waiting version condvar' =>
            rw [hh] at hfits hown
            obtain rfl := Option.some.inj hown
            have hready : incarnation = version.2 ∧ condvar = condvar' := by simpa [Hold.Fits] using hfits
            simp [Hold.Fits, hready.1]
        | _ => rw [hh] at hfits hown; simp [Hold.Fits, Hold.owned] at hfits hown
  | notify =>
      apply h.same
      · rfl
      · rw [howned]
        rfl
      · intro j hj
        cases hj
  | @suspend version =>
      exact h.retain (i := version.1) (fun j hj => Function.update_of_ne hj _ _) howned rfl (Function.update_self ..)
  | @push version condvar j =>
      apply h.same
      · rfl
      · rw [howned]
        rfl
      · intro i hi
        have hfits := h.fits t i (howned.trans hi)
        rw [hhold] at hfits
        exact Or.inl hfits
  | @wake version condvar hresolved =>
      apply h.same
      · rfl
      · rw [howned]
        rfl
      · intro i hi
        have hfits := h.fits t i (howned.trans hi)
        rw [hhold] at hfits
        -- the flag is set only after the status has let go of the condition variable
        have hspent := hcondvars.spentResolved i condvar hresolved
        rcases hfits with hfits | hfits | hfits
        · rw [hfits] at hspent
          exact absurd rfl hspent
        · rw [hfits] at hspent
          exact absurd rfl hspent
        · exact hfits
  | @execute version =>
      apply h.give (i := version.1) (fun j hj => Function.update_of_ne hj _ _) howned rfl
      dsimp only
      rw [Function.update_self]
      trivial
  | take =>
      apply h.same
      · rfl
      · rw [howned]
        rfl
      · intro j hj
        cases hj
  | @resume d txnDeps incarnation condvar suspended =>
      refine h.pass (i := d) (fun j hj => Function.update_of_ne hj _ _) ?_ howned rfl ?_
      · rw [suspended]
        exact id
      · intro t' hown
        have hfits := h.fits t' d hown
        rw [suspended] at hfits
        cases hh : holds t' with
        | parking version condvar' =>
            -- what is carried has been recorded
            rw [hh] at hown
            obtain rfl := Option.some.inj hown
            have hplace := (hplaced.carried version.1 t).mp (by rw [hhold]; exact List.mem_cons_self)
            rw [hplaced.unrecorded t' version condvar' hh] at hplace
            cases hplace
        | waiting version condvar' =>
            rw [hh] at hfits hown
            obtain rfl := Option.some.inj hown
            have hsuspended : incarnation = version.2 ∧ condvar = condvar' := by simpa [Hold.Fits] using hfits
            simp [Hold.Fits, hsuspended.1, hsuspended.2]
        | _ => rw [hh] at hfits hown; simp [Hold.Fits, Hold.owned] at hfits hown
  | finish =>
      apply h.same
      · rfl
      · rw [howned]
        rfl
      · intro j hj
        cases hj
  | @abort version executed =>
      refine h.acquire (i := version.1) (fun j hj => Function.update_of_ne hj _ _) ?_ howned rfl ?_
      · rw [executed]
        trivial
      · exact Function.update_self ..
  | @release version =>
      apply h.give (i := version.1) (fun j hj => Function.update_of_ne hj _ _) howned rfl
      dsimp only
      rw [Function.update_self]
      trivial

/-! ### Condition variables -/

/-- A step that creates no condition variable, and gives its thread one to notify only out of a status. -/
theorem Condvars.shrink (h : Condvars b holds) (hcount : b'.condvars = b.condvars)
    (hstatus : ∀ j condvar, (b'.status j).condvar? = some condvar → (b.status j).condvar? = some condvar)
    (hresolved : ∀ condvar, b'.resolved condvar = true → b.resolved condvar = true ∨ holds t = .notifying condvar)
    (hafter : ∀ condvar, p = .notifying condvar →
      ∃ j, (b.status j).condvar? = some condvar ∧ (b'.status j).condvar? = none) :
    Condvars b' (Function.update holds t p) := by
  refine ⟨?_, ?_, ?_, ?_, ?_, ?_⟩
  · intro i j condvar hi hj
    exact h.distinct i j condvar (hstatus i condvar hi) (hstatus j condvar hj)
  · intro i condvar hi
    rw [hcount]
    exact h.fresh i condvar (hstatus i condvar hi)
  · intro condvar hcv
    rw [hcount]
    rcases hresolved condvar hcv with hcv | hcv
    · exact h.freshResolved condvar hcv
    · exact h.freshNotifying t condvar hcv
  · intro t' condvar ht'
    rw [hcount]
    by_cases ht : t' = t
    · rw [ht, Function.update_self] at ht'
      obtain ⟨j, hj, -⟩ := hafter condvar ht'
      exact h.fresh j condvar hj
    · rw [Function.update_of_ne ht] at ht'
      exact h.freshNotifying t' condvar ht'
  · intro i condvar hcv hi
    rcases hresolved condvar hcv with hcv | hcv
    · exact h.spentResolved i condvar hcv (hstatus i condvar hi)
    · exact h.spentNotifying t i condvar hcv (hstatus i condvar hi)
  · intro t' i condvar ht' hi
    by_cases ht : t' = t
    · rw [ht, Function.update_self] at ht'
      obtain ⟨j, hj, hnone⟩ := hafter condvar ht'
      obtain rfl := h.distinct i j condvar (hstatus i condvar hi) hj
      rw [hnone] at hi
      cases hi
    · rw [Function.update_of_ne ht] at ht'
      exact h.spentNotifying t' i condvar ht' (hstatus i condvar hi)

/-- A status that lets go of its condition variable, or keeps it. -/
theorem condvar_of_update {status : TxnIndex → TransactionStatus} {new : TransactionStatus}
    (hnew : ∀ condvar, new.condvar? = some condvar → (status i).condvar? = some condvar) {j : TxnIndex}
    {condvar : DependencyCondvar} (h : (Function.update status i new j).condvar? = some condvar) :
    (status j).condvar? = some condvar := by
  by_cases hj : j = i
  · rw [hj, Function.update_self] at h
    rw [hj]
    exact hnew condvar h
  · rwa [Function.update_of_ne hj] at h

theorem condvar_of_update_none {status : TxnIndex → TransactionStatus} {new : TransactionStatus}
    (hnew : new.condvar? = none) {j : TxnIndex} {condvar : DependencyCondvar}
    (h : (Function.update status i new j).condvar? = some condvar) : (status j).condvar? = some condvar := by
  refine condvar_of_update (fun cv hcv => ?_) h
  rw [hnew] at hcv
  cases hcv

theorem Condvars.suspend (h : Condvars b holds) (version : Version) :
    Condvars
      { b with
        status := Function.update b.status version.1 (.suspended version.2 b.condvars)
        condvars := b.condvars + 1 }
      (Function.update holds t (.parking version b.condvars)) := by
  have hcases : ∀ j condvar,
      (Function.update b.status version.1 (.suspended version.2 b.condvars) j).condvar? = some condvar →
        (j = version.1 ∧ condvar = b.condvars) ∨ (b.status j).condvar? = some condvar := by
    intro j condvar hj
    by_cases hji : j = version.1
    · rw [hji, Function.update_self] at hj
      exact Or.inl ⟨hji, (Option.some.inj hj).symm⟩
    · rw [Function.update_of_ne hji] at hj
      exact Or.inr hj
  have hnotifying : ∀ t' condvar, Function.update holds t (.parking version b.condvars) t' = .notifying condvar →
      holds t' = .notifying condvar := by
    intro t' condvar ht'
    by_cases ht : t' = t
    · rw [ht, Function.update_self] at ht'
      cases ht'
    · rwa [Function.update_of_ne ht] at ht'
  refine ⟨?_, ?_, ?_, ?_, ?_, ?_⟩
  · intro i j condvar hi hj
    rcases hcases i condvar hi with ⟨rfl, hcv⟩ | hi
    · rcases hcases j condvar hj with ⟨rfl, -⟩ | hj
      · rfl
      · exact absurd hcv (h.fresh j condvar hj).ne
    · rcases hcases j condvar hj with ⟨rfl, hcv⟩ | hj
      · exact absurd hcv (h.fresh i condvar hi).ne
      · exact h.distinct i j condvar hi hj
  · intro i condvar hi
    rcases hcases i condvar hi with ⟨-, hcv⟩ | hi
    · exact hcv ▸ Nat.lt_succ_self _
    · exact (h.fresh i condvar hi).trans (Nat.lt_succ_self _)
  · intro condvar hcv
    exact (h.freshResolved condvar hcv).trans (Nat.lt_succ_self _)
  · intro t' condvar ht'
    exact (h.freshNotifying t' condvar (hnotifying t' condvar ht')).trans (Nat.lt_succ_self _)
  · intro i condvar hcv hi
    rcases hcases i condvar hi with ⟨-, heq⟩ | hi
    · exact absurd heq (h.freshResolved condvar hcv).ne
    · exact h.spentResolved i condvar hcv hi
  · intro t' i condvar ht' hi
    rcases hcases i condvar hi with ⟨-, heq⟩ | hi
    · exact absurd heq (h.freshNotifying t' condvar (hnotifying t' condvar ht')).ne
    · exact h.spentNotifying t' i condvar (hnotifying t' condvar ht') hi

theorem Condvars.next (h : Condvars b holds) (hstep : Transfer b (holds t) b' p) :
    Condvars b' (Function.update holds t p) := by
  generalize hhold : holds t = hold at hstep
  cases hstep with
  | keep =>
      rw [← hhold, Function.update_eq_self]
      exact h
  | suspend => exact h.suspend _
  | @wakeUp i incarnation condvar ready =>
      refine h.shrink rfl (fun j cv => condvar_of_update_none rfl) (fun cv hcv => Or.inl hcv) fun cv hp => ?_
      obtain rfl := Hold.notifying.inj hp
      exact ⟨i, by rw [ready]; rfl, by dsimp only; rw [Function.update_self]; rfl⟩
  | @notify condvar =>
      refine h.shrink rfl (fun j cv hcv => hcv) (fun cv hcv => ?_) nofun
      by_cases heq : cv = condvar
      · exact Or.inr (heq ▸ hhold)
      · dsimp only at hcv
        rw [Function.update_of_ne heq] at hcv
        exact Or.inl hcv
  | resume suspended =>
      refine h.shrink rfl (fun j cv => condvar_of_update fun cv hcv => ?_) (fun cv hcv => Or.inl hcv) nofun
      rw [suspended]
      exact hcv
  | incarnate => exact h.shrink rfl (fun j cv => condvar_of_update_none rfl) (fun cv hcv => Or.inl hcv) nofun
  | execute => exact h.shrink rfl (fun j cv => condvar_of_update_none rfl) (fun cv hcv => Or.inl hcv) nofun
  | abort => exact h.shrink rfl (fun j cv => condvar_of_update_none rfl) (fun cv hcv => Or.inl hcv) nofun
  | release => exact h.shrink rfl (fun j cv => condvar_of_update_none rfl) (fun cv hcv => Or.inl hcv) nofun
  | push => exact h.shrink rfl (fun j cv hcv => hcv) (fun cv hcv => Or.inl hcv) nofun
  | wake => exact h.shrink rfl (fun j cv hcv => hcv) (fun cv hcv => Or.inl hcv) nofun
  | take => exact h.shrink rfl (fun j cv hcv => hcv) (fun cv hcv => Or.inl hcv) nofun
  | finish => exact h.shrink rfl (fun j cv hcv => hcv) (fun cv hcv => Or.inl hcv) nofun

/-- A step after which the waiting threads and the transactions that run are those before it. -/
theorem Noticed.same (h : Noticed b holds)
    (hwaiting : ∀ version condvar, p = .waiting version condvar → b'.status version.1 ≠ .executing version.2)
    (hstatus : ∀ t' ≠ t, ∀ version condvar, holds t' = .waiting version condvar →
      b'.status version.1 = .executing version.2 → b.status version.1 = .executing version.2)
    (hresolved : ∀ condvar, b.resolved condvar = true → b'.resolved condvar = true)
    (hnotifying : ∀ condvar, holds t = .notifying condvar → b'.resolved condvar = true) :
    Noticed b' (Function.update holds t p) := by
  intro t' version condvar ht' hexecuting
  by_cases ht : t' = t
  · rw [ht, Function.update_self] at ht'
    exact absurd hexecuting (hwaiting version condvar ht')
  · rw [Function.update_of_ne ht] at ht'
    rcases h t' version condvar ht' (hstatus t' ht version condvar ht' hexecuting) with hcv | ⟨t₁, ht₁⟩
    · exact Or.inl (hresolved condvar hcv)
    · by_cases htt : t₁ = t
      · exact Or.inl (hnotifying condvar (htt ▸ ht₁))
      · exact Or.inr ⟨t₁, by rw [Function.update_of_ne htt]; exact ht₁⟩

/-- A thread that wakes up another one notifies it. -/
theorem Noticed.wakeUp (h : Noticed b holds) (howned : Owned b holds) {incarnation : Incarnation}
    {condvar : DependencyCondvar} (hhold : holds t = .nothing)
    (hready : b.status i = .readyToExecute incarnation (some condvar)) :
    Noticed { b with status := Function.update b.status i (.executing incarnation) }
      (Function.update holds t (.notifying condvar)) := by
  intro t' version condvar' ht' hexecuting
  have ht : t' ≠ t := by
    intro ht
    rw [ht, Function.update_self] at ht'
    cases ht'
  rw [Function.update_of_ne ht] at ht'
  by_cases hi : version.1 = i
  · have hfits := howned.fits t' version.1 (by rw [ht']; rfl)
    rw [ht', hi, hready] at hfits
    have hcv : incarnation = version.2 ∧ condvar = condvar' := by simpa [Hold.Fits] using hfits
    exact Or.inr ⟨t, by rw [Function.update_self, hcv.2]⟩
  · dsimp only at hexecuting
    rw [Function.update_of_ne hi] at hexecuting
    rcases h t' version condvar' ht' hexecuting with hcv | ⟨t₁, ht₁⟩
    · exact Or.inl hcv
    · refine Or.inr ⟨t₁, ?_⟩
      have htt : t₁ ≠ t := by
        intro htt
        rw [htt, hhold] at ht₁
        cases ht₁
      rw [Function.update_of_ne htt]
      exact ht₁

omit [DecidableEq Thread] in
/-- A status that is changed does not make a waiting transaction run. -/
theorem executing_of_update (howned : Owned b holds) {new : TransactionStatus} {t' : Thread} {version : Version}
    {condvar : DependencyCondvar} (ht' : holds t' = .waiting version condvar)
    (hnew : version.1 = i → ∀ incarnation, new = .executing incarnation → (b.status i).Free)
    (h : Function.update b.status i new version.1 = .executing version.2) :
    b.status version.1 = .executing version.2 := by
  by_cases hi : version.1 = i
  · rw [hi, Function.update_self] at h
    exact absurd (by rw [ht', ← hi]; rfl) (howned.unowned (hnew hi _ h) t')
  · rwa [Function.update_of_ne hi] at h

theorem Noticed.next (h : Noticed b holds) (howned : Owned b holds) (hstep : Transfer b (holds t) b' p) :
    Noticed b' (Function.update holds t p) := by
  generalize hhold : holds t = hold at hstep
  have hnot : (∀ condvar, hold ≠ .notifying condvar) → ∀ condvar, holds t = .notifying condvar →
      b'.resolved condvar = true := by
    intro hne condvar heq
    exact absurd (hhold.symm.trans heq) (hne condvar)
  cases hstep with
  | keep =>
      rw [← hhold, Function.update_eq_self]
      exact h
  | incarnate ready =>
      refine h.same nofun (fun t' _ version condvar ht' => executing_of_update howned ht' fun _ _ _ => ?_)
        (fun _ hcv => hcv) (hnot nofun)
      rw [ready]
      trivial
  | wakeUp ready => exact h.wakeUp howned hhold ready
  | @notify condvar =>
      refine h.same nofun (fun _ _ _ _ _ hexecuting => hexecuting) (fun cv hcv => ?_) (fun cv hcv => ?_)
      · dsimp only
        by_cases heq : cv = condvar
        · rw [heq, Function.update_self]
        · rwa [Function.update_of_ne heq]
      · obtain rfl := Hold.notifying.inj (hhold.symm.trans hcv)
        exact Function.update_self ..
  | suspend =>
      exact h.same nofun (fun t' _ version condvar ht' => executing_of_update howned ht' nofun) (fun _ hcv => hcv)
        (hnot nofun)
  | @push version condvar j =>
      refine h.same (fun version' condvar' hp => ?_) (fun _ _ _ _ _ hexecuting => hexecuting) (fun _ hcv => hcv)
        (hnot nofun)
      obtain ⟨rfl, -⟩ := Hold.waiting.inj hp
      have hfits := howned.fits t version.1 (by rw [hhold]; rfl)
      rw [hhold] at hfits
      intro hexecuting
      cases hexecuting.symm.trans hfits
  | wake => exact h.same nofun (fun _ _ _ _ _ hexecuting => hexecuting) (fun _ hcv => hcv) (hnot nofun)
  | execute =>
      exact h.same nofun (fun t' _ version condvar ht' => executing_of_update howned ht' nofun) (fun _ hcv => hcv)
        (hnot nofun)
  | take => exact h.same nofun (fun _ _ _ _ _ hexecuting => hexecuting) (fun _ hcv => hcv) (hnot nofun)
  | resume =>
      exact h.same nofun (fun t' _ version condvar ht' => executing_of_update howned ht' nofun) (fun _ hcv => hcv)
        (hnot nofun)
  | finish => exact h.same nofun (fun _ _ _ _ _ hexecuting => hexecuting) (fun _ hcv => hcv) (hnot nofun)
  | abort =>
      exact h.same nofun (fun t' _ version condvar ht' => executing_of_update howned ht' nofun) (fun _ hcv => hcv)
        (hnot nofun)
  | release =>
      exact h.same nofun (fun t' _ version condvar ht' => executing_of_update howned ht' nofun) (fun _ hcv => hcv)
        (hnot nofun)

/-! ### Suspended transactions -/

theorem carried_update (hcarried : p.carried = (holds t).carried) (t' : Thread) :
    (Function.update holds t p t').carried = (holds t').carried := by
  by_cases ht : t' = t
  · rw [ht, Function.update_self, hcarried]
  · rw [Function.update_of_ne ht]

/-- A thread that parks a transaction goes on doing so when another thread takes a step. -/
theorem parking_update {version : Version} {condvar : DependencyCondvar}
    (hbefore : ∀ version condvar, holds t ≠ .parking version condvar) {t' : Thread}
    (h : holds t' = .parking version condvar) : Function.update holds t p t' = .parking version condvar := by
  have ht : t' ≠ t := fun ht => hbefore _ _ (ht ▸ h)
  rw [Function.update_of_ne ht]
  exact h

theorem parking_of_update {version : Version} {condvar : DependencyCondvar}
    (hafter : ∀ version condvar, p ≠ .parking version condvar) {t' : Thread}
    (h : Function.update holds t p t' = .parking version condvar) :
    t' ≠ t ∧ holds t' = .parking version condvar := by
  have ht : t' ≠ t := by
    rintro rfl
    rw [Function.update_self] at h
    exact hafter _ _ h
  rw [Function.update_of_ne ht] at h
  exact ⟨ht, h⟩

/-- A step that neither suspends nor resumes, and moves no record. -/
theorem Placed.same (h : Placed b holds place) (hdependency : b'.dependency = b.dependency)
    (hstatus : ∀ d incarnation condvar,
      b'.status d = .suspended incarnation condvar ↔ b.status d = .suspended incarnation condvar)
    (hcarried : p.carried = (holds t).carried) (hbefore : ∀ version condvar, holds t ≠ .parking version condvar)
    (hafter : ∀ version condvar, p ≠ .parking version condvar) : Placed b' (Function.update holds t p) place := by
  have hsame := carried_update hcarried
  refine ⟨?_, ?_, ?_, ?_, ?_, ?_, ?_⟩
  · intro d j
    rw [hdependency]
    exact h.listed d j
  · intro d t'
    rw [hsame t']
    exact h.carried d t'
  · intro j
    rw [hdependency]
    exact h.nodupListed j
  · intro t'
    rw [hsame t']
    exact h.nodupCarried t'
  · intro d hd
    obtain ⟨incarnation, condvar, hsuspended⟩ := h.suspended d hd
    exact ⟨incarnation, condvar, (hstatus d incarnation condvar).mpr hsuspended⟩
  · intro d incarnation condvar hd
    rcases h.recorded d incarnation condvar ((hstatus d incarnation condvar).mp hd) with hplace | ⟨t', ht'⟩
    · exact Or.inl hplace
    · exact Or.inr ⟨t', parking_update hbefore ht'⟩
  · intro t' version condvar ht'
    exact h.unrecorded t' version condvar (parking_of_update hafter ht').2

/-- A status that is changed, and is not a suspension before or after. -/
theorem suspended_update_iff {status : TxnIndex → TransactionStatus} {new : TransactionStatus}
    (hbefore : ∀ incarnation condvar, status i ≠ .suspended incarnation condvar)
    (hafter : ∀ incarnation condvar, new ≠ .suspended incarnation condvar) (d : TxnIndex) (incarnation : Incarnation)
    (condvar : DependencyCondvar) :
    Function.update status i new d = .suspended incarnation condvar ↔ status d = .suspended incarnation condvar := by
  by_cases hd : d = i
  · rw [hd, Function.update_self]
    exact iff_of_false (hafter incarnation condvar) (hbefore incarnation condvar)
  · rw [Function.update_of_ne hd]

theorem Placed.suspend (h : Placed b holds place) {version : Version} (hhold : holds t = .running version)
    (hexecuting : b.status version.1 = .executing version.2) :
    Placed
      { b with
        status := Function.update b.status version.1 (.suspended version.2 b.condvars)
        condvars := b.condvars + 1 }
      (Function.update holds t (.parking version b.condvars)) place := by
  have hnone : place version.1 = none := by
    by_contra hplace
    obtain ⟨incarnation, condvar, hsuspended⟩ := h.suspended version.1 hplace
    rw [hexecuting] at hsuspended
    cases hsuspended
  have hbefore : ∀ version condvar, holds t ≠ .parking version condvar := by simp [hhold]
  have hsame : ∀ t', (Function.update holds t (.parking version b.condvars) t').carried = (holds t').carried := by
    apply carried_update
    rw [hhold]
    rfl
  refine ⟨h.listed, ?_, h.nodupListed, ?_, ?_, ?_, ?_⟩
  · intro d t'
    rw [hsame t']
    exact h.carried d t'
  · intro t'
    rw [hsame t']
    exact h.nodupCarried t'
  · intro d hd
    have hne : d ≠ version.1 := fun heq => hd (heq ▸ hnone)
    dsimp only
    rw [Function.update_of_ne hne]
    exact h.suspended d hd
  · intro d incarnation condvar hd
    dsimp only at hd
    by_cases hdi : d = version.1
    · rw [hdi, Function.update_self] at hd
      obtain ⟨rfl, rfl⟩ := TransactionStatus.suspended.inj hd
      exact Or.inr ⟨t, by rw [Function.update_self, hdi]⟩
    · rw [Function.update_of_ne hdi] at hd
      rcases h.recorded d incarnation condvar hd with hplace | ⟨t', ht'⟩
      · exact Or.inl hplace
      · exact Or.inr ⟨t', parking_update hbefore ht'⟩
  · intro t' version' condvar ht'
    by_cases ht : t' = t
    · rw [ht, Function.update_self] at ht'
      obtain ⟨rfl, -⟩ := Hold.parking.inj ht'
      exact hnone
    · rw [Function.update_of_ne ht] at ht'
      exact h.unrecorded t' version' condvar ht'

/-- The suspended transaction is put into the list. -/
theorem Placed.push (h : Placed b holds place) (howned : Owned b holds) {version : Version}
    {condvar : DependencyCondvar} {j : TxnIndex} (hhold : holds t = .parking version condvar) :
    Placed { b with dependency := Function.update b.dependency j (b.dependency j ++ [version.1]) }
      (Function.update holds t (.waiting version condvar)) (Function.update place version.1 (some (.inl j))) := by
  have hnone := h.unrecorded t version condvar hhold
  have hnotListed : ∀ j, version.1 ∉ b.dependency j := by
    intro j hmem
    rw [h.listed, hnone] at hmem
    cases hmem
  have hnotCarried : ∀ t', version.1 ∉ (holds t').carried := by
    intro t' hmem
    rw [h.carried, hnone] at hmem
    cases hmem
  have hsame : ∀ t', (Function.update holds t (.waiting version condvar) t').carried = (holds t').carried := by
    apply carried_update
    rw [hhold]
    rfl
  refine ⟨?_, ?_, ?_, ?_, ?_, ?_, ?_⟩
  · intro d k
    dsimp only
    by_cases hd : d = version.1
    · rw [hd, Function.update_self]
      by_cases hk : k = j
      · rw [hk, Function.update_self]
        simp
      · rw [Function.update_of_ne hk]
        exact iff_of_false (hnotListed k) fun heq => hk (Sum.inl.inj (Option.some.inj heq)).symm
    · rw [Function.update_of_ne hd, ← h.listed]
      by_cases hk : k = j
      · rw [hk, Function.update_self]
        simp [hd]
      · rw [Function.update_of_ne hk]
  · intro d t'
    rw [hsame t']
    by_cases hd : d = version.1
    · rw [hd, Function.update_self]
      exact iff_of_false (hnotCarried t') nofun
    · rw [Function.update_of_ne hd]
      exact h.carried d t'
  · intro k
    dsimp only
    by_cases hk : k = j
    · rw [hk, Function.update_self]
      apply List.Nodup.append (h.nodupListed j) (List.nodup_singleton _)
      intro d hmem hd
      rw [List.mem_singleton.mp hd] at hmem
      exact hnotListed j hmem
    · rw [Function.update_of_ne hk]
      exact h.nodupListed k
  · intro t'
    rw [hsame t']
    exact h.nodupCarried t'
  · intro d hd
    by_cases hdi : d = version.1
    · have hfits := howned.fits t version.1 (by rw [hhold]; rfl)
      rw [hhold] at hfits
      exact ⟨version.2, condvar, by rw [hdi]; exact hfits⟩
    · rw [Function.update_of_ne hdi] at hd
      exact h.suspended d hd
  · intro d incarnation condvar' hd
    by_cases hdi : d = version.1
    · exact Or.inl (by rw [hdi, Function.update_self]; exact nofun)
    · rw [Function.update_of_ne hdi]
      rcases h.recorded d incarnation condvar' hd with hplace | ⟨t', ht'⟩
      · exact Or.inl hplace
      · refine Or.inr ⟨t', ?_⟩
        have ht : t' ≠ t := by
          intro ht
          rw [ht, hhold] at ht'
          exact hdi (congrArg Prod.fst (Hold.parking.inj ht').1).symm
        rw [Function.update_of_ne ht]
        exact ht'
  · intro t' version' condvar' ht'
    obtain ⟨ht, ht'⟩ := parking_of_update (by simp) ht'
    have hne : version'.1 ≠ version.1 := by
      intro heq
      refine howned.others (t := t) (i := version.1) (by rw [hhold]; rfl) ht ?_
      rw [ht', ← heq]
      rfl
    rw [Function.update_of_ne hne]
    exact h.unrecorded t' version' condvar' ht'

/-- The list is taken. -/
theorem Placed.take (h : Placed b holds place) {j : TxnIndex} (hhold : holds t = .nothing) :
    ∃ place', Placed { b with dependency := Function.update b.dependency j [] }
      (Function.update holds t (.carrying (b.dependency j))) place' := by
  refine ⟨fun d => if place d = some (.inl j) then some (.inr t) else place d, ?_, ?_, ?_, ?_, ?_, ?_, ?_⟩
  · intro d k
    dsimp only
    by_cases hk : k = j
    · rw [hk, Function.update_self]
      split
      · simp
      · next hne => exact iff_of_false List.not_mem_nil hne
    · rw [Function.update_of_ne hk, h.listed]
      split
      · next heq =>
          rw [heq]
          exact iff_of_false (fun h => hk (Sum.inl.inj (Option.some.inj h)).symm) nofun
      · rfl
  · intro d t'
    by_cases ht : t' = t
    · rw [ht, Function.update_self, Hold.carried, h.listed]
      split
      · next heq => exact iff_of_true heq rfl
      · next hne =>
          refine iff_of_false hne fun heq => ?_
          have hmem := (h.carried d t).mpr heq
          rw [hhold] at hmem
          cases hmem
    · rw [Function.update_of_ne ht, h.carried]
      split
      · next heq =>
          rw [heq]
          exact iff_of_false nofun fun h => ht (Sum.inr.inj (Option.some.inj h)).symm
      · rfl
  · intro k
    dsimp only
    by_cases hk : k = j
    · rw [hk, Function.update_self]
      exact List.nodup_nil
    · rw [Function.update_of_ne hk]
      exact h.nodupListed k
  · intro t'
    by_cases ht : t' = t
    · rw [ht, Function.update_self]
      exact h.nodupListed j
    · rw [Function.update_of_ne ht]
      exact h.nodupCarried t'
  · intro d hd
    apply h.suspended d
    intro hnone
    simp [hnone] at hd
  · intro d incarnation condvar hd
    rcases h.recorded d incarnation condvar hd with hplace | ⟨t', ht'⟩
    · refine Or.inl ?_
      split
      · exact nofun
      · exact hplace
    · exact Or.inr ⟨t', parking_update (by simp [hhold]) ht'⟩
  · intro t' version condvar ht'
    obtain ⟨-, ht'⟩ := parking_of_update (by simp) ht'
    simp [h.unrecorded t' version condvar ht']

/-- The first of the carried transactions is resumed. -/
theorem Placed.resume (h : Placed b holds place) {d : TxnIndex} {txnDeps : List TxnIndex} {new : TransactionStatus}
    (hhold : holds t = .carrying (d :: txnDeps)) (hnew : ∀ incarnation condvar, new ≠ .suspended incarnation condvar) :
    Placed { b with status := Function.update b.status d new } (Function.update holds t (.carrying txnDeps))
      (Function.update place d none) := by
  have hmem : d ∈ (holds t).carried := by
    rw [hhold]
    exact List.mem_cons_self
  have hplace := (h.carried d t).mp hmem
  have hnodup := h.nodupCarried t
  rw [hhold] at hnodup
  refine ⟨?_, ?_, h.nodupListed, ?_, ?_, ?_, ?_⟩
  · intro e k
    by_cases he : e = d
    · rw [he, Function.update_self]
      refine iff_of_false (fun hlisted => ?_) nofun
      rw [h.listed, hplace] at hlisted
      cases hlisted
    · rw [Function.update_of_ne he]
      exact h.listed e k
  · intro e t'
    by_cases he : e = d
    · rw [he, Function.update_self]
      refine iff_of_false (fun hcarried => ?_) nofun
      by_cases ht : t' = t
      · rw [ht, Function.update_self] at hcarried
        exact (List.nodup_cons.mp hnodup).1 hcarried
      · rw [Function.update_of_ne ht, h.carried, hplace] at hcarried
        exact ht (Sum.inr.inj (Option.some.inj hcarried)).symm
    · rw [Function.update_of_ne he, ← h.carried]
      by_cases ht : t' = t
      · rw [ht, Function.update_self, hhold]
        simp [Hold.carried, he]
      · rw [Function.update_of_ne ht]
  · intro t'
    by_cases ht : t' = t
    · rw [ht, Function.update_self]
      exact (List.nodup_cons.mp hnodup).2
    · rw [Function.update_of_ne ht]
      exact h.nodupCarried t'
  · intro e he
    have hne : e ≠ d := fun heq => he (by rw [heq, Function.update_self])
    rw [Function.update_of_ne hne] at he
    dsimp only
    rw [Function.update_of_ne hne]
    exact h.suspended e he
  · intro e incarnation condvar he
    dsimp only at he
    by_cases hed : e = d
    · rw [hed, Function.update_self] at he
      exact absurd he (hnew incarnation condvar)
    · rw [Function.update_of_ne hed] at he ⊢
      rcases h.recorded e incarnation condvar he with hrecorded | ⟨t', ht'⟩
      · exact Or.inl hrecorded
      · exact Or.inr ⟨t', parking_update (by simp [hhold]) ht'⟩
  · intro t' version condvar ht'
    obtain ⟨-, ht'⟩ := parking_of_update (by simp) ht'
    by_cases heq : version.1 = d
    · rw [heq, Function.update_self]
    · rw [Function.update_of_ne heq]
      exact h.unrecorded t' version condvar ht'

/-- **No dependency is lost.** Every step keeps the record of the suspended transactions. -/
theorem Placed.next (h : Placed b holds place) (howned : Owned b holds) (hstep : Transfer b (holds t) b' p) :
    ∃ place', Placed b' (Function.update holds t p) place' := by
  generalize hhold : holds t = hold at hstep
  have hcarried : (holds t).carried = hold.carried := congrArg Hold.carried hhold
  have hfits : ∀ i, hold.owned = some i → hold.Fits (b.status i) := by
    intro i hi
    have hfits := howned.fits t i (hhold ▸ hi)
    rwa [hhold] at hfits
  have hbefore : (∀ version condvar, hold ≠ .parking version condvar) →
      ∀ version condvar, holds t ≠ .parking version condvar := by
    intro hne version condvar heq
    exact hne version condvar (hhold.symm.trans heq)
  cases hstep with
  | keep =>
      rw [← hhold, Function.update_eq_self]
      exact ⟨place, h⟩
  | incarnate ready =>
      refine ⟨place, h.same rfl (suspended_update_iff ?_ nofun) hcarried.symm (hbefore nofun) nofun⟩
      rw [ready]
      exact nofun
  | wakeUp ready =>
      refine ⟨place, h.same rfl (suspended_update_iff ?_ nofun) hcarried.symm (hbefore nofun) nofun⟩
      rw [ready]
      exact nofun
  | notify => exact ⟨place, h.same rfl (fun _ _ _ => Iff.rfl) hcarried.symm (hbefore nofun) nofun⟩
  | suspend => exact ⟨place, h.suspend hhold (hfits _ rfl)⟩
  | push => exact ⟨_, h.push howned hhold⟩
  | wake => exact ⟨place, h.same rfl (fun _ _ _ => Iff.rfl) hcarried.symm (hbefore nofun) nofun⟩
  | @execute version =>
      have hexecuting : b.status version.1 = .executing version.2 := hfits _ rfl
      refine ⟨place, h.same rfl (suspended_update_iff ?_ nofun) hcarried.symm (hbefore nofun) nofun⟩
      rw [hexecuting]
      exact nofun
  | take => exact h.take hhold
  | resume => exact ⟨_, h.resume hhold nofun⟩
  | finish => exact ⟨place, h.same rfl (fun _ _ _ => Iff.rfl) hcarried.symm (hbefore nofun) nofun⟩
  | abort executed =>
      refine ⟨place, h.same rfl (suspended_update_iff ?_ nofun) hcarried.symm (hbefore nofun) nofun⟩
      rw [executed]
      exact nofun
  | @release version =>
      have haborting : b.status version.1 = .aborting version.2 := hfits _ rfl
      refine ⟨place, h.same rfl (suspended_update_iff ?_ nofun) hcarried.symm (hbefore nofun) nofun⟩
      rw [haborting]
      exact nofun

/-- What holds between the board and the threads in every reachable state. -/
structure Protocol (b : Board) (holds : Thread → Hold) : Prop where
  owned : Owned b holds
  condvars : Condvars b holds
  noticed : Noticed b holds
  placed : ∃ place, Placed b holds place

theorem Protocol.next (h : Protocol b holds) (hstep : Transfer b (holds t) b' p) :
    Protocol b' (Function.update holds t p) := by
  obtain ⟨place, hplaced⟩ := h.placed
  exact ⟨h.owned.next hplaced h.condvars hstep, h.condvars.next hstep, h.noticed.next h.owned hstep,
    hplaced.next h.owned hstep⟩

omit [DecidableEq Thread] in
/-- At the start nothing is held. -/
theorem Protocol.start (hstatus : ∀ i, b.status i = .readyToExecute 0 none) (hdependency : ∀ i, b.dependency i = [])
    (hresolved : ∀ condvar, b.resolved condvar = false) (hholds : ∀ t, holds t = .nothing) : Protocol b holds := by
  refine ⟨⟨?_, ?_, ?_⟩, ⟨?_, ?_, ?_, ?_, ?_, ?_⟩, ?_, fun _ => none, ?_, ?_, ?_, ?_, ?_, ?_, ?_⟩
  · intro t t' r ht
    rw [hholds] at ht
    cases ht
  · intro t i ht
    rw [hholds] at ht
    cases ht
  · intro i hnot
    rw [hstatus] at hnot
    exact absurd trivial hnot
  · intro i j condvar hi
    rw [hstatus] at hi
    cases hi
  · intro i condvar hi
    rw [hstatus] at hi
    cases hi
  · intro condvar hcv
    rw [hresolved] at hcv
    cases hcv
  · intro t condvar ht
    rw [hholds] at ht
    cases ht
  · intro i condvar hcv
    rw [hresolved] at hcv
    cases hcv
  · intro t i condvar ht
    rw [hholds] at ht
    cases ht
  · intro t version condvar ht
    rw [hholds] at ht
    cases ht
  · intro d j
    simp [hdependency]
  · intro d t
    simp [hholds, Hold.carried]
  · intro j
    rw [hdependency]
    exact List.nodup_nil
  · intro t
    rw [hholds]
    exact List.nodup_nil
  · intro d hd
    exact absurd rfl hd
  · intro d incarnation condvar hd
    rw [hstatus] at hd
    cases hd
  · intro t version condvar ht
    rfl

end Ownership

end MoveTutorial.Executor
