import Mathlib

/-! Threads over a shared state. Every thread is somewhere in its program, and one thread at a time takes one
step, which changes what is shared and where this thread is. The rules below carry a property from one
step of one thread to all states that any interleaving reaches. -/

namespace MoveTutorial.Interleaving

variable {Thread Shared Local Label Resource : Type} [DecidableEq Thread]

/-- What the threads share, and where each of them is. -/
structure Config (Thread Shared Local : Type) where
  shared : Shared
  pc : Thread → Local

/-- The thread takes a step. -/
inductive Next (step : Shared → Local → Label → Shared → Local → Prop) (t : Thread) (a : Label) :
    Config Thread Shared Local → Config Thread Shared Local → Prop
  | step {shared shared' : Shared} {pc : Thread → Local} {p : Local} (h : step shared (pc t) a shared' p) :
      Next step t a ⟨shared, pc⟩ ⟨shared', Function.update pc t p⟩

/-- An interleaving of the threads, with the labels of the steps in their order. -/
inductive Run (step : Shared → Local → Label → Shared → Local → Prop) (start : Config Thread Shared Local) :
    List (Thread × Label) → Config Thread Shared Local → Prop
  | start : Run step start [] start
  | next {trace : List (Thread × Label)} {c c' : Config Thread Shared Local} {t : Thread} {a : Label}
      (run : Run step start trace c) (h : Next step t a c c') : Run step start (trace ++ [(t, a)]) c'

variable {step : Shared → Local → Label → Shared → Local → Prop} {start c c' : Config Thread Shared Local}
  {Inv Inv' : Config Thread Shared Local → Prop} {pc : Thread → Local} {t : Thread} {a : Label} {p : Local}

/-- The step of a single thread. -/
theorem Next.alone {shared shared' : Shared} {q : Local} (h : step shared p a shared' q) :
    Next step () a ⟨shared, fun _ => p⟩ ⟨shared', fun _ => q⟩ := by
  have hnext : Next step () a ⟨shared, fun _ : Unit => p⟩ ⟨shared', Function.update (fun _ => p) () q⟩ := .step h
  rwa [show Function.update (fun _ : Unit => p) () q = fun _ => q from funext fun _ => Function.update_self ..]
    at hnext

theorem Next.moved (h : Next step t a c c') : step c.shared (c.pc t) a c'.shared (c'.pc t) := by
  obtain ⟨hstep⟩ := h
  dsimp only
  rwa [Function.update_self]

/-- The other threads stay where they are. -/
theorem Next.others (h : Next step t a c c') {t' : Thread} (hne : t' ≠ t) : c'.pc t' = c.pc t' := by
  obtain ⟨hstep⟩ := h
  exact Function.update_of_ne hne _ _

theorem Next.pc_eq (h : Next step t a c c') : c'.pc = Function.update c.pc t (c'.pc t) := by
  obtain ⟨hstep⟩ := h
  dsimp only
  rw [Function.update_self]

/-- What a thread stands for is still stood for, unless it was this thread. -/
theorem Next.exists_pc {P : Local → Prop} (h : Next step t a c c') (hex : ∃ t', P (c.pc t')) :
    P (c.pc t) ∨ ∃ t', P (c'.pc t') := by
  obtain ⟨t', ht'⟩ := hex
  by_cases hne : t' = t
  · exact Or.inl (hne ▸ ht')
  · exact Or.inr ⟨t', by rw [h.others hne]; exact ht'⟩

theorem Next.exists_pc_iff {P : Local → Prop} (h : Next step t a c c') (ht : P (c'.pc t) ↔ P (c.pc t)) :
    (∃ t', P (c'.pc t')) ↔ ∃ t', P (c.pc t') := by
  refine exists_congr fun t' => ?_
  by_cases hne : t' = t
  · rw [hne]
    exact ht
  · rw [h.others hne]

/-- What holds of every thread holds after the step if it holds of this thread. -/
theorem Next.forall_pc {P : Local → Prop} (h : Next step t a c c') (hall : ∀ t', P (c.pc t')) (ht : P (c'.pc t)) :
    ∀ t', P (c'.pc t') := by
  intro t'
  by_cases hne : t' = t
  · rw [hne]
    exact ht
  · rw [h.others hne]
    exact hall t'

/-- The configurations that interleavings of the threads reach. -/
def Reachable (step : Shared → Local → Label → Shared → Local → Prop) (start c : Config Thread Shared Local) : Prop :=
  ∃ trace, Run step start trace c

theorem Reachable.refl : Reachable step start start := ⟨[], .start⟩

theorem Reachable.next (h : Reachable step start c) (hnext : Next step t a c c') : Reachable step start c' := by
  obtain ⟨trace, hrun⟩ := h
  exact ⟨_, hrun.next hnext⟩

/-- An invariant holds at the start and is kept by every step. Invariants that are known already may be used. -/
theorem Reachable.invariant (h : Reachable step start c) (hstart : Inv start)
    (hnext : ∀ {c c' t a}, Reachable step start c → Inv c → Next step t a c c' → Inv c') : Inv c := by
  obtain ⟨trace, hrun⟩ := h
  induction hrun with
  | start => exact hstart
  | next hprev hlast ih => exact hnext ⟨_, hprev⟩ ih hlast

/-! ### The past -/

section Past

variable {Past Now : Config Thread Shared Local → Prop}

/-- Some configuration on the way had the property. -/
def Once (step : Shared → Local → Label → Shared → Local → Prop) (start : Config Thread Shared Local)
    (Past : Config Thread Shared Local → Prop) (c : Config Thread Shared Local) : Prop :=
  ∃ before, Reachable step start before ∧ Past before ∧ Reachable step before c

theorem Once.now (h : Reachable step start c) (hpast : Past c) : Once step start Past c := ⟨c, h, hpast, .refl⟩

theorem Once.next (h : Once step start Past c) (hnext : Next step t a c c') : Once step start Past c' := by
  obtain ⟨before, hbefore, hpast, hreach⟩ := h
  exact ⟨before, hbefore, hpast, hreach.next hnext⟩

/-- What followed from the property at the time, and is kept by every step, is true now. -/
theorem Once.carry (h : Once step start Past c) (hthen : ∀ {c}, Reachable step start c → Past c → Now c)
    (hnext : ∀ {c c' t a}, Now c → Next step t a c c' → Now c') : Now c := by
  obtain ⟨before, hbefore, hpast, hreach⟩ := h
  apply Reachable.invariant hreach (hthen hbefore hpast)
  intro c c' t a _ hnow hstep
  exact hnext hnow hstep

end Past

/-! ### Simulation -/

section Simulation

variable {Shared' Local' : Type} {step' : Shared' → Local' → Label → Shared' → Local' → Prop}

/-- What is seen of a configuration. -/
def Config.map (f : Shared → Shared') (g : Local → Local') (c : Config Thread Shared Local) :
    Config Thread Shared' Local' where
  shared := f c.shared
  pc t := g (c.pc t)

/-- If every step is a step of what is seen, or is not seen at all, then what is seen of a reachable
configuration is reachable. -/
theorem Reachable.map {f : Shared → Shared'} {g : Local → Local'} (h : Reachable step start c)
    (hstep : ∀ {s s' : Shared} {p p' : Local} {a : Label}, step s p a s' p' →
      step' (f s) (g p) a (f s') (g p') ∨ f s' = f s ∧ g p' = g p) :
    Reachable step' (start.map f g) (c.map f g) := by
  obtain ⟨trace, hrun⟩ := h
  induction hrun with
  | start => exact .refl
  | @next trace c c' t a hprev hnext ih =>
      have hmap : c'.map f g = ⟨f c'.shared, Function.update (c.map f g).pc t (g (c'.pc t))⟩ := by
        unfold Config.map
        congr 1
        funext t'
        rw [congrFun hnext.pc_eq t']
        exact Function.apply_update (fun _ => g) c.pc t (c'.pc t) t'
      rw [hmap]
      rcases hstep hnext.moved with hseen | ⟨hshared, hlocal⟩
      · exact ih.next (.step hseen)
      · rw [hshared, hlocal]
        rwa [show Function.update (c.map f g).pc t (g (c.pc t)) = (c.map f g).pc from Function.update_eq_self ..]

end Simulation

/-! ### Sums over the threads -/

section Sums

variable [Fintype Thread]

/-- What a step adds to the amount of its thread is added to the sum. -/
theorem sum_update (amount : Local → ℕ) (pc : Thread → Local) (t : Thread) (p : Local) :
    ∑ t', amount (Function.update pc t p t') + amount (pc t) = ∑ t', amount (pc t') + amount p := by
  rw [← Finset.add_sum_erase _ _ (Finset.mem_univ t), ← Finset.add_sum_erase Finset.univ _ (Finset.mem_univ t),
    Function.update_self]
  have hrest : ∑ t' ∈ Finset.univ.erase t, amount (Function.update pc t p t') =
      ∑ t' ∈ Finset.univ.erase t, amount (pc t') := by
    apply Finset.sum_congr rfl
    intro t' ht'
    rw [Function.update_of_ne (Finset.ne_of_mem_erase ht')]
  rw [hrest]
  omega

end Sums

/-! ### Exclusive claims -/

/-- No two threads claim one resource. -/
def Exclusive (claim : Local → Option Resource) (pc : Thread → Local) : Prop :=
  ∀ t t' r, claim (pc t) = some r → claim (pc t') = some r → t = t'

/-- A step after which its thread claims nothing, or what it claimed, or what nobody else claims. -/
theorem Exclusive.update {claim : Local → Option Resource} (h : Exclusive claim pc)
    (hnew : ∀ r, claim p = some r → ∀ t' ≠ t, claim (pc t') ≠ some r) :
    Exclusive claim (Function.update pc t p) := by
  intro a b r ha hb
  by_cases hat : a = t
  · by_cases hbt : b = t
    · rw [hat, hbt]
    · rw [hat, Function.update_self] at ha
      rw [Function.update_of_ne hbt] at hb
      exact absurd hb (hnew r ha b hbt)
  · rw [Function.update_of_ne hat] at ha
    by_cases hbt : b = t
    · rw [hbt, Function.update_self] at hb
      exact absurd ha (hnew r hb a hat)
    · rw [Function.update_of_ne hbt] at hb
      exact h a b r ha hb

/-- A claim that is kept stays exclusive. -/
theorem Exclusive.keep {claim : Local → Option Resource} (h : Exclusive claim pc)
    (hkeep : ∀ r, claim p = some r → claim (pc t) = some r) : Exclusive claim (Function.update pc t p) := by
  apply h.update
  intro r hr t' hne ht'
  exact hne (h t' t r ht' (hkeep r hr))

end MoveTutorial.Interleaving
