import MoveTutorial.MoveExec

/-! Runs of a system of calls. A call that aborts reverts, so a run over any list of calls is
defined; what every successful call preserves holds in every state the run reaches, and two systems
whose calls agree one by one give the same answers for whole runs. -/

namespace MoveTutorial.Move

section Runs

variable {σ Call Out : Type} (exec : Call → σ → Exec (Out × σ))

/-- A function that returns nothing but the state after it, as a call. -/
def procedure (result : Exec σ) : Exec (Unit × σ) := do
  let s' ← result
  return ((), s')

/-- The state a call leaves behind. -/
def commit (s : σ) (call : Call) : σ :=
  match exec call s with
  | .ok (_, s') => s'
  | .error _ => s

/-- The state after a sequence of calls. -/
def run (s : σ) : List Call → σ
  | [] => s
  | call :: calls => run (commit exec s call) calls

/-- What the calls of a run answer, `none` for an abort. -/
def answers (s : σ) : List Call → List (Option Out)
  | [] => []
  | call :: calls => (exec call s).toOption.map Prod.fst :: answers (commit exec s call) calls

/-- Every call of the run is made in a state that admits it. -/
def Along (admits : σ → Call → Prop) (s : σ) : List Call → Prop
  | [] => True
  | call :: calls => admits s call ∧ Along admits (commit exec s call) calls

/-- The sum of a weight over the calls of a run that succeed. -/
def tally (weight : Call → ℕ) (s : σ) : List Call → ℕ
  | [] => 0
  | call :: calls =>
      (match exec call s with
        | .ok _ => weight call
        | .error _ => 0) + tally weight (commit exec s call) calls

variable {exec}

theorem procedure_eq_ok {result : Exec σ} {u : Unit} {s' : σ} :
    procedure result = .ok (u, s') ↔ result = .ok s' := by
  simp only [procedure, bind_eq_ok, pure_eq_ok, Prod.mk.injEq, true_and, exists_eq_right]

theorem commit_ok {s s' : σ} {call : Call} {out : Out} (h : exec call s = .ok (out, s')) :
    commit exec s call = s' := by
  rw [commit, h]

theorem commit_error {s : σ} {call : Call} {e : Abort} (h : exec call s = .error e) :
    commit exec s call = s := by
  rw [commit, h]

variable (exec) in
theorem commit_cases (s : σ) (call : Call) :
    (∃ out s', exec call s = .ok (out, s') ∧ commit exec s call = s') ∨ commit exec s call = s := by
  cases h : exec call s with
  | error e => exact Or.inr (commit_error h)
  | ok result => exact Or.inl ⟨result.1, result.2, rfl, commit_ok h⟩

theorem run_append (s : σ) (calls later : List Call) :
    run exec s (calls ++ later) = run exec (run exec s calls) later := by
  induction calls generalizing s with
  | nil => rfl
  | cons call calls ih => exact ih (commit exec s call)

theorem run_concat (s : σ) (calls : List Call) (call : Call) :
    run exec s (calls ++ [call]) = commit exec (run exec s calls) call := by
  rw [run_append]
  rfl

theorem along_append {admits : σ → Call → Prop} {s : σ} {calls later : List Call} :
    Along exec admits s (calls ++ later) ↔ Along exec admits s calls ∧ Along exec admits (run exec s calls) later := by
  induction calls generalizing s with
  | nil => simp [Along, run]
  | cons call calls ih => simp only [List.cons_append, Along, run, ih, and_assoc]

theorem along_true (s : σ) (calls : List Call) : Along exec (fun _ _ => True) s calls := by
  induction calls generalizing s with
  | nil => trivial
  | cons call calls ih => exact ⟨trivial, ih _⟩

/-- A condition on the calls alone does not depend on the run. -/
theorem along_const {admits : Call → Prop} {s : σ} {calls : List Call} :
    Along exec (fun _ call => admits call) s calls ↔ ∀ call ∈ calls, admits call := by
  induction calls generalizing s with
  | nil => simp [Along]
  | cons call calls ih => simp only [Along, ih, List.forall_mem_cons]

/-- **Invariants.** What every admitted successful call preserves holds at the end of every admitted
run. -/
theorem run_invariant {admits : σ → Call → Prop} {Inv : σ → Prop}
    (hstep : ∀ s call out s', Inv s → admits s call → exec call s = .ok (out, s') → Inv s')
    {s : σ} (hs : Inv s) {calls : List Call} (hcalls : Along exec admits s calls) :
    Inv (run exec s calls) := by
  induction calls generalizing s with
  | nil => exact hs
  | cons call calls ih =>
      refine ih ?_ hcalls.2
      rcases commit_cases exec s call with ⟨out, s', hok, heq⟩ | heq
      · rw [heq]
        exact hstep s call out s' hs hcalls.1 hok
      · rwa [heq]

/-- **Accounting.** An amount that every successful call moves by what it gains and loses differs at the
end of every run by the tallies of the two. -/
theorem run_tally (amount : σ → ℕ) (gain loss : Call → ℕ)
    (hstep : ∀ s call out s', exec call s = .ok (out, s') → amount s' + loss call = amount s + gain call)
    (s : σ) (calls : List Call) :
    amount (run exec s calls) + tally exec loss s calls = amount s + tally exec gain s calls := by
  induction calls generalizing s with
  | nil => rfl
  | cons call calls ih =>
      have hrest := ih (commit exec s call)
      simp only [run, tally]
      cases h : exec call s with
      | error e =>
          rw [commit_error h] at hrest ⊢
          dsimp only
          omega
      | ok result =>
          have hfirst := hstep s call result.1 result.2 h
          rw [commit_ok h] at hrest ⊢
          dsimp only
          omega

/-- **Monotonicity.** A preorder that every admitted successful call climbs, from the states of an
invariant, orders the ends of every admitted run. -/
theorem run_relation {admits : σ → Call → Prop} (Inv : σ → Prop) (R : σ → σ → Prop)
    (hrefl : ∀ s, R s s) (htrans : ∀ {a b c}, R a b → R b c → R a c)
    (hinv : ∀ s call out s', Inv s → admits s call → exec call s = .ok (out, s') → Inv s')
    (hstep : ∀ s call out s', Inv s → admits s call → exec call s = .ok (out, s') → R s s')
    {s : σ} (hs : Inv s) {calls : List Call} (hcalls : Along exec admits s calls) :
    R s (run exec s calls) := by
  induction calls generalizing s with
  | nil => exact hrefl s
  | cons call calls ih =>
      have hrest := hcalls.2
      rcases commit_cases exec s call with ⟨out, s', hok, heq⟩ | heq
      · rw [heq] at hrest
        rw [run, heq]
        exact htrans (hstep s call out s' hs hcalls.1 hok) (ih (hinv s call out s' hs hcalls.1 hok) hrest)
      · rw [heq] at hrest
        rw [run, heq]
        exact ih hs hrest

/-- A call that aborts keeps every invariant, so only a successful one has to meet a condition. -/
theorem commit_iff {Inv : σ → Prop} {cond : σ → Call → Prop} {s : σ} {call : Call} (hs : Inv s)
    (hstep : ∀ out s', exec call s = .ok (out, s') → (Inv s' ↔ cond s call)) :
    Inv (commit exec s call) ↔ (Succeeds (exec call s) → cond s call) := by
  cases h : exec call s with
  | error e =>
      rw [commit_error h]
      exact iff_of_true hs nofun
  | ok result =>
      rw [commit_ok h, hstep result.1 result.2 h]
      exact ⟨fun hcond _ => hcond, fun hcond => hcond ⟨_, rfl⟩⟩

/-- **Exact conditions.** If a successful call keeps the invariant exactly when `cond` holds in the
state it starts from, a run keeps it in every state exactly when every call of the run that succeeds
meets `cond`. -/
theorem forall_prefix_iff {Inv : σ → Prop} {cond : σ → Call → Prop}
    (hstep : ∀ s call out s', Inv s → exec call s = .ok (out, s') → (Inv s' ↔ cond s call))
    {s : σ} (hs : Inv s) (calls : List Call) :
    (∀ pre, pre <+: calls → Inv (run exec s pre)) ↔
      Along exec (fun s call => Succeeds (exec call s) → cond s call) s calls := by
  induction calls generalizing s with
  | nil =>
      refine ⟨fun _ => trivial, fun _ pre hpre => ?_⟩
      rw [List.prefix_nil.mp hpre]
      exact hs
  | cons call calls ih =>
      have hnext := commit_iff hs (hstep s call · · hs)
      constructor
      · intro hall
        have hs' : Inv (commit exec s call) := hall [call] ⟨calls, rfl⟩
        refine ⟨hnext.mp hs', (ih hs').mp fun pre hpre => ?_⟩
        exact hall (call :: pre) ((List.prefix_cons_inj call).mpr hpre)
      · rintro ⟨hcond, halong⟩ pre hpre
        cases pre with
        | nil => exact hs
        | cons first pre =>
            obtain ⟨rfl, hpre'⟩ := List.cons_prefix_cons.mp hpre
            exact (ih (hnext.mpr hcond)).mpr halong pre hpre'

/-- The same for a run of successful calls. -/
theorem forall_prefix_iff_along {Inv : σ → Prop} {cond : σ → Call → Prop}
    (hstep : ∀ s call out s', Inv s → exec call s = .ok (out, s') → (Inv s' ↔ cond s call))
    {s : σ} (hs : Inv s) {calls : List Call}
    (hok : Along exec (fun s call => Succeeds (exec call s)) s calls) :
    (∀ pre, pre <+: calls → Inv (run exec s pre)) ↔ Along exec cond s calls := by
  rw [forall_prefix_iff hstep hs calls]
  induction calls generalizing s with
  | nil => exact Iff.rfl
  | cons call calls ih =>
      obtain ⟨hcall, hrest⟩ := hok
      simp only [Along, hcall, forall_const]
      exact and_congr_right fun hcond => ih ((commit_iff hs (hstep s call · · hs)).mpr fun _ => hcond) hrest

theorem Along.and {admits cond : σ → Call → Prop} {s : σ} {calls : List Call}
    (hadmits : Along exec admits s calls) (hcond : Along exec cond s calls) :
    Along exec (fun s call => admits s call ∧ cond s call) s calls := by
  induction calls generalizing s with
  | nil => trivial
  | cons call calls ih => exact ⟨⟨hadmits.1, hcond.1⟩, ih hadmits.2 hcond.2⟩

/-- **Exact conditions between states.** If an admitted call climbs a preorder exactly when `cond` holds
in the state it starts from, any two states of an admitted run are ordered exactly when every call of
the run meets `cond`. -/
theorem segments_iff_along {admits cond : σ → Call → Prop} (Inv : σ → Prop) (R : σ → σ → Prop)
    (hrefl : ∀ s, R s s) (htrans : ∀ {a b c}, R a b → R b c → R a c)
    (hinv : ∀ s call, Inv s → admits s call → Inv (commit exec s call))
    (hstep : ∀ s call, Inv s → admits s call → (R s (commit exec s call) ↔ cond s call))
    {s : σ} (hs : Inv s) {calls : List Call} (hcalls : Along exec admits s calls) :
    (∀ pre mid, pre ++ mid <+: calls → R (run exec s pre) (run exec s (pre ++ mid))) ↔
      Along exec cond s calls := by
  constructor
  · intro hall
    induction calls generalizing s with
    | nil => trivial
    | cons call calls ih =>
        refine ⟨(hstep s call hs hcalls.1).mp (hall [] [call] ⟨calls, rfl⟩), ?_⟩
        refine ih (hinv s call hs hcalls.1) hcalls.2 fun pre mid hpre => ?_
        exact hall (call :: pre) mid ((List.prefix_cons_inj call).mpr hpre)
  · intro halong pre mid hpre
    obtain ⟨rest, rfl⟩ := hpre
    obtain ⟨hfront, -⟩ := along_append.mp (hcalls.and halong)
    obtain ⟨hfirst, hmid⟩ := along_append.mp hfront
    have hkeep : ∀ s call out s', Inv s → (admits s call ∧ cond s call) → exec call s = .ok (out, s') →
        Inv s' := by
      intro s call out s' hs hcall hok
      have h := hinv s call hs hcall.1
      rwa [commit_ok hok] at h
    have hclimb : ∀ s call out s', Inv s → (admits s call ∧ cond s call) → exec call s = .ok (out, s') →
        R s s' := by
      intro s call out s' hs hcall hok
      have h := (hstep s call hs hcall.1).mpr hcall.2
      rwa [commit_ok hok] at h
    rw [run_append]
    exact run_relation Inv R hrefl htrans hkeep hclimb (run_invariant hkeep hs hfirst) hmid

/-- The same for runs of successful calls. -/
theorem forall_segment_iff_along (Inv : σ → Prop) (R : σ → σ → Prop) {cond : σ → Call → Prop}
    (hrefl : ∀ s, R s s) (htrans : ∀ {a b c}, R a b → R b c → R a c)
    (hinv : ∀ s call out s', Inv s → exec call s = .ok (out, s') → Inv s')
    (hstep : ∀ s call out s', Inv s → exec call s = .ok (out, s') → (R s s' ↔ cond s call))
    {s : σ} (hs : Inv s) {calls : List Call}
    (hok : Along exec (fun s call => Succeeds (exec call s)) s calls) :
    (∀ pre mid, pre ++ mid <+: calls → R (run exec s pre) (run exec s (pre ++ mid))) ↔
      Along exec cond s calls := by
  refine segments_iff_along Inv R hrefl htrans ?_ ?_ hs hok
  · intro s call hs hcall
    obtain ⟨⟨out, s'⟩, hok⟩ := hcall
    rw [commit_ok hok]
    exact hinv s call out s' hs hok
  · intro s call hs hcall
    obtain ⟨⟨out, s'⟩, hok⟩ := hcall
    rw [commit_ok hok]
    exact hstep s call out s' hs hok

end Runs

/-! ### Successive calls

A sequence of calls all of which succeed, with everything they answer. -/

section Successive

variable {σ Call Out : Type} (exec : Call → σ → Exec (Out × σ))

/-- The calls one after another: their answers and the state after the last, or the first abort. -/
def successive (s : σ) : List Call → Exec (List Out × σ)
  | [] => return ([], s)
  | call :: calls => do
      let (out, s') ← exec call s
      let (outs, last) ← successive s' calls
      return (out :: outs, last)

variable {exec}

theorem successive_nil_ok {s last : σ} {outs : List Out} :
    successive exec s [] = .ok (outs, last) ↔ outs = [] ∧ s = last := by
  rw [successive, pure_eq_ok, Prod.mk.injEq, @eq_comm _ [] outs]

theorem successive_cons_ok {s last : σ} {call : Call} {calls : List Call} {outs : List Out} :
    successive exec s (call :: calls) = .ok (outs, last) ↔
      ∃ out s' outs', exec call s = .ok (out, s') ∧ successive exec s' calls = .ok (outs', last) ∧
        outs = out :: outs' := by
  simp only [successive, bind_eq_ok, pure_eq_ok, Prod.exists, Prod.mk.injEq]
  constructor
  · rintro ⟨out, s', hcall, outs', _, hrest, rfl, rfl⟩
    exact ⟨out, s', outs', hcall, hrest, rfl⟩
  · rintro ⟨out, s', outs', hcall, hrest, rfl⟩
    exact ⟨out, s', hcall, outs', last, hrest, rfl, rfl⟩

/-- **Induction over successive calls.** -/
theorem successive_rule {P : σ → List Call → List Out → σ → Prop} (hnil : ∀ s, P s [] [] s)
    (hcons : ∀ s s' last call out calls outs, exec call s = .ok (out, s') → P s' calls outs last →
      P s (call :: calls) (out :: outs) last)
    {s last : σ} {calls : List Call} {outs : List Out} (h : successive exec s calls = .ok (outs, last)) :
    P s calls outs last := by
  induction calls generalizing s outs with
  | nil =>
      obtain ⟨rfl, rfl⟩ := successive_nil_ok.mp h
      exact hnil s
  | cons call calls ih =>
      obtain ⟨out, s', outs', hcall, hrest, rfl⟩ := successive_cons_ok.mp h
      exact hcons s s' last call out calls outs' hcall (ih hrest)

/-- A preorder that every call climbs orders the first state and the last. -/
theorem successive_preorder {R : σ → σ → Prop} (hrefl : ∀ s, R s s)
    (htrans : ∀ {a b c}, R a b → R b c → R a c)
    (hstep : ∀ s call out s', exec call s = .ok (out, s') → R s s')
    {s last : σ} {calls : List Call} {outs : List Out} (h : successive exec s calls = .ok (outs, last)) :
    R s last := by
  refine successive_rule (P := fun s _ _ last => R s last) hrefl ?_ h
  intro s s' last call out _ _ hcall hrest
  exact htrans (hstep s call out s' hcall) hrest

theorem successive_append {s mid last : σ} {calls later : List Call} {outs outs' : List Out}
    (h : successive exec s calls = .ok (outs, mid)) (hlater : successive exec mid later = .ok (outs', last)) :
    successive exec s (calls ++ later) = .ok (outs ++ outs', last) := by
  induction calls generalizing s outs with
  | nil =>
      obtain ⟨rfl, rfl⟩ := successive_nil_ok.mp h
      exact hlater
  | cons call calls ih =>
      obtain ⟨out, s', outs, hcall, hrest, rfl⟩ := successive_cons_ok.mp h
      exact successive_cons_ok.mpr ⟨out, s', _, hcall, ih hrest, rfl⟩

/-- The calls of a prefix, and the calls after it. -/
theorem successive_split {s last : σ} {calls : List Call} {outs : List Out}
    (h : successive exec s calls = .ok (outs, last)) (k : ℕ) :
    ∃ mid, successive exec s (calls.take k) = .ok (outs.take k, mid) ∧
      successive exec mid (calls.drop k) = .ok (outs.drop k, last) := by
  induction k generalizing s calls outs with
  | zero => exact ⟨s, rfl, h⟩
  | succ k ih =>
      cases calls with
      | nil =>
          obtain ⟨rfl, rfl⟩ := successive_nil_ok.mp h
          exact ⟨s, rfl, rfl⟩
      | cons call calls =>
          obtain ⟨out, s', outs', hcall, hrest, rfl⟩ := successive_cons_ok.mp h
          obtain ⟨mid, hfront, hback⟩ := ih hrest
          exact ⟨mid, successive_cons_ok.mpr ⟨out, s', _, hcall, hfront, rfl⟩, hback⟩

end Successive

/-! ### Simulation -/

section Simulation

variable {σ τ Call Out : Type}

/-- Two results that a caller cannot tell apart: both abort, or both return the same answer and
leave related states. -/
inductive Matches (R : σ → τ → Prop) : Exec (Out × σ) → Exec (Out × τ) → Prop
  | ok {s : σ} {t : τ} (out : Out) (h : R s t) : Matches R (.ok (out, s)) (.ok (out, t))
  | error (e e' : Abort) : Matches R (.error e) (.error e')

/-- **Simulation.** If related states match on every admitted call, they give the same answers to
every admitted run and stay related. -/
theorem run_simulates {exec : Call → σ → Exec (Out × σ)} {spec : Call → τ → Exec (Out × τ)}
    {admits : σ → Call → Prop} {R : σ → τ → Prop}
    (hstep : ∀ s t call, R s t → admits s call → Matches R (exec call s) (spec call t))
    {s : σ} {t : τ} (hst : R s t) {calls : List Call} (hcalls : Along exec admits s calls) :
    answers exec s calls = answers spec t calls ∧ R (run exec s calls) (run spec t calls) := by
  induction calls generalizing s t with
  | nil => exact ⟨rfl, hst⟩
  | cons call calls ih =>
      have hmatch := hstep s t call hst hcalls.1
      have hrest := hcalls.2
      simp only [answers, run]
      cases hs : exec call s with
      | error e =>
          rw [hs] at hmatch
          rw [commit_error hs] at hrest ⊢
          cases ht : spec call t with
          | ok result => rw [ht] at hmatch; cases hmatch
          | error e' =>
              rw [commit_error ht]
              obtain ⟨hans, hrel⟩ := ih hst hrest
              exact ⟨by rw [hans]; rfl, hrel⟩
      | ok result =>
          obtain ⟨out, s'⟩ := result
          rw [hs] at hmatch
          rw [commit_ok hs] at hrest ⊢
          cases ht : spec call t with
          | error e => rw [ht] at hmatch; cases hmatch
          | ok result' =>
              obtain ⟨out', t'⟩ := result'
              rw [ht] at hmatch
              cases hmatch with
              | ok _ hrel' =>
                  rw [commit_ok ht]
                  obtain ⟨hans, hrel⟩ := ih hrel' hrest
                  exact ⟨by rw [hans]; rfl, hrel⟩

end Simulation

end MoveTutorial.Move
