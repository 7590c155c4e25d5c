import MoveTutorial.DeltaModel

/-! Deltas record walks. The value of a delta is the end of a walk and its history the extremes of it, so
that a delta can be applied exactly to the values from which every step of the walk stays between zero
and the limit. Merging two deltas is following one walk after the other. -/

namespace MoveTutorial.Executor

open Results BoundedWalk

/-- The change an update makes. -/
def DeltaUpdate.net : DeltaUpdate → ℤ
  | .plus value => value
  | .minus value => -value

namespace DeltaOp

/-- The delta is the outcome of the walk, and its history the extremes of the walk. -/
structure Records (delta : DeltaOp) (steps : List ℤ) : Prop where
  net : delta.update.net = steps.sum
  top : (delta.maxPositive : ℤ) = top steps
  bottom : -(delta.minNegative : ℤ) = bottom steps

/-- The history covers the value. -/
def Valid (delta : DeltaOp) : Prop :=
  delta.update.net ≤ delta.maxPositive ∧ -(delta.minNegative : ℤ) ≤ delta.update.net

/-- The valid deltas are those that record some walk. -/
theorem valid_iff_records {delta : DeltaOp} : delta.Valid ↔ ∃ steps, delta.Records steps := by
  constructor
  · rintro ⟨hupper, hlower⟩
    obtain ⟨steps, hsum, htop, hbottom⟩ :=
      exists_walk (Int.natCast_nonneg delta.maxPositive) (by omega) hupper hlower
    exact ⟨steps, hsum.symm, htop.symm, hbottom.symm⟩
  · rintro ⟨steps, hrec⟩
    have hupper := sum_le_top steps
    have hlower := bottom_le_sum steps
    rw [← hrec.net, ← hrec.top] at hupper
    rw [← hrec.net, ← hrec.bottom] at hlower
    exact ⟨hupper, hlower⟩

variable {delta previousDelta merged : DeltaOp} {steps later : List ℤ} {base result : ℕ}

/-- A delta can be applied exactly where its walk stays within the limit, and leads to its end. -/
theorem applyTo_eq_ok (hrec : delta.Records steps) :
    delta.applyTo base = .ok result ↔
      Within 0 (delta.limit : ℤ) base steps ∧ (result : ℤ) = base + steps.sum := by
  have hfinish : Within 0 (delta.limit : ℤ) base steps →
      0 ≤ base + delta.update.net ∧ base + delta.update.net ≤ delta.limit := fun h => by
    rw [hrec.net]
    exact h.finish
  rw [← hrec.net]
  rw [within_iff, ← hrec.top, ← hrec.bottom] at hfinish ⊢
  simp only [applyTo, bind_eq_ok, addition_eq_ok, subtraction_eq_ok]
  cases hupdate : delta.update with
  | plus value =>
      rw [hupdate] at hfinish
      simp only [DeltaUpdate.net, addition_eq_ok] at hfinish ⊢
      constructor
      · rintro ⟨_, ⟨hmax, -⟩, _, ⟨hmin, -⟩, -, rfl⟩
        omega
      · rintro ⟨hwithin, hresult⟩
        have hend := hfinish hwithin
        exact ⟨_, ⟨by omega, rfl⟩, _, ⟨by omega, rfl⟩, by omega, by omega⟩
  | minus value =>
      rw [hupdate] at hfinish
      simp only [DeltaUpdate.net, subtraction_eq_ok] at hfinish ⊢
      constructor
      · rintro ⟨_, ⟨hmax, -⟩, _, ⟨hmin, -⟩, hvalue, rfl⟩
        omega
      · rintro ⟨hwithin, hresult⟩
        have hend := hfinish hwithin
        exact ⟨_, ⟨by omega, rfl⟩, _, ⟨by omega, rfl⟩, by omega, by omega⟩

theorem map_eq_ok {α β : Type} {x : VmResult α} {f : α → β} {b : β} :
    x.map f = .ok b ↔ ∃ a, x = .ok a ∧ f a = b := by
  cases x with
  | error e => simp [Except.map]
  | ok a => simp [Except.map]

theorem updateDifferentSign_net {a b : ℕ} {update : DeltaUpdate} (h : updateDifferentSign a b = .ok update) :
    update.net = a - b := by
  unfold updateDifferentSign at h
  split at h
  · obtain ⟨value, hvalue, rfl⟩ := map_eq_ok.mp h
    obtain ⟨hle, rfl⟩ := subtraction_eq_ok.mp hvalue
    rw [DeltaUpdate.net]
    omega
  · obtain ⟨value, hvalue, rfl⟩ := map_eq_ok.mp h
    obtain ⟨hle, rfl⟩ := subtraction_eq_ok.mp hvalue
    rw [DeltaUpdate.net]
    omega

theorem updateDifferentSign_ok (a b : ℕ) : ∃ update, updateDifferentSign a b = .ok update := by
  unfold updateDifferentSign
  split
  · next h => exact ⟨_, by rw [subtraction_ok h, Except.map]⟩
  · next h => exact ⟨_, by rw [subtraction_ok (by omega), Except.map]⟩

theorem mergedUpdate_net {limit : ℕ} {previousUpdate selfUpdate update : DeltaUpdate}
    (h : mergedUpdate previousUpdate selfUpdate limit = .ok update) :
    update.net = previousUpdate.net + selfUpdate.net := by
  cases previousUpdate with
  | plus prevValue =>
      cases selfUpdate with
      | plus selfValue =>
          obtain ⟨value, hvalue, rfl⟩ := map_eq_ok.mp h
          obtain ⟨-, rfl⟩ := addition_eq_ok.mp hvalue
          simp only [DeltaUpdate.net]
          omega
      | minus selfValue =>
          rw [updateDifferentSign_net h]
          simp only [DeltaUpdate.net]
          omega
  | minus prevValue =>
      cases selfUpdate with
      | plus selfValue =>
          rw [updateDifferentSign_net h]
          simp only [DeltaUpdate.net]
          omega
      | minus selfValue =>
          obtain ⟨value, hvalue, rfl⟩ := map_eq_ok.mp h
          obtain ⟨-, rfl⟩ := addition_eq_ok.mp hvalue
          simp only [DeltaUpdate.net]
          omega

/-- The sum of two updates is formed unless it is farther from zero than the limit. -/
theorem mergedUpdate_ok {limit : ℕ} {previousUpdate selfUpdate : DeltaUpdate}
    (h : -(limit : ℤ) ≤ previousUpdate.net + selfUpdate.net) (h' : previousUpdate.net + selfUpdate.net ≤ limit) :
    ∃ update, mergedUpdate previousUpdate selfUpdate limit = .ok update := by
  cases previousUpdate with
  | plus prevValue =>
      cases selfUpdate with
      | plus selfValue =>
          simp only [DeltaUpdate.net] at h'
          exact ⟨_, by rw [mergedUpdate, addition_ok (by omega), Except.map]⟩
      | minus selfValue => exact updateDifferentSign_ok prevValue selfValue
  | minus prevValue =>
      cases selfUpdate with
      | plus selfValue => exact updateDifferentSign_ok selfValue prevValue
      | minus selfValue =>
          simp only [DeltaUpdate.net] at h
          exact ⟨_, by rw [mergedUpdate, addition_ok (by omega), Except.map]⟩

theorem shiftedMaxPositiveBy_eq {value : ℕ} (h : delta.shiftedMaxPositiveBy previousDelta = .ok value) :
    (value : ℤ) = max 0 (previousDelta.update.net + delta.maxPositive) := by
  unfold shiftedMaxPositiveBy at h
  cases hupdate : previousDelta.update with
  | plus prevValue =>
      rw [hupdate] at h
      obtain ⟨-, rfl⟩ := addition_eq_ok.mp h
      rw [DeltaUpdate.net]
      omega
  | minus prevValue =>
      rw [hupdate] at h
      dsimp only at h
      rw [subtractionOrZero_eq, Except.ok.injEq] at h
      rw [DeltaUpdate.net]
      omega

theorem shiftedMinNegativeBy_eq {value : ℕ} (h : delta.shiftedMinNegativeBy previousDelta = .ok value) :
    (value : ℤ) = max 0 (delta.minNegative - previousDelta.update.net) := by
  unfold shiftedMinNegativeBy at h
  cases hupdate : previousDelta.update with
  | plus prevValue =>
      rw [hupdate] at h
      dsimp only at h
      rw [subtractionOrZero_eq, Except.ok.injEq] at h
      rw [DeltaUpdate.net]
      omega
  | minus prevValue =>
      rw [hupdate] at h
      obtain ⟨-, rfl⟩ := addition_eq_ok.mp h
      rw [DeltaUpdate.net]
      omega

theorem shiftedMaxPositiveBy_ok (h : previousDelta.update.net + delta.maxPositive ≤ delta.limit) :
    ∃ value, delta.shiftedMaxPositiveBy previousDelta = .ok value := by
  unfold shiftedMaxPositiveBy
  cases hupdate : previousDelta.update with
  | plus prevValue =>
      rw [hupdate, DeltaUpdate.net] at h
      exact ⟨_, addition_ok (by omega)⟩
  | minus prevValue => exact ⟨_, rfl⟩

theorem shiftedMinNegativeBy_ok (h : delta.minNegative - previousDelta.update.net ≤ delta.limit) :
    ∃ value, delta.shiftedMinNegativeBy previousDelta = .ok value := by
  unfold shiftedMinNegativeBy
  cases hupdate : previousDelta.update with
  | plus prevValue => exact ⟨_, rfl⟩
  | minus prevValue =>
      rw [hupdate, DeltaUpdate.net] at h
      exact ⟨_, addition_ok (by omega)⟩

/-- Merging follows one walk after the other. -/
theorem Records.mergeOnto (hprev : previousDelta.Records steps) (hrec : delta.Records later)
    (h : delta.mergeOnto previousDelta = .ok merged) :
    merged.Records (steps ++ later) ∧ merged.limit = delta.limit := by
  simp only [DeltaOp.mergeOnto, bind_eq_ok, pure_eq_ok] at h
  obtain ⟨shiftedMax, hmax, shiftedMin, hmin, update, hupdate, rfl⟩ := h
  have hmax := shiftedMaxPositiveBy_eq hmax
  have hmin := shiftedMinNegativeBy_eq hmin
  refine ⟨⟨?_, ?_, ?_⟩, rfl⟩
  · rw [List.sum_append, ← hprev.net, ← hrec.net]
    exact mergedUpdate_net hupdate
  · rw [top_append, ← hprev.net, ← hprev.top, ← hrec.top]
    dsimp only
    omega
  · rw [bottom_append, ← hprev.net, ← hprev.bottom, ← hrec.bottom]
    dsimp only
    omega

/-- A merge is refused only if no value could have taken both walks. -/
theorem Records.mergeOnto_ok (hprev : previousDelta.Records steps) (hrec : delta.Records later)
    (h : Within 0 (delta.limit : ℤ) base (steps ++ later)) :
    ∃ merged, delta.mergeOnto previousDelta = .ok merged := by
  have hend := h.finish
  have hstart := h.start
  rw [List.sum_append, ← hprev.net, ← hrec.net] at hend
  rw [within_append] at h
  have hmiddle := h.2.start
  have hlast := within_iff.mp h.2
  rw [← hprev.net] at hmiddle
  rw [← hprev.net, ← hrec.top, ← hrec.bottom] at hlast
  obtain ⟨shiftedMax, hmax⟩ : ∃ value, delta.shiftedMaxPositiveBy previousDelta = .ok value :=
    shiftedMaxPositiveBy_ok (by omega)
  obtain ⟨shiftedMin, hmin⟩ : ∃ value, delta.shiftedMinNegativeBy previousDelta = .ok value :=
    shiftedMinNegativeBy_ok (by omega)
  obtain ⟨update, hupdate⟩ : ∃ update, mergedUpdate previousDelta.update delta.update delta.limit = .ok update :=
    mergedUpdate_ok (by omega) (by omega)
  exact ⟨_, by rw [DeltaOp.mergeOnto, hmax, ok_bind, hmin, ok_bind, hupdate, ok_bind]; rfl⟩

/-- **Merging composes.** Two deltas with one limit, merged and then applied, return what they return when
they are applied one after the other, and fail where one of them fails. -/
theorem mergeOnto_applyTo (delta previousDelta : DeltaOp) (base : ℕ) (hvalid : delta.Valid)
    (hprev : previousDelta.Valid) (hlimit : previousDelta.limit = delta.limit) :
    Agree (delta.mergeOnto previousDelta >>= fun merged => merged.applyTo base)
      (previousDelta.applyTo base >>= fun middle => delta.applyTo middle) := by
  obtain ⟨later, hrec⟩ := valid_iff_records.mp hvalid
  obtain ⟨steps, hrec'⟩ := valid_iff_records.mp hprev
  intro result
  rw [bind_eq_ok, bind_eq_ok]
  constructor
  · rintro ⟨merged, hmerge, happly⟩
    obtain ⟨hmerged, hlim⟩ := hrec'.mergeOnto hrec hmerge
    obtain ⟨hwithin, hresult⟩ := (applyTo_eq_ok hmerged).mp happly
    rw [hlim, within_append] at hwithin
    have hmiddle := hwithin.2.start
    refine ⟨(base + steps.sum).toNat, (applyTo_eq_ok hrec').mpr ⟨?_, ?_⟩, (applyTo_eq_ok hrec).mpr ⟨?_, ?_⟩⟩
    · rw [hlimit]
      exact hwithin.1
    · exact Int.toNat_of_nonneg hmiddle.1
    · rw [Int.toNat_of_nonneg hmiddle.1]
      exact hwithin.2
    · rw [Int.toNat_of_nonneg hmiddle.1, hresult, List.sum_append, add_assoc]
  · rintro ⟨middle, hfirst, hsecond⟩
    obtain ⟨hwithin, hmiddle⟩ := (applyTo_eq_ok hrec').mp hfirst
    obtain ⟨hwithin', hresult⟩ := (applyTo_eq_ok hrec).mp hsecond
    rw [hlimit] at hwithin
    rw [hmiddle] at hwithin'
    have hboth := within_append.mpr ⟨hwithin, hwithin'⟩
    obtain ⟨merged, hmerge⟩ := hrec'.mergeOnto_ok hrec hboth
    obtain ⟨hmerged, hlim⟩ := hrec'.mergeOnto hrec hmerge
    refine ⟨merged, hmerge, (applyTo_eq_ok hmerged).mpr ⟨?_, ?_⟩⟩
    · rwa [hlim]
    · rw [hresult, hmiddle, List.sum_append, add_assoc]

/-- A merged delta is one that some walk leads to, as the two are. -/
theorem mergeOnto_valid (hvalid : delta.Valid) (hprev : previousDelta.Valid)
    (h : delta.mergeOnto previousDelta = .ok merged) : merged.Valid ∧ merged.limit = delta.limit := by
  obtain ⟨later, hrec⟩ := valid_iff_records.mp hvalid
  obtain ⟨steps, hrec'⟩ := valid_iff_records.mp hprev
  obtain ⟨hmerged, hlimit⟩ := hrec'.mergeOnto hrec h
  exact ⟨valid_iff_records.mpr ⟨_, hmerged⟩, hlimit⟩

end DeltaOp

/-- An order in which the deltas of successive transactions are merged, two neighbours at a time. -/
inductive MergeOrder where
  | single (delta : DeltaOp)
  | pair (earlier later : MergeOrder)

namespace MergeOrder

open DeltaOp

/-- The deltas that are merged, the oldest first. -/
def deltas : MergeOrder → List DeltaOp
  | .single delta => [delta]
  | .pair earlier later => earlier.deltas ++ later.deltas

def merge : MergeOrder → VmResult DeltaOp
  | .single delta => .ok delta
  | .pair earlier later => do
      let previousDelta ← earlier.merge
      let delta ← later.merge
      delta.mergeOnto previousDelta

/-- Every delta is applied to what the ones before it left. -/
def applyAll : List DeltaOp → ℕ → VmResult ℕ
  | [], base => .ok base
  | delta :: deltas, base => delta.applyTo base >>= applyAll deltas

theorem applyAll_append_eq_ok {deltas deltas' : List DeltaOp} {base result : ℕ} :
    applyAll (deltas ++ deltas') base = .ok result ↔
      ∃ middle, applyAll deltas base = .ok middle ∧ applyAll deltas' middle = .ok result := by
  induction deltas generalizing base with
  | nil => simp [applyAll]
  | cons delta deltas ih =>
      rw [List.cons_append, applyAll, applyAll, bind_eq_ok]
      simp only [bind_eq_ok, ih]
      constructor
      · rintro ⟨value, hvalue, middle, hmiddle, hresult⟩
        exact ⟨middle, ⟨value, hvalue, hmiddle⟩, hresult⟩
      · rintro ⟨middle, ⟨value, hvalue, hmiddle⟩, hresult⟩
        exact ⟨value, hvalue, middle, hmiddle, hresult⟩

variable {limit : ℕ}

theorem merge_valid {order : MergeOrder} {merged : DeltaOp}
    (hvalid : ∀ delta ∈ order.deltas, delta.Valid ∧ delta.limit = limit) (h : order.merge = .ok merged) :
    merged.Valid ∧ merged.limit = limit := by
  induction order generalizing merged with
  | single delta =>
      obtain rfl := Except.ok.inj h
      exact hvalid delta List.mem_cons_self
  | pair earlier later ihEarlier ihLater =>
      rw [merge, bind_eq_ok] at h
      obtain ⟨previousDelta, hprevious, h⟩ := h
      obtain ⟨delta, hdelta, h⟩ := bind_eq_ok.mp h
      have hprev := ihEarlier (fun d hd => hvalid d (List.mem_append_left _ hd)) hprevious
      have hlater := ihLater (fun d hd => hvalid d (List.mem_append_right _ hd)) hdelta
      obtain ⟨hmerged, hlimit⟩ := mergeOnto_valid hlater.1 hprev.1 h
      exact ⟨hmerged, hlimit.trans hlater.2⟩

/-- **The order of merging does not matter.** Valid deltas with one limit, merged two neighbours at a time
in any order and then applied, return what they return when they are applied one after the other, and fail
where one of them fails. -/
theorem merge_applyTo (order : MergeOrder) (base : ℕ)
    (hvalid : ∀ delta ∈ order.deltas, delta.Valid ∧ delta.limit = limit) :
    Agree (order.merge >>= fun merged => merged.applyTo base) (applyAll order.deltas base) := by
  induction order generalizing base with
  | single delta =>
      intro result
      rw [merge, ok_bind, deltas, applyAll, bind_eq_ok]
      simp [applyAll]
  | pair earlier later ihEarlier ihLater =>
      have hvalid₁ := fun d hd => hvalid d (List.mem_append_left _ hd)
      have hvalid₂ := fun d hd => hvalid d (List.mem_append_right _ hd)
      intro result
      rw [bind_eq_ok, deltas, applyAll_append_eq_ok]
      constructor
      · rintro ⟨merged, hmerge, happly⟩
        rw [merge, bind_eq_ok] at hmerge
        obtain ⟨previousDelta, hprevious, hmerge⟩ := hmerge
        obtain ⟨delta, hdelta, hmerge⟩ := bind_eq_ok.mp hmerge
        have hprev := merge_valid hvalid₁ hprevious
        have hlater := merge_valid hvalid₂ hdelta
        have hagree := mergeOnto_applyTo delta previousDelta base hlater.1 hprev.1 (hprev.2.trans hlater.2.symm)
        obtain ⟨middle, hfirst, hsecond⟩ :=
          bind_eq_ok.mp ((hagree result).mp (bind_eq_ok.mpr ⟨merged, hmerge, happly⟩))
        refine ⟨middle, ?_, ?_⟩
        · exact (ihEarlier base hvalid₁ middle).mp (bind_eq_ok.mpr ⟨previousDelta, hprevious, hfirst⟩)
        · exact (ihLater middle hvalid₂ result).mp (bind_eq_ok.mpr ⟨delta, hdelta, hsecond⟩)
      · rintro ⟨middle, hfirst, hsecond⟩
        obtain ⟨previousDelta, hprevious, hfirst⟩ := bind_eq_ok.mp ((ihEarlier base hvalid₁ middle).mpr hfirst)
        obtain ⟨delta, hdelta, hsecond⟩ := bind_eq_ok.mp ((ihLater middle hvalid₂ result).mpr hsecond)
        have hprev := merge_valid hvalid₁ hprevious
        have hlater := merge_valid hvalid₂ hdelta
        have hagree := mergeOnto_applyTo delta previousDelta base hlater.1 hprev.1 (hprev.2.trans hlater.2.symm)
        obtain ⟨merged, hmerge, happly⟩ :=
          bind_eq_ok.mp ((hagree result).mpr (bind_eq_ok.mpr ⟨middle, hfirst, hsecond⟩))
        refine ⟨merged, ?_, happly⟩
        rw [merge, hprevious, ok_bind, hdelta, ok_bind]
        exact hmerge

/-- The example of the source, a delta that was at `+99` after one of `+2` below a limit of `100`, with a
third one before them. -/
theorem merge_applyTo_refused :
    Agree ((pair (single ⟨0, 1, 100, .minus 1⟩) (pair (single ⟨2, 0, 100, .plus 2⟩) (single ⟨99, 0, 100, .plus 3⟩))).merge
        >>= fun merged => merged.applyTo 1)
      (applyAll [⟨0, 1, 100, .minus 1⟩, ⟨2, 0, 100, .plus 2⟩, ⟨99, 0, 100, .plus 3⟩] 1) := by
  have hvalid : ∀ delta ∈ ([⟨0, 1, 100, .minus 1⟩, ⟨2, 0, 100, .plus 2⟩, ⟨99, 0, 100, .plus 3⟩] : List DeltaOp),
      delta.Valid ∧ delta.limit = 100 := by
    simp [Valid, DeltaUpdate.net]
  exact merge_applyTo _ 1 hvalid

end MergeOrder

end MoveTutorial.Executor
