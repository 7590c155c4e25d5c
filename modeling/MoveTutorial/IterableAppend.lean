import MoveTutorial.IterableRefinement

/-! Appending one iterable table to another. Each round takes the first entry of the second table, and what
is left is linked again, so the loop walks through the keys in their order and ends with an empty table. -/

namespace MoveTutorial.Iterable

open Move

variable {K V : Type} [DecidableEq K]

/-! ### The loop on linked tables -/

section Loop

variable {m m' : OrderedMap K V} {key : K} {v : V} {rest : List (K × V)}

omit [DecidableEq K] in
theorem not_mem_rest (heq : m'.entries = (key, v) :: rest) : key ∉ rest.map Prod.fst := by
  have hnodup := m'.nodup
  rw [heq, List.map_cons, List.nodup_cons] at hnodup
  exact hnodup.1

theorem erase_first (heq : m'.entries = (key, v) :: rest) : (m'.erase key).entries = rest :=
  OrderedMap.erase_of_split (a := []) heq List.not_mem_nil (not_mem_rest heq)

theorem removeIter_first (heq : m'.entries = (key, v) :: rest) :
    removeIter (linked m') key = .ok ((v, none, firstKey rest), linked (m'.erase key)) :=
  removeIter_linked (a := []) heq List.not_mem_nil (not_mem_rest heq)

theorem appendRound_fresh (heq : m'.entries = (key, v) :: rest) (h : key ∉ m.keys) :
    appendRound (linked m) (linked m') key =
      .ok (linked (m.push key v h), linked (m'.erase key), firstKey rest) := by
  rw [appendRound, removeIter_first heq, ok_bind]
  dsimp only
  rw [add_linked v h, ok_bind]
  rfl

theorem appendRound_shared (heq : m'.entries = (key, v) :: rest) (h : key ∈ m.keys) :
    Aborts (appendRound (linked m) (linked m') key) := by
  obtain ⟨e, he⟩ := add_linked_of_mem v h
  rw [appendRound, removeIter_first heq, ok_bind]
  dsimp only
  rw [he]
  exact ⟨_, rfl⟩

/-- A round of the loop. -/
theorem appendLoop_fresh {fuel : ℕ} (heq : m'.entries = (key, v) :: rest) (h : key ∉ m.keys) :
    appendLoop (fuel + 1) (linked m) (linked m') (firstKey ((key, v) :: rest)) =
      appendLoop fuel (linked (m.push key v h)) (linked (m'.erase key)) (firstKey rest) := by
  show appendLoop (fuel + 1) (linked m) (linked m') (some key) = _
  rw [appendLoop, appendRound_fresh heq h]

theorem disjoint_rest (heq : m'.entries = (key, v) :: rest) (h : ∀ k ∈ m.keys, k ∉ m'.keys) (hkey : key ∉ m.keys) :
    ∀ k ∈ (m.push key v hkey).keys, k ∉ (m'.erase key).keys := by
  intro k hk hk'
  rw [OrderedMap.mem_keys_of_entries_eq (erase_first heq)] at hk'
  rcases OrderedMap.mem_keys_push.mp hk with hk | rfl
  · apply h k hk
    rw [OrderedMap.mem_keys_of_entries_eq heq]
    exact List.mem_cons_of_mem _ hk'
  · exact not_mem_rest heq hk'

theorem append_rest (heq : m'.entries = (key, v) :: rest) (h : ∀ k ∈ m.keys, k ∉ m'.keys) (hkey : key ∉ m.keys) :
    (m.push key v hkey).append (m'.erase key) (disjoint_rest heq h hkey) = m.append m' h := by
  apply OrderedMap.ext
  calc m.entries ++ [(key, v)] ++ (m'.erase key).entries
      = m.entries ++ [(key, v)] ++ rest := by rw [erase_first heq]
    _ = m.entries ++ m'.entries := by rw [heq, List.append_assoc, List.singleton_append]

theorem appendLoop_disjoint {l : List (K × V)} (hl : m'.entries = l) (h : ∀ k ∈ m.keys, k ∉ m'.keys) {fuel : ℕ}
    (hfuel : l.length ≤ fuel) :
    appendLoop fuel (linked m) (linked m') (firstKey l) = some (.ok (linked (m.append m' h), linked .empty)) := by
  induction l generalizing m m' fuel with
  | nil =>
      obtain rfl : m' = .empty := OrderedMap.ext hl
      have happend : m.append .empty h = m := OrderedMap.ext (List.append_nil _)
      rw [happend]
      exact appendLoop.eq_1 _ _ _
  | cons e rest ih =>
      obtain ⟨key, v⟩ := e
      have hkey : key ∉ m.keys := fun hmem =>
        h key hmem ((OrderedMap.mem_keys_of_entries_eq hl).mpr List.mem_cons_self)
      obtain ⟨fuel, rfl⟩ := Nat.exists_eq_add_of_le' hfuel
      rw [List.length_cons, ← Nat.add_assoc, appendLoop_fresh hl hkey,
        ih (erase_first hl) (disjoint_rest hl h hkey) (Nat.le_add_left _ _), append_rest hl h hkey]

/-- The loop ends at the first key that both tables have. -/
theorem appendLoop_shared {l : List (K × V)} (hl : m'.entries = l) (h : ∃ k ∈ m.keys, k ∈ m'.keys) :
    ∃ e, ∀ fuel, l.length ≤ fuel → appendLoop fuel (linked m) (linked m') (firstKey l) = some (.error e) := by
  induction l generalizing m m' with
  | nil =>
      obtain ⟨k, -, hk⟩ := h
      rw [OrderedMap.mem_keys_of_entries_eq hl] at hk
      exact absurd hk List.not_mem_nil
  | cons first rest ih =>
      obtain ⟨key, v⟩ := first
      by_cases hkey : key ∈ m.keys
      · obtain ⟨e, he⟩ := appendRound_shared hl hkey
        refine ⟨e, fun fuel hfuel => ?_⟩
        obtain ⟨fuel, rfl⟩ := Nat.exists_eq_add_of_le' hfuel
        show appendLoop (fuel + rest.length + 1) (linked m) (linked m') (some key) = _
        rw [appendLoop, he]
      · have hrest : ∃ k ∈ (m.push key v hkey).keys, k ∈ (m'.erase key).keys := by
          obtain ⟨k, hk, hk'⟩ := h
          refine ⟨k, ?_, ?_⟩
          · exact OrderedMap.mem_keys_push.mpr (Or.inl hk)
          · rw [OrderedMap.mem_keys_of_entries_eq hl] at hk'
            rw [OrderedMap.mem_keys_of_entries_eq (erase_first hl)]
            rcases List.mem_cons.mp hk' with rfl | hk'
            · exact absurd hk hkey
            · exact hk'
        obtain ⟨e, he⟩ := ih (erase_first hl) hrest
        refine ⟨e, fun fuel hfuel => ?_⟩
        obtain ⟨fuel, rfl⟩ := Nat.exists_eq_add_of_le' hfuel
        rw [List.length_cons, ← Nat.add_assoc, appendLoop_fresh hl hkey]
        exact he _ (Nat.le_add_left _ _)

/-- A loop that has ended does so with more rounds allowed. -/
theorem appendLoop_mono {fuel more : ℕ} {v1 v2 : IterableTable K V} {next : Option K}
    {result : Exec (IterableTable K V × IterableTable K V)} (h : appendLoop fuel v1 v2 next = some result) :
    appendLoop (fuel + more) v1 v2 next = some result := by
  induction fuel generalizing v1 v2 next with
  | zero =>
      cases next with
      | none =>
          rw [appendLoop] at h ⊢
          exact h
      | some key => cases h
  | succ fuel ih =>
      cases next with
      | none =>
          rw [appendLoop] at h ⊢
          exact h
      | some key =>
          rw [Nat.add_right_comm]
          rw [appendLoop] at h ⊢
          cases hround : appendRound v1 v2 key with
          | error e =>
              rw [hround] at h
              exact h
          | ok round =>
              rw [hround] at h
              exact ih h

end Loop

/-! ### Reachable tables -/

/-- The tables that the functions of the module lead to. -/
inductive Reachable : IterableTable K V → Prop
  | new : Reachable new
  | call {table table' : IterableTable K V} {call : Call K V} {answer : Answer K V} :
      Reachable table → exec call table = .ok (answer, table') → Reachable table'
  | borrowIterMut {table table' : IterableTable K V} {key : K} {update : V → V} {entry : V × Option K × Option K} :
      Reachable table → borrowIterMut table key update = .ok (entry, table') → Reachable table'
  | appended {v1 v2 v1' v2' : IterableTable K V} {fuel : ℕ} :
      Reachable v1 → Reachable v2 → append fuel v1 v2 = some (.ok (v1', v2')) → Reachable v1'
  | emptied {v1 v2 v1' v2' : IterableTable K V} {fuel : ℕ} :
      Reachable v1 → Reachable v2 → append fuel v1 v2 = some (.ok (v1', v2')) → Reachable v2'

theorem borrowIterMut_eq_ok {table table' : IterableTable K V} {key : K} {update : V → V}
    {entry : V × Option K × Option K} (h : borrowIterMut table key update = .ok (entry, table')) :
    borrowMut table key update = .ok (entry.1, table') := by
  simp only [borrowIterMut, bind_eq_ok, pure_eq_ok, Prod.mk.injEq] at h
  obtain ⟨v, hv, rfl, rfl⟩ := h
  rw [borrowMut, hv, ok_bind]
  rfl

theorem exec_linked {m : OrderedMap K V} {table : IterableTable K V} {call : Call K V} {answer : Answer K V}
    (h : exec call (linked m) = .ok (answer, table)) : ∃ m', table = linked m' := by
  have hmatches := spec_matches m call
  rw [h] at hmatches
  generalize spec call m = result at hmatches
  cases hmatches with
  | ok _ htable => exact ⟨_, htable⟩

/-- What is left of two linked tables. -/
theorem append_linked {m m' : OrderedMap K V} {fuel : ℕ} {v1 v2 : IterableTable K V}
    (h : append fuel (linked m) (linked m') = some (.ok (v1, v2))) :
    ∃ hdisj : ∀ k ∈ m.keys, k ∉ m'.keys, v1 = linked (m.append m' hdisj) ∧ v2 = linked .empty := by
  have hmore : appendLoop (fuel + m'.entries.length) (linked m) (linked m') (firstKey m'.entries) =
      some (.ok (v1, v2)) := appendLoop_mono h
  by_cases hshared : ∃ k ∈ m.keys, k ∈ m'.keys
  · obtain ⟨e, he⟩ := appendLoop_shared rfl hshared
    rw [he _ (Nat.le_add_left _ _)] at hmore
    cases hmore
  · have hdisj : ∀ k ∈ m.keys, k ∉ m'.keys := fun k hk hk' => hshared ⟨k, hk, hk'⟩
    rw [appendLoop_disjoint rfl hdisj (Nat.le_add_left _ _)] at hmore
    obtain ⟨rfl, rfl⟩ := Prod.mk.inj (Except.ok.inj (Option.some.inj hmore))
    exact ⟨hdisj, rfl, rfl⟩

theorem Reachable.exists_linked {table : IterableTable K V} (h : Reachable table) : ∃ m, table = linked m := by
  induction h with
  | new => exact ⟨.empty, linked_empty.symm⟩
  | call _ hcall ih =>
      obtain ⟨m, rfl⟩ := ih
      exact exec_linked hcall
  | @borrowIterMut _ table' key update entry _ hborrow ih =>
      obtain ⟨m, rfl⟩ := ih
      have hcall : exec (.borrowMut key update) (linked m) = .ok (.value entry.1, table') := by
        rw [exec, borrowIterMut_eq_ok hborrow]
        rfl
      exact exec_linked hcall
  | appended _ _ happend ih1 ih2 =>
      obtain ⟨m, rfl⟩ := ih1
      obtain ⟨m', rfl⟩ := ih2
      obtain ⟨hdisj, hv1, -⟩ := append_linked happend
      exact ⟨_, hv1⟩
  | emptied _ _ happend ih1 ih2 =>
      obtain ⟨m, rfl⟩ := ih1
      obtain ⟨m', rfl⟩ := ih2
      obtain ⟨hdisj, -, hv2⟩ := append_linked happend
      exact ⟨_, hv2⟩

/-- Appending a reachable table to another ends. It aborts exactly if the two share a key; otherwise the
first table holds its entries followed by those of the second, which is empty. -/
theorem append_concatenates {K V : Type} [DecidableEq K] (v1 v2 : IterableTable K V) (h1 : Reachable v1)
    (h2 : Reachable v2) :
    ∃ (m1 m2 : OrderedMap K V) (result : Exec (IterableTable K V × IterableTable K V)),
      Represents v1 m1 ∧ Represents v2 m2 ∧
      (∀ fuel, length v2 ≤ fuel → append fuel v1 v2 = some result) ∧
      (Aborts result ↔ ∃ key, contains v1 key = true ∧ contains v2 key = true) ∧
      ∀ v1' v2', result = .ok (v1', v2') →
        ∃ m, m.entries = m1.entries ++ m2.entries ∧ Represents v1' m ∧ Represents v2' .empty ∧
          length v1' = length v1 + length v2 ∧ length v2' = 0 ∧ headKey v2' = none ∧ tailKey v2' = none ∧
          destroyEmpty v2' = .ok () := by
  obtain ⟨m1, rfl⟩ := h1.exists_linked
  obtain ⟨m2, rfl⟩ := h2.exists_linked
  simp only [contains_linked, decide_eq_true_eq]
  by_cases hshared : ∃ k ∈ m1.keys, k ∈ m2.keys
  · obtain ⟨e, he⟩ := appendLoop_shared rfl hshared
    exact ⟨m1, m2, .error e, linked_represents m1, linked_represents m2, he,
      ⟨fun _ => hshared, fun _ => ⟨e, rfl⟩⟩, nofun⟩
  · have hdisj : ∀ k ∈ m1.keys, k ∉ m2.keys := fun k hk hk' => hshared ⟨k, hk, hk'⟩
    refine ⟨m1, m2, .ok (linked (m1.append m2 hdisj), linked .empty), linked_represents m1, linked_represents m2,
      fun fuel hfuel => appendLoop_disjoint rfl hdisj hfuel, ⟨nofun, fun hkey => absurd hkey hshared⟩, ?_⟩
    intro v1' v2' h
    obtain ⟨rfl, rfl⟩ := Prod.mk.inj (Except.ok.inj h)
    exact ⟨_, rfl, linked_represents _, linked_represents _, List.length_append, rfl, rfl, rfl,
      destroyEmpty_linked rfl⟩

/-- The keys one and four are appended to three and two. -/
theorem append_concatenates_small :
    ∃ v1 v2 : IterableTable ℕ ℕ, Reachable v1 ∧ Reachable v2 ∧ followNext v1 2 (headKey v1) = some [3, 2] ∧
      followNext v2 2 (headKey v2) = some [1, 4] ∧ ∃ v1' v2', append 2 v1 v2 = some (.ok (v1', v2')) ∧
        followNext v1' 4 (headKey v1') = some [3, 2, 1, 4] ∧ headKey v2' = none := by
  have hadd : ∀ key : ℕ, exec (.add key (10 * key)) new = .ok (.done, run exec new [.add key (10 * key)]) :=
    fun key => rfl
  have h1 : Reachable (run exec new [.add 3 30, .add 2 20] : IterableTable ℕ ℕ) :=
    .call (.call .new (hadd 3)) (show exec (.add 2 20) _ = .ok (.done, _) from rfl)
  have h2 : Reachable (run exec new [.add 1 10, .add 4 40] : IterableTable ℕ ℕ) :=
    .call (.call .new (hadd 1)) (show exec (.add 4 40) _ = .ok (.done, _) from rfl)
  obtain ⟨m1, m2, result, hm1, hm2, happend, habort, hok⟩ := append_concatenates _ _ h1 h2
  have hkeys1 : [3, 2] = m1.keys := Option.some.inj (hm1.followNext_eq 2 (Nat.le_refl 2))
  have hkeys2 : [1, 4] = m2.keys := Option.some.inj (hm2.followNext_eq 2 (Nat.le_refl 2))
  refine ⟨_, _, h1, h2, rfl, rfl, ?_⟩
  cases result with
  | error e =>
      obtain ⟨key, hkey1, hkey2⟩ := habort.mp ⟨e, rfl⟩
      rw [hm1.contains_iff, ← hkeys1] at hkey1
      rw [hm2.contains_iff, ← hkeys2] at hkey2
      simp only [List.mem_cons, List.not_mem_nil, or_false] at hkey1 hkey2
      omega
  | ok result =>
      obtain ⟨m, hentries, hm, -, hlength, -, hhead, -⟩ := hok result.1 result.2 rfl
      have hkeys : m.keys = [3, 2, 1, 4] := by
        rw [OrderedMap.keys, hentries, List.map_append]
        exact congrArg₂ (· ++ ·) hkeys1.symm hkeys2.symm
      refine ⟨result.1, result.2, happend 2 (Nat.le_refl 2), ?_, hhead⟩
      rw [← hkeys]
      exact hm.followNext_eq 4 (Nat.le_of_eq hlength)

end MoveTutorial.Iterable
