import MoveTutorial.IterableLinks

/-! Iterable tables are insertion-ordered maps. On the table that links a map, every operation aborts or
returns as the operation on the map does and leaves the table that links the map after it, so the two
agree over whole runs. -/

namespace MoveTutorial.Iterable

open Move

variable {K V : Type} [DecidableEq K]

/-! ### Operations on linked tables -/

section Operations

variable {m : OrderedMap K V} {key : K} {v : V} {a b : List (K × V)}

theorem linked_inner_of_split (heq : m.entries = a ++ (key, v) :: b) (ha : key ∉ a.map Prod.fst) :
    (linked m).inner.inner key = some ⟨v, lastKey a, firstKey b⟩ := by
  show segment none m.entries none key = _
  rw [heq, segment_append, segment_eq_none ha, Option.none_or, segment, if_pos rfl, Option.or_none,
    Option.or_none]

theorem linked_inner_of_not_mem (h : key ∉ m.keys) : (linked m).inner.inner key = none := segment_eq_none h

omit [DecidableEq K] in
theorem head_push (l : List (K × V)) (key : K) :
    (if (lastKey l).isSome then firstKey l else some key) = (firstKey l).or (some key) := by
  cases l with
  | nil => rfl
  | cons e rest => simp [lastKey_cons, firstKey]

theorem add_linked (val : V) (h : key ∉ m.keys) :
    add (linked m) key val = .ok (linked (m.push key val h)) := by
  have hadd : (linked m).inner.add key ⟨val, lastKey m.entries, none⟩ =
      .ok ⟨Function.update (segment none m.entries none) key (some ⟨val, lastKey m.entries, none⟩),
        m.entries.length + 1⟩ := TableWithLength.add_of_none (linked_inner_of_not_mem h)
  have hlast : ∀ k, lastKey m.entries = some k →
      Function.update (segment none m.entries none) key (some ⟨val, lastKey m.entries, none⟩) k ≠ none := by
    intro k hk
    have hmem := mem_of_lastKey hk
    have hne : k ≠ key := fun heq => h (heq ▸ hmem)
    rw [Function.update_of_ne hne]
    exact segment_ne_none hmem
  rw [add]
  dsimp only [linked] at hadd ⊢
  rw [hadd, ok_bind, setNext_ok _ hlast, ok_bind]
  refine congrArg Except.ok ?_
  simp only [OrderedMap.push, IterableTable.mk.injEq, TableWithLength.mk.injEq]
  refine ⟨⟨?_, by simp⟩, ?_, by rw [lastKey_append]; rfl⟩
  · funext x
    rw [segment_append, segment_after m.nodup none none]
    by_cases hx : x = key
    · subst hx
      have hne : lastKey m.entries ≠ some x := fun heq => h (mem_of_lastKey heq)
      rw [if_neg hne, if_neg hne, Function.update_self, segment_eq_none h, Option.none_or, segment,
        if_pos rfl, Option.or_none]
      rfl
    · have hsingle : segment ((lastKey m.entries).or none) [(key, val)] none x = none := by
        rw [segment, if_neg hx, segment]
      rw [Function.update_of_ne hx, hsingle, Option.or_none]
      rfl
  · rw [firstKey_append]
    exact head_push m.entries key

theorem contains_linked (m : OrderedMap K V) (key : K) : contains (linked m) key = decide (key ∈ m.keys) := by
  by_cases h : key ∈ m.keys
  · obtain ⟨a, v, b, heq, ha, -⟩ := OrderedMap.split_of_mem h
    rw [contains, TableWithLength.contains, linked_inner_of_split heq ha, decide_eq_true h]
    rfl
  · rw [contains, TableWithLength.contains, linked_inner_of_not_mem h, decide_eq_false h]
    rfl

theorem add_linked_of_mem (val : V) (h : key ∈ m.keys) : Aborts (add (linked m) key val) := by
  obtain ⟨a, v, b, heq, ha, -⟩ := OrderedMap.split_of_mem h
  rw [add]
  simp only [TableWithLength.add, linked_inner_of_split heq ha]
  exact ⟨_, rfl⟩

/-- The table after the key is unlinked: the neighbours point past it. -/
theorem segment_erase (hnodup : ((a ++ (key, v) :: b).map Prod.fst).Nodup) (x : K) :
    segment none (a ++ b) none x =
      if x = key then none
      else if firstKey b = some x then
        (segment none (a ++ (key, v) :: b) none x).map fun e => { e with prev := lastKey a }
      else if lastKey a = some x then
        (segment none (a ++ (key, v) :: b) none x).map fun e => { e with next := firstKey b }
      else segment none (a ++ (key, v) :: b) none x := by
  rw [List.map_append, List.map_cons, List.nodup_append, List.nodup_cons] at hnodup
  obtain ⟨hnodupA, ⟨hkeyB, hnodupB⟩, hdisj⟩ := hnodup
  have hkeyA : key ∉ a.map Prod.fst := fun h => hdisj key h key List.mem_cons_self rfl
  rw [segment_append, segment_append]
  by_cases hx : x = key
  · subst hx
    rw [if_pos rfl, segment_eq_none hkeyA, segment_eq_none hkeyB, Option.none_or]
  · rw [if_neg hx, segment, if_neg hx]
    simp only [firstKey, List.map_cons, List.head?_cons, Option.or_none]
    by_cases hxA : x ∈ a.map Prod.fst
    · have hxB : x ∉ b.map Prod.fst := fun h => hdisj x hxA x (List.mem_cons_of_mem _ h) rfl
      have hfirst : (b.map Prod.fst).head? ≠ some x := fun h => hxB (List.mem_of_head? h)
      rw [if_neg hfirst, segment_eq_none hxB, segment_eq_none hxB, Option.or_none, Option.or_none]
      exact segment_after hnodupA none (some key) _ x
    · have hlast : lastKey a ≠ some x := fun h => hxA (mem_of_lastKey h)
      rw [if_neg hlast, segment_eq_none hxA, segment_eq_none hxA, Option.none_or, Option.none_or]
      exact segment_before b (some key) (lastKey a) none x

theorem head_erase {l : List (K × V)} (heq : l = a ++ (key, v) :: b) (ha : key ∉ a.map Prod.fst) :
    (if firstKey l = some key then firstKey b else firstKey l) = firstKey (a ++ b) := by
  subst heq
  rw [firstKey_append, firstKey_append]
  cases a with
  | nil => simp [firstKey]
  | cons e rest =>
      have hne : e.1 ≠ key := fun h => ha (by simp [h])
      simp [firstKey, hne]

theorem tail_erase {l : List (K × V)} (heq : l = a ++ (key, v) :: b) (hb : key ∉ b.map Prod.fst) :
    (if lastKey l = some key then lastKey a else lastKey l) = lastKey (a ++ b) := by
  subst heq
  rw [lastKey_append, lastKey_append, lastKey_cons]
  cases hlast : lastKey b with
  | none => simp
  | some k =>
      have hne : k ≠ key := fun h => hb (h ▸ mem_of_lastKey hlast)
      simp [hne]

theorem removeIter_linked (heq : m.entries = a ++ (key, v) :: b) (ha : key ∉ a.map Prod.fst)
    (hb : key ∉ b.map Prod.fst) :
    removeIter (linked m) key = .ok ((v, lastKey a, firstKey b), linked (m.erase key)) := by
  have hnodup := m.nodup
  have hentries := OrderedMap.erase_of_split heq ha hb
  have hremove := TableWithLength.remove_of_some (linked_inner_of_split heq ha)
  have hne_of_mem : ∀ {k l}, key ∉ List.map Prod.fst l → k ∈ List.map (Prod.fst : K × V → K) l → k ≠ key :=
    fun hl hk heq => hl (heq ▸ hk)
  have hlast : ∀ k, lastKey a = some k →
      Function.update (linked m).inner.inner key none k ≠ none := by
    intro k hk
    rw [Function.update_of_ne (hne_of_mem ha (mem_of_lastKey hk))]
    apply segment_ne_none
    rw [heq, List.map_append]
    exact List.mem_append_left _ (mem_of_lastKey hk)
  have hfirst : ∀ k, firstKey b = some k → (if lastKey a = some k then
      (Function.update (linked m).inner.inner key none k).map fun e => { e with next := firstKey b }
      else Function.update (linked m).inner.inner key none k) ≠ none := by
    intro k hk
    have hmem : segment none m.entries none k ≠ none := by
      apply segment_ne_none
      rw [heq, List.map_append, List.map_cons]
      exact List.mem_append_right _ (List.mem_cons_of_mem _ (mem_of_firstKey hk))
    rw [Function.update_of_ne (hne_of_mem hb (mem_of_firstKey hk))]
    split
    · rw [ne_eq, Option.map_eq_none_iff]
      exact hmem
    · exact hmem
  rw [removeIter, hremove, ok_bind]
  dsimp only
  rw [setNext_ok _ hlast, ok_bind, setPrev_ok _ hfirst, ok_bind]
  refine congrArg Except.ok ?_
  simp only [linked, Prod.mk.injEq, true_and, IterableTable.mk.injEq, TableWithLength.mk.injEq, hentries]
  refine ⟨⟨?_, by simp [heq]⟩, head_erase heq ha, tail_erase heq hb⟩
  rw [heq] at hnodup
  funext x
  rw [segment_erase hnodup x, ← heq]
  by_cases hx : x = key
  · subst hx
    simp
  · rw [if_neg hx, Function.update_of_ne hx]
    by_cases hf : firstKey b = some x
    · have hl : lastKey a ≠ some x := by
        intro hl
        rw [List.map_append, List.map_cons, List.nodup_append] at hnodup
        exact hnodup.2.2 x (mem_of_lastKey hl) x (List.mem_cons_of_mem _ (mem_of_firstKey hf)) rfl
      rw [if_pos hf, if_pos hf, if_neg hl]
    · rw [if_neg hf, if_neg hf]

theorem removeIter_linked_of_not_mem (h : key ∉ m.keys) : Aborts (removeIter (linked m) key) := by
  rw [removeIter]
  simp only [TableWithLength.remove, linked_inner_of_not_mem h]
  exact ⟨_, rfl⟩

theorem borrowMut_linked (f : V → V) (heq : m.entries = a ++ (key, v) :: b) (ha : key ∉ a.map Prod.fst)
    (hb : key ∉ b.map Prod.fst) : borrowMut (linked m) key f = .ok (v, linked (m.modify key f)) := by
  have hentries := OrderedMap.modify_of_split heq ha hb f
  rw [borrowMut, TableWithLength.borrow_of_some (linked_inner_of_split heq ha), ok_bind]
  refine congrArg Except.ok ?_
  simp only [linked, TableWithLength.write, hentries, heq, Prod.mk.injEq, true_and, IterableTable.mk.injEq,
    TableWithLength.mk.injEq]
  refine ⟨⟨?_, by simp⟩, by simp [firstKey], by simp [lastKey]⟩
  funext x
  rw [segment_append, segment]
  by_cases hx : x = key
  · subst hx
    rw [Function.update_self, if_pos rfl, segment_eq_none ha]
    simp
  · rw [Function.update_of_ne hx, segment_append, segment, if_neg hx, if_neg hx]
    simp [firstKey]

theorem borrowMut_linked_of_not_mem (f : V → V) (h : key ∉ m.keys) :
    Aborts (borrowMut (linked m) key f) := by
  rw [borrowMut]
  simp only [TableWithLength.borrow, linked_inner_of_not_mem h]
  exact ⟨_, rfl⟩

end Operations

/-! ### Iteration on linked tables -/

section Iteration

variable {m : OrderedMap K V}

theorem borrowIter_linked {key : K} {v : V} {a b : List (K × V)} (heq : m.entries = a ++ (key, v) :: b) :
    borrowIter (linked m) key = .ok (v, lastKey a, firstKey b) := by
  have hnodup := m.nodup
  rw [heq, List.map_append, List.map_cons, List.nodup_append] at hnodup
  have ha : key ∉ a.map Prod.fst := fun h => hnodup.2.2 key h key List.mem_cons_self rfl
  rw [borrowIter, TableWithLength.borrow_of_some (linked_inner_of_split heq ha), ok_bind]
  rfl

theorem followNext_linked {a b : List (K × V)} {fuel : ℕ} (heq : m.entries = a ++ b) (hfuel : b.length ≤ fuel) :
    followNext (linked m) fuel (firstKey b) = some (b.map Prod.fst) := by
  induction b generalizing a fuel with
  | nil => exact followNext.eq_1 _ _
  | cons e rest ih =>
      obtain ⟨key, v⟩ := e
      obtain ⟨fuel, rfl⟩ := Nat.exists_eq_succ_of_ne_zero (Nat.ne_of_gt (Nat.lt_of_lt_of_le (Nat.succ_pos _) hfuel))
      have hrest : m.entries = (a ++ [(key, v)]) ++ rest := by rw [heq, List.append_assoc]; rfl
      show followNext (linked m) (fuel + 1) (some key) = _
      rw [followNext, borrowIter_linked heq]
      dsimp only
      rw [ih hrest (Nat.le_of_succ_le_succ hfuel)]
      rfl

theorem followPrev_linked {a b : List (K × V)} {fuel : ℕ} (heq : m.entries = a ++ b) (hfuel : a.length ≤ fuel) :
    followPrev (linked m) fuel (lastKey a) = some (a.map Prod.fst).reverse := by
  induction a using List.reverseRecOn generalizing b fuel with
  | nil => exact followPrev.eq_1 _ _
  | append_singleton front e ih =>
      obtain ⟨key, v⟩ := e
      rw [List.length_append, List.length_singleton] at hfuel
      obtain ⟨fuel, rfl⟩ := Nat.exists_eq_succ_of_ne_zero (Nat.ne_of_gt (Nat.lt_of_lt_of_le (Nat.succ_pos _) hfuel))
      have hfront : m.entries = front ++ ((key, v) :: b) := by rw [heq, List.append_assoc]; rfl
      have hlast : lastKey (front ++ [(key, v)]) = some key := by rw [lastKey_append]; rfl
      rw [hlast, followPrev, borrowIter_linked hfront]
      dsimp only
      rw [ih hfront (Nat.le_of_succ_le_succ hfuel), List.map_append, List.reverse_append]
      rfl

end Iteration

/-! ### The map a run builds -/

/-- The calls on a map that remembers the order of insertion. -/
def spec : Call K V → OrderedMap K V → Exec (Answer K V × OrderedMap K V)
  | .add key val, m =>
      if h : key ∈ m.keys then .error (.code (invalidArgument 100)) else .ok (.done, m.push key val h)
  | .remove key, m =>
      match m.find? key with
      | some v => .ok (.value v, m.erase key)
      | none => .error (.code (invalidArgument 101))
  | .removeIter key, m =>
      match m.find? key with
      | some v => .ok (.entry v (m.neighbours key).1 (m.neighbours key).2, m.erase key)
      | none => .error (.code (invalidArgument 101))
  | .borrowMut key update, m =>
      match m.find? key with
      | some v => .ok (.value v, m.modify key update)
      | none => .error (.code (invalidArgument 101))
  | .borrowMutWithDefault key default update, m =>
      if h : key ∈ m.keys then .ok (.value ((m.find? key).getD default), m.modify key update)
      else .ok (.value default, m.push key (update default) h)

theorem spec_matches (m : OrderedMap K V) (call : Call K V) :
    Matches (fun table m => table = linked m) (exec call (linked m)) (spec call m) := by
  cases call with
  | add key val =>
      rw [exec, spec]
      by_cases h : key ∈ m.keys
      · obtain ⟨e, he⟩ := add_linked_of_mem val h
        rw [dif_pos h, he]
        exact Matches.error _ _
      · rw [dif_neg h, add_linked val h]
        exact Matches.ok _ rfl
  | remove key =>
      rw [exec, spec, remove]
      rcases m.find?_cases key with ⟨a, v, b, heq, ha, hb, hv⟩ | ⟨h, hnone⟩
      · rw [hv, removeIter_linked heq ha hb]
        exact Matches.ok _ rfl
      · obtain ⟨e, he⟩ := removeIter_linked_of_not_mem h
        rw [hnone, he]
        exact Matches.error _ _
  | removeIter key =>
      rw [exec, spec]
      rcases m.find?_cases key with ⟨a, v, b, heq, ha, hb, hv⟩ | ⟨h, hnone⟩
      · rw [hv, OrderedMap.neighbours_of_split heq ha, removeIter_linked heq ha hb]
        exact Matches.ok _ rfl
      · obtain ⟨e, he⟩ := removeIter_linked_of_not_mem h
        rw [hnone, he]
        exact Matches.error _ _
  | borrowMut key update =>
      rw [exec, spec]
      rcases m.find?_cases key with ⟨a, v, b, heq, ha, hb, hv⟩ | ⟨h, hnone⟩
      · rw [hv, borrowMut_linked update heq ha hb]
        exact Matches.ok _ rfl
      · obtain ⟨e, he⟩ := borrowMut_linked_of_not_mem update h
        rw [hnone, he]
        exact Matches.error _ _
  | borrowMutWithDefault key default update =>
      rw [exec, spec, borrowMutWithDefault, contains_linked]
      by_cases h : key ∈ m.keys
      · obtain ⟨a, v, b, heq, ha, hb⟩ := OrderedMap.split_of_mem h
        rw [dif_pos h, OrderedMap.find?_of_split heq ha, if_neg (by simp [h])]
        show Matches _ (borrowMut (linked m) key update >>= _) _
        rw [borrowMut_linked update heq ha hb]
        exact Matches.ok _ rfl
      · have hsplit : (m.push key default h).entries = m.entries ++ (key, default) :: [] := rfl
        have hnil : key ∉ ([] : List (K × V)).map Prod.fst := List.not_mem_nil
        have hpush : (m.push key default h).modify key update = m.push key (update default) h :=
          OrderedMap.ext (OrderedMap.modify_of_split hsplit h hnil update)
        rw [dif_neg h, if_pos (by simp [h]), add_linked default h]
        show Matches _ (borrowMut (linked (m.push key default h)) key update >>= _) _
        rw [borrowMut_linked update hsplit h hnil, hpush]
        exact Matches.ok _ rfl

/-- The table holds the keys of the map, linked in the order of their insertion. -/
structure Represents (table : IterableTable K V) (m : OrderedMap K V) : Prop where
  contains_iff : ∀ key, contains table key = true ↔ key ∈ m.keys
  length_eq : length table = m.keys.length
  headKey_eq : headKey table = m.keys.head?
  tailKey_eq : tailKey table = m.keys.getLast?
  borrowIter_eq : ∀ key v, m.find? key = some v →
    borrowIter table key = .ok (v, (m.neighbours key).1, (m.neighbours key).2)
  followNext_eq : ∀ fuel ≥ length table, followNext table fuel (headKey table) = some m.keys
  followPrev_eq : ∀ fuel ≥ length table, followPrev table fuel (tailKey table) = some m.keys.reverse

theorem linked_represents (m : OrderedMap K V) : Represents (linked m) m where
  contains_iff key := by rw [contains_linked, decide_eq_true_eq]
  length_eq := (List.length_map _).symm
  headKey_eq := rfl
  tailKey_eq := rfl
  borrowIter_eq key v hv := by
    rcases m.find?_cases key with ⟨a, v', b, heq, ha, -, hv'⟩ | ⟨-, hnone⟩
    · obtain rfl : v = v' := Option.some.inj (hv.symm.trans hv')
      rw [OrderedMap.neighbours_of_split heq ha]
      exact borrowIter_linked heq
    · rw [hnone] at hv
      cases hv
  followNext_eq fuel hfuel := followNext_linked (List.nil_append _).symm hfuel
  followPrev_eq fuel hfuel := followPrev_linked (List.append_nil _).symm hfuel

theorem destroyEmpty_linked {m : OrderedMap K V} (h : m.entries = []) : destroyEmpty (linked m) = .ok () := by
  have hnew : linked m = new := by
    rw [← linked_empty]
    exact congrArg linked (OrderedMap.ext h)
  rw [hnew]
  rfl

theorem empty_linked (m : OrderedMap K V) : empty (linked m) = true ↔ m.entries = [] := by
  rw [empty, TableWithLength.empty, beq_iff_eq]
  exact List.length_eq_zero_iff

theorem run_linked (calls : List (Call K V)) :
    answers exec new calls = answers spec .empty calls ∧ run exec new calls = linked (run spec .empty calls) := by
  refine run_simulates (R := fun table m => table = linked m) ?_ rfl (along_true new calls)
  intro table m call htable _
  rw [htable]
  exact spec_matches m call

/-- Every run on a new table answers as the map does and leaves the map's keys linked in the order of
their insertion; a table without entries can be destroyed. -/
theorem iterable_table_refines_ordered_map (calls : List (Call K V)) :
    answers exec new calls = answers spec .empty calls ∧
      Represents (run exec new calls) (run spec .empty calls) ∧
      (empty (run exec new calls) = true ↔ (run spec .empty calls).keys = []) ∧
      (empty (run exec new calls) = true → destroyEmpty (run exec new calls) = .ok ()) := by
  obtain ⟨hanswers, hlinked⟩ := run_linked calls
  rw [hlinked]
  refine ⟨hanswers, linked_represents _, ?_, ?_⟩
  · rw [empty_linked, OrderedMap.keys, List.map_eq_nil_iff]
  · intro h
    exact destroyEmpty_linked ((empty_linked _).mp h)

end MoveTutorial.Iterable
