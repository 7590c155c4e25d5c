import MoveTutorial.BucketPlacement

/-! Bucket tables are finite maps. A table whose entries are placed answers each call as the map of
their pairs does, and stays such a table; over whole runs the two agree. -/

namespace MoveTutorial.BucketTable

open Move

variable {K V : Type} [DecidableEq K]

/-- The calls on finite maps. -/
def spec : Call K V → (Finmap fun _ : K => V) → Exec (Answer V × Finmap fun _ : K => V)
  | .add key value, m =>
      match m.lookup key with
      | some _ => .error (.code (invalidArgument ealreadyExist))
      | none => .ok (.done, m.insert key value)
  | .remove key, m =>
      match m.lookup key with
      | some value => .ok (.value value, m.erase key)
      | none => .error (.code (invalidArgument enotFound))
  | .borrow key, m =>
      match m.lookup key with
      | some value => .ok (.value value, m)
      | none => .error (.code (invalidArgument enotFound))
  | .borrowMut key update, m =>
      match m.lookup key with
      | some value => .ok (.value value, m.insert key (update value))
      | none => .error (.code (invalidArgument enotFound))
  | .contains key, m => .ok (.present (m.lookup key).isSome, m)
  | .split _, m => .ok (.done, m)

/-- The counters fit: the level stays below 63, and the load factor can be computed for a key that is
added. -/
def Room (sipHash : K → ℕ) (map : BucketTable K V) : Call K V → Prop
  | .add key _ => contains sipHash map key = .ok false →
      (map.len + 1) * 100 < 2 ^ 64 ∧ map.numBuckets * targetLoadPerBucket < 2 ^ 64
  | .split additionalBuckets => map.numBuckets + additionalBuckets < 2 ^ 63
  | _ => True

/-- The table holds the pairs of the map. -/
structure Holds (sipHash : K → ℕ) (content : ℕ → List (Entry K V)) (map : BucketTable K V)
    (m : Finmap fun _ : K => V) : Prop where
  buckets_eq : map.buckets = .below map.numBuckets content
  levelled : Levelled map.level map.numBuckets
  placed : Placed sipHash map.level map.numBuckets content m
  len_eq : map.len = m.keys.card

/-- The table represents the map. -/
def Represents (sipHash : K → ℕ) (map : BucketTable K V) (m : Finmap fun _ : K => V) : Prop :=
  ∃ content, Holds sipHash content map m

section Lookup

variable {sipHash : K → ℕ} {content : ℕ → List (Entry K V)} {map : BucketTable K V}
  {m : Finmap fun _ : K => V}

theorem Holds.bucketIndex_eq (h : Holds sipHash content map m) (key : K) :
    bucketIndex map.level map.numBuckets (sipHash key) = .ok (address map.level map.numBuckets (sipHash key)) :=
  bucketIndex_ok h.levelled.level_lt _ _

theorem Holds.bucket_eq (h : Holds sipHash content map m) (hash : ℕ) :
    map.buckets.borrow (address map.level map.numBuckets hash) =
      .ok (content (address map.level map.numBuckets hash)) := by
  rw [h.buckets_eq]
  exact TableWithLength.borrow_below (address_lt h.levelled hash)

/-- Searching the bucket of a key finds its value, if it is present. -/
theorem Holds.position_cases (h : Holds sipHash content map m) (key : K) :
    (position (content (address map.level map.numBuckets (sipHash key))) key = none ∧ m.lookup key = none) ∨
      ∃ i e, position (content (address map.level map.numBuckets (sipHash key))) key = some i ∧
        (content (address map.level map.numBuckets (sipHash key)))[i]? = some e ∧ e.key = key ∧
        m.lookup key = some e.value := by
  cases hposition : position (content (address map.level map.numBuckets (sipHash key))) key with
  | none =>
      refine Or.inl ⟨rfl, h.placed.lookup_eq_none ?_⟩
      intro e he
      have hne := List.findIdx?_eq_none_iff.mp hposition e he
      simpa using hne
  | some i =>
      obtain ⟨hi, hkey, -⟩ := List.findIdx?_eq_some_iff_getElem.mp hposition
      rw [decide_eq_true_eq] at hkey
      have hsome := h.placed.lookup_eq_some (List.getElem_mem hi)
      rw [hkey] at hsome
      exact Or.inr ⟨i, _, rfl, List.getElem?_eq_getElem hi, hkey, hsome⟩

theorem Holds.borrow_eq (h : Holds sipHash content map m) (key : K) :
    borrow sipHash map key = match m.lookup key with
      | some value => .ok value
      | none => .error (.code (invalidArgument enotFound)) := by
  rw [borrow, h.bucketIndex_eq, ok_bind, h.bucket_eq, ok_bind]
  rcases h.position_cases key with ⟨hposition, hnone⟩ | ⟨i, e, hposition, he, -, hsome⟩
  · rw [hnone, hposition]
  · rw [hsome, hposition]
    dsimp only
    rw [Vec.borrow_of_getElem? he]
    rfl

theorem Holds.contains_eq (h : Holds sipHash content map m) (key : K) :
    contains sipHash map key = .ok (m.lookup key).isSome := by
  rw [contains, h.bucketIndex_eq, ok_bind, h.bucket_eq, ok_bind]
  rcases h.position_cases key with ⟨hposition, hnone⟩ | ⟨i, e, hposition, -, -, hsome⟩
  · rw [hnone, hposition]
    rfl
  · rw [hsome, hposition]
    rfl

end Lookup

/-! ### Operations -/

section Operations

variable {sipHash : K → ℕ} {content : ℕ → List (Entry K V)} {map : BucketTable K V}
  {m : Finmap fun _ : K => V} {key : K} {value : V}

theorem card_insert (h : m.lookup key = none) : (m.insert key value).keys.card = m.keys.card + 1 := by
  have hkeys : (m.insert key value).keys = Insert.insert key m.keys := by
    ext x
    rw [Finmap.mem_keys, Finmap.mem_insert, Finset.mem_insert, Finmap.mem_keys]
  rw [hkeys, Finset.card_insert_of_notMem]
  rw [Finmap.mem_keys]
  exact Finmap.lookup_eq_none.mp h

theorem card_pos (h : m.lookup key = some value) : 0 < m.keys.card :=
  Finset.card_pos.mpr ⟨key, Finmap.mem_keys.mpr (Finmap.mem_of_lookup_eq_some h)⟩

theorem card_erase (h : m.lookup key = some value) : (m.erase key).keys.card = m.keys.card - 1 := by
  rw [Finmap.keys_erase, Finset.card_erase_of_mem]
  rw [Finmap.mem_keys]
  exact Finmap.mem_of_lookup_eq_some h

theorem insert_erase (m : Finmap fun _ : K => V) (key : K) (value : V) :
    (m.erase key).insert key value = m.insert key value := by
  apply Finmap.ext_lookup
  intro x
  by_cases hx : x = key
  · rw [hx, Finmap.lookup_insert, Finmap.lookup_insert]
  · rw [Finmap.lookup_insert_of_ne _ hx, Finmap.lookup_insert_of_ne _ hx, Finmap.lookup_erase_ne hx]

/-- Writing the bucket of a hash, and a new count of entries. -/
theorem Holds.write (h : Holds sipHash content map m) {hash len : ℕ} {bucket : List (Entry K V)}
    {m' : Finmap fun _ : K => V}
    (hplaced : Placed sipHash map.level map.numBuckets
      (Function.update content (address map.level map.numBuckets hash) bucket) m')
    (hlen : len = m'.keys.card) :
    Represents sipHash
      { map with buckets := map.buckets.write (address map.level map.numBuckets hash) bucket, len } m' := by
  refine ⟨_, ?_, h.levelled, hplaced, hlen⟩
  dsimp only
  rw [h.buckets_eq]
  exact TableWithLength.write_below (address_lt h.levelled hash) bucket

theorem Represents.split_one (h : Represents sipHash map m) (hroom : map.numBuckets + 1 < 2 ^ 63) :
    ∃ map', splitOneBucket map = .ok map' ∧ Represents sipHash map' m ∧ map'.numBuckets = map.numBuckets + 1 := by
  obtain ⟨content, hbuckets, hlevelled, hplaced, hlen⟩ := h
  obtain ⟨buckets, numBuckets, level, len⟩ := map
  dsimp only at hbuckets hlevelled hplaced hlen hroom
  subst hbuckets
  obtain ⟨lower, upper, hsplit, hperm, hlower, hupper⟩ := splitOneBucket_spec content len hlevelled hroom
  refine ⟨_, hsplit, ⟨_, rfl, nextLevel_levelled hlevelled hroom, ?_, hlen⟩, rfl⟩
  exact hplaced.divided hlevelled hperm hlower hupper

theorem Represents.split (h : Represents sipHash map m) {additionalBuckets : ℕ}
    (hroom : map.numBuckets + additionalBuckets < 2 ^ 63) :
    ∃ map', BucketTable.split map additionalBuckets = .ok map' ∧ Represents sipHash map' m := by
  induction additionalBuckets generalizing map with
  | zero => exact ⟨map, rfl, h⟩
  | succ additionalBuckets ih =>
      obtain ⟨map', hsplit, hmap', hnum⟩ := h.split_one (by omega)
      obtain ⟨map'', hrest, hmap''⟩ := ih hmap' (by omega)
      refine ⟨map'', ?_, hmap''⟩
      rw [BucketTable.split, hsplit, ok_bind]
      exact hrest

theorem Holds.add_absent (h : Holds sipHash content map m) (hnew : m.lookup key = none) (value : V)
    (hroom : (map.len + 1) * 100 < 2 ^ 64 ∧ map.numBuckets * targetLoadPerBucket < 2 ^ 64) :
    ∃ map', add sipHash map key value = .ok map' ∧ Represents sipHash map' (m.insert key value) := by
  obtain ⟨hlen, hbuckets⟩ := hroom
  have hpos := (Nat.two_pow_pos map.level).trans_le h.levelled.le
  have htarget : 0 < map.numBuckets * targetLoadPerBucket := Nat.mul_pos hpos (by decide)
  have habsent : ∀ e ∈ content (address map.level map.numBuckets (sipHash key)), e.key ≠ key :=
    fun e he => h.placed.key_ne hnew he
  have hinserted := h.write (h.placed.insert (e := ⟨sipHash key, key, value⟩) rfl rfl
    (List.perm_append_singleton _ _) hnew) (by rw [card_insert hnew, ← h.len_eq])
  rw [add, h.bucketIndex_eq, ok_bind, h.bucket_eq, ok_bind, assert_pos _ habsent, ok_bind, add_ok (by omega), ok_bind]
  dsimp only
  rw [loadFactor]
  dsimp only
  rw [mul_ok hlen, ok_bind, mul_ok hbuckets, ok_bind, div_ok htarget, ok_bind]
  split
  · rw [targetLoadPerBucket] at hbuckets
    obtain ⟨map', hsplit, hmap', -⟩ := hinserted.split_one (by dsimp only; omega)
    exact ⟨map', hsplit, hmap'⟩
  · exact ⟨_, rfl, hinserted⟩

theorem Holds.add_present (h : Holds sipHash content map m) {old : V} (hold : m.lookup key = some old) (value : V) :
    Aborts (add sipHash map key value) := by
  have hpresent : ¬∀ e ∈ content (address map.level map.numBuckets (sipHash key)), e.key ≠ key := by
    intro habsent
    rw [h.placed.lookup_eq_none habsent] at hold
    cases hold
  rw [add, h.bucketIndex_eq, ok_bind, h.bucket_eq, ok_bind, assert_neg _ hpresent]
  exact ⟨_, rfl⟩

theorem Holds.remove_present (h : Holds sipHash content map m) {i : ℕ} {e : Entry K V}
    (hposition : position (content (address map.level map.numBuckets (sipHash key))) key = some i)
    (he : (content (address map.level map.numBuckets (sipHash key)))[i]? = some e) (hkey : e.key = key) :
    ∃ map', remove sipHash map key = .ok (e.value, map') ∧ Represents sipHash map' (m.erase key) := by
  have hsome := h.placed.lookup_eq_some (List.mem_of_getElem? he)
  have hpos : 1 ≤ map.len := by
    rw [h.len_eq]
    exact card_pos hsome
  obtain ⟨bucket, hswap, hperm⟩ := Vec.swapRemove_perm he
  have herased := h.write (h.placed.erase hperm) (by rw [card_erase hsome, ← h.len_eq])
  rw [hkey] at herased
  refine ⟨_, ?_, herased⟩
  rw [remove, h.bucketIndex_eq, ok_bind, h.bucket_eq, ok_bind, hposition]
  dsimp only
  rw [hswap, ok_bind]
  dsimp only
  rw [sub_ok hpos, ok_bind]
  rfl

theorem Holds.borrowMut_present (h : Holds sipHash content map m) {i : ℕ} {e : Entry K V}
    (hposition : position (content (address map.level map.numBuckets (sipHash key))) key = some i)
    (he : (content (address map.level map.numBuckets (sipHash key)))[i]? = some e) (hkey : e.key = key)
    (update : V → V) :
    ∃ map', borrowMut sipHash map key update = .ok (e.value, map') ∧
      Represents sipHash map' (m.insert key (update e.value)) := by
  subst hkey
  have hmem := List.mem_of_getElem? he
  obtain ⟨hi, hget⟩ := List.getElem?_eq_some_iff.mp he
  have hsome := h.placed.lookup_eq_some hmem
  have herase := h.placed.erase (hget ▸ (List.getElem_cons_eraseIdx_perm hi).symm)
  have hset := List.set_perm_cons_eraseIdx hi ⟨e.hash, e.key, update e.value⟩
  rw [← Function.update_self (address map.level map.numBuckets (sipHash e.key)) (List.eraseIdx _ i) content] at hset
  have hupdated := herase.insert (e := ⟨e.hash, e.key, update e.value⟩) (h.placed.hash_eq _ e hmem)
    (h.placed.address_eq _ e hmem) hset (Finmap.lookup_erase _ _)
  rw [Function.update_idem, insert_erase] at hupdated
  have hcard : map.len = (m.insert e.key (update e.value)).keys.card := by
    rw [← insert_erase, card_insert (Finmap.lookup_erase _ _), card_erase hsome, h.len_eq]
    exact (Nat.sub_add_cancel (card_pos hsome)).symm
  refine ⟨_, ?_, h.write hupdated hcard⟩
  rw [borrowMut, h.bucketIndex_eq, ok_bind, h.bucket_eq, ok_bind, hposition]
  dsimp only
  rw [Vec.borrow_of_getElem? he, ok_bind]
  rfl

/-- **One call.** -/
theorem spec_matches (h : Represents sipHash map m) (call : Call K V) (hroom : Room sipHash map call) :
    Matches (Represents sipHash) (exec sipHash call map) (spec call m) := by
  have hrep := h
  obtain ⟨content, h⟩ := h
  cases call with
  | add key value =>
      rw [exec, spec]
      cases hlookup : m.lookup key with
      | none =>
          have habsent : contains sipHash map key = .ok false := by rw [h.contains_eq, hlookup]; rfl
          obtain ⟨map', hadd, hmap'⟩ := h.add_absent hlookup value (hroom habsent)
          rw [hadd]
          exact Matches.ok _ hmap'
      | some old =>
          obtain ⟨e, he⟩ := h.add_present hlookup value
          rw [he]
          exact Matches.error _ _
  | remove key =>
      rw [exec, spec]
      rcases h.position_cases key with ⟨hposition, hnone⟩ | ⟨i, e, hposition, he, hkey, hsome⟩
      · rw [hnone, remove, h.bucketIndex_eq, ok_bind, h.bucket_eq, ok_bind, hposition]
        exact Matches.error _ _
      · obtain ⟨map', hremove, hmap'⟩ := h.remove_present hposition he hkey
        rw [hsome, hremove]
        exact Matches.ok _ hmap'
  | borrow key =>
      rw [exec, spec, h.borrow_eq]
      cases m.lookup key with
      | none => exact Matches.error _ _
      | some value => exact Matches.ok _ hrep
  | borrowMut key update =>
      rw [exec, spec]
      rcases h.position_cases key with ⟨hposition, hnone⟩ | ⟨i, e, hposition, he, hkey, hsome⟩
      · rw [hnone, borrowMut, h.bucketIndex_eq, ok_bind, h.bucket_eq, ok_bind, hposition]
        exact Matches.error _ _
      · obtain ⟨map', hborrow, hmap'⟩ := h.borrowMut_present hposition he hkey update
        rw [hsome, hborrow]
        exact Matches.ok _ hmap'
  | contains key =>
      rw [exec, spec, h.contains_eq]
      exact Matches.ok _ hrep
  | split additionalBuckets =>
      obtain ⟨map', hsplit, hmap'⟩ := hrep.split hroom
      rw [exec, spec, hsplit]
      exact Matches.ok _ hmap'

end Operations

/-! ### Creation and destruction -/

theorem new_represents (sipHash : K → ℕ) {initialBuckets : ℕ} (hpos : 0 < initialBuckets)
    (hmax : initialBuckets < 2 ^ 63) :
    ∃ map, new initialBuckets = .ok map ∧ Represents sipHash map (∅ : Finmap fun _ : K => V) := by
  have hstart : Represents sipHash ⟨.below 1 fun _ => [], 1, 0, 0⟩ (∅ : Finmap fun _ : K => V) :=
    ⟨_, rfl, levelled_one, Placed.empty sipHash 0 1, rfl⟩
  have hbuckets : (TableWithLength.new : TableWithLength ℕ (List (Entry K V))).add 0 [] =
      .ok (.below 1 fun _ => []) := by
    have hadd := TableWithLength.add_below (f := fun _ => ([] : List (Entry K V))) (n := 0) []
    rwa [Function.update_eq_self] at hadd
  have hroom : 1 + (initialBuckets - 1) < 2 ^ 63 := by omega
  obtain ⟨map, hsplit, hmap⟩ := hstart.split hroom
  refine ⟨map, ?_, hmap⟩
  rw [new, assert_pos _ hpos, ok_bind, hbuckets, ok_bind, sub_ok hpos, ok_bind]
  exact hsplit

omit [DecidableEq K] in
theorem destroyLoop_ok {remaining i : ℕ} {buckets : TableWithLength ℕ (List (Entry K V))}
    (hempty : ∀ k, i ≤ k → k < i + remaining → buckets.inner k = some []) (hlen : buckets.length = remaining) :
    ∃ buckets', destroyLoop remaining i buckets = .ok buckets' ∧ buckets'.length = 0 := by
  induction remaining generalizing i buckets with
  | zero => exact ⟨buckets, rfl, hlen⟩
  | succ remaining ih =>
      have hfirst := hempty i (Nat.le_refl _) (by omega)
      rw [destroyLoop, TableWithLength.remove_of_some hfirst, ok_bind]
      apply ih
      · intro k hk hlt
        dsimp only
        rw [Function.update_of_ne (by omega)]
        exact hempty k (by omega) (by omega)
      · dsimp only
        omega

theorem Represents.destroyEmpty_iff {sipHash : K → ℕ} {map : BucketTable K V} {m : Finmap fun _ : K => V}
    (h : Represents sipHash map m) : Succeeds (destroyEmpty map) ↔ m = ∅ := by
  obtain ⟨content, h⟩ := h
  have hcard : map.len = 0 ↔ m = ∅ := by
    rw [h.len_eq, Finset.card_eq_zero]
    constructor
    · intro hkeys
      apply Finmap.ext_lookup
      intro key
      rw [Finmap.lookup_empty, Finmap.lookup_eq_none, ← Finmap.mem_keys, hkeys]
      exact Finset.notMem_empty key
    · rintro rfl
      exact Finmap.keys_empty
  rw [destroyEmpty]
  by_cases hlen : map.len = 0
  · refine ⟨fun _ => hcard.mp hlen, ?_⟩
    rintro rfl
    have hempty : ∀ k, content k = [] := by
      intro k
      rw [List.eq_nil_iff_forall_not_mem]
      intro e he
      have hsome := h.placed.lookup_eq_some he
      rw [Finmap.lookup_empty] at hsome
      cases hsome
    have hbuckets : ∀ k, 0 ≤ k → k < 0 + map.numBuckets → map.buckets.inner k = some [] := by
      intro k _ hk
      rw [h.buckets_eq, ← hempty k]
      exact if_pos (by omega)
    obtain ⟨buckets, hloop, hzero⟩ := destroyLoop_ok hbuckets (by rw [h.buckets_eq]; rfl)
    rw [assert_pos _ hlen, ok_bind, hloop, ok_bind]
    exact ⟨(), assert_pos _ hzero⟩
  · rw [assert_neg _ hlen]
    refine ⟨?_, fun hm => absurd (hcard.mpr hm) hlen⟩
    rintro ⟨_, hok⟩
    cases hok

theorem Represents.borrow_toOption {sipHash : K → ℕ} {map : BucketTable K V} {m : Finmap fun _ : K => V}
    (h : Represents sipHash map m) (key : K) : (borrow sipHash map key).toOption = m.lookup key := by
  obtain ⟨content, h⟩ := h
  rw [h.borrow_eq]
  cases m.lookup key <;> rfl

/-- Every run of calls on a new table, while the counters fit, answers as the finite map does and leaves
its values; the length is the number of keys, and exactly the empty table can be destroyed. -/
theorem bucket_table_refines_finmap (K V : Type) [DecidableEq K] (sipHash : K → ℕ) (initialBuckets : ℕ)
    (hpos : 0 < initialBuckets) (hmax : initialBuckets < 2 ^ 63) :
    ∃ map : BucketTable K V, new initialBuckets = .ok map ∧
      ∀ calls, Along (exec sipHash) (Room sipHash) map calls →
        answers (exec sipHash) map calls = answers spec ∅ calls ∧
          (∀ key, (borrow sipHash (run (exec sipHash) map calls) key).toOption = (run spec ∅ calls).lookup key) ∧
          length (run (exec sipHash) map calls) = (run spec ∅ calls).keys.card ∧
          (Succeeds (destroyEmpty (run (exec sipHash) map calls)) ↔ run spec ∅ calls = ∅) := by
  obtain ⟨map, hnew, hmap⟩ := new_represents (V := V) sipHash hpos hmax
  refine ⟨map, hnew, fun calls hcalls => ?_⟩
  obtain ⟨hanswers, hend⟩ := run_simulates (R := Represents sipHash) (fun _ _ call h => spec_matches h call) hmap hcalls
  refine ⟨hanswers, hend.borrow_toOption, ?_, hend.destroyEmpty_iff⟩
  obtain ⟨content, h⟩ := hend
  exact h.len_eq

theorem bucket_table_refines_finmap_small :
    ∃ map : BucketTable ℕ ℕ, new 2 = .ok map ∧
      Along (exec (· % 4)) (Room (· % 4)) map [.add 1 10, .add 5 50, .split 2, .remove 1, .add 5 51] ∧
      (borrow (· % 4) (run (exec (· % 4)) map [.add 1 10, .add 5 50, .split 2, .remove 1, .add 5 51]) 5).toOption =
        (run spec ∅ [.add 1 10, .add 5 50, .split 2, .remove 1, .add 5 51]).lookup 5 := by
  obtain ⟨map, hmap, hrun⟩ := bucket_table_refines_finmap ℕ ℕ (· % 4) 2 (by decide) (by decide)
  have hroom : Along (exec (· % 4)) (Room (· % 4)) map [.add 1 10, .add 5 50, .split 2, .remove 1, .add 5 51] := by
    obtain rfl : _ = map := Except.ok.inj hmap
    refine ⟨fun _ => ⟨by decide, by decide⟩, fun _ => ⟨by decide, by decide⟩, ?_, trivial,
      fun _ => ⟨by decide, by decide⟩, trivial⟩
    rw [Room]
    decide
  exact ⟨map, hmap, hroom, (hrun _ hroom).2.1 5⟩

end MoveTutorial.BucketTable
