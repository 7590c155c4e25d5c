import MoveTutorial.BucketSplit

/-! Where the entries of a bucket table are. Each entry sits in the bucket of its hash, and the entries of
all buckets are the pairs of a finite map; inserting, erasing and splitting buckets keep this. -/

namespace MoveTutorial.BucketTable

open Move

variable {K V : Type} [DecidableEq K]

/-- The entries sit in the buckets of their hashes, one for each key of the map. -/
structure Placed (sipHash : K → ℕ) (level numBuckets : ℕ) (content : ℕ → List (Entry K V))
    (m : Finmap fun _ : K => V) : Prop where
  hash_eq : ∀ k, ∀ e ∈ content k, e.hash = sipHash e.key
  address_eq : ∀ k, ∀ e ∈ content k, address level numBuckets e.hash = k
  nodup : ∀ k, ((content k).map Entry.key).Nodup
  lookup_iff : ∀ key v, m.lookup key = some v ↔ ∃ k, ∃ e ∈ content k, e.key = key ∧ e.value = v

section Placed

variable {sipHash : K → ℕ} {level numBuckets k : ℕ} {content : ℕ → List (Entry K V)}
  {m : Finmap fun _ : K => V} {bucket : List (Entry K V)} {e e' : Entry K V} {key : K}

theorem Placed.empty (sipHash : K → ℕ) (level numBuckets : ℕ) :
    Placed sipHash level numBuckets (fun _ => []) (∅ : Finmap fun _ : K => V) where
  hash_eq _ _ he := absurd he List.not_mem_nil
  address_eq _ _ he := absurd he List.not_mem_nil
  nodup _ := List.nodup_nil
  lookup_iff key v := by simp

theorem Placed.lookup_eq_some (h : Placed sipHash level numBuckets content m) (he : e ∈ content k) :
    m.lookup e.key = some e.value := (h.lookup_iff _ _).mpr ⟨k, e, he, rfl, rfl⟩

/-- No bucket has an absent key. -/
theorem Placed.key_ne (h : Placed sipHash level numBuckets content m) (hnew : m.lookup key = none)
    (he : e ∈ content k) : e.key ≠ key := by
  intro heq
  have hsome := h.lookup_eq_some he
  rw [heq, hnew] at hsome
  cases hsome

/-- A key that is not in its bucket is nowhere. -/
theorem Placed.lookup_eq_none (h : Placed sipHash level numBuckets content m)
    (hkey : ∀ e ∈ content (address level numBuckets (sipHash key)), e.key ≠ key) : m.lookup key = none := by
  cases hlookup : m.lookup key with
  | none => rfl
  | some v =>
      obtain ⟨j, e, he, rfl, -⟩ := (h.lookup_iff _ _).mp hlookup
      have hj := h.address_eq j e he
      rw [h.hash_eq j e he] at hj
      rw [← hj] at he
      exact absurd rfl (hkey e he)

omit [DecidableEq K] in
theorem mem_update_cons (hperm : bucket.Perm (e :: content k)) (j : ℕ) :
    e' ∈ Function.update content k bucket j ↔ e' ∈ content j ∨ j = k ∧ e' = e := by
  by_cases hj : j = k
  · subst hj
    rw [Function.update_self, hperm.mem_iff, List.mem_cons]
    tauto
  · rw [Function.update_of_ne hj]
    tauto

omit [DecidableEq K] in
theorem nodup_update (hbucket : (bucket.map Entry.key).Nodup) (h : ∀ j, ((content j).map Entry.key).Nodup) (j : ℕ) :
    ((Function.update content k bucket j).map Entry.key).Nodup :=
  (Function.forall_update_iff content fun _ bucket => (bucket.map Entry.key).Nodup).mpr
    ⟨hbucket, fun j _ => h j⟩ j

theorem Placed.insert (h : Placed sipHash level numBuckets content m) (hhash : e.hash = sipHash e.key)
    (hk : address level numBuckets e.hash = k) (hperm : bucket.Perm (e :: content k)) (hnew : m.lookup e.key = none) :
    Placed sipHash level numBuckets (Function.update content k bucket) (m.insert e.key e.value) where
  hash_eq j e' he' := by
    rcases (mem_update_cons hperm j).mp he' with he' | ⟨-, rfl⟩
    · exact h.hash_eq j e' he'
    · exact hhash
  address_eq j e' he' := by
    rcases (mem_update_cons hperm j).mp he' with he' | ⟨rfl, rfl⟩
    · exact h.address_eq j e' he'
    · exact hk
  nodup := by
    have hnot : e.key ∉ (content k).map Entry.key := by
      intro hmem
      obtain ⟨e', he', heq⟩ := List.mem_map.mp hmem
      exact h.key_ne hnew he' heq
    apply nodup_update _ h.nodup
    rw [(hperm.map Entry.key).nodup_iff, List.map_cons, List.nodup_cons]
    exact ⟨hnot, h.nodup k⟩
  lookup_iff key v := by
    by_cases hkey : key = e.key
    · subst hkey
      rw [Finmap.lookup_insert]
      constructor
      · intro hv
        cases hv
        exact ⟨k, e, (mem_update_cons hperm k).mpr (Or.inr ⟨rfl, rfl⟩), rfl, rfl⟩
      · rintro ⟨j, e', he', heq, rfl⟩
        rcases (mem_update_cons hperm j).mp he' with he' | ⟨-, rfl⟩
        · exact absurd heq (h.key_ne hnew he')
        · rfl
    · rw [Finmap.lookup_insert_of_ne _ hkey, h.lookup_iff]
      constructor
      · rintro ⟨j, e', he', heq⟩
        exact ⟨j, e', (mem_update_cons hperm j).mpr (Or.inl he'), heq⟩
      · rintro ⟨j, e', he', heq⟩
        rcases (mem_update_cons hperm j).mp he' with he' | ⟨-, rfl⟩
        · exact ⟨j, e', he', heq⟩
        · exact absurd heq.1.symm hkey

theorem Placed.erase (h : Placed sipHash level numBuckets content m) (hperm : (content k).Perm (e :: bucket)) :
    Placed sipHash level numBuckets (Function.update content k bucket) (m.erase e.key) := by
  have he : e ∈ content k := hperm.mem_iff.mpr List.mem_cons_self
  have hnodup := h.nodup k
  rw [(hperm.map Entry.key).nodup_iff, List.map_cons, List.nodup_cons] at hnodup
  have hsub : ∀ j e', e' ∈ Function.update content k bucket j → e' ∈ content j := by
    intro j e' he'
    by_cases hj : j = k
    · subst hj
      rw [Function.update_self] at he'
      exact hperm.mem_iff.mpr (List.mem_cons_of_mem _ he')
    · rwa [Function.update_of_ne hj] at he'
  have hkey_ne : ∀ j e', e' ∈ Function.update content k bucket j → e'.key ≠ e.key := by
    intro j e' he' heq
    have hj := h.address_eq j e' (hsub j e' he')
    rw [h.hash_eq j e' (hsub j e' he'), heq, ← h.hash_eq k e he, h.address_eq k e he] at hj
    rw [← hj, Function.update_self] at he'
    exact hnodup.1 (heq ▸ List.mem_map_of_mem he')
  refine ⟨fun j e' he' => h.hash_eq j e' (hsub j e' he'), fun j e' he' => h.address_eq j e' (hsub j e' he'), ?_, ?_⟩
  · exact nodup_update hnodup.2 h.nodup
  · intro key v
    by_cases hkey : key = e.key
    · subst hkey
      rw [Finmap.lookup_erase]
      refine ⟨fun hv => absurd hv (by simp), ?_⟩
      rintro ⟨j, e', he', heq, -⟩
      exact absurd heq (hkey_ne j e' he')
    · rw [Finmap.lookup_erase_ne hkey, h.lookup_iff]
      constructor
      · rintro ⟨j, e', he', rfl, rfl⟩
        refine ⟨j, e', ?_, rfl, rfl⟩
        by_cases hj : j = k
        · subst hj
          rw [Function.update_self]
          rcases List.mem_cons.mp (hperm.mem_iff.mp he') with rfl | he'
          · exact absurd rfl hkey
          · exact he'
        · rwa [Function.update_of_ne hj]
      · rintro ⟨j, e', he', heq⟩
        exact ⟨j, e', hsub j e' he', heq⟩

/-! ### Splitting -/

/-- The buckets after a split. -/
def divided (level numBuckets : ℕ) (content : ℕ → List (Entry K V)) (lower upper : List (Entry K V)) :
    ℕ → List (Entry K V) :=
  Function.update (Function.update content (numBuckets - 2 ^ level) lower) numBuckets upper

section Divided

variable {lower upper : List (Entry K V)} (hlevelled : Levelled level numBuckets)
  (hperm : (lower ++ upper).Perm (content (numBuckets - 2 ^ level)))

include hlevelled hperm

theorem mem_of_mem_divided (h : Placed sipHash level numBuckets content m)
    (hlower : ∀ e ∈ lower, ¬Moves (nextLevel level numBuckets) (numBuckets + 1) numBuckets e)
    (hupper : ∀ e ∈ upper, Moves (nextLevel level numBuckets) (numBuckets + 1) numBuckets e)
    (he : e ∈ divided level numBuckets content lower upper k) :
    (∃ j, e ∈ content j) ∧ address (nextLevel level numBuckets) (numBuckets + 1) e.hash = k := by
  have hsplit := address_split hlevelled e.hash
  rw [divided] at he
  by_cases hnew : k = numBuckets
  · subst hnew
    rw [Function.update_self] at he
    exact ⟨⟨_, hperm.mem_iff.mp (List.mem_append_right _ he)⟩, hupper e he⟩
  rw [Function.update_of_ne hnew] at he
  by_cases hold : k = numBuckets - 2 ^ level
  · subst hold
    rw [Function.update_self] at he
    have hmem := hperm.mem_iff.mp (List.mem_append_left upper he)
    have hbits : e.hash % 2 ^ (level + 1) ≠ numBuckets := by
      intro hbits
      rw [if_pos hbits] at hsplit
      exact hlower e he hsplit
    rw [hsplit, if_neg hbits]
    exact ⟨⟨_, hmem⟩, h.address_eq _ e hmem⟩
  · rw [Function.update_of_ne hold] at he
    have haddress := h.address_eq k e he
    have hbits : e.hash % 2 ^ (level + 1) ≠ numBuckets := by
      intro hbits
      rw [address_of_new hlevelled hbits] at haddress
      exact hold haddress.symm
    rw [hsplit, if_neg hbits]
    exact ⟨⟨k, he⟩, haddress⟩

theorem mem_divided_of_mem (h : Placed sipHash level numBuckets content m) (he : e ∈ content k) :
    ∃ j, e ∈ divided level numBuckets content lower upper j := by
  have hle := hlevelled.le
  have hpow := Nat.two_pow_pos level
  have hk : k < numBuckets := h.address_eq k e he ▸ address_lt hlevelled e.hash
  by_cases hold : k = numBuckets - 2 ^ level
  · subst hold
    rcases List.mem_append.mp (hperm.mem_iff.mpr he) with he | he
    · refine ⟨numBuckets - 2 ^ level, ?_⟩
      rw [divided, Function.update_of_ne (by omega), Function.update_self]
      exact he
    · refine ⟨numBuckets, ?_⟩
      rw [divided, Function.update_self]
      exact he
  · refine ⟨k, ?_⟩
    rw [divided, Function.update_of_ne (Nat.ne_of_lt hk), Function.update_of_ne hold]
    exact he

theorem Placed.divided (h : Placed sipHash level numBuckets content m)
    (hlower : ∀ e ∈ lower, ¬Moves (nextLevel level numBuckets) (numBuckets + 1) numBuckets e)
    (hupper : ∀ e ∈ upper, Moves (nextLevel level numBuckets) (numBuckets + 1) numBuckets e) :
    Placed sipHash (nextLevel level numBuckets) (numBuckets + 1) (divided level numBuckets content lower upper) m := by
  have hnodup := h.nodup (numBuckets - 2 ^ level)
  rw [← (hperm.map Entry.key).nodup_iff, List.map_append, List.nodup_append] at hnodup
  refine ⟨?_, ?_, ?_, ?_⟩
  · intro j e he
    obtain ⟨⟨i, hi⟩, -⟩ := mem_of_mem_divided hlevelled hperm h hlower hupper he
    exact h.hash_eq i e hi
  · intro j e he
    exact (mem_of_mem_divided hlevelled hperm h hlower hupper he).2
  · exact nodup_update hnodup.2.1 (nodup_update hnodup.1 h.nodup)
  · intro key v
    rw [h.lookup_iff]
    constructor
    · rintro ⟨i, e, he, heq⟩
      obtain ⟨j, hj⟩ := mem_divided_of_mem hlevelled hperm h he
      exact ⟨j, e, hj, heq⟩
    · rintro ⟨j, e, he, heq⟩
      obtain ⟨⟨i, hi⟩, -⟩ := mem_of_mem_divided hlevelled hperm h hlower hupper he
      exact ⟨i, e, hi, heq⟩

end Divided

end Placed

end MoveTutorial.BucketTable
