import MoveTutorial.BigVectorStorage

/-! Search in big vectors. The loop of `index_of` keeps its counter and its index at the same position, so
it finds the first element that is equal. Its first index is asked for at position 0, which only a vector
with elements has. -/

namespace MoveTutorial.BigVector

open Move

variable {T : Type} [DecidableEq T]

/-- What a search for the value is to answer. -/
structure Searches (v : BigVector T) (val : T) : Prop where
  indexOf_least : ∀ i, IsLeast {i | (elems v)[i]? = some val} i → indexOf v val = .ok (true, i)
  indexOf_absent : val ∉ elems v → indexOf v val = .ok (false, 0)
  contains_eq : ∃ exist i, indexOf v val = .ok (exist, i) ∧ contains v val = .ok exist

section Loop

variable {n numBuckets i remaining : ℕ} {xs : List T} {val a : T} (hn : 0 < n) (hfits : xs.length ≤ numBuckets * n)

include hn hfits

omit [DecidableEq T] in
theorem borrow_position (ha : xs[i]? = some a) : borrow (layout n numBuckets xs) ⟨i / n, i % n⟩ = .ok a := by
  have hposition : i / n * n + i % n = i := Nat.div_add_mod' i n
  have hi : i < xs.length := (List.getElem?_eq_some_iff.mp ha).1
  apply borrow_layout hfits
  · exact ⟨Nat.mod_lt i hn, hposition.symm ▸ hi⟩
  · dsimp only
    rwa [hposition]

/-- A round at an element that is equal. -/
theorem indexOfLoop_found (hval : xs[i]? = some val) :
    indexOfLoop (layout n numBuckets xs) val (remaining + 1) i ⟨i / n, i % n⟩ = .ok (true, i) := by
  rw [indexOfLoop, borrow_position hn hfits hval, ok_bind, if_pos rfl]
  rfl

/-- A round at another element. -/
theorem indexOfLoop_next (hlen : xs.length < 2 ^ 64) (ha : xs[i]? = some a) (hne : a ≠ val) :
    indexOfLoop (layout n numBuckets xs) val (remaining + 1) i ⟨i / n, i % n⟩ =
      indexOfLoop (layout n numBuckets xs) val remaining (i + 1) ⟨(i + 1) / n, (i + 1) % n⟩ := by
  have hi : i < xs.length := (List.getElem?_eq_some_iff.mp ha).1
  rw [indexOfLoop, borrow_position hn hfits ha, ok_bind, if_neg hne, add_ok (by omega), ok_bind]
  dsimp only [layout]
  rw [incrementIndex_end hn (by omega), ok_bind]

theorem indexOfLoop_least (hlen : xs.length < 2 ^ 64) {distance : ℕ} (hremaining : distance < remaining)
    (hval : xs[i + distance]? = some val) (hleast : ∀ j, i ≤ j → j < i + distance → xs[j]? ≠ some val) :
    indexOfLoop (layout n numBuckets xs) val remaining i ⟨i / n, i % n⟩ = .ok (true, i + distance) := by
  induction distance generalizing i remaining with
  | zero =>
      obtain ⟨remaining, rfl⟩ := Nat.exists_eq_add_of_lt hremaining
      rw [Nat.zero_add]
      exact indexOfLoop_found hn hfits hval
  | succ distance ih =>
      have hi : i < xs.length := by
        have hbound := (List.getElem?_eq_some_iff.mp hval).1
        omega
      have hne : xs[i] ≠ val := by
        intro heq
        apply hleast i (Nat.le_refl i) (by omega)
        rw [List.getElem?_eq_getElem hi, heq]
      obtain ⟨remaining, rfl⟩ := Nat.exists_eq_add_of_lt hremaining
      rw [indexOfLoop_next hn hfits hlen (List.getElem?_eq_getElem hi) hne, ih (by omega)]
      · rw [Nat.add_assoc, Nat.add_comm 1]
      · rwa [Nat.add_assoc, Nat.add_comm 1]
      · intro j hj hlt
        exact hleast j (by omega) (by omega)

theorem indexOfLoop_absent (hlen : xs.length < 2 ^ 64) (hremaining : i + remaining = xs.length) (hval : val ∉ xs) :
    indexOfLoop (layout n numBuckets xs) val remaining i ⟨i / n, i % n⟩ = .ok (false, 0) := by
  induction remaining generalizing i with
  | zero => rfl
  | succ remaining ih =>
      have hi : i < xs.length := by omega
      have hne : xs[i] ≠ val := fun heq => hval (heq ▸ List.getElem_mem hi)
      rw [indexOfLoop_next hn hfits hlen (List.getElem?_eq_getElem hi) hne]
      exact ih (by omega)

omit hfits in
/-- The search of a vector with elements. -/
theorem indexOf_layout (hlen : xs.length < 2 ^ 64) (hne : xs ≠ []) (val : T) :
    indexOf (layout n numBuckets xs) val =
      indexOfLoop (layout n numBuckets xs) val xs.length 0 ⟨0 / n, 0 % n⟩ := by
  rw [indexOf, length_layout hlen, ok_bind, bucketIndex_layout hn hlen (List.length_pos_iff.mpr hne), ok_bind]

theorem searches_layout (hlen : xs.length < 2 ^ 64) (hne : xs ≠ []) (val : T) :
    Searches (layout n numBuckets xs) val := by
  have hleast : ∀ i, IsLeast {i | xs[i]? = some val} i → indexOf (layout n numBuckets xs) val = .ok (true, i) := by
    intro i hi
    have hloop : indexOfLoop (layout n numBuckets xs) val xs.length 0 ⟨0 / n, 0 % n⟩ = .ok (true, 0 + i) := by
      apply indexOfLoop_least hn hfits hlen
      · exact (List.getElem?_eq_some_iff.mp hi.1).1
      · rw [Nat.zero_add]
        exact hi.1
      · intro j _ hj hval
        exact absurd (hi.2 hval) (by omega)
    rw [indexOf_layout hn hlen hne, hloop, Nat.zero_add]
  have habsent : val ∉ xs → indexOf (layout n numBuckets xs) val = .ok (false, 0) := by
    intro hval
    rw [indexOf_layout hn hlen hne]
    exact indexOfLoop_absent hn hfits hlen (Nat.zero_add _) hval
  have hcontains : ∀ {exist i}, indexOf (layout n numBuckets xs) val = .ok (exist, i) →
      contains (layout n numBuckets xs) val = .ok exist := by
    intro exist i h
    rw [contains, isEmpty_layout hlen, ok_bind, if_neg (by simpa using hne), h]
    rfl
  have helems : elems (layout n numBuckets xs) = xs := elems_layout hfits
  refine ⟨by rwa [helems], by rwa [helems], ?_⟩
  by_cases hval : val ∈ xs
  · obtain ⟨i, hi⟩ := List.mem_iff_getElem?.mp hval
    have hfound := hleast _ ⟨Nat.find_spec ⟨i, hi⟩, fun j hj => Nat.find_min' ⟨i, hi⟩ hj⟩
    exact ⟨_, _, hfound, hcontains hfound⟩
  · exact ⟨_, _, habsent hval, hcontains (habsent hval)⟩

end Loop

/-- After every run on a new vector a search answers as it should exactly if the vector is not empty: on
the empty vector `index_of` aborts. -/
theorem search_correct_iff {T : Type} [DecidableEq T] (bucketSize numBuckets : ℕ) (v₀ : BigVector T)
    (hnew : newWithCapacity bucketSize numBuckets = .ok v₀) (calls : List (Call T)) (val : T) :
    Searches (run exec v₀ calls) val ↔ isEmpty (run exec v₀ calls) = .ok false := by
  obtain ⟨hpos, k, xs, hv, hfits, -⟩ := run_laid hnew calls
  rw [hv]
  constructor
  · rintro ⟨-, -, exist, i, h, -⟩
    simp only [indexOf, bucketIndex, bind_eq_ok, assert_eq_ok, length_eq_ok_iff] at h
    obtain ⟨_, ⟨rfl, hlen⟩, _, ⟨_, ⟨rfl, -⟩, _, hlt, -⟩, -⟩ := h
    rw [isEmpty_layout hlen, List.isEmpty_eq_false_iff.mpr (List.ne_nil_of_length_pos hlt)]
  · intro h
    simp only [isEmpty, bind_eq_ok, pure_eq_ok, length_eq_ok_iff, decide_eq_false_iff_not] at h
    obtain ⟨_, ⟨rfl, hlen⟩, hne⟩ := h
    exact searches_layout hpos hfits hlen (List.ne_nil_of_length_pos (Nat.pos_of_ne_zero hne)) val

theorem search_correct_iff_small :
    ∃ v₀ : BigVector ℕ, newWithCapacity 2 0 = .ok v₀ ∧
      Searches (run exec v₀ [.pushBack 5, .pushBack 6, .pushBack 7, .pushBack 6]) 6 :=
  ⟨_, rfl, (search_correct_iff 2 0 _ rfl _ 6).mpr rfl⟩

/-- The vector of the test `big_vector_empty_contains`: `contains` answers, `index_of` aborts. -/
theorem empty_search_aborts :
    ∃ v₀ : BigVector ℕ, newWithCapacity 10 0 = .ok v₀ ∧ contains (run exec v₀ []) 1 = .ok false ∧
      indexOf (run exec v₀ []) 1 = .error (.code eindexOutOfBounds) ∧ ¬Searches (run exec v₀ []) 1 := by
  refine ⟨_, rfl, rfl, rfl, ?_⟩
  rintro ⟨-, -, exist, i, h, -⟩
  cases h

end MoveTutorial.BigVector
