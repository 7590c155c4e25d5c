import MoveTutorial.BigVectorLayout

/-! Storage of big vectors. Whatever is called, and however long the vector grows, its buckets lay out the
list of its elements: a call that would not fit the counters aborts. So `shrink_to_fit` finds empty buckets
behind the elements and nothing else, and `destroy_empty` leaves none behind. -/

namespace MoveTutorial.BigVector

open Move

variable {T : Type} {n numBuckets : ℕ} {xs : List T}

/-- The elements of a vector, bucket after bucket. -/
def elems (v : BigVector T) : List T := (List.range v.numBuckets).flatMap fun k => (v.buckets.inner k).getD []

theorem elems_layout (hfits : xs.length ≤ numBuckets * n) : elems (layout n numBuckets xs) = xs := by
  have hblocks : elems (layout n numBuckets xs) = (List.range numBuckets).flatMap (block n xs) := by
    apply List.flatMap_congr
    intro k hk
    have hinner : (layout n numBuckets xs).buckets.inner k = some (block n xs k) := if_pos (List.mem_range.mp hk)
    rw [hinner]
    rfl
  rw [hblocks, flatMap_block hfits]

/-- The vector lays out a list, of any length, in buckets that can be counted. -/
def Laid (n : ℕ) (v : BigVector T) : Prop :=
  ∃ numBuckets xs, v = layout n numBuckets xs ∧ xs.length ≤ numBuckets * n ∧ numBuckets < 2 ^ 64

/-! ### Calls -/

section Calls

variable {v : BigVector T}

theorem incrementIndex_eq_ok (hn : 0 < n) {len : ℕ} {index : BigVectorIndex}
    (h : incrementIndex ⟨len / n, len % n⟩ n = .ok index) : index = ⟨(len + 1) / n, (len + 1) % n⟩ := by
  have hsucc := succ_position hn len
  simp only [incrementIndex, bind_eq_ok, add_eq_ok] at h
  obtain ⟨next, ⟨-, rfl⟩, h⟩ := h
  split at h
  · rename_i hend
    rw [if_pos hend] at hsucc
    simp only [bind_eq_ok, add_eq_ok, pure_eq_ok] at h
    obtain ⟨_, ⟨-, rfl⟩, rfl⟩ := h
    rw [hsucc.1, hsucc.2]
  · rename_i hend
    rw [if_neg hend] at hsucc
    rw [pure_eq_ok] at h
    rw [← h, hsucc.1, hsucc.2]

theorem append_eq_ok (hn : 0 < n) (hroom : xs.length < numBuckets * n) {val : T}
    (h : append (layout n numBuckets xs) val = .ok v) : v = layout n numBuckets (xs ++ [val]) := by
  have hk : xs.length / n < numBuckets := (Nat.div_lt_iff_lt_mul hn).mpr hroom
  simp only [append, bind_eq_ok, pure_eq_ok] at h
  obtain ⟨bucket, hbucket, index, hindex, rfl⟩ := h
  rw [incrementIndex_eq_ok hn hindex]
  dsimp only [layout] at hbucket ⊢
  rw [TableWithLength.borrow_below hk] at hbucket
  obtain rfl := Except.ok.inj hbucket
  rw [write_append hn hk, List.length_append, List.length_singleton]

theorem append_laid (hn : 0 < n) (hroom : xs.length < numBuckets * n) (hcap : numBuckets < 2 ^ 64) {val : T}
    (h : append (layout n numBuckets xs) val = .ok v) : Laid n v := by
  refine ⟨numBuckets, xs ++ [val], append_eq_ok hn hroom h, ?_, hcap⟩
  rw [List.length_append, List.length_singleton]
  exact hroom

theorem pushBack_laid (hn : 0 < n) (hfits : xs.length ≤ numBuckets * n) (hcap : numBuckets < 2 ^ 64) {val : T}
    (h : pushBack (layout n numBuckets xs) val = .ok v) : Laid n v := by
  rw [pushBack] at h
  by_cases hfull : (layout n numBuckets xs).endIndex.bucketIndex = (layout n numBuckets xs).numBuckets
  · have hlt : xs.length < (numBuckets + 1) * n :=
      (Nat.div_lt_iff_lt_mul hn).mp (Nat.lt_succ_of_le (Nat.le_of_eq hfull))
    rw [if_pos hfull, bind_eq_ok] at h
    obtain ⟨grown, hgrown, h⟩ := h
    have hcap' : numBuckets + 1 < 2 ^ 64 := by
      simp only [addBucket, bind_eq_ok, add_eq_ok] at hgrown
      obtain ⟨_, -, _, ⟨hcap', -⟩, -⟩ := hgrown
      exact hcap'
    rw [addBucket_layout hfits hcap'] at hgrown
    obtain rfl := Except.ok.inj hgrown
    exact append_laid hn hlt hcap' h
  · have hle : xs.length / n ≤ numBuckets := Nat.div_le_of_le_mul (Nat.mul_comm numBuckets n ▸ hfits)
    rw [if_neg hfull] at h
    exact append_laid hn ((Nat.div_lt_iff_lt_mul hn).mp (Nat.lt_of_le_of_ne hle hfull)) hcap h

theorem pushBackNoGrow_laid (hn : 0 < n) (hcap : numBuckets < 2 ^ 64) {val : T}
    (h : pushBackNoGrow (layout n numBuckets xs) val = .ok v) : Laid n v := by
  simp only [pushBackNoGrow, bind_eq_ok, assert_eq_ok] at h
  obtain ⟨_, hlt, h⟩ := h
  exact append_laid hn ((Nat.div_lt_iff_lt_mul hn).mp hlt) hcap h

/-- Without a length there is nothing to pop. -/
theorem popBack_length_lt {result : T × BigVector T} (h : popBack (layout n numBuckets xs) = .ok result) :
    xs.length < 2 ^ 64 := by
  by_contra hlen
  obtain ⟨e, he⟩ : Aborts (length (layout n numBuckets xs)) := length_layout_aborts (Nat.le_of_not_lt hlen)
  rw [popBack, isEmpty, he] at h
  cases h

theorem popBack_laid (hn : 0 < n) (hfits : xs.length ≤ numBuckets * n) (hcap : numBuckets < 2 ^ 64) {val : T}
    (h : popBack (layout n numBuckets xs) = .ok (val, v)) : Laid n v := by
  have hlen := popBack_length_lt h
  rcases List.eq_nil_or_concat xs with rfl | ⟨front, last, rfl⟩
  · rw [popBack_layout_nil] at h
    cases h
  · rw [List.concat_eq_append] at hfits hlen h
    rw [List.length_append, List.length_singleton] at hfits hlen
    rw [popBack_layout hn hfits hlen] at h
    obtain ⟨-, rfl⟩ := Prod.mk.inj (Except.ok.inj h)
    exact ⟨numBuckets, front, rfl, Nat.le_of_succ_le hfits, hcap⟩

theorem borrowMut_laid (hn : 0 < n) (hfits : xs.length ≤ numBuckets * n) (hcap : numBuckets < 2 ^ 64)
    {index : BigVectorIndex} {update : T → T} {val : T}
    (h : borrowMut (layout n numBuckets xs) index update = .ok (val, v)) : Laid n v := by
  by_cases hd : Denotes n xs.length index
  · rw [borrowMut_layout hn hfits hd (List.getElem?_eq_getElem hd.2)] at h
    obtain ⟨-, rfl⟩ := Prod.mk.inj (Except.ok.inj h)
    refine ⟨numBuckets, _, rfl, ?_, hcap⟩
    rwa [List.length_set]
  · obtain ⟨e, he⟩ : Aborts (borrowMut (layout n numBuckets xs) index update) := borrowMut_layout_aborts hd update
    rw [he] at h
    cases h

theorem swapRemove_laid (hn : 0 < n) (hfits : xs.length ≤ numBuckets * n) (hcap : numBuckets < 2 ^ 64)
    {index : BigVectorIndex} {val : T}
    (h : swapRemove (layout n numBuckets xs) index = .ok (val, v)) : Laid n v := by
  have hlen : xs.length < 2 ^ 64 := by
    rw [swapRemove, bind_eq_ok] at h
    obtain ⟨_, hpop, -⟩ := h
    exact popBack_length_lt hpop
  by_cases hd : Denotes n xs.length index
  · have hne : xs ≠ [] := List.ne_nil_of_length_pos ((Nat.zero_le _).trans_lt hd.2)
    rw [swapRemove_layout_getLast hn hfits hlen hd hne] at h
    obtain ⟨-, rfl⟩ := Prod.mk.inj (Except.ok.inj h)
    refine ⟨numBuckets, _, rfl, ?_, hcap⟩
    rw [List.length_dropLast, List.length_set]
    exact (Nat.sub_le _ _).trans hfits
  · obtain ⟨e, he⟩ := swapRemove_layout_aborts hn hfits hlen hd
    rw [he] at h
    cases h

theorem reserve_laid (hfits : xs.length ≤ numBuckets * n) (hcap : numBuckets < 2 ^ 64) {k : ℕ}
    (h : reserve (layout n numBuckets xs) k = .ok v) :
    numBuckets + k < 2 ^ 64 ∧ v = layout n (numBuckets + k) xs := by
  by_cases hmore : numBuckets + k < 2 ^ 64
  · rw [reserve_layout hfits hmore] at h
    exact ⟨hmore, (Except.ok.inj h).symm⟩
  · obtain ⟨e, he⟩ := reserve_layout_aborts hfits hcap hmore
    rw [he] at h
    cases h

/-- **One call.** -/
theorem exec_laid (hn : 0 < n) {v' : BigVector T} {call : Call T} {answer : Answer T} (hv : Laid n v)
    (h : exec call v = .ok (answer, v')) : Laid n v' := by
  obtain ⟨numBuckets, xs, rfl, hfits, hcap⟩ := hv
  cases call with
  | pushBack val =>
      simp only [exec, bind_eq_ok, pure_eq_ok, Prod.mk.injEq] at h
      obtain ⟨_, hpush, -, rfl⟩ := h
      exact pushBack_laid hn hfits hcap hpush
  | pushBackNoGrow val =>
      simp only [exec, bind_eq_ok, pure_eq_ok, Prod.mk.injEq] at h
      obtain ⟨_, hpush, -, rfl⟩ := h
      exact pushBackNoGrow_laid hn hcap hpush
  | popBack =>
      simp only [exec, bind_eq_ok, pure_eq_ok, Prod.mk.injEq] at h
      obtain ⟨_, hpop, -, rfl⟩ := h
      exact popBack_laid hn hfits hcap hpop
  | borrowMut index update =>
      simp only [exec, bind_eq_ok, pure_eq_ok, Prod.mk.injEq] at h
      obtain ⟨_, hborrow, -, rfl⟩ := h
      exact borrowMut_laid hn hfits hcap hborrow
  | swapRemove index =>
      simp only [exec, bind_eq_ok, pure_eq_ok, Prod.mk.injEq] at h
      obtain ⟨_, hremove, -, rfl⟩ := h
      exact swapRemove_laid hn hfits hcap hremove
  | reserve additionalBuckets =>
      simp only [exec, bind_eq_ok, pure_eq_ok, Prod.mk.injEq] at h
      obtain ⟨_, hreserve, -, rfl⟩ := h
      obtain ⟨hmore, rfl⟩ := reserve_laid hfits hcap hreserve
      exact ⟨_, xs, rfl, hfits.trans (Nat.mul_le_mul_right n (Nat.le_add_right _ _)), hmore⟩
  | shrinkToFit =>
      have hceil : xs.length ⌈/⌉ n ≤ numBuckets := (blocks_le_iff hn).mpr hfits
      simp only [exec, bind_eq_ok, pure_eq_ok, Prod.mk.injEq] at h
      obtain ⟨_, hshrink, -, rfl⟩ := h
      rw [shrinkToFit_layout hn hfits hcap] at hshrink
      obtain rfl := Except.ok.inj hshrink
      exact ⟨_, xs, rfl, le_blocks_mul hn _, hceil.trans_lt hcap⟩

end Calls

/-! ### Runs -/

theorem newWithCapacity_eq_ok {bucketSize numBuckets : ℕ} {v : BigVector T}
    (h : newWithCapacity bucketSize numBuckets = .ok v) :
    0 < bucketSize ∧ numBuckets < 2 ^ 64 ∧ v = layout bucketSize numBuckets [] := by
  simp only [newWithCapacity, new, bind_eq_ok, assert_eq_ok, pure_eq_ok] at h
  obtain ⟨_, ⟨_, hpos, rfl⟩, hreserve⟩ := h
  have hstart : (⟨.new, ⟨0, 0⟩, 0, bucketSize⟩ : BigVector T) = layout bucketSize 0 [] := by
    rw [layout, List.length_nil, Nat.zero_div, Nat.zero_mod]
    rfl
  rw [hstart] at hreserve
  obtain ⟨hcap, hv⟩ := reserve_laid (Nat.zero_le _) (by decide) hreserve
  rw [Nat.zero_add] at hcap hv
  exact ⟨hpos, hcap, hv⟩

/-- Every run on a new vector leaves a laid out one. -/
theorem run_laid {bucketSize numBuckets : ℕ} {v : BigVector T} (h : newWithCapacity bucketSize numBuckets = .ok v)
    (calls : List (Call T)) : 0 < bucketSize ∧ Laid bucketSize (run exec v calls) := by
  obtain ⟨hpos, hcap, rfl⟩ := newWithCapacity_eq_ok h
  refine ⟨hpos, run_invariant (fun _ _ _ _ hv _ hok => exec_laid hpos hv hok) ?_ (along_true _ calls)⟩
  exact ⟨numBuckets, [], rfl, Nat.zero_le _, hcap⟩

theorem length_eq_ok_iff {len : ℕ} :
    length (layout n numBuckets xs) = .ok len ↔ len = xs.length ∧ len < 2 ^ 64 := by
  by_cases hlen : xs.length < 2 ^ 64
  · rw [length_layout hlen, Except.ok.injEq]
    constructor
    · rintro rfl
      exact ⟨rfl, hlen⟩
    · intro h
      exact h.1.symm
  · obtain ⟨e, he⟩ : Aborts (length (layout n numBuckets xs)) := length_layout_aborts (Nat.le_of_not_lt hlen)
    rw [he]
    refine ⟨nofun, ?_⟩
    rintro ⟨rfl, hlt⟩
    exact absurd hlt hlen

/-- Without elements `shrink_to_fit` leaves no bucket. -/
theorem layout_nil_buckets (n : ℕ) : (layout n (0 ⌈/⌉ n) ([] : List T)).buckets = .new := by
  rw [zero_ceilDiv]
  rfl

/-- What is destroyed is an empty table. -/
theorem destroyEmpty_layout_eq_ok (hn : 0 < n) (hfits : xs.length ≤ numBuckets * n) (hcap : numBuckets < 2 ^ 64)
    {buckets : TableWithLength ℕ (List T)} :
    destroyEmpty (layout n numBuckets xs) = .ok buckets ↔ xs = [] ∧ buckets = .new := by
  constructor
  · intro h
    simp only [destroyEmpty, isEmpty, bind_eq_ok, pure_eq_ok, assert_eq_ok, length_eq_ok_iff] at h
    obtain ⟨_, ⟨len, ⟨rfl, -⟩, rfl⟩, _, hempty, v, hshrink, _, -, rfl⟩ := h
    obtain rfl := List.eq_nil_of_length_eq_zero (of_decide_eq_true hempty)
    rw [shrinkToFit_layout hn hfits hcap] at hshrink
    obtain rfl := Except.ok.inj hshrink
    exact ⟨rfl, layout_nil_buckets n⟩
  · rintro ⟨rfl, rfl⟩
    rw [destroyEmpty, isEmpty_layout (by simp), ok_bind, assert_pos _ List.isEmpty_nil, ok_bind,
      shrinkToFit_layout hn hfits hcap, ok_bind, List.length_nil, layout_nil_buckets]
    rfl

/-- In every run on a new vector: `shrink_to_fit` succeeds and keeps the elements in as many buckets as they
fill, the only keys of the table, and a second call changes nothing; `destroy_empty` succeeds exactly on a
vector without elements, and the table that it destroys is empty. -/
theorem big_vector_storage_exact {T : Type} (bucketSize numBuckets : ℕ) (v₀ : BigVector T)
    (hnew : newWithCapacity bucketSize numBuckets = .ok v₀) (calls : List (Call T)) :
    (∀ len, length (run exec v₀ calls) = .ok len ↔ len = (elems (run exec v₀ calls)).length ∧ len < 2 ^ 64) ∧
      (∃ v, shrinkToFit (run exec v₀ calls) = .ok v ∧ elems v = elems (run exec v₀ calls) ∧
        v.numBuckets = (elems (run exec v₀ calls)).length ⌈/⌉ bucketSize ∧
        (∀ k, v.buckets.contains k = true ↔ k < v.numBuckets) ∧ v.buckets.length = v.numBuckets ∧
        shrinkToFit v = .ok v ∧ (elems (run exec v₀ calls) = [] → v.buckets = .new)) ∧
      (Succeeds (destroyEmpty (run exec v₀ calls)) ↔ length (run exec v₀ calls) = .ok 0) ∧
      ∀ buckets, destroyEmpty (run exec v₀ calls) = .ok buckets → buckets = .new := by
  obtain ⟨hpos, k, xs, hv, hfits, hcap⟩ := run_laid hnew calls
  have hfits' : xs.length ≤ xs.length ⌈/⌉ bucketSize * bucketSize := le_blocks_mul hpos _
  have hceil : xs.length ⌈/⌉ bucketSize ≤ k := (blocks_le_iff hpos).mpr hfits
  rw [hv, elems_layout hfits]
  refine ⟨fun len => length_eq_ok_iff, ⟨_, shrinkToFit_layout hpos hfits hcap, elems_layout hfits', rfl, ?_, rfl,
    shrinkToFit_layout hpos hfits' (hceil.trans_lt hcap), ?_⟩, ?_, ?_⟩
  · exact fun _ => TableWithLength.contains_below
  · rintro rfl
    exact layout_nil_buckets bucketSize
  · rw [length_eq_ok_iff, eq_comm, List.length_eq_zero_iff]
    constructor
    · rintro ⟨buckets, hdestroy⟩
      exact ⟨((destroyEmpty_layout_eq_ok hpos hfits hcap).mp hdestroy).1, by decide⟩
    · rintro ⟨hnil, -⟩
      exact ⟨_, (destroyEmpty_layout_eq_ok hpos hfits hcap).mpr ⟨hnil, rfl⟩⟩
  · intro buckets hdestroy
    exact ((destroyEmpty_layout_eq_ok hpos hfits hcap).mp hdestroy).2

theorem big_vector_storage_exact_small :
    ∃ v₀ : BigVector ℕ, newWithCapacity 2 3 = .ok v₀ ∧
      destroyEmpty (run exec v₀ [.pushBack 7, .pushBackNoGrow 8, .pushBack 9, .shrinkToFit, .popBack,
        .swapRemove ⟨0, 0⟩, .reserve 2, .popBack]) = .ok .new := by
  refine ⟨_, rfl, ?_⟩
  obtain ⟨-, -, hsucceeds, hnew⟩ := big_vector_storage_exact (T := ℕ) 2 3 _ rfl
    [.pushBack 7, .pushBackNoGrow 8, .pushBack 9, .shrinkToFit, .popBack, .swapRemove ⟨0, 0⟩, .reserve 2, .popBack]
  obtain ⟨buckets, hdestroy⟩ := hsucceeds.mpr rfl
  rw [hdestroy, hnew buckets hdestroy]

end MoveTutorial.BigVector
