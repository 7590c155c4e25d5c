import MoveTutorial.BucketAddress

/-! The in-place partition of a split. The first loop keeps the bucket in three parts, the entries that
stay, those not yet examined and those that move; the second loop pops the last part. -/

namespace MoveTutorial.BucketTable

open Move

variable {K V : Type} {level numBuckets newBucketIndex : ℕ}

/-- The entry moves to the new bucket. -/
def Moves (level numBuckets newBucketIndex : ℕ) (entry : Entry K V) : Prop :=
  address level numBuckets entry.hash = newBucketIndex

/-- Exchanging the first and the last unexamined entry. -/
theorem swap_unexamined (stay rest move : List (Entry K V)) (entry : Entry K V) :
    ∃ rest', rest'.Perm rest ∧
      Vec.swap (stay ++ entry :: rest ++ move) stay.length (stay.length + rest.length) =
        .ok (stay ++ rest' ++ entry :: move) := by
  rcases List.eq_nil_or_concat rest with rfl | ⟨front, last, rfl⟩
  · have hentry : (stay ++ entry :: [] ++ move)[stay.length]? = some entry := by simp
    refine ⟨[], List.Perm.refl _, ?_⟩
    rw [List.length_nil, Nat.add_zero, Vec.swap_of_getElem? hentry hentry]
    simp
  · have hentry : (stay ++ entry :: (front ++ [last]) ++ move)[stay.length]? = some entry := by simp
    have hlast : (stay ++ entry :: (front ++ [last]) ++ move)[stay.length + (front ++ [last]).length]? =
        some last := by
      simp
    refine ⟨last :: front, ?_, ?_⟩
    · rw [List.concat_eq_append]
      exact (List.perm_append_singleton last front).symm
    · rw [List.concat_eq_append, Vec.swap_of_getElem? hentry hlast]
      simp

section Partition

variable {fuel : ℕ} {stay rest move : List (Entry K V)} {entry : Entry K V}

/-- A round that finds an entry of the new bucket. -/
theorem partitionLoop_move (stay rest move : List (Entry K V)) (hlevel : level < 63)
    (hmoves : Moves level numBuckets newBucketIndex entry) :
    ∃ rest', rest'.Perm rest ∧ ∀ fuel,
      partitionLoop level numBuckets newBucketIndex (fuel + 1) stay.length (stay.length + (entry :: rest).length)
        (stay ++ entry :: rest ++ move) =
      partitionLoop level numBuckets newBucketIndex fuel stay.length (stay.length + rest'.length)
        (stay ++ rest' ++ entry :: move) := by
  obtain ⟨rest', hperm, hswap⟩ := swap_unexamined stay rest move entry
  have hentry : (stay ++ entry :: rest ++ move)[stay.length]? = some entry := by simp
  have hlt : stay.length < stay.length + (entry :: rest).length := by simp
  have hj : stay.length + (entry :: rest).length - 1 = stay.length + rest.length := by
    rw [List.length_cons]
    omega
  rw [Moves] at hmoves
  refine ⟨rest', hperm, fun fuel => ?_⟩
  rw [partitionLoop, if_pos hlt, Vec.borrow_of_getElem? hentry, ok_bind, bucketIndex_ok hlevel, ok_bind,
    if_pos hmoves, sub_ok (Nat.succ_le_of_lt (Nat.zero_lt_of_lt hlt)), ok_bind, hj, hswap, ok_bind,
    hperm.length_eq]

/-- A round that finds an entry of the old bucket. -/
theorem partitionLoop_stay (hlevel : level < 63) (hmoves : ¬Moves level numBuckets newBucketIndex entry) :
    partitionLoop level numBuckets newBucketIndex (fuel + 1) stay.length (stay.length + (entry :: rest).length)
        (stay ++ entry :: rest ++ move) =
      partitionLoop level numBuckets newBucketIndex fuel (stay ++ [entry]).length
        ((stay ++ [entry]).length + rest.length) (stay ++ [entry] ++ rest ++ move) := by
  have hentry : (stay ++ entry :: rest ++ move)[stay.length]? = some entry := by simp
  have hlt : stay.length < stay.length + (entry :: rest).length := by simp
  have heq : stay ++ [entry] ++ rest ++ move = stay ++ entry :: rest ++ move := by simp
  have hj : (stay ++ [entry]).length + rest.length = stay.length + (entry :: rest).length := by
    simp only [List.length_append, List.length_cons, List.length_nil]
    omega
  rw [Moves] at hmoves
  rw [partitionLoop, if_pos hlt, Vec.borrow_of_getElem? hentry, ok_bind, bucketIndex_ok hlevel, ok_bind,
    if_neg hmoves, heq, hj, List.length_append, List.length_singleton]

/-- The first loop ends with the entries divided, none lost, within as many rounds as there are entries. -/
theorem partitionLoop_spec (numBuckets newBucketIndex : ℕ) (hlevel : level < 63) {count : ℕ}
    (hcount : rest.length = count)
    (hstay : ∀ e ∈ stay, ¬Moves level numBuckets newBucketIndex e)
    (hmove : ∀ e ∈ move, Moves level numBuckets newBucketIndex e) :
    ∃ lower upper,
      (∀ fuel, count ≤ fuel →
        partitionLoop level numBuckets newBucketIndex fuel stay.length (stay.length + rest.length)
          (stay ++ rest ++ move) = .ok (lower.length, lower.length, lower ++ upper)) ∧
      (lower ++ upper).Perm (stay ++ rest ++ move) ∧
      (∀ e ∈ lower, ¬Moves level numBuckets newBucketIndex e) ∧
      (∀ e ∈ upper, Moves level numBuckets newBucketIndex e) := by
  induction count generalizing stay rest move with
  | zero =>
      rw [List.eq_nil_of_length_eq_zero hcount, List.append_nil, List.length_nil, Nat.add_zero]
      refine ⟨stay, move, fun fuel _ => ?_, List.Perm.refl _, hstay, hmove⟩
      cases fuel with
      | zero => rfl
      | succ fuel =>
          rw [partitionLoop, if_neg (Nat.lt_irrefl _)]
          rfl
  | succ count ih =>
      obtain ⟨entry, rest, rfl⟩ := List.exists_cons_of_length_eq_add_one hcount
      have hcount' : rest.length = count := Nat.succ.inj hcount
      by_cases hmoves : Moves level numBuckets newBucketIndex entry
      · obtain ⟨rest', hperm, hround⟩ := partitionLoop_move stay rest move hlevel hmoves
        obtain ⟨lower, upper, hloop, hperm', hlower, hupper⟩ :=
          ih (hperm.length_eq.trans hcount') hstay (List.forall_mem_cons.mpr ⟨hmoves, hmove⟩)
        refine ⟨lower, upper, fun fuel hfuel => ?_, hperm'.trans ?_, hlower, hupper⟩
        · obtain ⟨fuel, rfl⟩ := Nat.exists_eq_add_of_le' hfuel
          exact (hround _).trans (hloop _ (Nat.le_add_left _ _))
        · rw [List.append_assoc, List.append_assoc]
          apply List.Perm.append_left
          exact List.perm_middle.trans ((hperm.append_right move).cons entry)
      · have hstay' : ∀ e ∈ stay ++ [entry], ¬Moves level numBuckets newBucketIndex e :=
          List.forall_mem_append.mpr ⟨hstay, List.forall_mem_singleton.mpr hmoves⟩
        obtain ⟨lower, upper, hloop, hperm', hlower, hupper⟩ := ih hcount' hstay' hmove
        refine ⟨lower, upper, fun fuel hfuel => ?_, ?_, hlower, hupper⟩
        · obtain ⟨fuel, rfl⟩ := Nat.exists_eq_add_of_le' hfuel
          exact (partitionLoop_stay hlevel hmoves).trans (hloop _ (Nat.le_add_left _ _))
        · rwa [List.append_assoc stay, List.singleton_append] at hperm'

/-- The first loop on a whole bucket. -/
theorem partitionLoop_bucket (hlevel : level < 63) (bucket : List (Entry K V)) :
    ∃ lower upper,
      (∀ fuel, bucket.length ≤ fuel →
        partitionLoop level numBuckets newBucketIndex fuel 0 bucket.length bucket =
          .ok (lower.length, lower.length, lower ++ upper)) ∧
      (lower ++ upper).Perm bucket ∧
      (∀ e ∈ lower, ¬Moves level numBuckets newBucketIndex e) ∧
      (∀ e ∈ upper, Moves level numBuckets newBucketIndex e) := by
  have hspec := partitionLoop_spec numBuckets newBucketIndex hlevel (Eq.refl bucket.length)
    (List.forall_mem_nil _) (List.forall_mem_nil _)
  rwa [List.nil_append, List.append_nil, List.length_nil, Nat.zero_add] at hspec

end Partition

/-- The second loop pops the upper part. -/
theorem moveLoop_spec (lower upper newBucket : List (Entry K V)) :
    moveLoop lower.length (lower.length + upper.length) (lower ++ upper) newBucket =
      .ok (lower, newBucket ++ upper.reverse) := by
  induction upper using List.reverseRecOn generalizing newBucket with
  | nil =>
      rw [List.length_nil, Nat.add_zero, List.append_nil, List.reverse_nil, List.append_nil]
      cases hlen : lower.length with
      | zero => rfl
      | succ n =>
          rw [moveLoop, if_neg (Nat.lt_irrefl _)]
          rfl
  | append_singleton upper last ih =>
      rw [List.length_append, List.length_singleton, ← Nat.add_assoc, moveLoop,
        if_pos (Nat.lt_succ_of_le (Nat.le_add_right _ _)), ← List.append_assoc, Vec.popBack_append, ok_bind]
      dsimp only
      rw [ih, List.reverse_append]
      simp

/-- A split, from how the first loop divides the bucket. -/
theorem splitOneBucket_of_partition (content : ℕ → List (Entry K V)) (len : ℕ) (h : Levelled level numBuckets)
    {lower upper : List (Entry K V)} (hperm : (lower ++ upper).Perm (content (numBuckets - 2 ^ level)))
    (hpartition : partitionLoop (nextLevel level numBuckets) (numBuckets + 1) numBuckets
      (content (numBuckets - 2 ^ level)).length 0 (content (numBuckets - 2 ^ level)).length
      (content (numBuckets - 2 ^ level)) = .ok (lower.length, lower.length, lower ++ upper)) :
    splitOneBucket ⟨.below numBuckets content, numBuckets, level, len⟩ =
      .ok ⟨.below (numBuckets + 1) (Function.update (Function.update content (numBuckets - 2 ^ level) lower)
        numBuckets upper.reverse), numBuckets + 1, nextLevel level numBuckets, len⟩ := by
  have hlevel := h.level_lt
  have hlt := h.numBuckets_lt
  have hle := h.le
  have hpow := Nat.two_pow_pos level
  have hsplit : numBuckets - 2 ^ level < numBuckets := by omega
  rw [splitOneBucket]
  dsimp only
  rw [shl_one (by omega), ok_bind, add_ok (by omega), ok_bind, xor_eq_sub h, bumpLevel_ok h,
    ok_bind, TableWithLength.borrow_below hsplit, ok_bind, hpartition, ok_bind]
  dsimp only
  rw [← hperm.length_eq, List.length_append, moveLoop_spec, ok_bind]
  dsimp only
  rw [TableWithLength.write_below hsplit, TableWithLength.add_below, ok_bind, List.nil_append]
  rfl

/-- **A split.** One bucket is divided into itself and a new one; the entries are kept. -/
theorem splitOneBucket_spec (content : ℕ → List (Entry K V)) (len : ℕ) (h : Levelled level numBuckets)
    (hroom : numBuckets + 1 < 2 ^ 63) :
    ∃ lower upper,
      splitOneBucket ⟨.below numBuckets content, numBuckets, level, len⟩ =
        .ok ⟨.below (numBuckets + 1) (Function.update (Function.update content (numBuckets - 2 ^ level) lower)
          numBuckets upper), numBuckets + 1, nextLevel level numBuckets, len⟩ ∧
      (lower ++ upper).Perm (content (numBuckets - 2 ^ level)) ∧
      (∀ e ∈ lower, ¬Moves (nextLevel level numBuckets) (numBuckets + 1) numBuckets e) ∧
      (∀ e ∈ upper, Moves (nextLevel level numBuckets) (numBuckets + 1) numBuckets e) := by
  obtain ⟨lower, upper, hpartition, hperm, hlower, hupper⟩ :=
    partitionLoop_bucket (nextLevel_levelled h hroom).level_lt (content (numBuckets - 2 ^ level))
  refine ⟨lower, upper.reverse, ?_, ?_, hlower, ?_⟩
  · exact splitOneBucket_of_partition content len h hperm (hpartition _ (Nat.le_refl _))
  · exact (List.Perm.append_left lower upper.reverse_perm).trans hperm
  · intro e he
    exact hupper e (List.mem_reverse.mp he)

end MoveTutorial.BucketTable
