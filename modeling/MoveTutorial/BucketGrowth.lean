import MoveTutorial.BucketSplit

/-! Growth of a bucket table. A split adds one bucket and keeps the entries, so from one bucket at level 0
the level counts the buckets for as long as the shifts of `bucket_index` fit. An insertion adds one entry
and splits at most once, which is enough to keep the load at the threshold. -/

namespace MoveTutorial.BucketTable

open Move

variable {K V : Type}

/-! ### Counters -/

theorem bumpLevel_ge {level toSplit size level' : ℕ} (h : bumpLevel level toSplit size = .ok level') :
    level ≤ level' := by
  rw [bumpLevel, bind_eq_ok] at h
  obtain ⟨next, -, h⟩ := h
  split at h
  · exact (add_eq_ok.mp h).2 ▸ Nat.le_succ level
  · exact Nat.le_of_eq (pure_eq_ok.mp h)

/-- The counters after a split. -/
theorem splitOneBucket_counters {map map' : BucketTable K V} (h : splitOneBucket map = .ok map') :
    map'.numBuckets = map.numBuckets + 1 ∧ map'.len = map.len ∧
      ∃ size, shl 64 1 map.level = .ok size ∧ bumpLevel map.level (xor map.numBuckets size) size = .ok map'.level := by
  rw [splitOneBucket] at h
  simp only [bind_eq_ok, pure_eq_ok] at h
  obtain ⟨size, hsize, numBuckets, hnum, level, hlevel, _, -, _, -, _, -, _, -, rfl⟩ := h
  exact ⟨(add_eq_ok.mp hnum).2.symm, rfl, size, hsize, hlevel⟩

theorem splitOneBucket_level_le {map map' : BucketTable K V} (h : splitOneBucket map = .ok map') :
    map.level ≤ map'.level := by
  obtain ⟨-, -, size, -, hlevel⟩ := splitOneBucket_counters h
  exact bumpLevel_ge hlevel

theorem splitOneBucket_level {map map' : BucketTable K V} (hlevelled : Levelled map.level map.numBuckets)
    (h : splitOneBucket map = .ok map') : map'.level = nextLevel map.level map.numBuckets := by
  have hlt := hlevelled.level_lt
  obtain ⟨-, -, size, hsize, hlevel⟩ := splitOneBucket_counters h
  rw [shl_one (by omega)] at hsize
  obtain rfl : 2 ^ map.level = size := Except.ok.inj hsize
  rw [xor_eq_sub hlevelled, bumpLevel_ok hlevelled] at hlevel
  exact (Except.ok.inj hlevel).symm

/-- What every split preserves, any number of splits preserves. -/
theorem split_rule {R : BucketTable K V → BucketTable K V → Prop} (hrefl : ∀ map, R map map)
    (hstep : ∀ {map map' last}, splitOneBucket map = .ok map' → R map' last → R map last)
    {map last : BucketTable K V} {additionalBuckets : ℕ} (h : split map additionalBuckets = .ok last) :
    R map last := by
  induction additionalBuckets generalizing map with
  | zero =>
      rw [split, pure_eq_ok] at h
      exact h ▸ hrefl map
  | succ additionalBuckets ih =>
      rw [split, bind_eq_ok] at h
      obtain ⟨map', hsplit, h⟩ := h
      exact hstep hsplit (ih h)

theorem split_counters {map last : BucketTable K V} {additionalBuckets : ℕ}
    (h : split map additionalBuckets = .ok last) : map.numBuckets ≤ last.numBuckets ∧ last.len = map.len := by
  refine split_rule (R := fun map last => map.numBuckets ≤ last.numBuckets ∧ last.len = map.len)
    (fun map => ⟨Nat.le_refl _, rfl⟩) ?_ h
  intro map map' last hsplit hrest
  obtain ⟨hnum, hlen, -⟩ := splitOneBucket_counters hsplit
  exact ⟨by omega, hrest.2.trans hlen⟩

/-! ### Levels -/

/-- The buckets are those below the number of buckets, which the level counts. -/
structure Formed (map : BucketTable K V) : Prop where
  buckets_eq : ∃ content, map.buckets = .below map.numBuckets content
  levelled : Levelled map.level map.numBuckets

theorem Formed.start (content : ℕ → List (Entry K V)) (len : ℕ) :
    Formed (⟨.below 1 content, 1, 0, len⟩ : BucketTable K V) :=
  ⟨⟨content, rfl⟩, levelled_one⟩

theorem room_of_nextLevel_lt {level numBuckets : ℕ} (h : Levelled level numBuckets)
    (hnext : nextLevel level numBuckets < 63) : numBuckets + 1 < 2 ^ 63 := by
  have hlt := h.lt
  rw [nextLevel] at hnext
  by_cases hfull : numBuckets + 1 = 2 ^ (level + 1)
  · rw [if_pos hfull] at hnext
    rw [hfull]
    exact Nat.pow_lt_pow_right (by decide) hnext
  · have hpow : 2 ^ (level + 1) ≤ 2 ^ 63 := Nat.pow_le_pow_right Nat.two_pos h.level_lt
    omega

theorem Formed.split_one_ok {map : BucketTable K V} (hmap : Formed map) (hroom : map.numBuckets + 1 < 2 ^ 63) :
    ∃ map', splitOneBucket map = .ok map' ∧ Formed map' ∧ map'.numBuckets = map.numBuckets + 1 := by
  obtain ⟨⟨content, hbuckets⟩, hlevelled⟩ := hmap
  obtain ⟨buckets, numBuckets, level, len⟩ := map
  dsimp only at hbuckets hlevelled hroom
  subst hbuckets
  obtain ⟨lower, upper, hsplit, -⟩ := splitOneBucket_spec content len hlevelled hroom
  exact ⟨_, hsplit, ⟨⟨_, rfl⟩, nextLevel_levelled hlevelled hroom⟩, rfl⟩

theorem Formed.split_one {map map' : BucketTable K V} (hmap : Formed map) (h : splitOneBucket map = .ok map')
    (hlevel : map'.level < 63) : Formed map' := by
  rw [splitOneBucket_level hmap.levelled h] at hlevel
  obtain ⟨last, hsplit, hlast, -⟩ := hmap.split_one_ok (room_of_nextLevel_lt hmap.levelled hlevel)
  obtain rfl := Except.ok.inj (h.symm.trans hsplit)
  exact hlast

/-- Splits succeed as long as the buckets can be counted. -/
theorem Formed.split_ok {map : BucketTable K V} (additionalBuckets : ℕ) (hmap : Formed map)
    (hroom : map.numBuckets + additionalBuckets < 2 ^ 63) :
    ∃ last, BucketTable.split map additionalBuckets = .ok last ∧ Formed last ∧
      last.numBuckets = map.numBuckets + additionalBuckets := by
  induction additionalBuckets generalizing map with
  | zero => exact ⟨map, rfl, hmap, rfl⟩
  | succ additionalBuckets ih =>
      obtain ⟨map', hsplit, hmap', hnum⟩ := hmap.split_one_ok (by omega)
      obtain ⟨last, hrest, hlast, hnum'⟩ := ih hmap' (by omega)
      refine ⟨last, ?_, hlast, by omega⟩
      rw [BucketTable.split, hsplit, ok_bind, hrest]

theorem Formed.split {map last : BucketTable K V} {additionalBuckets : ℕ} (hmap : Formed map)
    (h : BucketTable.split map additionalBuckets = .ok last) (hlevel : last.level < 63) : Formed last := by
  have hrun : map.level ≤ last.level ∧ (Formed map → last.level < 63 → Formed last) := by
    refine split_rule (R := fun map last => map.level ≤ last.level ∧ (Formed map → last.level < 63 → Formed last))
      (fun map => ⟨Nat.le_refl _, fun hmap _ => hmap⟩) ?_ h
    intro map map' last hsplit hrest
    refine ⟨(splitOneBucket_level_le hsplit).trans hrest.1, fun hmap hlevel => ?_⟩
    exact hrest.2 (hmap.split_one hsplit (hrest.1.trans_lt hlevel)) hlevel
  exact hrun.2 hmap hlevel

/-- After any number of splits of a table with one bucket, the level counts the buckets and every hash
names one of them. A further split keeps the bucket of every hash but those of the bucket it divides whose
bits name the new bucket. -/
theorem bucket_addresses_stable {K V : Type} (content : ℕ → List (Entry K V)) (len additionalBuckets : ℕ)
    (map : BucketTable K V) (hmap : split ⟨.below 1 content, 1, 0, len⟩ additionalBuckets = .ok map)
    (hlevel : map.level < 63) :
    2 ^ map.level ≤ map.numBuckets ∧ map.numBuckets < 2 ^ (map.level + 1) ∧
      (∀ hash, ∃ index, bucketIndex map.level map.numBuckets hash = .ok index ∧ index < map.numBuckets ∧
        Succeeds (map.buckets.borrow index)) ∧
      ∀ map', splitOneBucket map = .ok map' → map'.level < 63 →
        map'.numBuckets = map.numBuckets + 1 ∧
          ∀ hash, bucketIndex map'.level map'.numBuckets hash =
            if bucketIndex map.level map.numBuckets hash = .ok (xor map.numBuckets (2 ^ map.level)) ∧
                hash % 2 ^ (map.level + 1) = map.numBuckets then
              .ok map.numBuckets
            else bucketIndex map.level map.numBuckets hash := by
  obtain ⟨⟨content', hbuckets⟩, hlevelled⟩ := (Formed.start content len).split hmap hlevel
  refine ⟨hlevelled.le, hlevelled.lt, ?_, ?_⟩
  · intro hash
    refine ⟨_, bucketIndex_ok hlevel _ hash, address_lt hlevelled hash, ?_⟩
    rw [hbuckets, TableWithLength.borrow_below (address_lt hlevelled hash)]
    exact ⟨_, rfl⟩
  · intro map' hsplit hlevel'
    have hnum := (splitOneBucket_counters hsplit).1
    refine ⟨hnum, fun hash => ?_⟩
    rw [bucketIndex_ok hlevel', bucketIndex_ok hlevel, hnum, splitOneBucket_level hlevelled hsplit,
      address_split hlevelled, xor_eq_sub hlevelled]
    by_cases hbits : hash % 2 ^ (map.level + 1) = map.numBuckets
    · rw [if_pos hbits, address_of_new hlevelled hbits, if_pos ⟨rfl, hbits⟩]
    · rw [if_neg hbits, if_neg (fun hboth => hbits hboth.2)]

/-- From three buckets to four: of the hashes that bucket one has, seven moves and five stays. -/
theorem bucket_addresses_stable_three :
    ∃ map : BucketTable ℕ ℕ, split ⟨.below 1 fun _ => [⟨5, 50, 0⟩, ⟨6, 60, 0⟩, ⟨7, 70, 0⟩], 1, 0, 3⟩ 2 = .ok map ∧
      map.numBuckets = 3 ∧ map.buckets.inner 1 = some [⟨5, 50, 0⟩, ⟨7, 70, 0⟩] ∧
      ∃ map', splitOneBucket map = .ok map' ∧ bucketIndex map'.level map'.numBuckets 5 = .ok 1 ∧
        bucketIndex map'.level map'.numBuckets 6 = .ok 2 ∧ bucketIndex map'.level map'.numBuckets 7 = .ok 3 := by
  obtain ⟨-, -, -, hsplit⟩ := bucket_addresses_stable
    (fun _ => [⟨5, 50, 0⟩, ⟨6, 60, 0⟩, ⟨7, 70, 0⟩] : ℕ → List (Entry ℕ ℕ)) 3 2 _ rfl (by decide)
  obtain ⟨-, haddress⟩ := hsplit _ rfl (by decide)
  exact ⟨_, rfl, rfl, rfl, _, rfl, haddress 5, haddress 6, haddress 7⟩

/-! ### The entries of a split -/

theorem inner_update_update (content : ℕ → List (Entry K V)) (lower upper : List (Entry K V))
    {numBuckets toSplit : ℕ} (h : toSplit < numBuckets) :
    let buckets := TableWithLength.below (numBuckets + 1)
      (Function.update (Function.update content toSplit lower) numBuckets upper)
    buckets.inner toSplit = some lower ∧ buckets.inner numBuckets = some upper ∧
      ∀ k, k ≠ toSplit → k ≠ numBuckets → buckets.inner k = (TableWithLength.below numBuckets content).inner k := by
  dsimp only [TableWithLength.below]
  refine ⟨?_, ?_, ?_⟩
  · rw [if_pos (by omega), Function.update_of_ne (by omega), Function.update_self]
  · rw [if_pos (by omega), Function.update_self]
  · intro k hold hnew
    have hiff : k < numBuckets + 1 ↔ k < numBuckets := by omega
    rw [Function.update_of_ne hnew, Function.update_of_ne hold]
    simp only [hiff]

/-- At every number of buckets that splits reach, whatever the buckets hold: the first loop of a split ends
with its two indices equal, the second pops the entries from there on, and the two buckets hold the
entries of the one that was split, each in the bucket of its hash. -/
theorem split_keeps_entries {K V : Type} (content₀ : ℕ → List (Entry K V)) (len₀ additionalBuckets : ℕ)
    (start : BucketTable K V) (hstart : split ⟨.below 1 content₀, 1, 0, len₀⟩ additionalBuckets = .ok start)
    (toSplit level : ℕ) (htoSplit : toSplit = xor start.numBuckets (2 ^ start.level))
    (hbump : bumpLevel start.level toSplit (2 ^ start.level) = .ok level) (hlevel : level < 63)
    (content : ℕ → List (Entry K V)) (len : ℕ) :
    ∃ j bucket oldBucket newBucket map',
      (∀ fuel, (content toSplit).length ≤ fuel →
        partitionLoop level (start.numBuckets + 1) start.numBuckets fuel 0 (content toSplit).length
          (content toSplit) = .ok (j, j, bucket)) ∧
      moveLoop j (content toSplit).length bucket [] = .ok (oldBucket, newBucket) ∧
      oldBucket = bucket.take j ∧ newBucket = (bucket.drop j).reverse ∧
      splitOneBucket ⟨.below start.numBuckets content, start.numBuckets, start.level, len⟩ = .ok map' ∧
      map'.buckets.inner toSplit = some oldBucket ∧ map'.buckets.inner start.numBuckets = some newBucket ∧
      (oldBucket ++ newBucket).Perm (content toSplit) ∧
      (∀ e ∈ oldBucket, bucketIndex map'.level map'.numBuckets e.hash ≠ .ok start.numBuckets) ∧
      (∀ e ∈ newBucket, bucketIndex map'.level map'.numBuckets e.hash = .ok start.numBuckets) ∧
      (∀ k, k ≠ toSplit → k ≠ start.numBuckets →
        map'.buckets.inner k = (TableWithLength.below start.numBuckets content).inner k) ∧
      map'.level = level ∧ map'.numBuckets = start.numBuckets + 1 ∧ map'.len = len := by
  have hlevelled := ((Formed.start content₀ len₀).split hstart ((bumpLevel_ge hbump).trans_lt hlevel)).levelled
  have hle := hlevelled.le
  have hpow := Nat.two_pow_pos start.level
  rw [xor_eq_sub hlevelled] at htoSplit
  subst htoSplit
  rw [bumpLevel_ok hlevelled] at hbump
  obtain rfl := Except.ok.inj hbump
  obtain ⟨lower, upper, hpartition, hperm, hlower, hupper⟩ :=
    partitionLoop_bucket hlevel (content (start.numBuckets - 2 ^ start.level))
  have hsplit := splitOneBucket_of_partition content len hlevelled hperm (hpartition _ (Nat.le_refl _))
  obtain ⟨hold, hnew, hother⟩ := inner_update_update content lower upper.reverse
    (Nat.sub_lt (hpow.trans_le hle) hpow)
  have hmove := moveLoop_spec lower upper []
  rw [← List.length_append, hperm.length_eq] at hmove
  refine ⟨lower.length, lower ++ upper, lower, upper.reverse, _, hpartition, hmove, ?_, ?_, hsplit, hold, hnew,
    ?_, ?_, ?_, hother, rfl, rfl, rfl⟩
  · rw [List.take_left]
  · rw [List.drop_left]
  · exact (List.Perm.append_left lower upper.reverse_perm).trans hperm
  · intro e he heq
    rw [bucketIndex_ok hlevel] at heq
    exact hlower e he (Except.ok.inj heq)
  · intro e he
    rw [bucketIndex_ok hlevel]
    exact congrArg Except.ok (hupper e (List.mem_reverse.mp he))

theorem split_keeps_entries_three :
    ∃ start : BucketTable ℕ ℕ, split ⟨.below 1 fun _ => [], 1, 0, 0⟩ 2 = .ok start ∧
      ∃ map', splitOneBucket ⟨.below start.numBuckets fun _ => [⟨3, 30, 0⟩, ⟨1, 10, 0⟩, ⟨7, 70, 0⟩],
        start.numBuckets, start.level, 9⟩ = .ok map' ∧ map'.numBuckets = 4 ∧ map'.len = 9 := by
  obtain ⟨_, _, _, _, map', -, -, -, -, hsplit, -, -, -, -, -, -, -, hnum, hlen⟩ :=
    split_keeps_entries (fun _ => []) 0 2 _ rfl 1 2 (by decide) rfl (by decide)
      (fun _ => [⟨3, 30, 0⟩, ⟨1, 10, 0⟩, ⟨7, 70, 0⟩] : ℕ → List (Entry ℕ ℕ)) 9
  exact ⟨_, rfl, map', hsplit, hnum, hlen⟩

/-- At the last number of buckets before level 63, any entry in the bucket that is split makes the first loop
abort, as it shifts by 64 bits. -/
theorem split_aborts_at_last_level :
    ∃ start : BucketTable ℕ ℕ, split ⟨.below 1 fun _ => [], 1, 0, 0⟩ (2 ^ 63 - 2) = .ok start ∧ start.level = 62 ∧
      start.numBuckets = 2 ^ 63 - 1 ∧
      bumpLevel start.level (xor start.numBuckets (2 ^ start.level)) (2 ^ start.level) = .ok 63 ∧
      (∀ fuel, partitionLoop 63 (start.numBuckets + 1) start.numBuckets (fuel + 1) 0 1 [(⟨0, 0, 0⟩ : Entry ℕ ℕ)] =
        .error .arithmetic) ∧
      splitOneBucket ⟨.below start.numBuckets fun _ => [⟨0, 0, 0⟩], start.numBuckets, start.level, 1⟩ =
        .error .arithmetic := by
  obtain ⟨start, hsplit, hformed, hnum⟩ :=
    (Formed.start (fun _ => ([] : List (Entry ℕ ℕ))) 0).split_ok (2 ^ 63 - 2) (by norm_num)
  have hlevelled := hformed.levelled
  have hnum' : start.numBuckets = 2 ^ 63 - 1 := hnum.trans (by norm_num)
  have hlevel : start.level = 62 := by
    have hpow : 2 ^ 62 < 2 ^ (start.level + 1) :=
      calc 2 ^ 62 < 2 ^ 63 - 1 := by norm_num
        _ = start.numBuckets := hnum'.symm
        _ < 2 ^ (start.level + 1) := hlevelled.lt
    have hge := (Nat.pow_lt_pow_iff_right (by decide)).mp hpow
    have hlt63 := hlevelled.level_lt
    omega
  have hloop : ∀ fuel, partitionLoop 63 (start.numBuckets + 1) start.numBuckets (fuel + 1) 0 1
      [(⟨0, 0, 0⟩ : Entry ℕ ℕ)] = .error .arithmetic := fun fuel => rfl
  have hbump : bumpLevel start.level (xor start.numBuckets (2 ^ start.level)) (2 ^ start.level) = .ok 63 := by
    rw [xor_eq_sub hlevelled, bumpLevel_ok hlevelled, nextLevel, hnum', hlevel]
    norm_num
  refine ⟨start, hsplit, hlevel, hnum', hbump, hloop, ?_⟩
  have hold : xor start.numBuckets (2 ^ start.level) < start.numBuckets := by
    rw [xor_eq_sub hlevelled]
    exact Nat.sub_lt ((Nat.two_pow_pos _).trans_le hlevelled.le) (Nat.two_pow_pos _)
  rw [splitOneBucket]
  dsimp only
  rw [shl_one (by omega), ok_bind, add_ok (by omega), ok_bind, hbump, ok_bind, TableWithLength.borrow_below hold,
    ok_bind]
  dsimp only [List.length_singleton]
  rw [hloop 0]
  rfl

/-! ### Load -/

/-- The load is at most the threshold. -/
def Sparse (map : BucketTable K V) : Prop := 10 * map.len < 76 * map.numBuckets

theorem load_le_iff {map : BucketTable K V} (hpos : 0 < map.numBuckets) :
    map.len * 100 / (map.numBuckets * targetLoadPerBucket) ≤ splitThreshold ↔ Sparse map := by
  rw [targetLoadPerBucket, splitThreshold, Sparse, ← Nat.lt_succ_iff, Nat.div_lt_iff_lt_mul (by omega)]
  omega

theorem loadFactor_eq_ok {map : BucketTable K V} {load : ℕ} (h : loadFactor map = .ok load) :
    0 < map.numBuckets ∧ map.len * 100 / (map.numBuckets * targetLoadPerBucket) = load := by
  simp only [loadFactor, bind_eq_ok, mul_eq_ok, div_eq_ok] at h
  obtain ⟨_, ⟨-, rfl⟩, _, ⟨-, rfl⟩, htarget, hload⟩ := h
  exact ⟨Nat.pos_of_mul_pos_right htarget, hload⟩

theorem Sparse.loadFactor_le {map : BucketTable K V} (h : Sparse map) (hlen : map.len * 100 < 2 ^ 64)
    (hnum : map.numBuckets * targetLoadPerBucket < 2 ^ 64) :
    ∃ load, loadFactor map = .ok load ∧ load ≤ splitThreshold := by
  have hpos : 0 < map.numBuckets := by
    rw [Sparse] at h
    omega
  refine ⟨_, ?_, (load_le_iff hpos).mpr h⟩
  rw [loadFactor, mul_ok hlen, ok_bind, mul_ok hnum, ok_bind, div_ok (Nat.mul_pos hpos (by decide))]

theorem Sparse.split {map last : BucketTable K V} {additionalBuckets : ℕ} (hmap : Sparse map)
    (h : BucketTable.split map additionalBuckets = .ok last) : Sparse last := by
  obtain ⟨hnum, hlen⟩ := split_counters h
  rw [Sparse] at hmap ⊢
  omega

theorem new_sparse {initialBuckets : ℕ} {map : BucketTable K V} (h : new initialBuckets = .ok map) : Sparse map := by
  simp only [new, bind_eq_ok] at h
  obtain ⟨_, -, _, -, _, -, hsplit⟩ := h
  obtain ⟨hnum, hlen⟩ := split_counters hsplit
  dsimp only at hnum hlen
  rw [Sparse]
  omega

section Keys

variable [DecidableEq K] {sipHash : K → ℕ}

/-- One bucket more makes room for more than one entry. -/
theorem Sparse.add {map map' : BucketTable K V} {key : K} {value : V} (hmap : Sparse map)
    (h : add sipHash map key value = .ok map') : Sparse map' := by
  simp only [BucketTable.add, bind_eq_ok] at h
  obtain ⟨index, -, bucket, -, _, -, len, hlen, load, hload, h⟩ := h
  obtain ⟨hpos, hload⟩ := loadFactor_eq_ok hload
  have hlen' := (add_eq_ok.mp hlen).2
  rw [Sparse] at hmap
  split at h
  · obtain ⟨hnum, hlen'', -⟩ := splitOneBucket_counters h
    dsimp only at hnum hlen''
    rw [Sparse]
    omega
  · rw [pure_eq_ok] at h
    subst h
    apply (load_le_iff hpos).mp
    omega

theorem Sparse.remove {map map' : BucketTable K V} {key : K} {value : V} (hmap : Sparse map)
    (h : remove sipHash map key = .ok (value, map')) : Sparse map' := by
  simp only [BucketTable.remove, bind_eq_ok] at h
  obtain ⟨index, -, bucket, -, h⟩ := h
  cases hposition : position bucket key with
  | none =>
      rw [hposition] at h
      cases h
  | some i =>
      rw [hposition] at h
      simp only [bind_eq_ok, pure_eq_ok, Prod.mk.injEq, sub_eq_ok] at h
      obtain ⟨_, -, len, ⟨-, hlen⟩, -, rfl⟩ := h
      rw [Sparse] at hmap ⊢
      dsimp only
      omega

theorem Sparse.borrowMut {map map' : BucketTable K V} {key : K} {update : V → V} {value : V} (hmap : Sparse map)
    (h : borrowMut sipHash map key update = .ok (value, map')) : Sparse map' := by
  simp only [BucketTable.borrowMut, bind_eq_ok] at h
  obtain ⟨index, -, bucket, -, h⟩ := h
  cases hposition : position bucket key with
  | none =>
      rw [hposition] at h
      cases h
  | some i =>
      rw [hposition] at h
      simp only [bind_eq_ok, pure_eq_ok, Prod.mk.injEq] at h
      obtain ⟨_, -, -, rfl⟩ := h
      exact hmap

/-- **One call.** -/
theorem Sparse.exec {map map' : BucketTable K V} {call : Call K V} {answer : Answer V} (hmap : Sparse map)
    (h : BucketTable.exec sipHash call map = .ok (answer, map')) : Sparse map' := by
  cases call with
  | add key value =>
      simp only [BucketTable.exec, bind_eq_ok, pure_eq_ok, Prod.mk.injEq] at h
      obtain ⟨_, hadd, -, rfl⟩ := h
      exact hmap.add hadd
  | remove key =>
      simp only [BucketTable.exec, bind_eq_ok, pure_eq_ok, Prod.mk.injEq] at h
      obtain ⟨_, hremove, -, rfl⟩ := h
      exact hmap.remove hremove
  | borrow key =>
      simp only [BucketTable.exec, bind_eq_ok, pure_eq_ok, Prod.mk.injEq] at h
      obtain ⟨_, -, -, rfl⟩ := h
      exact hmap
  | borrowMut key update =>
      simp only [BucketTable.exec, bind_eq_ok, pure_eq_ok, Prod.mk.injEq] at h
      obtain ⟨_, hborrow, -, rfl⟩ := h
      exact hmap.borrowMut hborrow
  | contains key =>
      simp only [BucketTable.exec, bind_eq_ok, pure_eq_ok, Prod.mk.injEq] at h
      obtain ⟨_, -, -, rfl⟩ := h
      exact hmap
  | split additionalBuckets =>
      simp only [BucketTable.exec, bind_eq_ok, pure_eq_ok, Prod.mk.injEq] at h
      obtain ⟨_, hsplit, -, rfl⟩ := h
      exact hmap.split hsplit

end Keys

/-- In every run of calls on a new table the load stays at most the threshold. -/
theorem bucket_table_load_bounded {K V : Type} [DecidableEq K] (sipHash : K → ℕ) (initialBuckets : ℕ)
    (map : BucketTable K V) (hmap : new initialBuckets = .ok map) (calls : List (Call K V)) :
    10 * (run (exec sipHash) map calls).len < 76 * (run (exec sipHash) map calls).numBuckets ∧
      ((run (exec sipHash) map calls).len * 100 < 2 ^ 64 →
        (run (exec sipHash) map calls).numBuckets * targetLoadPerBucket < 2 ^ 64 →
        ∃ load, loadFactor (run (exec sipHash) map calls) = .ok load ∧ load ≤ splitThreshold) := by
  have hsparse : Sparse (run (exec sipHash) map calls) :=
    run_invariant (fun _ _ _ _ hs _ hok => hs.exec hok) (new_sparse hmap) (along_true map calls)
  exact ⟨hsparse, hsparse.loadFactor_le⟩

theorem bucket_table_load_bounded_eight :
    ∃ map : BucketTable ℕ ℕ, new 1 = .ok map ∧
      (run (exec id) map ((List.range 8).map fun key => .add key 0)).numBuckets = 2 ∧
      10 * (run (exec id) map ((List.range 8).map fun key => .add key 0)).len <
        76 * (run (exec id) map ((List.range 8).map fun key => .add key 0)).numBuckets :=
  ⟨_, rfl, rfl, (bucket_table_load_bounded id 1 _ rfl _).1⟩

end MoveTutorial.BucketTable
