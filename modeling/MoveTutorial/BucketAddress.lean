import MoveTutorial.BucketModel

/-! Addresses of linear hashing. With `2 ^ level ≤ numBuckets < 2 ^ (level + 1)` a hash is addressed by
its last `level + 1` bits if that bucket exists, and by its last `level` bits otherwise. A split moves the
hashes whose `level + 1` bits are the new bucket, and no others. -/

namespace MoveTutorial.BucketTable

open Move

/-- The number of bits that count the buckets, and few enough buckets for the shifts of
`bucket_index`. -/
structure Levelled (level numBuckets : ℕ) : Prop where
  le : 2 ^ level ≤ numBuckets
  lt : numBuckets < 2 ^ (level + 1)
  level_lt : level < 63

/-- The bucket of a hash. -/
def address (level numBuckets hash : ℕ) : ℕ :=
  if hash % 2 ^ (level + 1) < numBuckets then hash % 2 ^ (level + 1) else hash % 2 ^ (level + 1) % 2 ^ level

/-- The level after a split. -/
def nextLevel (level numBuckets : ℕ) : ℕ := if numBuckets + 1 = 2 ^ (level + 1) then level + 1 else level

variable {level numBuckets : ℕ}

theorem bucketIndex_ok (h : level < 63) (numBuckets hash : ℕ) :
    bucketIndex level numBuckets hash = .ok (address level numBuckets hash) := by
  have hpow : ∀ n, 0 < 2 ^ n := fun n => Nat.two_pow_pos n
  rw [bucketIndex, add_ok (by omega), ok_bind, shl_one (by omega), ok_bind, mod_ok (hpow _), ok_bind, address]
  by_cases hindex : hash % 2 ^ (level + 1) < numBuckets
  · rw [if_pos hindex, if_pos hindex]
    rfl
  · rw [if_neg hindex, if_neg hindex, shl_one (by omega), ok_bind, mod_ok (hpow _)]

theorem levelled_one : Levelled 0 1 := ⟨by decide, by decide, by decide⟩

theorem Levelled.numBuckets_lt (h : Levelled level numBuckets) : numBuckets < 2 ^ 63 :=
  h.lt.trans_le (Nat.pow_le_pow_right Nat.two_pos h.level_lt)

theorem address_lt (h : Levelled level numBuckets) (hash : ℕ) : address level numBuckets hash < numBuckets := by
  rw [address]
  split
  · assumption
  · exact (Nat.mod_lt _ (Nat.two_pow_pos level)).trans_le h.le

theorem Levelled.div_eq (h : Levelled level numBuckets) : numBuckets / 2 ^ level = 1 := by
  have hle := h.le
  have hlt := h.lt
  rw [Nat.pow_succ] at hlt
  exact Nat.div_eq_of_lt_le (by omega) (by omega)

theorem Levelled.mod_eq (h : Levelled level numBuckets) : numBuckets % 2 ^ level = numBuckets - 2 ^ level := by
  have hsum := Nat.div_add_mod numBuckets (2 ^ level)
  rw [h.div_eq] at hsum
  omega

/-- The bucket that a split divides: the number of buckets without its highest bit. -/
theorem xor_eq_sub (h : Levelled level numBuckets) : xor numBuckets (2 ^ level) = numBuckets - 2 ^ level := by
  have hhigh : xor numBuckets (2 ^ level) / 2 ^ level = 0 := by
    rw [xor, Nat.xor_div_two_pow, h.div_eq, Nat.div_self (Nat.two_pow_pos level)]
    rfl
  have hlow : xor numBuckets (2 ^ level) % 2 ^ level = numBuckets - 2 ^ level := by
    rw [xor, Nat.xor_mod_two_pow, Nat.mod_self, Nat.xor_zero, h.mod_eq]
  have hsum := Nat.div_add_mod (xor numBuckets (2 ^ level)) (2 ^ level)
  rw [hhigh, hlow] at hsum
  omega

theorem bumpLevel_ok (h : Levelled level numBuckets) :
    bumpLevel level (numBuckets - 2 ^ level) (2 ^ level) = .ok (nextLevel level numBuckets) := by
  have hlevel := h.level_lt
  have hle := h.le
  have hlt := h.numBuckets_lt
  have hpow := Nat.two_pow_pos level
  have hiff : numBuckets - 2 ^ level + 1 = 2 ^ level ↔ numBuckets + 1 = 2 ^ (level + 1) := by
    rw [Nat.pow_succ]
    omega
  rw [bumpLevel, add_ok (by omega), ok_bind, nextLevel]
  by_cases hfull : numBuckets + 1 = 2 ^ (level + 1)
  · rw [if_pos (hiff.mpr hfull), if_pos hfull, add_ok (by omega)]
  · rw [if_neg (fun heq => hfull (hiff.mp heq)), if_neg hfull]
    rfl

theorem nextLevel_levelled (h : Levelled level numBuckets) (hroom : numBuckets + 1 < 2 ^ 63) :
    Levelled (nextLevel level numBuckets) (numBuckets + 1) := by
  have hle := h.le
  have hlt := h.lt
  rw [nextLevel]
  by_cases hfull : numBuckets + 1 = 2 ^ (level + 1)
  · rw [if_pos hfull]
    refine ⟨Nat.le_of_eq hfull.symm, ?_, ?_⟩
    · rw [hfull]
      exact Nat.pow_lt_pow_right (by decide) (Nat.lt_succ_self _)
    · rw [hfull] at hroom
      exact (Nat.pow_lt_pow_iff_right (by decide)).mp hroom
  · rw [if_neg hfull]
    exact ⟨hle.trans (Nat.le_succ _), by omega, h.level_lt⟩

/-- The hashes of the new bucket were addressed to the bucket that is split. -/
theorem address_of_new {hash : ℕ} (h : Levelled level numBuckets) (hhash : hash % 2 ^ (level + 1) = numBuckets) :
    address level numBuckets hash = numBuckets - 2 ^ level := by
  rw [address, hhash, if_neg (Nat.lt_irrefl _), h.mod_eq]

/-- **Addresses after a split.** -/
theorem address_split (h : Levelled level numBuckets) (hash : ℕ) :
    address (nextLevel level numBuckets) (numBuckets + 1) hash =
      if hash % 2 ^ (level + 1) = numBuckets then numBuckets else address level numBuckets hash := by
  have hlt := h.lt
  have hbits : hash % 2 ^ (level + 1) < 2 ^ (level + 1) := Nat.mod_lt _ (Nat.two_pow_pos _)
  rw [nextLevel]
  by_cases hfull : numBuckets + 1 = 2 ^ (level + 1)
  · have hnext : address (level + 1) (numBuckets + 1) hash = hash % 2 ^ (level + 1) := by
      rw [address, hfull]
      split
      · rename_i hsmall
        rw [← Nat.mod_mod_of_dvd hash (Nat.pow_dvd_pow 2 (Nat.le_succ (level + 1))), Nat.mod_eq_of_lt hsmall]
      · exact Nat.mod_mod_of_dvd hash (Nat.pow_dvd_pow 2 (Nat.le_succ (level + 1)))
    rw [if_pos hfull, hnext]
    by_cases hnew : hash % 2 ^ (level + 1) = numBuckets
    · rw [if_pos hnew, hnew]
    · rw [if_neg hnew, address, if_pos (by omega)]
  · rw [if_neg hfull, address, address]
    by_cases hnew : hash % 2 ^ (level + 1) = numBuckets
    · rw [if_pos hnew, if_pos (by omega), hnew]
    · have hiff : hash % 2 ^ (level + 1) < numBuckets + 1 ↔ hash % 2 ^ (level + 1) < numBuckets := by omega
      rw [if_neg hnew]
      simp only [hiff]

end MoveTutorial.BucketTable
