import Mathlib

/-! Lists cut into blocks of `n` elements. Position `i` is offset `i % n` of block `i / n`; appending an
element and replacing one change a single block. -/

namespace MoveTutorial

variable {α : Type} {n : ℕ}

/-- The `k`th block of `n` elements. -/
def block (n : ℕ) (xs : List α) (k : ℕ) : List α := (xs.drop (k * n)).take n

theorem block_position (hn : 0 < n) (k : ℕ) {o : ℕ} (ho : o < n) : (k * n + o) / n = k ∧ (k * n + o) % n = o := by
  refine ⟨?_, ?_⟩
  · rw [Nat.mul_comm, Nat.mul_add_div hn, Nat.div_eq_of_lt ho, Nat.add_zero]
  · rw [Nat.mul_comm, Nat.mul_add_mod, Nat.mod_eq_of_lt ho]

theorem getElem?_block (xs : List α) (k o : ℕ) :
    (block n xs k)[o]? = if o < n then xs[k * n + o]? else none := by
  rw [block, List.getElem?_take, List.getElem?_drop]

theorem length_block (xs : List α) (k : ℕ) : (block n xs k).length = min n (xs.length - k * n) := by
  rw [block, List.length_take, List.length_drop]

theorem block_eq_nil {xs : List α} {k : ℕ} (h : xs.length ≤ k * n) : block n xs k = [] := by
  rw [block, List.drop_eq_nil_of_le h, List.take_nil]

/-- How many blocks the elements take. -/
theorem blocks_le_iff {len k : ℕ} (hn : 0 < n) : len ⌈/⌉ n ≤ k ↔ len ≤ k * n := by
  rw [ceilDiv_le_iff_le_mul hn, Nat.mul_comm]

theorem le_blocks_mul (hn : 0 < n) (len : ℕ) : len ≤ len ⌈/⌉ n * n := (blocks_le_iff hn).mp (Nat.le_refl _)

/-- The blocks, one after another, are the list. -/
theorem flatMap_block {xs : List α} {k : ℕ} (h : xs.length ≤ k * n) :
    (List.range k).flatMap (block n xs) = xs := by
  have htake : ∀ j, (List.range j).flatMap (block n xs) = xs.take (j * n) := by
    intro j
    induction j with
    | zero => rw [Nat.zero_mul, List.take_zero, List.range_zero, List.flatMap_nil]
    | succ j ih =>
        rw [List.range_succ, List.flatMap_append, ih, List.flatMap_singleton, block, Nat.succ_mul, List.take_add]
  rw [htake, List.take_of_length_le h]

theorem add_le_of_lt_div {i k : ℕ} (hn : 0 < n) (h : k < i / n) : k * n + n ≤ i := by
  have hle := (Nat.le_div_iff_mul_le hn).mp (Nat.succ_le_of_lt h)
  rwa [Nat.succ_mul] at hle

theorem div_mul_le_lt (i : ℕ) (hn : 0 < n) : i / n * n ≤ i ∧ i < i / n * n + n ∧ i - i / n * n = i % n := by
  have hdiv := Nat.div_add_mod' i n
  have hmod := Nat.mod_lt i hn
  omega

theorem block_append_singleton (hn : 0 < n) (xs : List α) (a : α) (k : ℕ) :
    block n (xs ++ [a]) k = if k = xs.length / n then block n xs k ++ [a] else block n xs k := by
  rcases Nat.lt_trichotomy k (xs.length / n) with hlt | rfl | hgt
  · have hle := add_le_of_lt_div hn hlt
    rw [if_neg (Nat.ne_of_lt hlt), block, block, List.drop_append_of_le_length (by omega),
      List.take_append_of_le_length (by rw [List.length_drop]; omega)]
  · obtain ⟨hle, hlt, -⟩ := div_mul_le_lt xs.length hn
    rw [if_pos rfl, block, block, List.drop_append_of_le_length hle, List.take_append, List.length_drop,
      List.take_of_length_le (l := [a]) (by rw [List.length_singleton]; omega)]
  · have hlt := (Nat.div_lt_iff_lt_mul hn).mp hgt
    rw [if_neg (Nat.ne_of_gt hgt), block_eq_nil (Nat.le_of_lt hlt), block_eq_nil]
    rw [List.length_append, List.length_singleton]
    omega

theorem block_set (hn : 0 < n) (xs : List α) (i : ℕ) (a : α) (k : ℕ) :
    block n (xs.set i a) k = if k = i / n then (block n xs k).set (i % n) a else block n xs k := by
  rw [block, List.drop_set]
  rcases Nat.lt_trichotomy k (i / n) with hlt | rfl | hgt
  · have hle := add_le_of_lt_div hn hlt
    rw [if_neg (Nat.ne_of_lt hlt), if_neg (by omega), List.take_set]
    apply List.set_eq_of_length_le
    rw [List.length_take]
    omega
  · obtain ⟨hle, -, hmod⟩ := div_mul_le_lt i hn
    rw [if_pos rfl, if_neg (Nat.not_lt.mpr hle), List.take_set, hmod]
    rfl
  · rw [if_neg (Nat.ne_of_gt hgt), if_pos ((Nat.div_lt_iff_lt_mul hn).mp hgt)]
    rfl

end MoveTutorial
