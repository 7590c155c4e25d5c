import MoveTutorial.BigVectorModel
import MoveTutorial.Blocks

/-! How a big vector lays out a list: the buckets are the blocks of the list, followed by empty
buckets, and the end index is the position after the last element. Every operation on a layout is an
operation on the list. -/

namespace MoveTutorial.BigVector

open Move

variable {T : Type} {n numBuckets : ℕ} {xs : List T}

/-- The vector that holds the list in `numBuckets` buckets of `n` elements. -/
def layout (n numBuckets : ℕ) (xs : List T) : BigVector T where
  buckets := .below numBuckets (block n xs)
  endIndex := ⟨xs.length / n, xs.length % n⟩
  numBuckets := numBuckets
  bucketSize := n

/-- Writing the one block in which two lists differ. -/
theorem write_block {ys : List T} {k : ℕ} (hk : k < numBuckets)
    (hother : ∀ j, j ≠ k → block n ys j = block n xs j) :
    (TableWithLength.below numBuckets (block n xs)).write k (block n ys k) = .below numBuckets (block n ys) := by
  rw [TableWithLength.write_below hk]
  apply TableWithLength.below_congr
  intro j _
  by_cases hj : j = k
  · rw [hj, Function.update_self]
  · rw [Function.update_of_ne hj, hother j hj]

theorem add_block (hfits : xs.length ≤ numBuckets * n) :
    (TableWithLength.below numBuckets (block n xs)).add numBuckets [] = .ok (.below (numBuckets + 1) (block n xs)) := by
  rw [TableWithLength.add_below, ← block_eq_nil hfits, Function.update_eq_self]

/-! ### The end index -/

theorem succ_position (hn : 0 < n) (len : ℕ) :
    if len % n + 1 = n then (len + 1) / n = len / n + 1 ∧ (len + 1) % n = 0
    else (len + 1) / n = len / n ∧ (len + 1) % n = len % n + 1 := by
  have hdiv := Nat.div_add_mod' len n
  have hmod := Nat.mod_lt len hn
  split
  · have hlen : len + 1 = (len / n + 1) * n + 0 := by rw [Nat.add_mul]; omega
    rw [hlen]
    exact block_position hn _ hn
  · have hlen : len + 1 = len / n * n + (len % n + 1) := by omega
    rw [hlen]
    exact block_position hn _ (by omega)

theorem incrementIndex_end (hn : 0 < n) {len : ℕ} (hlen : len + 1 < 2 ^ 64) :
    incrementIndex ⟨len / n, len % n⟩ n = .ok ⟨(len + 1) / n, (len + 1) % n⟩ := by
  have hsucc := succ_position hn len
  have hmod := Nat.mod_le len n
  have hdiv := Nat.div_le_self len n
  rw [incrementIndex, add_ok (by dsimp only; omega), ok_bind]
  by_cases hend : len % n + 1 = n
  · rw [if_pos hend] at hsucc ⊢
    rw [add_ok (by dsimp only; omega), ok_bind, hsucc.1, hsucc.2]
    rfl
  · rw [if_neg hend] at hsucc ⊢
    rw [hsucc.1, hsucc.2]
    rfl

theorem decrementIndex_end (hn : 0 < n) (len : ℕ) :
    decrementIndex ⟨(len + 1) / n, (len + 1) % n⟩ n = .ok ⟨len / n, len % n⟩ := by
  have hsucc := succ_position hn len
  rw [decrementIndex]
  by_cases hend : len % n + 1 = n
  · rw [if_pos hend] at hsucc
    have hoffset : n - 1 = len % n := by omega
    rw [hsucc.1, hsucc.2, if_pos rfl, assert_pos _ (Nat.succ_pos _), ok_bind, sub_ok (Nat.le_add_left 1 _),
      ok_bind, sub_ok hn, ok_bind, hoffset]
    rfl
  · rw [if_neg hend] at hsucc
    rw [hsucc.1, hsucc.2, if_neg (Nat.succ_ne_zero _), sub_ok (Nat.le_add_left 1 _), ok_bind]
    rfl

theorem length_layout (hlen : xs.length < 2 ^ 64) : length (layout n numBuckets xs) = .ok xs.length := by
  have hdiv : xs.length / n * n + xs.length % n = xs.length := Nat.div_add_mod' _ _
  rw [length]
  dsimp only [layout]
  rw [mul_ok (by omega), ok_bind, add_ok (by omega), hdiv]

/-- The length of a vector with too many elements cannot be computed. -/
theorem length_layout_aborts (hlen : 2 ^ 64 ≤ xs.length) : Aborts (length (layout n numBuckets xs)) := by
  have hdiv : xs.length / n * n + xs.length % n = xs.length := Nat.div_add_mod' _ _
  rw [length]
  dsimp only [layout]
  by_cases hfull : xs.length / n * n < 2 ^ 64
  · rw [mul_ok hfull, ok_bind, add_eq_error.mpr ⟨hdiv.symm ▸ hlen, rfl⟩]
    exact ⟨_, rfl⟩
  · rw [mul_eq_error.mpr ⟨Nat.le_of_not_lt hfull, rfl⟩]
    exact ⟨_, rfl⟩

theorem isEmpty_layout (hlen : xs.length < 2 ^ 64) : isEmpty (layout n numBuckets xs) = .ok xs.isEmpty := by
  rw [isEmpty, length_layout hlen, ok_bind]
  cases xs <;> rfl

/-! ### Elements -/

section Elements

variable {index : BigVectorIndex} {a : T}

/-- The index of a position below the length. -/
def Denotes (n len : ℕ) (index : BigVectorIndex) : Prop :=
  index.vecIndex < n ∧ index.bucketIndex * n + index.vecIndex < len

instance (n len : ℕ) (index : BigVectorIndex) : Decidable (Denotes n len index) :=
  inferInstanceAs (Decidable (_ ∧ _))

theorem Denotes.bucketIndex_lt (hfits : xs.length ≤ numBuckets * n) (h : Denotes n xs.length index) :
    index.bucketIndex < numBuckets := by
  have hscaled : index.bucketIndex * n < numBuckets * n :=
    calc index.bucketIndex * n ≤ index.bucketIndex * n + index.vecIndex := Nat.le_add_right _ _
      _ < xs.length := h.2
      _ ≤ numBuckets * n := hfits
  exact Nat.lt_of_mul_lt_mul_right hscaled

theorem getElem?_block_of_denotes (h : Denotes n xs.length index) :
    (block n xs index.bucketIndex)[index.vecIndex]? = xs[index.bucketIndex * n + index.vecIndex]? := by
  rw [getElem?_block, if_pos h.1]

theorem length_block_of_not_denotes (h : ¬Denotes n xs.length index) :
    (block n xs index.bucketIndex).length ≤ index.vecIndex := by
  rw [length_block]
  rw [Denotes] at h
  omega

theorem bucketIndex_layout (hn : 0 < n) (hlen : xs.length < 2 ^ 64) {i : ℕ} (hi : i < xs.length) :
    bucketIndex (layout n numBuckets xs) i = .ok ⟨i / n, i % n⟩ := by
  rw [bucketIndex, length_layout hlen, ok_bind, assert_pos _ hi, ok_bind]
  dsimp only [layout]
  rw [div_ok hn, ok_bind, mod_ok hn, ok_bind]
  rfl

theorem borrow_layout (hfits : xs.length ≤ numBuckets * n) (h : Denotes n xs.length index)
    (ha : xs[index.bucketIndex * n + index.vecIndex]? = some a) :
    borrow (layout n numBuckets xs) index = .ok a := by
  rw [← getElem?_block_of_denotes h] at ha
  rw [borrow]
  dsimp only [layout]
  rw [TableWithLength.borrow_below (h.bucketIndex_lt hfits), ok_bind, Vec.borrow_of_getElem? ha]

theorem borrow_layout_aborts (h : ¬Denotes n xs.length index) : Aborts (borrow (layout n numBuckets xs) index) := by
  rw [borrow]
  dsimp only [layout]
  by_cases hk : index.bucketIndex < numBuckets
  · rw [TableWithLength.borrow_below hk, ok_bind]
    exact Vec.borrow_aborts (length_block_of_not_denotes h)
  · rw [TableWithLength.borrow_below_of_le (Nat.le_of_not_lt hk)]
    exact ⟨_, rfl⟩

/-- Replacing an element writes its bucket. -/
theorem write_layout (hn : 0 < n) (hfits : xs.length ≤ numBuckets * n) (h : Denotes n xs.length index) (b : T) :
    { layout n numBuckets xs with
      buckets := (TableWithLength.below numBuckets (block n xs)).write index.bucketIndex
        ((block n xs index.bucketIndex).set index.vecIndex b) } =
      layout n numBuckets (xs.set (index.bucketIndex * n + index.vecIndex) b) := by
  obtain ⟨hdiv, hmod⟩ := block_position hn index.bucketIndex h.1
  have hset := block_set hn xs (index.bucketIndex * n + index.vecIndex) b
  rw [hdiv, hmod] at hset
  have hself := hset index.bucketIndex
  rw [if_pos rfl] at hself
  have hother : ∀ j, j ≠ index.bucketIndex → block n (xs.set (index.bucketIndex * n + index.vecIndex) b) j =
      block n xs j := by
    intro j hj
    rw [hset j, if_neg hj]
  rw [← hself, write_block (h.bucketIndex_lt hfits) hother, layout, layout, List.length_set]

theorem borrowMut_layout (hn : 0 < n) (hfits : xs.length ≤ numBuckets * n) (h : Denotes n xs.length index)
    (ha : xs[index.bucketIndex * n + index.vecIndex]? = some a) (update : T → T) :
    borrowMut (layout n numBuckets xs) index update =
      .ok (a, layout n numBuckets (xs.set (index.bucketIndex * n + index.vecIndex) (update a))) := by
  rw [← write_layout hn hfits h, borrowMut]
  rw [← getElem?_block_of_denotes h] at ha
  dsimp only [layout]
  rw [TableWithLength.borrow_below (h.bucketIndex_lt hfits), ok_bind, Vec.borrow_of_getElem? ha, ok_bind]
  rfl

theorem borrowMut_layout_aborts (h : ¬Denotes n xs.length index) (update : T → T) :
    Aborts (borrowMut (layout n numBuckets xs) index update) := by
  rw [borrowMut]
  dsimp only [layout]
  by_cases hk : index.bucketIndex < numBuckets
  · obtain ⟨e, he⟩ := Vec.borrow_aborts (length_block_of_not_denotes h)
    rw [TableWithLength.borrow_below hk, ok_bind, he]
    exact ⟨_, rfl⟩
  · rw [TableWithLength.borrow_below_of_le (Nat.le_of_not_lt hk)]
    exact ⟨_, rfl⟩

end Elements

/-! ### Growing and shrinking -/

section Length

/-- Appending an element writes the block of the end index. -/
theorem write_append (hn : 0 < n) (hk : xs.length / n < numBuckets) (val : T) :
    (TableWithLength.below numBuckets (block n xs)).write (xs.length / n) (block n xs (xs.length / n) ++ [val]) =
      .below numBuckets (block n (xs ++ [val])) := by
  have hblock := block_append_singleton hn xs val
  have hself := hblock (xs.length / n)
  rw [if_pos rfl] at hself
  have hother : ∀ j, j ≠ xs.length / n → block n (xs ++ [val]) j = block n xs j := by
    intro j hj
    rw [hblock j, if_neg hj]
  rw [← hself, write_block hk hother]

theorem append_layout (hn : 0 < n) (hroom : xs.length < numBuckets * n) (hlen : xs.length + 1 < 2 ^ 64) (val : T) :
    append (layout n numBuckets xs) val = .ok (layout n numBuckets (xs ++ [val])) := by
  have hk : xs.length / n < numBuckets := (Nat.div_lt_iff_lt_mul hn).mpr hroom
  rw [append]
  dsimp only [layout]
  rw [TableWithLength.borrow_below hk, ok_bind, incrementIndex_end hn hlen, ok_bind, write_append hn hk,
    List.length_append, List.length_singleton]
  rfl

theorem popBack_layout (hn : 0 < n) (hfits : xs.length + 1 ≤ numBuckets * n) (hlen : xs.length + 1 < 2 ^ 64)
    (last : T) :
    popBack (layout n numBuckets (xs ++ [last])) = .ok (last, layout n numBuckets xs) := by
  have hk : xs.length / n < numBuckets := (Nat.div_lt_iff_lt_mul hn).mpr hfits
  have hlen' : (xs ++ [last]).length = xs.length + 1 := by rw [List.length_append, List.length_singleton]
  have hblock := block_append_singleton hn xs last
  have hself := hblock (xs.length / n)
  rw [if_pos rfl] at hself
  have hother : ∀ j, j ≠ xs.length / n → block n xs j = block n (xs ++ [last]) j := by
    intro j hj
    rw [hblock j, if_neg hj]
  have hne : (xs ++ [last]).isEmpty = false := by simp
  rw [popBack, isEmpty_layout (hlen'.symm ▸ hlen), ok_bind, assert_pos _ hne, ok_bind]
  dsimp only [layout]
  rw [hlen', decrementIndex_end hn, ok_bind, TableWithLength.borrow_below hk, ok_bind, hself, Vec.popBack_append,
    ok_bind]
  dsimp only
  rw [write_block hk hother]
  rfl

theorem popBack_layout_nil : popBack (layout n numBuckets ([] : List T)) = .error (.code (invalidArgument 1)) := by
  rw [popBack, isEmpty_layout (by simp)]
  rfl

theorem addBucket_layout (hfits : xs.length ≤ numBuckets * n) (hcap : numBuckets + 1 < 2 ^ 64) :
    addBucket (layout n numBuckets xs) = .ok (layout n (numBuckets + 1) xs) := by
  rw [addBucket]
  dsimp only [layout]
  rw [add_block hfits, ok_bind, add_ok hcap, ok_bind]
  rfl

theorem reserve_layout {k : ℕ} (hfits : xs.length ≤ numBuckets * n) (hcap : numBuckets + k < 2 ^ 64) :
    reserve (layout n numBuckets xs) k = .ok (layout n (numBuckets + k) xs) := by
  induction k generalizing numBuckets with
  | zero => rfl
  | succ k ih =>
      have hfits' : xs.length ≤ (numBuckets + 1) * n := hfits.trans (Nat.mul_le_mul_right n (Nat.le_succ _))
      rw [reserve, addBucket_layout hfits (by omega), ok_bind, ih hfits' (by omega), Nat.succ_add_eq_add_succ]

theorem reserve_layout_aborts {k : ℕ} (hfits : xs.length ≤ numBuckets * n) (hcap : numBuckets < 2 ^ 64)
    (hover : ¬numBuckets + k < 2 ^ 64) : Aborts (reserve (layout n numBuckets xs) k) := by
  induction k generalizing numBuckets with
  | zero => exact absurd hcap hover
  | succ k ih =>
      have hfits' : xs.length ≤ (numBuckets + 1) * n := hfits.trans (Nat.mul_le_mul_right n (Nat.le_succ _))
      rw [reserve]
      by_cases hnext : numBuckets + 1 < 2 ^ 64
      · rw [addBucket_layout hfits hnext, ok_bind]
        exact ih hfits' hnext (by omega)
      · rw [addBucket]
        dsimp only [layout]
        rw [add_block hfits, ok_bind, add, checked, if_neg hnext]
        exact ⟨_, rfl⟩

theorem ceilDiv_end (hn : 0 < n) (len : ℕ) : len / n + (if len % n = 0 then 0 else 1) = len ⌈/⌉ n := by
  have hdiv := Nat.div_add_mod' len n
  have hmod := Nat.mod_lt len hn
  rw [Nat.ceilDiv_eq_add_pred_div]
  by_cases hzero : len % n = 0
  · have heq : len + n - 1 = len / n * n + (n - 1) := by omega
    rw [if_pos hzero, heq, (block_position hn _ (by omega)).1]
    rfl
  · have heq : len + n - 1 = (len / n + 1) * n + (len % n - 1) := by
      rw [Nat.add_mul]
      omega
    rw [if_neg hzero, heq, (block_position hn _ (by omega)).1]

theorem bucketsRequired_end (hn : 0 < n) {len : ℕ} (hlen : len ⌈/⌉ n < 2 ^ 64) :
    bucketsRequired ⟨len / n, len % n⟩ = .ok (len ⌈/⌉ n) := by
  rw [← ceilDiv_end hn] at hlen ⊢
  exact add_ok hlen

theorem shrinkLoop_layout (hn : 0 < n) (hlen : xs.length ⌈/⌉ n < 2 ^ 64) {k : ℕ} (hk : xs.length ⌈/⌉ n ≤ k) :
    shrinkLoop ⟨xs.length / n, xs.length % n⟩ k (.below k (block n xs)) =
      .ok (xs.length ⌈/⌉ n, TableWithLength.below (xs.length ⌈/⌉ n) (block n xs)) := by
  induction k with
  | zero =>
      rw [shrinkLoop, bucketsRequired_end hn hlen, Nat.le_zero.mp hk]
      rfl
  | succ k ih =>
      rw [shrinkLoop, bucketsRequired_end hn hlen, ok_bind]
      by_cases hmore : k + 1 > xs.length ⌈/⌉ n
      · have hle : xs.length ⌈/⌉ n ≤ k := Nat.le_of_lt_succ hmore
        have hempty : block n xs k = [] := block_eq_nil ((blocks_le_iff hn).mp hle)
        rw [if_pos hmore, TableWithLength.remove_below, ok_bind]
        dsimp only
        rw [hempty]
        exact ih hle
      · have heq : k + 1 = xs.length ⌈/⌉ n := Nat.le_antisymm (Nat.le_of_not_lt hmore) hk
        rw [if_neg hmore, heq]
        rfl

theorem shrinkToFit_layout (hn : 0 < n) (hfits : xs.length ≤ numBuckets * n) (hcap : numBuckets < 2 ^ 64) :
    shrinkToFit (layout n numBuckets xs) = .ok (layout n (xs.length ⌈/⌉ n) xs) := by
  have hk : xs.length ⌈/⌉ n ≤ numBuckets := (blocks_le_iff hn).mpr hfits
  rw [shrinkToFit]
  dsimp only [layout]
  rw [shrinkLoop_layout hn (hk.trans_lt hcap) hk, ok_bind]
  rfl

end Length

/-! ### Swap and remove -/

section SwapRemove

variable {index : BigVectorIndex} {a : T}

/-- The three steps on the bucket replace the element. -/
theorem replace_bucket {bucket : List T} {o : ℕ} (ha : bucket[o]? = some a) (val : T) :
    ∃ rest, Vec.swapRemove bucket o = .ok (a, rest) ∧ sub bucket.length 1 = .ok rest.length ∧
      Vec.swap (rest ++ [val]) o rest.length = .ok (bucket.set o val) := by
  obtain ⟨front, z, rfl⟩ := Vec.exists_last ha
  refine ⟨front.set o z, Vec.swapRemove_append front z ha, ?_, ?_⟩
  · rw [List.length_append, List.length_singleton, List.length_set]
    exact sub_ok (Nat.le_add_left 1 _)
  · have hlast : (front.set o z ++ [val])[(front.set o z).length]? = some val := by simp
    by_cases ho : o < front.length
    · have hz : (front.set o z ++ [val])[o]? = some z := by
        rw [List.getElem?_append_left (by rwa [List.length_set]), List.getElem?_set_self ho]
      rw [Vec.swap_of_getElem? hz hlast, List.set_append_left _ _ (by rwa [List.length_set]),
        List.set_append_left _ _ ho, List.set_set, List.set_append_right _ _ (by simp)]
      simp
    · have hbound := (List.getElem?_eq_some_iff.mp ha).1
      rw [List.length_append, List.length_singleton] at hbound
      have heq : o = front.length := by omega
      subst heq
      rw [List.set_eq_of_length_le (Nat.le_refl _)] at hlast ⊢
      rw [Vec.swap_of_getElem? hlast hlast]
      simp

theorem swapRemove_layout (hn : 0 < n) (hfits : xs.length + 1 ≤ numBuckets * n) (hlen : xs.length + 1 < 2 ^ 64)
    {last : T} (h : Denotes n (xs ++ [last]).length index)
    (ha : (xs ++ [last])[index.bucketIndex * n + index.vecIndex]? = some a) :
    swapRemove (layout n numBuckets (xs ++ [last])) index =
      .ok (a, layout n numBuckets (xs.set (index.bucketIndex * n + index.vecIndex) last)) := by
  have hdiv := Nat.div_add_mod' xs.length n
  rw [swapRemove, popBack_layout hn hfits hlen, ok_bind]
  dsimp only
  by_cases hend : (layout n numBuckets xs).endIndex.bucketIndex = index.bucketIndex ∧
      (layout n numBuckets xs).endIndex.vecIndex = index.vecIndex
  · have hpos : index.bucketIndex * n + index.vecIndex = xs.length := by
      rw [← hend.1, ← hend.2]
      exact hdiv
    rw [hpos, List.getElem?_append_right (Nat.le_refl _), Nat.sub_self] at ha
    cases ha
    rw [if_pos hend, hpos, List.set_eq_of_length_le (Nat.le_refl _)]
    rfl
  · have hpos : index.bucketIndex * n + index.vecIndex < xs.length := by
      have hlt := h.2
      rw [List.length_append, List.length_singleton] at hlt
      rcases Nat.lt_or_eq_of_le (Nat.le_of_lt_succ hlt) with hlt | heq
      · exact hlt
      · obtain ⟨hb, ho⟩ := block_position hn index.bucketIndex h.1
        rw [heq] at hb ho
        exact absurd ⟨hb, ho⟩ hend
    have hdenotes : Denotes n xs.length index := ⟨h.1, hpos⟩
    rw [List.getElem?_append_left hpos, ← getElem?_block_of_denotes hdenotes] at ha
    obtain ⟨rest, hremove, hsub, hswap⟩ := replace_bucket ha last
    rw [if_neg hend, ← write_layout hn (Nat.le_of_succ_le hfits) hdenotes]
    dsimp only [layout]
    rw [TableWithLength.borrow_below (hdenotes.bucketIndex_lt (Nat.le_of_succ_le hfits)), ok_bind, hremove, ok_bind]
    dsimp only
    rw [hsub, ok_bind, hswap, ok_bind]
    rfl

theorem set_getLast_dropLast (front : List T) (i : ℕ) (last : T) :
    ((front ++ [last]).set i last).dropLast = front.set i last := by
  by_cases hi : i < front.length
  · rw [List.set_append_left _ _ hi, List.dropLast_concat]
  · have hsingle : [last].set (i - front.length) last = [last] := by
      cases i - front.length <;> rfl
    rw [List.set_append_right _ _ (Nat.le_of_not_lt hi), hsingle, List.dropLast_concat,
      List.set_eq_of_length_le (Nat.le_of_not_lt hi)]

theorem swapRemove_layout_getLast (hn : 0 < n) (hfits : xs.length ≤ numBuckets * n) (hlen : xs.length < 2 ^ 64)
    (h : Denotes n xs.length index) (hne : xs ≠ []) :
    swapRemove (layout n numBuckets xs) index =
      .ok (xs.get ⟨index.bucketIndex * n + index.vecIndex, h.2⟩, layout n numBuckets
        (xs.set (index.bucketIndex * n + index.vecIndex) (xs.getLast hne)).dropLast) := by
  obtain ⟨front, last, rfl⟩ : ∃ front last, xs = front ++ [last] :=
    ⟨xs.dropLast, xs.getLast hne, (List.dropLast_append_getLast hne).symm⟩
  have ha := List.getElem?_eq_getElem h.2
  have hlength : (front ++ [last]).length = front.length + 1 := by rw [List.length_append, List.length_singleton]
  rw [swapRemove_layout hn (hlength ▸ hfits) (hlength ▸ hlen) h ha, List.getLast_append_singleton,
    set_getLast_dropLast]
  rfl

theorem swapRemove_layout_aborts (hn : 0 < n) (hfits : xs.length ≤ numBuckets * n) (hlen : xs.length < 2 ^ 64)
    (h : ¬Denotes n xs.length index) : Aborts (swapRemove (layout n numBuckets xs) index) := by
  rw [swapRemove]
  rcases List.eq_nil_or_concat xs with rfl | ⟨front, last, rfl⟩
  · rw [popBack_layout_nil]
    exact ⟨_, rfl⟩
  · rw [List.concat_eq_append] at hfits hlen h ⊢
    rw [List.length_append, List.length_singleton] at hfits hlen h
    rw [popBack_layout hn hfits hlen, ok_bind]
    dsimp only
    have hend : ¬((layout n numBuckets front).endIndex.bucketIndex = index.bucketIndex ∧
        (layout n numBuckets front).endIndex.vecIndex = index.vecIndex) := by
      intro hend
      obtain ⟨hb, ho⟩ := hend
      apply h
      refine ⟨?_, ?_⟩
      · rw [← ho]
        exact Nat.mod_lt _ hn
      · rw [← hb, ← ho]
        exact (Nat.div_add_mod' front.length n).symm ▸ Nat.lt_succ_self _
    have hfront : ¬Denotes n front.length index := fun hd => h ⟨hd.1, hd.2.trans (Nat.lt_succ_self _)⟩
    rw [if_neg hend]
    dsimp only [layout]
    by_cases hk : index.bucketIndex < numBuckets
    · obtain ⟨e, he⟩ := Vec.swapRemove_aborts (length_block_of_not_denotes hfront)
      rw [TableWithLength.borrow_below hk, ok_bind, he]
      exact ⟨_, rfl⟩
    · rw [TableWithLength.borrow_below_of_le (Nat.le_of_not_lt hk)]
      exact ⟨_, rfl⟩

end SwapRemove

end MoveTutorial.BigVector
