import MoveTutorial.BigVectorLayout

/-! Big vectors are lists. Beside its elements the list knows how many buckets are reserved for it,
which decides when a push without growth aborts; over whole runs a vector answers as the list does. -/

namespace MoveTutorial

/-- A list with `numBuckets` buckets of `bucketSize` elements reserved. -/
structure BucketedList (T : Type) where
  elems : List T
  numBuckets : ℕ
  bucketSize : ℕ
  bucketSize_pos : 0 < bucketSize
  fits : elems.length ≤ numBuckets * bucketSize

namespace BucketedList

variable {T : Type} (l : BucketedList T)

def empty (bucketSize numBuckets : ℕ) (hpos : 0 < bucketSize) : BucketedList T where
  elems := []
  numBuckets := numBuckets
  bucketSize := bucketSize
  bucketSize_pos := hpos
  fits := Nat.zero_le _

/-- No reserved bucket has room. -/
def Full : Prop := l.elems.length = l.numBuckets * l.bucketSize

instance : Decidable l.Full := inferInstanceAs (Decidable (_ = _))

/-- Appends an element, in a new bucket if there is no room. -/
def push (val : T) : BucketedList T where
  elems := l.elems ++ [val]
  numBuckets := if l.Full then l.numBuckets + 1 else l.numBuckets
  bucketSize := l.bucketSize
  bucketSize_pos := l.bucketSize_pos
  fits := by
    have hpos := l.bucketSize_pos
    have hfits := l.fits
    rw [List.length_append, List.length_singleton]
    by_cases hfull : l.Full
    · rw [if_pos hfull, Nat.add_mul]
      rw [Full] at hfull
      omega
    · rw [if_neg hfull]
      rw [Full] at hfull
      omega

/-- The same buckets with other elements, not more than before. -/
def withElems (elems : List T) (h : elems.length ≤ l.elems.length) : BucketedList T where
  elems := elems
  numBuckets := l.numBuckets
  bucketSize := l.bucketSize
  bucketSize_pos := l.bucketSize_pos
  fits := h.trans l.fits

def pop : BucketedList T := l.withElems l.elems.dropLast (by simp)

def set (i : Fin l.elems.length) (val : T) : BucketedList T := l.withElems (l.elems.set i val) (by simp)

/-- The last element takes the place of the one at `i`. -/
def swapRemove (i : Fin l.elems.length) : BucketedList T :=
  l.withElems (l.elems.set i (l.elems.getLast (List.ne_nil_of_length_pos (Fin.pos i)))).dropLast (by simp)

def reserve (additionalBuckets : ℕ) : BucketedList T where
  elems := l.elems
  numBuckets := l.numBuckets + additionalBuckets
  bucketSize := l.bucketSize
  bucketSize_pos := l.bucketSize_pos
  fits := l.fits.trans (Nat.mul_le_mul_right _ (Nat.le_add_right _ _))

/-- Keeps the buckets that hold elements. -/
def shrinkToFit : BucketedList T where
  elems := l.elems
  numBuckets := l.elems.length ⌈/⌉ l.bucketSize
  bucketSize := l.bucketSize
  bucketSize_pos := l.bucketSize_pos
  fits := by
    rw [Nat.mul_comm]
    exact (ceilDiv_le_iff_le_mul l.bucketSize_pos).mp (Nat.le_refl _)

/-- The position an index denotes, if it does. -/
def position (index : BigVectorIndex) : Option (Fin l.elems.length) :=
  if h : BigVector.Denotes l.bucketSize l.elems.length index then
    some ⟨index.bucketIndex * l.bucketSize + index.vecIndex, h.2⟩
  else none

end BucketedList

namespace BigVector

open Move

variable {T : Type}

/-- The calls on lists. -/
def spec : Call T → BucketedList T → Exec (Answer T × BucketedList T)
  | .pushBack val, l => .ok (.done, l.push val)
  | .pushBackNoGrow val, l =>
      if l.Full then .error (.code (invalidArgument eoutOfCapacity)) else .ok (.done, l.push val)
  | .popBack, l =>
      match l.elems.getLast? with
      | some last => .ok (.value last, l.pop)
      | none => .error (.code (invalidArgument eindexOutOfBounds))
  | .borrowMut index update, l =>
      match l.position index with
      | some i => .ok (.value (l.elems.get i), l.set i (update (l.elems.get i)))
      | none => .error .vectorError
  | .swapRemove index, l =>
      match l.position index with
      | some i => .ok (.value (l.elems.get i), l.swapRemove i)
      | none => .error .vectorError
  | .reserve additionalBuckets, l =>
      if l.numBuckets + additionalBuckets < 2 ^ 64 then .ok (.done, l.reserve additionalBuckets)
      else .error .arithmetic
  | .shrinkToFit, l => .ok (.done, l.shrinkToFit)

/-- The vector lays out the list, and both counts fit 64 bits. -/
structure LaidOut (v : BigVector T) (l : BucketedList T) : Prop where
  layout_eq : v = layout l.bucketSize l.numBuckets l.elems
  length_lt : l.elems.length < 2 ^ 64
  numBuckets_lt : l.numBuckets < 2 ^ 64

/-- A push leaves fewer than `2 ^ 64` elements. -/
def Room (v : BigVector T) : Call T → Prop
  | .pushBack _ => ∃ len, length v = .ok len ∧ len + 1 < 2 ^ 64
  | .pushBackNoGrow _ => v.endIndex.bucketIndex < v.numBuckets → ∃ len, length v = .ok len ∧ len + 1 < 2 ^ 64
  | _ => True

section Step

variable {v : BigVector T} {l : BucketedList T}

theorem LaidOut.length_eq (h : LaidOut v l) : length v = .ok l.elems.length := by
  rw [h.layout_eq]
  exact length_layout h.length_lt

theorem LaidOut.room (h : LaidOut v l) (hroom : ∃ len, length v = .ok len ∧ len + 1 < 2 ^ 64) :
    l.elems.length + 1 < 2 ^ 64 := by
  obtain ⟨len, hlen, hlt⟩ := hroom
  rw [h.length_eq] at hlen
  cases hlen
  exact hlt

/-- The end index is past the last bucket exactly when the buckets are full. -/
theorem end_eq_iff_full (l : BucketedList T) : l.elems.length / l.bucketSize = l.numBuckets ↔ l.Full := by
  have hfits := l.fits
  have hpos := l.bucketSize_pos
  rw [BucketedList.Full]
  constructor
  · intro h
    have hle := Nat.div_mul_le_self l.elems.length l.bucketSize
    rw [h] at hle
    exact Nat.le_antisymm hfits hle
  · intro h
    rw [h]
    exact Nat.mul_div_cancel _ hpos

theorem end_lt_iff_not_full (l : BucketedList T) : l.elems.length / l.bucketSize < l.numBuckets ↔ ¬l.Full := by
  have hle : l.elems.length / l.bucketSize ≤ l.numBuckets :=
    Nat.div_le_of_le_mul ((Nat.mul_comm _ _) ▸ l.fits)
  rw [← end_eq_iff_full]
  omega

theorem append_laidOut (h : LaidOut v l) (hfull : ¬l.Full) (hlen : l.elems.length + 1 < 2 ^ 64) (val : T) :
    ∃ v', append v val = .ok v' ∧ LaidOut v' (l.push val) := by
  have hroom : l.elems.length < l.numBuckets * l.bucketSize := Nat.lt_of_le_of_ne l.fits hfull
  refine ⟨layout l.bucketSize l.numBuckets (l.elems ++ [val]), ?_, ?_, ?_, ?_⟩
  · rw [h.layout_eq]
    exact append_layout l.bucketSize_pos hroom hlen val
  · dsimp only [BucketedList.push]
    rw [if_neg hfull]
  · dsimp only [BucketedList.push]
    rwa [List.length_append, List.length_singleton]
  · dsimp only [BucketedList.push]
    rw [if_neg hfull]
    exact h.numBuckets_lt

theorem pushBack_laidOut (h : LaidOut v l) (hlen : l.elems.length + 1 < 2 ^ 64) (val : T) :
    ∃ v', pushBack v val = .ok v' ∧ LaidOut v' (l.push val) := by
  have hend : v.endIndex.bucketIndex = v.numBuckets ↔ l.Full := by
    rw [h.layout_eq]
    exact end_eq_iff_full l
  rw [pushBack]
  by_cases hfull : l.Full
  · have hle : l.numBuckets ≤ l.numBuckets * l.bucketSize := Nat.le_mul_of_pos_right _ l.bucketSize_pos
    have hcap : l.numBuckets + 1 < 2 ^ 64 := by
      rw [← hfull] at hle
      omega
    have hgrown : LaidOut (layout l.bucketSize (l.numBuckets + 1) l.elems) (l.reserve 1) :=
      ⟨rfl, h.length_lt, hcap⟩
    have hnot : ¬(l.reserve 1).Full := by
      have hpos := l.bucketSize_pos
      rw [BucketedList.Full] at hfull ⊢
      dsimp only [BucketedList.reserve]
      rw [Nat.add_mul]
      omega
    have hpush : (l.reserve 1).push val = l.push val := by
      rw [BucketedList.push, BucketedList.push]
      congr 1
      rw [if_neg hnot, if_pos hfull]
      rfl
    obtain ⟨v', hv', hl'⟩ := append_laidOut hgrown hnot hlen val
    rw [hpush] at hl'
    rw [if_pos (hend.mpr hfull), h.layout_eq, addBucket_layout l.fits hcap]
    exact ⟨v', hv', hl'⟩
  · rw [if_neg (fun heq => hfull (hend.mp heq))]
    exact append_laidOut h hfull hlen val

theorem popBack_matches (h : LaidOut v l) : Matches LaidOut (exec .popBack v) (spec .popBack l) := by
  have hfits := l.fits
  have hlen := h.length_lt
  rw [exec, spec, h.layout_eq]
  rcases List.eq_nil_or_concat l.elems with hnil | ⟨front, last, hconcat⟩
  · rw [hnil, popBack_layout_nil]
    exact Matches.error _ _
  · rw [List.concat_eq_append] at hconcat
    rw [hconcat, List.length_append, List.length_singleton] at hfits hlen
    rw [hconcat, popBack_layout l.bucketSize_pos hfits hlen, List.getLast?_append, List.getLast?_singleton]
    refine Matches.ok _ ⟨?_, ?_, h.numBuckets_lt⟩
    · show layout l.bucketSize l.numBuckets front = layout l.bucketSize l.numBuckets l.elems.dropLast
      rw [hconcat, List.dropLast_concat]
    · show l.elems.dropLast.length < 2 ^ 64
      rw [hconcat, List.dropLast_concat]
      exact Nat.lt_of_succ_lt hlen

theorem borrowMut_matches (h : LaidOut v l) (index : BigVectorIndex) (update : T → T) :
    Matches LaidOut (exec (.borrowMut index update) v) (spec (.borrowMut index update) l) := by
  rw [exec, spec, h.layout_eq, BucketedList.position]
  by_cases hd : Denotes l.bucketSize l.elems.length index
  · rw [dif_pos hd, borrowMut_layout l.bucketSize_pos l.fits hd (List.getElem?_eq_getElem hd.2)]
    refine Matches.ok _ ⟨rfl, ?_, h.numBuckets_lt⟩
    show (l.elems.set _ _).length < 2 ^ 64
    rw [List.length_set]
    exact h.length_lt
  · obtain ⟨e, he⟩ : Aborts (borrowMut (layout l.bucketSize l.numBuckets l.elems) index update) :=
      borrowMut_layout_aborts hd update
    rw [dif_neg hd, he]
    exact Matches.error _ _

theorem swapRemove_matches (h : LaidOut v l) (index : BigVectorIndex) :
    Matches LaidOut (exec (.swapRemove index) v) (spec (.swapRemove index) l) := by
  rw [exec, spec, h.layout_eq, BucketedList.position]
  by_cases hd : Denotes l.bucketSize l.elems.length index
  · have hne : l.elems ≠ [] := List.ne_nil_of_length_pos ((Nat.zero_le _).trans_lt hd.2)
    rw [dif_pos hd, swapRemove_layout_getLast l.bucketSize_pos l.fits h.length_lt hd hne]
    refine Matches.ok _ ⟨rfl, ?_, h.numBuckets_lt⟩
    refine Nat.lt_of_le_of_lt ?_ h.length_lt
    show (l.elems.set _ _).dropLast.length ≤ _
    rw [List.length_dropLast, List.length_set]
    exact Nat.sub_le _ _
  · obtain ⟨e, he⟩ := swapRemove_layout_aborts l.bucketSize_pos l.fits h.length_lt hd
    rw [dif_neg hd, he]
    exact Matches.error _ _

theorem spec_matches (h : LaidOut v l) (call : Call T) (hroom : Room v call) :
    Matches LaidOut (exec call v) (spec call l) := by
  cases call with
  | pushBack val =>
      obtain ⟨v', hv', hl'⟩ := pushBack_laidOut h (h.room hroom) val
      rw [exec, spec, hv']
      exact Matches.ok _ hl'
  | pushBackNoGrow val =>
      have hend : v.endIndex.bucketIndex < v.numBuckets ↔ ¬l.Full := by
        rw [h.layout_eq]
        exact end_lt_iff_not_full l
      rw [exec, spec, pushBackNoGrow]
      by_cases hfull : l.Full
      · rw [if_pos hfull, assert_neg _ (fun hlt => hend.mp hlt hfull)]
        exact Matches.error _ _
      · obtain ⟨v', hv', hl'⟩ := append_laidOut h hfull (h.room (hroom (hend.mpr hfull))) val
        rw [if_neg hfull, assert_pos _ (hend.mpr hfull), ok_bind, hv']
        exact Matches.ok _ hl'
  | popBack => exact popBack_matches h
  | borrowMut index update => exact borrowMut_matches h index update
  | swapRemove index => exact swapRemove_matches h index
  | reserve additionalBuckets =>
      rw [exec, spec, h.layout_eq]
      by_cases hcap : l.numBuckets + additionalBuckets < 2 ^ 64
      · rw [if_pos hcap, reserve_layout l.fits hcap]
        exact Matches.ok _ ⟨rfl, h.length_lt, hcap⟩
      · obtain ⟨e, he⟩ := reserve_layout_aborts l.fits h.numBuckets_lt hcap
        rw [if_neg hcap, he]
        exact Matches.error _ _
  | shrinkToFit =>
      have hle : l.elems.length ⌈/⌉ l.bucketSize ≤ l.numBuckets := (blocks_le_iff l.bucketSize_pos).mpr l.fits
      rw [exec, spec, h.layout_eq, shrinkToFit_layout l.bucketSize_pos l.fits h.numBuckets_lt]
      exact Matches.ok _ ⟨rfl, h.length_lt, hle.trans_lt h.numBuckets_lt⟩

end Step

/-- What the vector shows of the list: its length, its buckets, and its elements by index and by
position. -/
structure Represents (v : BigVector T) (l : BucketedList T) : Prop where
  length_eq : length v = .ok l.elems.length
  numBuckets_eq : v.numBuckets = l.numBuckets
  bucketSize_eq : v.bucketSize = l.bucketSize
  borrow_eq : ∀ index i, l.position index = some i → borrow v index = .ok (l.elems.get i)
  borrow_aborts : ∀ index, l.position index = none → Aborts (borrow v index)
  bucketIndex_borrow_eq : ∀ i : Fin l.elems.length, bucketIndex v i >>= borrow v = .ok (l.elems.get i)

theorem LaidOut.represents {v : BigVector T} {l : BucketedList T} (h : LaidOut v l) : Represents v l := by
  have hlength := h.length_eq
  obtain ⟨rfl, hlen, -⟩ := h
  refine ⟨hlength, rfl, rfl, ?_, ?_, ?_⟩
  · intro index i hi
    rw [BucketedList.position] at hi
    by_cases hd : Denotes l.bucketSize l.elems.length index
    · rw [dif_pos hd] at hi
      cases hi
      exact borrow_layout l.fits hd (List.getElem?_eq_getElem hd.2)
    · rw [dif_neg hd] at hi
      cases hi
  · intro index hnone
    rw [BucketedList.position] at hnone
    by_cases hd : Denotes l.bucketSize l.elems.length index
    · rw [dif_pos hd] at hnone
      cases hnone
    · exact borrow_layout_aborts hd
  · intro i
    have hposition : i / l.bucketSize * l.bucketSize + i % l.bucketSize = i := Nat.div_add_mod' _ _
    have hd : Denotes l.bucketSize l.elems.length ⟨i / l.bucketSize, i % l.bucketSize⟩ :=
      ⟨Nat.mod_lt _ l.bucketSize_pos, hposition.symm ▸ i.isLt⟩
    rw [bucketIndex_layout l.bucketSize_pos hlen i.isLt, ok_bind]
    refine borrow_layout l.fits hd ?_
    dsimp only
    rw [hposition]
    exact List.getElem?_eq_getElem i.isLt

theorem newWithCapacity_ok {bucketSize numBuckets : ℕ} (hpos : 0 < bucketSize) (hcap : numBuckets < 2 ^ 64) :
    newWithCapacity bucketSize numBuckets = .ok (layout bucketSize numBuckets ([] : List T)) := by
  have hnew : new bucketSize = .ok (layout bucketSize 0 ([] : List T)) := by
    rw [new, assert_pos _ hpos, layout, List.length_nil, Nat.zero_div, Nat.zero_mod]
    rfl
  rw [newWithCapacity, hnew, ok_bind, reserve_layout (Nat.zero_le _) (by omega), Nat.zero_add]

/-- Every run of calls on a new vector, while it has fewer than `2 ^ 64` elements, answers as the list
does and leaves a vector that represents the list. -/
theorem big_vector_refines_list (T : Type) (bucketSize numBuckets : ℕ) (hpos : 0 < bucketSize)
    (hcap : numBuckets < 2 ^ 64) :
    ∃ v : BigVector T, newWithCapacity bucketSize numBuckets = .ok v ∧
      (numBuckets = 0 → new bucketSize = .ok v) ∧
      ∀ calls, Along exec Room v calls →
        answers exec v calls = answers spec (.empty bucketSize numBuckets hpos) calls ∧
          Represents (run exec v calls) (run spec (.empty bucketSize numBuckets hpos) calls) := by
  have hnew := newWithCapacity_ok (T := T) hpos hcap
  refine ⟨layout bucketSize numBuckets [], hnew, ?_, ?_⟩
  · rintro rfl
    rw [newWithCapacity] at hnew
    obtain ⟨v, hv, hreserve⟩ := bind_eq_ok.mp hnew
    cases hreserve
    exact hv
  · intro calls hcalls
    have hstart : LaidOut (layout bucketSize numBuckets []) (.empty (T := T) bucketSize numBuckets hpos) :=
      ⟨rfl, by simp [BucketedList.empty], hcap⟩
    obtain ⟨hanswers, hend⟩ := run_simulates (fun v l call h => spec_matches h call) hstart hcalls
    exact ⟨hanswers, hend.represents⟩

theorem big_vector_refines_list_small :
    ∃ v : BigVector ℕ, newWithCapacity 2 1 = .ok v ∧
      Along exec Room v [.pushBackNoGrow 10, .pushBack 20, .pushBackNoGrow 30, .pushBack 30, .swapRemove ⟨0, 0⟩] ∧
      Represents
        (run exec v [.pushBackNoGrow 10, .pushBack 20, .pushBackNoGrow 30, .pushBack 30, .swapRemove ⟨0, 0⟩])
        (run spec (.empty 2 1 Nat.two_pos)
          [.pushBackNoGrow 10, .pushBack 20, .pushBackNoGrow 30, .pushBack 30, .swapRemove ⟨0, 0⟩]) := by
  obtain ⟨v, hv, -, hrun⟩ := big_vector_refines_list ℕ 2 1 Nat.two_pos (by decide)
  have hroom : Along exec Room v
      [.pushBackNoGrow 10, .pushBack 20, .pushBackNoGrow 30, .pushBack 30, .swapRemove ⟨0, 0⟩] := by
    obtain rfl : _ = v := Except.ok.inj hv
    exact ⟨fun _ => ⟨0, rfl, by decide⟩, ⟨1, rfl, by decide⟩, fun _ => ⟨2, rfl, by decide⟩, ⟨2, rfl, by decide⟩,
      trivial, trivial⟩
  exact ⟨v, hv, hroom, (hrun _ hroom).2⟩

end BigVector

end MoveTutorial
