import MoveTutorial.IterableModel
import MoveTutorial.OrderedMap

/-! The doubly linked list through a table. A segment of entries between two outer neighbours
determines what the table stores for its keys; changing an outer neighbour changes one pointer at that
end of the segment. A table links an insertion-ordered map when it stores the segment of all entries. -/

namespace MoveTutorial.Iterable

open Move

variable {K V : Type} [DecidableEq K]

def firstKey (l : List (K × V)) : Option K := (l.map Prod.fst).head?

def lastKey (l : List (K × V)) : Option K := (l.map Prod.fst).getLast?

/-- What the table stores for the keys of a segment between the keys `before` and `after`. -/
def segment (before : Option K) : List (K × V) → Option K → K → Option (IterableValue K V)
  | [], _, _ => none
  | (k, v) :: rest, after, key =>
      if key = k then some ⟨v, before, (firstKey rest).or after⟩ else segment (some k) rest after key

section Segment

variable {before after : Option K} {l l' : List (K × V)} {key : K}

theorem segment_eq_none (h : key ∉ l.map Prod.fst) : segment before l after key = none := by
  induction l generalizing before with
  | nil => rfl
  | cons e rest ih =>
      rw [List.map_cons, List.mem_cons, not_or] at h
      rw [segment, if_neg h.1, ih h.2]

theorem segment_ne_none (h : key ∈ l.map Prod.fst) : segment before l after key ≠ none := by
  induction l generalizing before with
  | nil => simp at h
  | cons e rest ih =>
      rw [List.map_cons, List.mem_cons] at h
      by_cases hkey : key = e.1
      · rw [segment, if_pos hkey]
        exact Option.some_ne_none _
      · rw [segment, if_neg hkey]
        exact ih (h.resolve_left hkey)

omit [DecidableEq K] in
theorem lastKey_cons (e : K × V) (rest : List (K × V)) : lastKey (e :: rest) = (lastKey rest).or (some e.1) := by
  cases rest with
  | nil => rfl
  | cons e' rest => simp [lastKey, List.getLast?_cons]

omit [DecidableEq K] in
theorem firstKey_append (l l' : List (K × V)) : firstKey (l ++ l') = (firstKey l).or (firstKey l') := by
  simp [firstKey, List.head?_append]

omit [DecidableEq K] in
theorem lastKey_append (l l' : List (K × V)) : lastKey (l ++ l') = (lastKey l').or (lastKey l) := by
  simp [lastKey, List.getLast?_append]

omit [DecidableEq K] in
theorem mem_of_lastKey (h : lastKey l = some key) : key ∈ l.map Prod.fst := List.mem_of_getLast? h

omit [DecidableEq K] in
theorem mem_of_firstKey (h : firstKey l = some key) : key ∈ l.map Prod.fst := List.mem_of_head? h

theorem segment_append (before : Option K) (l l' : List (K × V)) (after : Option K) (key : K) :
    segment before (l ++ l') after key =
      (segment before l ((firstKey l').or after) key).or (segment ((lastKey l).or before) l' after key) := by
  induction l generalizing before with
  | nil => rfl
  | cons e rest ih =>
      rw [List.cons_append, segment, segment, ih, firstKey_append, lastKey_cons]
      split
      · rw [Option.or_assoc]
        rfl
      · rw [Option.or_assoc, Option.some_or]

/-- Another key after a segment is another `next` at its last key. -/
theorem segment_after (hnodup : (l.map Prod.fst).Nodup) (before after after' : Option K) (key : K) :
    segment before l after' key =
      if lastKey l = some key then (segment before l after key).map fun e => { e with next := after' }
      else segment before l after key := by
  induction l generalizing before with
  | nil => simp [segment]
  | cons e rest ih =>
      rw [List.map_cons, List.nodup_cons] at hnodup
      rw [segment, segment, lastKey_cons, ih hnodup.2]
      cases rest with
      | nil =>
          by_cases hkey : key = e.1
          · subst hkey
            simp [lastKey, firstKey]
          · have hne : e.1 ≠ key := fun h => hkey h.symm
            simp [lastKey, hkey, hne, segment]
      | cons e' rest =>
          have hlast : (lastKey (e' :: rest)).or (some e.1) = lastKey (e' :: rest) := by
            rw [lastKey_cons, Option.or_assoc, Option.some_or]
          rw [hlast]
          by_cases hkey : key = e.1
          · have hne : lastKey (e' :: rest) ≠ some key := fun h => hnodup.1 (hkey ▸ mem_of_lastKey h)
            rw [if_pos hkey, if_neg hne, if_pos hkey]
            rfl
          · rw [if_neg hkey, if_neg hkey]

/-- Another key before a segment is another `prev` at its first key. -/
theorem segment_before (l : List (K × V)) (before before' after : Option K) (key : K) :
    segment before' l after key =
      if firstKey l = some key then (segment before l after key).map fun e => { e with prev := before' }
      else segment before l after key := by
  cases l with
  | nil => simp [segment]
  | cons e rest =>
      by_cases hkey : key = e.1
      · subst hkey
        simp [segment, firstKey]
      · have hne : e.1 ≠ key := fun h => hkey h.symm
        simp [segment, firstKey, hkey, hne]

end Segment

/-- The table that links the entries of a map. -/
def linked (m : OrderedMap K V) : IterableTable K V where
  inner := ⟨segment none m.entries none, m.entries.length⟩
  head := firstKey m.entries
  tail := lastKey m.entries

theorem linked_empty : linked (OrderedMap.empty : OrderedMap K V) = new := rfl

section Pointers

variable {inner : TableWithLength K (IterableValue K V)} {key : Option K}

theorem write_eq_map {k : K} {v : IterableValue K V} (hv : inner.inner k = some v)
    (f : IterableValue K V → IterableValue K V) :
    inner.write k (f v) =
      ⟨fun x => if some k = some x then (inner.inner x).map f else inner.inner x, inner.length⟩ := by
  rw [TableWithLength.write]
  congr 1
  funext x
  by_cases hx : x = k
  · subst hx
    simp [hv]
  · have hne : k ≠ x := fun h => hx h.symm
    simp [hx, hne]

/-- Setting a pointer changes it where the key is, which must be a key of the table. -/
theorem setNext_ok (next : Option K) (h : ∀ k, key = some k → inner.inner k ≠ none) :
    setNext inner key next = .ok ⟨fun x => if key = some x then
      (inner.inner x).map fun e => { e with next := next } else inner.inner x, inner.length⟩ := by
  cases key with
  | none => simp [setNext, pure, Except.pure]
  | some k =>
      obtain ⟨v, hv⟩ := Option.ne_none_iff_exists'.mp (h k rfl)
      rw [setNext, TableWithLength.borrow_of_some hv, ok_bind, write_eq_map hv fun e => { e with next := next }]
      rfl

theorem setPrev_ok (prev : Option K) (h : ∀ k, key = some k → inner.inner k ≠ none) :
    setPrev inner key prev = .ok ⟨fun x => if key = some x then
      (inner.inner x).map fun e => { e with prev := prev } else inner.inner x, inner.length⟩ := by
  cases key with
  | none => simp [setPrev, pure, Except.pure]
  | some k =>
      obtain ⟨v, hv⟩ := Option.ne_none_iff_exists'.mp (h k rfl)
      rw [setPrev, TableWithLength.borrow_of_some hv, ok_bind, write_eq_map hv fun e => { e with prev := prev }]
      rfl

end Pointers

end MoveTutorial.Iterable
