import MoveTutorial.MoveExec

/-! The vectors of Move. A vector is a list; its operations abort outside the list. -/

namespace MoveTutorial.Move.Vec

variable {α : Type}

def borrow (l : List α) (i : ℕ) : Exec α :=
  match l[i]? with
  | some a => .ok a
  | none => .error .vectorError

def popBack (l : List α) : Exec (α × List α) :=
  match l.getLast? with
  | some a => .ok (a, l.dropLast)
  | none => .error .vectorError

def swap (l : List α) (i j : ℕ) : Exec (List α) :=
  match l[i]?, l[j]? with
  | some a, some b => .ok ((l.set i b).set j a)
  | _, _ => .error .vectorError

/-- Exchanges the element with the last one, which is then popped. -/
def swapRemove (l : List α) (i : ℕ) : Exec (α × List α) := do
  assert (l.isEmpty = false) 0x20000
  let lastIdx ← sub l.length 1
  let l ← swap l i lastIdx
  popBack l

def destroyEmpty (l : List α) : Exec Unit := if l.isEmpty then .ok () else .error .vectorError

variable {l : List α} {i j : ℕ} {a b : α}

theorem borrow_of_getElem? (h : l[i]? = some a) : borrow l i = .ok a := by
  rw [borrow, h]

theorem borrow_aborts (h : l.length ≤ i) : Aborts (borrow l i) := by
  rw [borrow, List.getElem?_eq_none h]
  exact ⟨_, rfl⟩

theorem popBack_append (l : List α) (a : α) : popBack (l ++ [a]) = .ok (a, l) := by
  rw [popBack, List.getLast?_append, List.getLast?_singleton, List.dropLast_concat]
  rfl

theorem swap_of_getElem? (hi : l[i]? = some a) (hj : l[j]? = some b) :
    swap l i j = .ok ((l.set i b).set j a) := by
  rw [swap, hi, hj]

theorem swap_aborts (h : l.length ≤ i) : Aborts (swap l i j) := by
  rw [swap, List.getElem?_eq_none h]
  exact ⟨_, rfl⟩

theorem exists_last (h : l[i]? = some a) : ∃ front last, l = front ++ [last] := by
  rcases List.eq_nil_or_concat l with hnil | ⟨front, last, hconcat⟩
  · rw [hnil, List.getElem?_nil] at h
    cases h
  · exact ⟨front, last, hconcat.trans List.concat_eq_append⟩

theorem swapRemove_append (l : List α) (last : α) (h : (l ++ [last])[i]? = some a) :
    swapRemove (l ++ [last]) i = .ok (a, l.set i last) := by
  have hlast : (l ++ [last])[l.length]? = some last := by simp
  have hset : ((l ++ [last]).set i last).set l.length a = l.set i last ++ [a] := by
    rw [List.set_append]
    by_cases hi : i < l.length
    · rw [if_pos hi, List.set_append_right _ _ (by rw [List.length_set])]
      simp
    · rw [if_neg hi, List.set_append_right _ _ (Nat.le_refl _), List.set_eq_of_length_le (Nat.le_of_not_lt hi)]
      cases hd : i - l.length with
      | zero => simp
      | succ n => simp
  have hsub : sub (l ++ [last]).length 1 = .ok l.length := by
    rw [List.length_append, List.length_singleton]
    exact sub_ok (Nat.le_add_left 1 _)
  have hne : (l ++ [last]).isEmpty = false := by simp
  rw [swapRemove, assert_pos _ hne, ok_bind, hsub, ok_bind, swap_of_getElem? h hlast, ok_bind, hset,
    popBack_append]

theorem swapRemove_perm (h : l[i]? = some a) : ∃ rest, swapRemove l i = .ok (a, rest) ∧ l.Perm (a :: rest) := by
  obtain ⟨front, last, rfl⟩ := exists_last h
  refine ⟨front.set i last, swapRemove_append front last h, ?_⟩
  by_cases hi : i < front.length
  · rw [List.getElem?_append_left hi, List.getElem?_eq_getElem hi] at h
    cases h
    calc
      (front ++ [last]).Perm (last :: front) := List.perm_append_singleton last front
      List.Perm _ (last :: front[i] :: front.eraseIdx i) := ((List.getElem_cons_eraseIdx_perm hi).symm).cons last
      List.Perm _ (front[i] :: last :: front.eraseIdx i) := List.Perm.swap _ _ _
      List.Perm _ (front[i] :: front.set i last) := ((List.set_perm_cons_eraseIdx hi last).symm).cons _
  · have hbound := (List.getElem?_eq_some_iff.mp h).1
    rw [List.length_append, List.length_singleton] at hbound
    obtain rfl : i = front.length := by omega
    rw [List.getElem?_append_right (Nat.le_refl _), Nat.sub_self] at h
    rw [← Option.some.inj h, List.set_eq_of_length_le (Nat.le_refl _)]
    exact List.perm_append_singleton last front

/-- The other elements keep their positions, but for the last one. -/
theorem swapRemove_getElem? {rest : List α} (h : swapRemove l i = .ok (a, rest)) (ha : l[i]? = some a) (hne : j ≠ i)
    (hj : j + 1 < l.length) : rest[j]? = l[j]? := by
  obtain ⟨front, last, rfl⟩ := exists_last ha
  rw [swapRemove_append front last ha] at h
  obtain ⟨-, rfl⟩ := Prod.mk.inj (Except.ok.inj h)
  rw [List.length_append, List.length_singleton] at hj
  rw [List.getElem?_set_ne (fun heq => hne heq.symm), List.getElem?_append_left (Nat.lt_of_succ_lt_succ hj)]

theorem swapRemove_aborts (h : l.length ≤ i) : Aborts (swapRemove l i) := by
  obtain ⟨e, he⟩ := swap_aborts (j := l.length - 1) h
  rw [swapRemove]
  by_cases hempty : l.isEmpty = false
  · have hpos : 1 ≤ l.length := by
      cases l with
      | nil => exact absurd hempty (by simp)
      | cons head tail => simp
    rw [assert_pos _ hempty, ok_bind, sub_ok hpos, ok_bind, he]
    exact ⟨_, rfl⟩
  · rw [assert_neg _ hempty]
    exact ⟨_, rfl⟩

end MoveTutorial.Move.Vec
