import Mathlib

/-! Finite maps that remember the order of insertion: association lists without duplicate keys. New
keys go to the end, and the neighbours of a key are those of its position. -/

namespace MoveTutorial

structure OrderedMap (K V : Type) where
  entries : List (K × V)
  nodup : (entries.map Prod.fst).Nodup

namespace OrderedMap

variable {K V : Type}

def keys (m : OrderedMap K V) : List K := m.entries.map Prod.fst

def empty : OrderedMap K V := ⟨[], List.nodup_nil⟩

theorem ext {m m' : OrderedMap K V} (h : m.entries = m'.entries) : m = m' := by
  obtain ⟨entries, _⟩ := m
  obtain ⟨entries', _⟩ := m'
  cases h
  rfl

variable [DecidableEq K]

def find? (m : OrderedMap K V) (key : K) : Option V :=
  (m.entries.find? fun e => e.1 = key).map Prod.snd

/-- The key before `key`, and the key after it. -/
def neighbours (m : OrderedMap K V) (key : K) : Option K × Option K :=
  ((m.keys.takeWhile (· ≠ key)).getLast?, (m.keys.dropWhile (· ≠ key)).tail.head?)

def push (m : OrderedMap K V) (key : K) (val : V) (h : key ∉ m.keys) : OrderedMap K V where
  entries := m.entries ++ [(key, val)]
  nodup := by
    rw [List.map_append, List.nodup_append]
    refine ⟨m.nodup, List.nodup_singleton _, fun a ha b hb => ?_⟩
    rw [List.map_singleton, List.mem_singleton] at hb
    rintro rfl
    rw [hb] at ha
    exact h ha

omit [DecidableEq K] in
/-- The entries of one map after those of the other. -/
def append (m m' : OrderedMap K V) (h : ∀ key ∈ m.keys, key ∉ m'.keys) : OrderedMap K V where
  entries := m.entries ++ m'.entries
  nodup := by
    rw [List.map_append, List.nodup_append]
    refine ⟨m.nodup, m'.nodup, fun a ha b hb => ?_⟩
    rintro rfl
    exact h a ha hb

def erase (m : OrderedMap K V) (key : K) : OrderedMap K V where
  entries := m.entries.filter fun e => e.1 ≠ key
  nodup := m.nodup.sublist (List.filter_sublist.map Prod.fst)

def modify (m : OrderedMap K V) (key : K) (f : V → V) : OrderedMap K V where
  entries := m.entries.map fun e => if e.1 = key then (e.1, f e.2) else e
  nodup := by
    have hkeys : (fun e : K × V => (if e.1 = key then (e.1, f e.2) else e).1) = Prod.fst := by
      funext e
      split <;> rfl
    rw [List.map_map, show Prod.fst ∘ (fun e : K × V => if e.1 = key then (e.1, f e.2) else e) = Prod.fst from hkeys]
    exact m.nodup

omit [DecidableEq K] in
theorem mem_keys_of_entries_eq {m : OrderedMap K V} {l : List (K × V)} {key : K} (h : m.entries = l) :
    key ∈ m.keys ↔ key ∈ l.map Prod.fst := by
  rw [keys, h]

omit [DecidableEq K] in
theorem mem_keys_push {m : OrderedMap K V} {key k : K} {val : V} {h : key ∉ m.keys} :
    k ∈ (m.push key val h).keys ↔ k ∈ m.keys ∨ k = key := by
  rw [keys, push, List.map_append, List.mem_append, List.map_singleton, List.mem_singleton]
  exact Iff.rfl

omit [DecidableEq K] in
/-- A present key splits the entries, and occurs on neither side. -/
theorem split_of_mem {m : OrderedMap K V} {key : K} (h : key ∈ m.keys) :
    ∃ a v b, m.entries = a ++ (key, v) :: b ∧ key ∉ a.map Prod.fst ∧ key ∉ b.map Prod.fst := by
  obtain ⟨⟨k, v⟩, hmem, rfl⟩ := List.mem_map.mp h
  obtain ⟨a, b, heq⟩ := List.append_of_mem hmem
  have hnodup := m.nodup
  rw [heq, List.map_append, List.map_cons, List.nodup_append, List.nodup_cons] at hnodup
  obtain ⟨-, ⟨hb, -⟩, hdisj⟩ := hnodup
  exact ⟨a, v, b, heq, fun ha => hdisj k ha k List.mem_cons_self rfl, hb⟩

section Split

variable {m : OrderedMap K V} {key : K} {v : V} {a b : List (K × V)} (heq : m.entries = a ++ (key, v) :: b)
  (ha : key ∉ a.map Prod.fst) (hb : key ∉ b.map Prod.fst)

include heq ha

theorem find?_of_split : m.find? key = some v := by
  have hnone : a.find? (fun e => e.1 = key) = none := by
    rw [List.find?_eq_none]
    intro e he
    simp only [decide_eq_true_eq]
    rintro rfl
    exact ha (List.mem_map_of_mem he)
  rw [find?, heq, List.find?_append, hnone]
  simp

theorem neighbours_of_split :
    m.neighbours key = ((a.map Prod.fst).getLast?, (b.map Prod.fst).head?) := by
  have hne : ∀ k ∈ a.map Prod.fst, (decide (k ≠ key)) = true := by
    intro k hk
    rw [decide_eq_true_eq]
    rintro rfl
    exact ha hk
  rw [neighbours, keys, heq, List.map_append, List.map_cons, List.takeWhile_append_of_pos hne,
    List.dropWhile_append_of_pos hne]
  simp

include hb in
theorem erase_of_split : (m.erase key).entries = a ++ b := by
  have hfilter : ∀ l : List (K × V), key ∉ l.map Prod.fst → l.filter (fun e => e.1 ≠ key) = l := by
    intro l hl
    rw [List.filter_eq_self]
    intro e he
    rw [decide_eq_true_eq]
    rintro rfl
    exact hl (List.mem_map_of_mem he)
  show m.entries.filter (fun e => e.1 ≠ key) = a ++ b
  rw [heq, List.filter_append, List.filter_cons, hfilter a ha, hfilter b hb]
  simp

include hb in
theorem modify_of_split (f : V → V) : (m.modify key f).entries = a ++ (key, f v) :: b := by
  have hmap : ∀ l : List (K × V), key ∉ l.map Prod.fst →
      l.map (fun e => if e.1 = key then (e.1, f e.2) else e) = l := by
    intro l hl
    refine (List.map_congr_left fun e he => if_neg ?_).trans (List.map_id l)
    rintro rfl
    exact hl (List.mem_map_of_mem he)
  show m.entries.map (fun e => if e.1 = key then (e.1, f e.2) else e) = a ++ (key, f v) :: b
  rw [heq, List.map_append, List.map_cons, hmap a ha, hmap b hb, if_pos rfl]

end Split

theorem find?_of_not_mem {m : OrderedMap K V} {key : K} (h : key ∉ m.keys) : m.find? key = none := by
  rw [find?, Option.map_eq_none_iff, List.find?_eq_none]
  intro e he
  simp only [decide_eq_true_eq]
  rintro rfl
  exact h (List.mem_map_of_mem he)

/-- A lookup, with where the key is. -/
theorem find?_cases (m : OrderedMap K V) (key : K) :
    (∃ a v b, m.entries = a ++ (key, v) :: b ∧ key ∉ a.map Prod.fst ∧ key ∉ b.map Prod.fst ∧ m.find? key = some v) ∨
      key ∉ m.keys ∧ m.find? key = none := by
  by_cases h : key ∈ m.keys
  · obtain ⟨a, v, b, heq, ha, hb⟩ := split_of_mem h
    exact Or.inl ⟨a, v, b, heq, ha, hb, find?_of_split heq ha⟩
  · exact Or.inr ⟨h, find?_of_not_mem h⟩

end OrderedMap

end MoveTutorial
