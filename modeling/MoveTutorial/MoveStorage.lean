import MoveTutorial.MoveExec

/-! Storage keyed by a type with decidable equality: the global storage of resources, the dynamic
fields of objects, and tables that count their entries. A table's count of entries is a natural
number, so that adding to a table aborts for a present key only. -/

namespace MoveTutorial.Move

/-- There are addresses, so numerals denote some. -/
instance addressSize_neZero : NeZero (2 ^ 256) := ⟨(Nat.two_pow_pos 256).ne'⟩

variable {K V : Type} [DecidableEq K]

/-! ### Global storage -/

/-- `borrow_global`. -/
def borrowGlobal (store : K → Option V) (key : K) : Exec V :=
  match store key with
  | some v => .ok v
  | none => .error .missingData

/-- `move_to`. -/
def moveTo (store : K → Option V) (key : K) (v : V) : Exec (K → Option V) :=
  match store key with
  | some _ => .error .resourceExists
  | none => .ok (Function.update store key (some v))

omit [DecidableEq K] in
theorem borrowGlobal_eq_ok {store : K → Option V} {key : K} {v : V} :
    borrowGlobal store key = .ok v ↔ store key = some v := by
  unfold borrowGlobal
  cases store key <;> simp

theorem moveTo_eq_ok {store store' : K → Option V} {key : K} {v : V} :
    moveTo store key v = .ok store' ↔ store key = none ∧ store' = Function.update store key (some v) := by
  unfold moveTo
  cases store key <;> simp [eq_comm]

/-! ### Dynamic fields -/

/-- The dynamic fields of objects, by name. -/
abbrev Fields (K V : Type) := Finmap fun _ : K => V

namespace Fields

/-- `dynamic_object_field::add`, which aborts on a present name. -/
def add (fields : Fields K V) (name : K) (v : V) : Exec (Fields K V) :=
  if name ∈ fields then .error .resourceExists else .ok (fields.insert name v)

/-- `dynamic_object_field::remove`, which aborts on an absent name. -/
def remove (fields : Fields K V) (name : K) : Exec (V × Fields K V) :=
  match fields.lookup name with
  | some v => .ok (v, fields.erase name)
  | none => .error .missingData

/-- What the fields hold, with multiplicity. -/
def values (fields : Fields K V) : Multiset V := fields.entries.map Sigma.snd

variable {fields fields' : Fields K V} {name : K} {v : V}

theorem add_eq_ok : add fields name v = .ok fields' ↔
    fields.lookup name = none ∧ fields' = fields.insert name v := by
  unfold add
  rw [Finmap.lookup_eq_none]
  split <;> simp_all [eq_comm]

theorem remove_eq_ok : remove fields name = .ok (v, fields') ↔
    fields.lookup name = some v ∧ fields' = fields.erase name := by
  unfold remove
  cases h : fields.lookup name with
  | none => simp
  | some u => simp [eq_comm]

theorem values_insert (h : fields.lookup name = none) : values (fields.insert name v) = v ::ₘ values fields := by
  rw [values, Finmap.entries_insert_of_notMem (Finmap.lookup_eq_none.mp h), Multiset.map_cons]
  rfl

theorem values_erase (h : fields.lookup name = some v) : values fields = v ::ₘ values (fields.erase name) := by
  have hinsert : (fields.erase name).insert name v = fields := by
    apply Finmap.ext_lookup
    intro k
    by_cases hk : k = name
    · subst hk
      rw [Finmap.lookup_insert, h]
    · rw [Finmap.lookup_insert_of_ne _ hk, Finmap.lookup_erase_ne hk]
  rw [← values_insert (Finmap.lookup_erase name fields), hinsert]

theorem mem_values : v ∈ values fields ↔ ∃ name, fields.lookup name = some v := by
  rw [values, Multiset.mem_map]
  constructor
  · intro h
    obtain ⟨entry, hentry, rfl⟩ := h
    exact ⟨entry.1, Finmap.lookup_eq_some_iff.mpr hentry⟩
  · intro h
    obtain ⟨name, hname⟩ := h
    exact ⟨⟨name, v⟩, Finmap.lookup_eq_some_iff.mp hname, rfl⟩

theorem lookup_insert_cases {k : K} {u : V} (h : (fields.insert name v).lookup k = some u) :
    (k = name ∧ u = v) ∨ (k ≠ name ∧ fields.lookup k = some u) := by
  by_cases hk : k = name
  · subst hk
    rw [Finmap.lookup_insert] at h
    exact Or.inl ⟨rfl, (Option.some.inj h).symm⟩
  · rw [Finmap.lookup_insert_of_ne _ hk] at h
    exact Or.inr ⟨hk, h⟩

theorem lookup_erase_some {k : K} {u : V} :
    (fields.erase name).lookup k = some u ↔ k ≠ name ∧ fields.lookup k = some u := by
  by_cases hk : k = name
  · subst hk
    simp [Finmap.lookup_erase]
  · rw [Finmap.lookup_erase_ne hk]
    simp [hk]

/-- A field that an erasure takes away had the erased name. -/
theorem eq_of_lookup_erase {k : K} {u v : V} (hk : fields.lookup k = some u) (hname : fields.lookup name = some v)
    (hgone : (fields.erase name).lookup k ≠ some u) : k = name ∧ u = v := by
  obtain rfl : k = name := by
    by_contra hne
    exact hgone (lookup_erase_some.mpr ⟨hne, hk⟩)
  exact ⟨rfl, Option.some.inj (hk.symm.trans hname)⟩

end Fields

/-! ### Tables with a length -/

/-- `error::invalid_argument`. -/
def invalidArgument (reason : ℕ) : ℕ := 0x10000 + reason

/-- `error::invalid_state`. -/
def invalidState (reason : ℕ) : ℕ := 0x30000 + reason

/-- `table_with_length::TableWithLength`. -/
structure TableWithLength (K V : Type) where
  inner : K → Option V
  length : ℕ

namespace TableWithLength

def new : TableWithLength K V := ⟨fun _ => none, 0⟩

def add (table : TableWithLength K V) (key : K) (val : V) : Exec (TableWithLength K V) :=
  match table.inner key with
  | some _ => .error (.code (invalidArgument 100))
  | none => .ok ⟨Function.update table.inner key (some val), table.length + 1⟩

def borrow (table : TableWithLength K V) (key : K) : Exec V :=
  match table.inner key with
  | some val => .ok val
  | none => .error (.code (invalidArgument 101))

/-- What a write through a reference of `borrow_mut` leaves in the table. -/
def write (table : TableWithLength K V) (key : K) (val : V) : TableWithLength K V :=
  { table with inner := Function.update table.inner key (some val) }

def remove (table : TableWithLength K V) (key : K) : Exec (V × TableWithLength K V) :=
  match table.inner key with
  | some val => .ok (val, ⟨Function.update table.inner key none, table.length - 1⟩)
  | none => .error (.code (invalidArgument 101))

def contains (table : TableWithLength K V) (key : K) : Bool := (table.inner key).isSome

def empty (table : TableWithLength K V) : Bool := table.length == 0

def destroyEmpty (table : TableWithLength K V) : Exec Unit :=
  assert (table.length = 0) (invalidState 102)

section Lemmas

variable {table table' : TableWithLength K V} {key : K} {val : V}

theorem add_eq_ok : table.add key val = .ok table' ↔
    table.inner key = none ∧ table' = ⟨Function.update table.inner key (some val), table.length + 1⟩ := by
  unfold add
  cases table.inner key <;> simp [eq_comm]

theorem add_of_none (h : table.inner key = none) :
    table.add key val = .ok ⟨Function.update table.inner key (some val), table.length + 1⟩ :=
  add_eq_ok.mpr ⟨h, rfl⟩

omit [DecidableEq K] in
theorem borrow_eq_ok : table.borrow key = .ok val ↔ table.inner key = some val := by
  unfold borrow
  cases table.inner key <;> simp

omit [DecidableEq K] in
theorem borrow_of_some (h : table.inner key = some val) : table.borrow key = .ok val :=
  borrow_eq_ok.mpr h

theorem remove_eq_ok : table.remove key = .ok (val, table') ↔
    table.inner key = some val ∧ table' = ⟨Function.update table.inner key none, table.length - 1⟩ := by
  unfold remove
  cases table.inner key <;> simp [eq_comm]

theorem remove_of_some (h : table.inner key = some val) :
    table.remove key = .ok (val, ⟨Function.update table.inner key none, table.length - 1⟩) :=
  remove_eq_ok.mpr ⟨h, rfl⟩

end Lemmas

/-! ### Tables of an initial segment

A table whose keys are the numbers below `n` grows and shrinks at `n`. -/

section Below

variable {n k : ℕ} {f g : ℕ → V}

/-- The table with the keys below `n`. -/
def below (n : ℕ) (f : ℕ → V) : TableWithLength ℕ V := ⟨fun k => if k < n then some (f k) else none, n⟩

theorem below_congr (h : ∀ k, k < n → f k = g k) : below n f = below n g := by
  rw [below, below]
  congr 1
  funext k
  by_cases hk : k < n
  · rw [if_pos hk, if_pos hk, h k hk]
  · rw [if_neg hk, if_neg hk]

theorem borrow_below (hk : k < n) : (below n f).borrow k = .ok (f k) := borrow_of_some (if_pos hk)

theorem borrow_below_of_le (hk : n ≤ k) : (below n f).borrow k = .error (.code (invalidArgument 101)) := by
  have hnone : (below n f).inner k = none := if_neg (Nat.not_lt.mpr hk)
  rw [borrow, hnone]

theorem contains_below : (below n f).contains k = true ↔ k < n := by
  rw [contains, below]
  dsimp only
  split
  · rename_i hk
    exact ⟨fun _ => hk, fun _ => rfl⟩
  · rename_i hk
    exact ⟨nofun, fun hlt => absurd hlt hk⟩

theorem write_below (hk : k < n) (v : V) : (below n f).write k v = below n (Function.update f k v) := by
  rw [write, below, below]
  congr 1
  funext j
  by_cases hj : j = k
  · rw [hj, Function.update_self, Function.update_self, if_pos hk]
  · rw [Function.update_of_ne hj, Function.update_of_ne hj]

theorem add_below (v : V) : (below n f).add n v = .ok (below (n + 1) (Function.update f n v)) := by
  have hnone : (below n f).inner n = none := if_neg (Nat.lt_irrefl _)
  rw [add_of_none hnone, below, below]
  congr 2
  funext j
  by_cases hj : j = n
  · rw [hj, Function.update_self, Function.update_self, if_pos (Nat.lt_succ_self _)]
  · have hiff : j < n ↔ j < n + 1 := by omega
    rw [Function.update_of_ne hj, Function.update_of_ne hj]
    simp only [hiff]

theorem remove_below : (below (n + 1) f).remove n = .ok (f n, below n f) := by
  have hsome : (below (n + 1) f).inner n = some (f n) := if_pos (Nat.lt_succ_self _)
  rw [remove_of_some hsome, below, below]
  congr 3
  funext j
  by_cases hj : j = n
  · rw [hj, Function.update_self, if_neg (Nat.lt_irrefl _)]
  · have hiff : j < n + 1 ↔ j < n := by omega
    rw [Function.update_of_ne hj]
    simp only [hiff]

end Below

end TableWithLength

end MoveTutorial.Move
