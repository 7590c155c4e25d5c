import MoveTutorial.MoveRun
import MoveTutorial.MoveStorage

/-! The module `marketplace`: one shared `Marketplace<COIN>` and the objects of its users. A listing is
a dynamic object field of the marketplace under the id of the item, and the item in turn a dynamic
object field of the listing under the name `true`. What an address owns is a bag of objects, so that
nothing but the calls keeps an object from being there twice or not at all. An object given by value
to a call must be owned by the sender, and one that a call returns is then the sender's. The object
of the marketplace itself, which has no content, and `create` are left out: a marketplace starts
without fields. -/

namespace MoveTutorial.Market

open Move

abbrev Address := Fin (2 ^ 256)

/-- Ids of objects; `object::new` gives them out in order. -/
abbrev ID := ℕ

/-- The amount paid does not match the expected one. -/
def eAmountIncorrect : ℕ := 0

/-- A delisting by someone else. -/
def eNotOwner : ℕ := 1

/-- The types with `key` and `store`: `Coin<COIN>` and all others. -/
inductive ItemType where
  | coin
  | named (id : ℕ)
  deriving DecidableEq, Repr

/-- An object with its content, which for a coin is its value. -/
structure Object where
  id : ID
  type : ItemType
  content : ℕ
  deriving DecidableEq, Repr

structure Listing where
  id : ID
  ask : ℕ
  owner : Address
  deriving DecidableEq, Repr

/-- The objects that addresses own, the fields of the marketplace by item id, the fields of its
listings by listing id and name, and the next fresh id. -/
structure World where
  owned : Multiset (Address × Object)
  listings : Fields ID Listing
  items : Fields (ID × Bool) Object
  nextId : ID

/-! ### The Sui framework -/

/-- `object::new`. -/
def newId (w : World) : ID × World := (w.nextId, { w with nextId := w.nextId + 1 })

/-- `transfer::transfer`. -/
def transfer (object : Object) (recipient : Address) (w : World) : World :=
  { w with owned := (recipient, object) ::ₘ w.owned }

/-- `dynamic_object_field::add` to the marketplace. -/
def addListing (itemId : ID) (listing : Listing) (w : World) : Exec World := do
  let listings ← w.listings.add itemId listing
  return { w with listings }

/-- `dynamic_object_field::remove` from the marketplace. -/
def removeListing (itemId : ID) (w : World) : Exec (Listing × World) := do
  let (listing, listings) ← w.listings.remove itemId
  return (listing, { w with listings })

/-- `dynamic_object_field::add` to a listing. -/
def addItem (id : ID) (name : Bool) (item : Object) (w : World) : Exec World := do
  let items ← w.items.add (id, name) item
  return { w with items }

/-- `dynamic_object_field::remove` from a listing, at a type that must be the item's. -/
def removeItem (T : ItemType) (id : ID) (name : Bool) (w : World) : Exec (Object × World) := do
  let (item, items) ← w.items.remove (id, name)
  if item.type = T then return (item, { w with items }) else .error .missingData

/-! ### The functions of the module -/

def list (sender : Address) (item : Object) (ask : ℕ) (w : World) : Exec World := do
  let itemId := item.id
  let (id, w) := newId w
  let listing : Listing := { id, ask, owner := sender }
  let w ← addItem listing.id true item w
  addListing itemId listing w

/-- The listing is gone before the sender is compared with its owner. -/
def delist (T : ItemType) (sender : Address) (itemId : ID) (w : World) : Exec (Object × World) := do
  let (listing, w) ← removeListing itemId w
  assert (sender = listing.owner) eNotOwner
  removeItem T listing.id true w

def delistAndTake (T : ItemType) (sender : Address) (itemId : ID) (w : World) : Exec World := do
  let (item, w) ← delist T sender itemId w
  return transfer item sender w

def buy (T : ItemType) (itemId : ID) (paid : Object) (w : World) : Exec (Object × World) := do
  let (listing, w) ← removeListing itemId w
  assert (listing.ask = paid.content) eAmountIncorrect
  let w := transfer paid listing.owner w
  removeItem T listing.id true w

def buyAndTake (T : ItemType) (sender : Address) (itemId : ID) (paid : Object) (w : World) : Exec World := do
  let (item, w) ← buy T itemId paid w
  return transfer item sender w

/-! ### Transactions -/

/-- A call with its sender. -/
inductive Call where
  | list (sender : Address) (item : Object) (ask : ℕ)
  | delist (sender : Address) (T : ItemType) (itemId : ID)
  | delistAndTake (sender : Address) (T : ItemType) (itemId : ID)
  | buy (sender : Address) (T : ItemType) (itemId : ID) (paid : Object)
  | buyAndTake (sender : Address) (T : ItemType) (itemId : ID) (paid : Object)
  deriving DecidableEq, Repr

/-- The sender hands an object to a call. -/
def giveUp (sender : Address) (object : Object) (w : World) : Exec World :=
  if (sender, object) ∈ w.owned then .ok { w with owned := w.owned.erase (sender, object) }
  else .error .missingData

/-- The sender hands in a `Coin<COIN>`. -/
def giveCoin (sender : Address) (paid : Object) (w : World) : Exec World :=
  if paid.type = .coin then giveUp sender paid w else .error .missingData

def exec : Call → World → Exec (Unit × World)
  | .list sender item ask, w => do
      let w ← giveUp sender item w
      let w ← list sender item ask w
      return ((), w)
  | .delist sender T itemId, w => do
      let (item, w) ← delist T sender itemId w
      return ((), transfer item sender w)
  | .delistAndTake sender T itemId, w => do
      let w ← delistAndTake T sender itemId w
      return ((), w)
  | .buy sender T itemId paid, w => do
      let w ← giveCoin sender paid w
      let (item, w) ← buy T itemId paid w
      return ((), transfer item sender w)
  | .buyAndTake sender T itemId paid, w => do
      let w ← giveCoin sender paid w
      let w ← buyAndTake T sender itemId paid w
      return ((), w)

/-! ### What a successful call does -/

section Inversion

variable {w w' : World}

theorem giveUp_eq_ok {sender : Address} {object : Object} : giveUp sender object w = .ok w' ↔
    (sender, object) ∈ w.owned ∧ w' = { w with owned := w.owned.erase (sender, object) } := by
  unfold giveUp
  split <;> simp_all [eq_comm]

theorem giveCoin_eq_ok {sender : Address} {paid : Object} : giveCoin sender paid w = .ok w' ↔
    paid.type = .coin ∧ (sender, paid) ∈ w.owned ∧ w' = { w with owned := w.owned.erase (sender, paid) } := by
  unfold giveCoin
  split <;> simp_all [giveUp_eq_ok]

theorem removeItem_eq_ok {T : ItemType} {id : ID} {name : Bool} {item : Object} :
    removeItem T id name w = .ok (item, w') ↔
      w.items.lookup (id, name) = some item ∧ item.type = T ∧ w' = { w with items := w.items.erase (id, name) } := by
  simp only [removeItem, bind_eq_ok, Prod.exists, Fields.remove_eq_ok]
  constructor
  · rintro ⟨found, _, ⟨hfound, rfl⟩, h⟩
    split at h
    · obtain ⟨rfl, rfl⟩ := Prod.mk.inj (pure_eq_ok.mp h)
      exact ⟨hfound, ‹_›, rfl⟩
    · cases h
  · rintro ⟨hfound, htype, rfl⟩
    refine ⟨item, _, ⟨hfound, rfl⟩, ?_⟩
    rw [if_pos htype]
    rfl

/-- The world after a listing. -/
def World.listed (w : World) (sender : Address) (item : Object) (ask : ℕ) : World where
  owned := w.owned.erase (sender, item)
  listings := w.listings.insert item.id ⟨w.nextId, ask, sender⟩
  items := w.items.insert (w.nextId, true) item
  nextId := w.nextId + 1

/-- The world after a listing has ended, with the coins that were paid and the item handed out. -/
def World.unlisted (w : World) (itemId id : ID) (owned : Multiset (Address × Object)) : World where
  owned := owned
  listings := w.listings.erase itemId
  items := w.items.erase (id, true)
  nextId := w.nextId

theorem list_ok {sender : Address} {item : Object} {ask : ℕ}
    (h : exec (.list sender item ask) w = .ok ((), w')) :
    (sender, item) ∈ w.owned ∧ w.items.lookup (w.nextId, true) = none ∧ w.listings.lookup item.id = none ∧
      w' = w.listed sender item ask := by
  simp only [exec, list, newId, addItem, addListing, bind_eq_ok, giveUp_eq_ok, Fields.add_eq_ok, pure_eq_ok,
    Prod.mk.injEq] at h
  obtain ⟨_, ⟨howned, rfl⟩, _, ⟨_, ⟨_, ⟨hitems, rfl⟩, rfl⟩, _, ⟨hlistings, rfl⟩, rfl⟩, -, rfl⟩ := h
  exact ⟨howned, hitems, hlistings, rfl⟩

theorem delist_ok {T : ItemType} {sender : Address} {itemId : ID} {item : Object}
    (h : delist T sender itemId w = .ok (item, w')) :
    ∃ listing, w.listings.lookup itemId = some listing ∧ sender = listing.owner ∧
      w.items.lookup (listing.id, true) = some item ∧ w' = w.unlisted itemId listing.id w.owned := by
  simp only [delist, removeListing, bind_eq_ok, Prod.exists, Fields.remove_eq_ok, pure_eq_ok, Prod.mk.injEq,
    assert_eq_ok, removeItem_eq_ok] at h
  obtain ⟨listing, _, ⟨_, _, ⟨hlisting, rfl⟩, rfl, rfl⟩, _, howner, hitem, -, rfl⟩ := h
  exact ⟨_, hlisting, howner, hitem, rfl⟩

theorem buy_ok {T : ItemType} {itemId : ID} {paid item : Object} (h : buy T itemId paid w = .ok (item, w')) :
    ∃ listing, w.listings.lookup itemId = some listing ∧ listing.ask = paid.content ∧
      w.items.lookup (listing.id, true) = some item ∧
      w' = w.unlisted itemId listing.id ((listing.owner, paid) ::ₘ w.owned) := by
  simp only [buy, removeListing, bind_eq_ok, Prod.exists, Fields.remove_eq_ok, pure_eq_ok, Prod.mk.injEq,
    assert_eq_ok, removeItem_eq_ok] at h
  obtain ⟨listing, _, ⟨_, _, ⟨hlisting, rfl⟩, rfl, rfl⟩, _, hask, hitem, -, rfl⟩ := h
  exact ⟨_, hlisting, hask, hitem, rfl⟩

/-- A successful call lists an item, ends a listing for its owner, or ends it for a buyer. -/
theorem exec_cases {call : Call} {u : Unit} (h : exec call w = .ok (u, w')) :
    (∃ sender item ask, call = .list sender item ask ∧ (sender, item) ∈ w.owned ∧
      w.items.lookup (w.nextId, true) = none ∧ w.listings.lookup item.id = none ∧
      w' = w.listed sender item ask) ∨
    (∃ T itemId listing item,
      (call = .delist listing.owner T itemId ∨ call = .delistAndTake listing.owner T itemId) ∧
      w.listings.lookup itemId = some listing ∧ w.items.lookup (listing.id, true) = some item ∧
      w' = w.unlisted itemId listing.id ((listing.owner, item) ::ₘ w.owned)) ∨
    (∃ sender T itemId paid listing item,
      (call = .buy sender T itemId paid ∨ call = .buyAndTake sender T itemId paid) ∧
      ((sender, paid) ∈ w.owned ∧ paid.type = .coin ∧ listing.ask = paid.content) ∧
      w.listings.lookup itemId = some listing ∧ w.items.lookup (listing.id, true) = some item ∧
      w' = w.unlisted itemId listing.id
        ((sender, item) ::ₘ (listing.owner, paid) ::ₘ w.owned.erase (sender, paid))) := by
  cases call with
  | list sender item ask =>
      exact Or.inl ⟨sender, item, ask, rfl, list_ok h⟩
  | delist sender T itemId =>
      simp only [exec, bind_eq_ok, Prod.exists, pure_eq_ok, Prod.mk.injEq] at h
      obtain ⟨item, _, hdelist, -, rfl⟩ := h
      obtain ⟨listing, hlisting, rfl, hitem, rfl⟩ := delist_ok hdelist
      exact Or.inr (Or.inl ⟨T, itemId, listing, item, Or.inl rfl, hlisting, hitem, rfl⟩)
  | delistAndTake sender T itemId =>
      simp only [exec, delistAndTake, bind_eq_ok, Prod.exists, pure_eq_ok, Prod.mk.injEq] at h
      obtain ⟨_, ⟨item, _, hdelist, rfl⟩, -, rfl⟩ := h
      obtain ⟨listing, hlisting, rfl, hitem, rfl⟩ := delist_ok hdelist
      exact Or.inr (Or.inl ⟨T, itemId, listing, item, Or.inr rfl, hlisting, hitem, rfl⟩)
  | buy sender T itemId paid =>
      simp only [exec, bind_eq_ok, Prod.exists, pure_eq_ok, Prod.mk.injEq, giveCoin_eq_ok] at h
      obtain ⟨_, ⟨hcoin, howned, rfl⟩, item, _, hbuy, -, rfl⟩ := h
      obtain ⟨listing, hlisting, hask, hitem, rfl⟩ := buy_ok hbuy
      exact Or.inr (Or.inr ⟨sender, T, itemId, paid, listing, item, Or.inl rfl, ⟨howned, hcoin, hask⟩,
        hlisting, hitem, rfl⟩)
  | buyAndTake sender T itemId paid =>
      simp only [exec, buyAndTake, bind_eq_ok, Prod.exists, pure_eq_ok, Prod.mk.injEq, giveCoin_eq_ok] at h
      obtain ⟨_, ⟨hcoin, howned, rfl⟩, _, ⟨item, _, hbuy, rfl⟩, -, rfl⟩ := h
      obtain ⟨listing, hlisting, hask, hitem, rfl⟩ := buy_ok hbuy
      exact Or.inr (Or.inr ⟨sender, T, itemId, paid, listing, item, Or.inr rfl, ⟨howned, hcoin, hask⟩,
        hlisting, hitem, rfl⟩)

end Inversion

end MoveTutorial.Market
