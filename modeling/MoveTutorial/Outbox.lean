import MoveTutorial.CoinModel
import MoveTutorial.MoveVector

/-! The module `PatternAccountLessOutBox`: items left for others under the owner's address. An item is
collected by its position, and the last item takes the place of the collected one, so the position of every
other item but the last stays what it was. -/

namespace MoveTutorial.Outbox

open Move
open Coin (Address)

structure Item (Content : Type) where
  sender : Address
  dest : Address
  content : Content
  deriving DecidableEq, Repr

/-- The resources `Outbox<Content>`, by the address of their owner. -/
abbrev Outboxes (Content : Type) := Address → Option (List (Item Content))

variable {Content : Type}

def create (account : Address) (outboxes : Outboxes Content) : Exec (Outboxes Content) :=
  moveTo outboxes account []

def put (account sender dest : Address) (content : Content) (outboxes : Outboxes Content) :
    Exec (Outboxes Content) := do
  let outbox ← borrowGlobal outboxes account
  assert (dest ≠ 0) 123
  return Function.update outboxes account (some (outbox ++ [⟨sender, dest, content⟩]))

def get (account outboxOwner : Address) (index : ℕ) (outboxes : Outboxes Content) :
    Exec (Content × Outboxes Content) := do
  let outbox ← borrowGlobal outboxes outboxOwner
  let (item, outbox) ← Vec.swapRemove outbox index
  assert (item.sender = account ∨ item.dest = account) 123
  return (item.content, Function.update outboxes outboxOwner (some outbox))

section Get

variable {outboxes : Outboxes Content} {owner account : Address} {items : List (Item Content)} {item : Item Content}
  {i : ℕ}

/-- Collecting an item that is there for the account. -/
theorem get_ok (howner : outboxes owner = some items) (hitem : items[i]? = some item)
    (haccount : item.sender = account ∨ item.dest = account) :
    ∃ rest, get account owner i outboxes = .ok (item.content, Function.update outboxes owner (some rest)) ∧
      items.Perm (item :: rest) ∧ ∀ j, j ≠ i → j + 1 < items.length → rest[j]? = items[j]? := by
  obtain ⟨rest, hremove, hperm⟩ := Vec.swapRemove_perm hitem
  refine ⟨rest, ?_, hperm, fun j hne hj => Vec.swapRemove_getElem? hremove hitem hne hj⟩
  rw [get, borrowGlobal_eq_ok.mpr howner, ok_bind, hremove, ok_bind]
  dsimp only
  rw [assert_pos _ haccount, ok_bind]
  rfl

theorem get_aborts (howner : outboxes owner = some items) (hi : items.length ≤ i) :
    Aborts (get account owner i outboxes) := by
  obtain ⟨e, he⟩ := Vec.swapRemove_aborts hi
  rw [get, borrowGlobal_eq_ok.mpr howner, ok_bind, he]
  exact ⟨_, rfl⟩

end Get

/-! ### Two collections -/

/-- The first account collects the item at `i`, the second then the one at `j`, and `rest` is left. -/
def CollectBoth (outboxes : Outboxes Content) (owner first second : Address) (i j : ℕ)
    (contentI contentJ : Content) (rest : List (Item Content)) : Prop :=
  ∃ outboxes' outboxes'', get first owner i outboxes = .ok (contentI, outboxes') ∧
    get second owner j outboxes' = .ok (contentJ, outboxes'') ∧ outboxes'' owner = some rest

section Two

variable {outboxes : Outboxes Content} {owner a b : Address} {items : List (Item Content)} {i j : ℕ}
  {itemI itemJ : Item Content} (howner : outboxes owner = some items) (hi : items[i]? = some itemI)
  (ha : itemI.sender = a ∨ itemI.dest = a)

include howner hi ha

/-- The second item is still where it was, unless it was the last. -/
theorem collectBoth_of_not_last (hj : items[j]? = some itemJ) (hb : itemJ.sender = b ∨ itemJ.dest = b) (hne : j ≠ i)
    (hlast : j + 1 < items.length) :
    ∃ rest, CollectBoth outboxes owner a b i j itemI.content itemJ.content rest ∧
      items.Perm (itemI :: itemJ :: rest) := by
  obtain ⟨rest, hget, hperm, hkept⟩ := get_ok howner hi ha
  rw [← hkept j hne hlast] at hj
  obtain ⟨rest', hget', hperm', -⟩ := get_ok (Function.update_self owner (some rest) outboxes) hj hb
  exact ⟨rest', ⟨_, _, hget, hget', Function.update_self _ _ _⟩, hperm.trans (hperm'.cons itemI)⟩

/-- The last item has taken the place of the first one collected. -/
theorem second_aborts_of_last (hlast : j + 1 = items.length) :
    ∃ outboxes', get a owner i outboxes = .ok (itemI.content, outboxes') ∧ Aborts (get b owner j outboxes') := by
  obtain ⟨rest, hget, hperm, -⟩ := get_ok howner hi ha
  refine ⟨_, hget, get_aborts (Function.update_self _ _ _) ?_⟩
  have hlength := hperm.length_eq
  rw [List.length_cons] at hlength
  omega

end Two

/-- Two accounts that each collect an item by its position: unless one of the positions is the last, both
orders give each account its content and leave the same items. Collecting the item further back first
always does; collecting it second aborts where it was the last. -/
theorem outbox_collections {Content : Type} (outboxes : Outboxes Content) (owner a b : Address)
    (items : List (Item Content)) (howner : outboxes owner = some items) (i j : ℕ) (itemI itemJ : Item Content)
    (hi : items[i]? = some itemI) (hj : items[j]? = some itemJ) (hne : i ≠ j)
    (ha : itemI.sender = a ∨ itemI.dest = a) (hb : itemJ.sender = b ∨ itemJ.dest = b) :
    (i + 1 < items.length ∧ j + 1 < items.length →
      ∃ rest rest', CollectBoth outboxes owner a b i j itemI.content itemJ.content rest ∧
        CollectBoth outboxes owner b a j i itemJ.content itemI.content rest' ∧ rest.Perm rest') ∧
    (i < j → (∃ rest, CollectBoth outboxes owner b a j i itemJ.content itemI.content rest) ∧
      (j + 1 = items.length → ∃ outboxes', get a owner i outboxes = .ok (itemI.content, outboxes') ∧
        Aborts (get b owner j outboxes'))) := by
  refine ⟨?_, fun hlt => ⟨?_, second_aborts_of_last howner hi ha⟩⟩
  · rintro ⟨hlastI, hlastJ⟩
    obtain ⟨rest, hboth, hperm⟩ := collectBoth_of_not_last howner hi ha hj hb hne.symm hlastJ
    obtain ⟨rest', hboth', hperm'⟩ := collectBoth_of_not_last howner hj hb hi ha hne hlastI
    refine ⟨rest, rest', hboth, hboth', ?_⟩
    have hswap := (hperm.symm.trans hperm').trans (List.Perm.swap itemI itemJ rest')
    exact hswap.cons_inv.cons_inv
  · have hbound := (List.getElem?_eq_some_iff.mp hj).1
    obtain ⟨rest, hboth, -⟩ := collectBoth_of_not_last howner hj hb hi ha hne (by omega)
    exact ⟨rest, hboth⟩

/-- An outbox at address 1 with an item each for the addresses 2, 3 and 4. -/
def threeItems : List (Item ℕ) := [⟨1, 2, 20⟩, ⟨1, 3, 30⟩, ⟨1, 4, 40⟩]

theorem outbox_collections_small :
    ∃ rest rest', CollectBoth (fun _ => some threeItems) 1 2 3 0 1 20 30 rest ∧
      CollectBoth (fun _ => some threeItems) 1 3 2 1 0 30 20 rest' ∧ rest.Perm rest' :=
  (outbox_collections (fun _ => some threeItems) 1 2 3 threeItems rfl 0 1 _ _ rfl rfl (by decide) (by decide)
    (by decide)).1 (by decide)

/-- The item for address 4 is the last: it can no longer be collected by its position once address 2 has
collected the first item. -/
theorem last_item_relocated :
    threeItems[0]? = some ⟨1, 2, 20⟩ ∧ threeItems[2]? = some ⟨1, 4, 40⟩ ∧
      ¬∃ rest, CollectBoth (fun _ => some threeItems) 1 2 4 0 2 20 40 rest := by
  have hget : get 2 1 0 (fun _ => some threeItems) =
      .ok (20, Function.update (fun _ => some threeItems) 1 (some [⟨1, 4, 40⟩, ⟨1, 3, 30⟩])) := rfl
  have he : get 4 1 2 (Function.update (fun _ => some threeItems) 1 (some [⟨1, 4, 40⟩, ⟨1, 3, 30⟩])) =
      .error .vectorError := rfl
  refine ⟨rfl, rfl, ?_⟩
  rintro ⟨rest, outboxes', outboxes'', hfirst, hsecond, -⟩
  rw [hget] at hfirst
  obtain ⟨-, rfl⟩ := Prod.mk.inj (Except.ok.inj hfirst)
  rw [he] at hsecond
  cases hsecond

end MoveTutorial.Outbox
