import MoveTutorial.MarketModel

/-! Custody in the marketplace. Every successful call keeps the bag of all objects, owned or listed, and
keeps the filing: a live listing has its item inside and stands under the item's id, and every item
inside a listing is found that way. With ids that occur once, every object then is in one place, in
every state of every run. A listing is the one that a fresh id was given to; it ends for its owner or
for a buyer who pays, and does not come back. -/

namespace MoveTutorial.Market

open Move

/-! ### Objects -/

/-- All objects, owned or listed. -/
def World.objects (w : World) : Multiset Object := w.owned.map Prod.snd + w.items.values

/-- The value of a `Coin<COIN>`, and nothing of other objects. -/
def Object.coinValue (object : Object) : ℕ := if object.type = .coin then object.content else 0

/-- All `COIN` there is. -/
def World.coinTotal (w : World) : ℕ := (w.objects.map Object.coinValue).sum

section Objects

variable {w w' : World}

theorem map_snd_erase {owned : Multiset (Address × Object)} {sender : Address} {object : Object}
    (h : (sender, object) ∈ owned) :
    owned.map Prod.snd = object ::ₘ (owned.erase (sender, object)).map Prod.snd := by
  rw [← Multiset.cons_erase h, Multiset.map_cons, Multiset.cons_erase h]

theorem listed_objects {sender : Address} {item : Object} (ask : ℕ) (howned : (sender, item) ∈ w.owned)
    (hfresh : w.items.lookup (w.nextId, true) = none) : (w.listed sender item ask).objects = w.objects := by
  rw [World.objects, World.objects, World.listed, Fields.values_insert hfresh, map_snd_erase howned,
    Multiset.add_cons, Multiset.cons_add]

theorem unlisted_objects {itemId id : ID} {item : Object} {owned : Multiset (Address × Object)}
    (hitem : w.items.lookup (id, true) = some item) (howned : owned.map Prod.snd = item ::ₘ w.owned.map Prod.snd) :
    (w.unlisted itemId id owned).objects = w.objects := by
  rw [World.objects, World.objects, World.unlisted, howned, Fields.values_erase hitem, Multiset.add_cons,
    Multiset.cons_add]

/-- **No object is lost or made.** -/
theorem exec_objects {call : Call} {u : Unit} (h : exec call w = .ok (u, w')) : w'.objects = w.objects := by
  rcases exec_cases h with ⟨sender, item, ask, -, howned, hfresh, -, rfl⟩ |
    ⟨T, itemId, l, item, -, -, hitem, rfl⟩ |
    ⟨sender, T, itemId, paid, l, item, -, ⟨howned, -, -⟩, -, hitem, rfl⟩
  · exact listed_objects ask howned hfresh
  · apply unlisted_objects hitem
    rw [Multiset.map_cons]
  · apply unlisted_objects hitem
    rw [Multiset.map_cons, Multiset.map_cons, map_snd_erase howned]

end Objects

/-! ### Filing -/

/-- Listings and items belong together one to one, by the item's id, and their ids are not given out
again. -/
structure Filed (w : World) : Prop where
  item_of : ∀ i l, w.listings.lookup i = some l → ∃ item, w.items.lookup (l.id, true) = some item ∧ item.id = i
  listing_of : ∀ key item, w.items.lookup key = some item →
    ∃ l, w.listings.lookup item.id = some l ∧ key = (l.id, true)
  fresh : ∀ i l, w.listings.lookup i = some l → l.id < w.nextId

section Filing

variable {w w' : World}

/-- A listing's id says under which item it is filed. -/
theorem Filed.inj (hw : Filed w) {i j : ID} {l m : Listing} (hl : w.listings.lookup i = some l)
    (hm : w.listings.lookup j = some m) (hid : l.id = m.id) : i = j := by
  obtain ⟨item, hitem, rfl⟩ := hw.item_of i l hl
  obtain ⟨item', hitem', rfl⟩ := hw.item_of j m hm
  rw [hid, hitem'] at hitem
  rw [Option.some.inj hitem]

theorem Filed.listed (hw : Filed w) {sender : Address} {item : Object} (ask : ℕ)
    (hfree : w.listings.lookup item.id = none) : Filed (w.listed sender item ask) := by
  refine ⟨fun i l hl => ?_, fun key o ho => ?_, fun i l hl => ?_⟩
  · rcases Fields.lookup_insert_cases hl with ⟨rfl, rfl⟩ | ⟨-, hold⟩
    · exact ⟨item, Finmap.lookup_insert _, rfl⟩
    · obtain ⟨o, ho, hid⟩ := hw.item_of i l hold
      have hne : (l.id, true) ≠ (w.nextId, true) := fun heq => (hw.fresh i l hold).ne (Prod.mk.inj heq).1
      refine ⟨o, ?_, hid⟩
      rw [World.listed, Finmap.lookup_insert_of_ne _ hne]
      exact ho
  · rcases Fields.lookup_insert_cases ho with ⟨rfl, rfl⟩ | ⟨-, hold⟩
    · exact ⟨_, Finmap.lookup_insert _, rfl⟩
    · obtain ⟨l, hl, hkey⟩ := hw.listing_of key o hold
      refine ⟨l, ?_, hkey⟩
      have hne : o.id ≠ item.id := fun heq => by
        rw [heq, hfree] at hl
        cases hl
      rw [World.listed, Finmap.lookup_insert_of_ne _ hne]
      exact hl
  · rcases Fields.lookup_insert_cases hl with ⟨-, rfl⟩ | ⟨-, hold⟩
    · exact Nat.lt_succ_self _
    · exact Nat.lt_succ_of_lt (hw.fresh i l hold)

theorem Filed.unlisted (hw : Filed w) {itemId : ID} {l : Listing} (hl : w.listings.lookup itemId = some l)
    (owned : Multiset (Address × Object)) : Filed (w.unlisted itemId l.id owned) := by
  refine ⟨fun i m hm => ?_, fun key o ho => ?_, fun i m hm => ?_⟩
  · obtain ⟨hne, hold⟩ := Fields.lookup_erase_some.mp hm
    obtain ⟨o, ho, hid⟩ := hw.item_of i m hold
    refine ⟨o, Fields.lookup_erase_some.mpr ⟨fun heq => ?_, ho⟩, hid⟩
    exact hne (hw.inj hold hl (Prod.mk.inj heq).1)
  · obtain ⟨hne, hold⟩ := Fields.lookup_erase_some.mp ho
    obtain ⟨m, hm, hkey⟩ := hw.listing_of key o hold
    refine ⟨m, Fields.lookup_erase_some.mpr ⟨fun heq => ?_, hm⟩, hkey⟩
    rw [heq, hl] at hm
    rw [← Option.some.inj hm] at hkey
    exact hne hkey
  · exact hw.fresh i m (Fields.lookup_erase_some.mp hm).2

theorem exec_filed {call : Call} {u : Unit} (hw : Filed w) (h : exec call w = .ok (u, w')) : Filed w' := by
  rcases exec_cases h with ⟨sender, item, ask, -, -, -, hfree, rfl⟩ | ⟨T, itemId, l, item, -, hl, -, rfl⟩ |
    ⟨sender, T, itemId, paid, l, item, -, -, hl, -, rfl⟩
  · exact hw.listed ask hfree
  · exact hw.unlisted hl _
  · exact hw.unlisted hl _

end Filing

/-! ### Places -/

/-- One address holds the object, once, and no listing has it. -/
def Held (w : World) (object : Object) (addr : Address) : Prop :=
  w.owned.filter (fun p => p.2.id = object.id) = {(addr, object)} ∧
    ∀ key item, w.items.lookup key = some item → item.id ≠ object.id

/-- One live listing, filed under the object's id, has it inside, and no address holds it. -/
def Listed (w : World) (object : Object) (l : Listing) : Prop :=
  (∀ p ∈ w.owned, p.2.id ≠ object.id) ∧ w.listings.lookup object.id = some l ∧
    w.items.lookup (l.id, true) = some object ∧
    ∀ key item, w.items.lookup key = some item → item.id = object.id → key = (l.id, true)

section Places

variable {w : World}

theorem filter_eq_singleton {α β : Type} [DecidableEq β] {f : α → β} {s : Multiset α} {a : α}
    (hs : (s.map f).Nodup) (ha : a ∈ s) : s.filter (fun b => f b = f a) = {a} := by
  obtain ⟨t, rfl⟩ := Multiset.exists_cons_of_mem ha
  rw [Multiset.map_cons, Multiset.nodup_cons] at hs
  rw [Multiset.filter_cons_of_pos (p := fun b => f b = f a) t rfl]
  have hrest : t.filter (fun b => f b = f a) = 0 := by
    rw [Multiset.filter_eq_nil]
    intro b hb heq
    exact hs.1 (heq ▸ Multiset.mem_map_of_mem f hb)
  rw [hrest]
  rfl

/-- **One place for every object.** -/
theorem Filed.place (hw : Filed w) (hids : (w.objects.map Object.id).Nodup) {object : Object}
    (hobject : object ∈ w.objects) : (∃ addr, Held w object addr) ∨ ∃ l, Listed w object l := by
  rw [World.objects, Multiset.map_add, Multiset.map_map, Multiset.nodup_add] at hids
  obtain ⟨howned, -, hdisjoint⟩ := hids
  rw [Multiset.disjoint_left] at hdisjoint
  rcases Multiset.mem_add.mp hobject with hmem | hmem
  · obtain ⟨p, hp, rfl⟩ := Multiset.mem_map.mp hmem
    refine Or.inl ⟨p.1, filter_eq_singleton howned hp, fun key item hitem heq => ?_⟩
    apply hdisjoint (Multiset.mem_map_of_mem (Object.id ∘ Prod.snd) hp)
    rw [Function.comp_apply, ← heq]
    exact Multiset.mem_map_of_mem Object.id (Fields.mem_values.mpr ⟨key, hitem⟩)
  · obtain ⟨key, hkey⟩ := Fields.mem_values.mp hmem
    obtain ⟨l, hl, rfl⟩ := hw.listing_of key object hkey
    refine Or.inr ⟨l, fun p hp heq => ?_, hl, hkey, fun key' item hitem heq => ?_⟩
    · apply hdisjoint (Multiset.mem_map_of_mem (Object.id ∘ Prod.snd) hp)
      rw [Function.comp_apply, heq]
      exact Multiset.mem_map_of_mem Object.id hmem
    · obtain ⟨m, hm, hkey'⟩ := hw.listing_of key' item hitem
      rw [heq, hl] at hm
      rw [hkey', Option.some.inj hm]

end Places

/-! ### The life of a listing -/

/-- The call ends the listing filed under `i` in one of the two ways there are: its owner takes it back
and receives the item, or a coin of exactly the ask goes from the caller to the owner and the item to
the caller. -/
def EndsRightly (w w' : World) (call : Call) (i : ID) (l : Listing) : Prop :=
  ∃ item, item.id = i ∧ w.items.lookup (l.id, true) = some item ∧
    ((∃ T, (call = .delist l.owner T i ∨ call = .delistAndTake l.owner T i) ∧
      w'.owned = (l.owner, item) ::ₘ w.owned) ∨
    (∃ sender T paid, (call = .buy sender T i paid ∨ call = .buyAndTake sender T i paid) ∧
      (paid.type = .coin ∧ paid.content = l.ask) ∧ (sender, paid) ∈ w.owned ∧
      w'.owned = (sender, item) ::ₘ (l.owner, paid) ::ₘ w.owned.erase (sender, paid)))

/-- A listing with this id is in the marketplace. -/
def Live (w : World) (id : ID) : Prop := ∃ i l, w.listings.lookup i = some l ∧ l.id = id

section Life

variable {w w' : World} {i : ID} {l : Listing}

/-- What a call that succeeds does to a listing. -/
theorem exec_endsRightly {call : Call} {u : Unit} (hw : Filed w) (h : exec call w = .ok (u, w'))
    (hl : w.listings.lookup i = some l) (hend : w'.listings.lookup i ≠ some l) : EndsRightly w w' call i l := by
  obtain ⟨item, hitem, hid⟩ := hw.item_of i l hl
  refine ⟨item, hid, hitem, ?_⟩
  rcases exec_cases h with ⟨sender, new, ask, -, -, -, hfree, rfl⟩ |
    ⟨T, itemId, m, taken, hcall, hm, htaken, rfl⟩ |
    ⟨sender, T, itemId, paid, m, taken, hcall, ⟨howned, hcoin, hask⟩, hm, htaken, rfl⟩
  · have hne : i ≠ new.id := fun heq => by
      rw [heq, hfree] at hl
      cases hl
    exact absurd ((Finmap.lookup_insert_of_ne _ hne).trans hl) hend
  · obtain ⟨rfl, rfl⟩ := Fields.eq_of_lookup_erase hl hm hend
    obtain rfl := Option.some.inj (hitem.symm.trans htaken)
    exact Or.inl ⟨T, hcall, rfl⟩
  · obtain ⟨rfl, rfl⟩ := Fields.eq_of_lookup_erase hl hm hend
    obtain rfl := Option.some.inj (hitem.symm.trans htaken)
    exact Or.inr ⟨sender, T, paid, hcall, ⟨hcoin, hask.symm⟩, howned, rfl⟩

/-- A listing that is there after a call was there before it, or the call listed it. -/
theorem exec_listing {call : Call} {u : Unit} (h : exec call w = .ok (u, w')) (hl : w'.listings.lookup i = some l) :
    w.listings.lookup i = some l ∨
      ∃ item, call = .list l.owner item l.ask ∧ item.id = i ∧ l.id = w.nextId := by
  rcases exec_cases h with ⟨sender, item, ask, hcall, -, -, -, rfl⟩ | ⟨T, itemId, m, taken, -, -, -, rfl⟩ |
    ⟨sender, T, itemId, paid, m, taken, -, -, -, -, rfl⟩
  · rcases Fields.lookup_insert_cases hl with ⟨rfl, rfl⟩ | ⟨-, hold⟩
    · exact Or.inr ⟨item, hcall, rfl, rfl⟩
    · exact Or.inl hold
  · exact Or.inl (Fields.lookup_erase_some.mp hl).2
  · exact Or.inl (Fields.lookup_erase_some.mp hl).2

theorem exec_nextId_le {call : Call} {u : Unit} (h : exec call w = .ok (u, w')) : w.nextId ≤ w'.nextId := by
  rcases exec_cases h with ⟨sender, item, ask, -, -, -, -, rfl⟩ | ⟨T, itemId, m, taken, -, -, -, rfl⟩ |
    ⟨sender, T, itemId, paid, m, taken, -, -, -, -, rfl⟩
  · exact Nat.le_succ _
  · exact le_refl _
  · exact le_refl _

/-- An id that was given out and is not live stays dead. -/
theorem exec_dead {call : Call} {u : Unit} {id : ID} (hid : id < w.nextId ∧ ¬Live w id)
    (h : exec call w = .ok (u, w')) : id < w'.nextId ∧ ¬Live w' id := by
  refine ⟨hid.1.trans_le (exec_nextId_le h), ?_⟩
  intro hlive
  obtain ⟨i, l, hl, rfl⟩ := hlive
  rcases exec_listing h hl with hold | ⟨item, -, -, hnew⟩
  · exact hid.2 ⟨i, l, hold, rfl⟩
  · exact hid.1.ne hnew

end Life

/-! ### Runs -/

/-- A marketplace without listings, among users who own some objects. -/
def opened (owned : Multiset (Address × Object)) (nextId : ID) : World := ⟨owned, ∅, ∅, nextId⟩

theorem opened_filed (owned : Multiset (Address × Object)) (nextId : ID) : Filed (opened owned nextId) := by
  refine ⟨fun i l hl => ?_, fun key item hitem => ?_, fun i l hl => ?_⟩
  · cases (Finmap.lookup_empty i).symm.trans hl
  · cases (Finmap.lookup_empty key).symm.trans hitem
  · cases (Finmap.lookup_empty i).symm.trans hl

theorem opened_objects (owned : Multiset (Address × Object)) (nextId : ID) :
    (opened owned nextId).objects = owned.map Prod.snd := by
  rw [World.objects, opened]
  exact Multiset.add_zero _

section Runs

variable {w : World} {calls : List Call}

theorem run_filed (hw : Filed w) (calls : List Call) : Filed (run exec w calls) :=
  run_invariant (fun _ _ _ _ hinv _ h => exec_filed hinv h) hw (along_true w calls)

theorem run_objects (w : World) (calls : List Call) : (run exec w calls).objects = w.objects :=
  run_invariant (fun _ _ _ _ hinv _ h => (exec_objects h).trans hinv) rfl (along_true w calls)

theorem run_dead {id : ID} (hid : id < w.nextId ∧ ¬Live w id) (calls : List Call) : ¬Live (run exec w calls) id :=
  (run_invariant (fun _ _ _ _ hinv _ h => exec_dead hinv h) hid (along_true w calls)).2

theorem run_nextId {id : ID} (hid : id < w.nextId) (calls : List Call) : id < (run exec w calls).nextId := by
  have hstep : ∀ (s : World) (call : Call) (u : Unit) (s' : World), id < s.nextId → True →
      exec call s = .ok (u, s') → id < s'.nextId := by
    intro s call u s' hlt _ h
    exact hlt.trans_le (exec_nextId_le h)
  exact run_invariant hstep hid (along_true w calls)

theorem commit_endsRightly {i : ID} {l : Listing} (hw : Filed w) (call : Call) (hl : w.listings.lookup i = some l)
    (hend : (commit exec w call).listings.lookup i ≠ some l) : EndsRightly w (commit exec w call) call i l := by
  rcases commit_cases exec w call with ⟨u, w', hok, heq⟩ | heq
  · rw [heq] at hend ⊢
    exact exec_endsRightly hw hok hl hend
  · rw [heq] at hend
    exact absurd hl hend

/-- Every live listing goes back to the call that listed it. -/
theorem run_lister (hw : w.listings = ∅) {i : ID} {l : Listing}
    (hl : (run exec w calls).listings.lookup i = some l) :
    ∃ pre item, pre ++ [.list l.owner item l.ask] <+: calls ∧ item.id = i ∧ l.id = (run exec w pre).nextId ∧
      (run exec w (pre ++ [.list l.owner item l.ask])).listings.lookup i = some l := by
  induction calls using List.reverseRecOn with
  | nil =>
      rw [run, hw] at hl
      cases (Finmap.lookup_empty i).symm.trans hl
  | append_singleton calls call ih =>
      have hearlier : (run exec w calls).listings.lookup i = some l →
          ∃ pre item, pre ++ [.list l.owner item l.ask] <+: calls ++ [call] ∧ item.id = i ∧
            l.id = (run exec w pre).nextId ∧
            (run exec w (pre ++ [.list l.owner item l.ask])).listings.lookup i = some l := by
        intro hold
        obtain ⟨pre, item, hpre, hrest⟩ := ih hold
        exact ⟨pre, item, hpre.trans (List.prefix_append calls [call]), hrest⟩
      have hlast := hl
      rw [run_concat] at hl
      rcases commit_cases exec (run exec w calls) call with ⟨u, w', hok, heq⟩ | heq
      · rw [heq] at hl
        rcases exec_listing hok hl with hold | ⟨item, rfl, hid, hnew⟩
        · exact hearlier hold
        · exact ⟨calls, item, List.prefix_rfl, hid, hnew, hlast⟩
      · rw [heq] at hl
        exact hearlier hl

end Runs

/-- **The marketplace loses and duplicates nothing.** Among users whose objects have different ids and
after any calls by any senders:
the objects are those of the start, each in one place;
all `COIN` is still there;
every live listing is the one that a successful call of its owner made at its ask;
the next call ends a listing only for its owner, who gets the item, or for a buyer, who gets the item
for a coin of exactly the ask that reaches the owner;
a listing that has ended is not live again. -/
theorem marketplace_custody {owned : Multiset (Address × Object)} (nextId : ID)
    (hids : (owned.map fun p => p.2.id).Nodup) (calls : List Call) {w : World}
    (hw : w = run exec (opened owned nextId) calls) :
    (w.objects = owned.map Prod.snd ∧
      ∀ object ∈ owned.map Prod.snd, (∃ addr, Held w object addr) ∨ ∃ l, Listed w object l) ∧
    w.coinTotal = (opened owned nextId).coinTotal ∧
    (∀ i l, w.listings.lookup i = some l →
      ∃ pre item, pre ++ [.list l.owner item l.ask] <+: calls ∧ item.id = i ∧
        l.id = (run exec (opened owned nextId) pre).nextId ∧
        (run exec (opened owned nextId) (pre ++ [.list l.owner item l.ask])).listings.lookup i = some l) ∧
    (∀ call i l, w.listings.lookup i = some l → (commit exec w call).listings.lookup i ≠ some l →
      EndsRightly w (commit exec w call) call i l) ∧
    (∀ mid post id, Live w id → ¬Live (run exec w mid) id → ¬Live (run exec w (mid ++ post)) id) := by
  have hfiled : Filed w := by
    rw [hw]
    exact run_filed (opened_filed owned nextId) calls
  have hobjects : w.objects = (opened owned nextId).objects := by
    rw [hw]
    exact run_objects (opened owned nextId) calls
  refine ⟨⟨hobjects.trans (opened_objects owned nextId), ?_⟩, ?_, ?_, ?_, ?_⟩
  · intro object hobject
    rw [← opened_objects owned nextId, ← hobjects] at hobject
    apply hfiled.place _ hobject
    rw [hobjects, opened_objects, Multiset.map_map]
    exact hids
  · rw [World.coinTotal, hobjects, World.coinTotal]
  · intro i l hl
    rw [hw] at hl
    exact run_lister rfl hl
  · intro call i l hl hend
    exact commit_endsRightly hfiled call hl hend
  · intro mid post id hlive hdead
    obtain ⟨i, l, hl, rfl⟩ := hlive
    rw [run_append]
    exact run_dead ⟨run_nextId (hfiled.fresh i l hl) mid, hdead⟩ post

/-- An item and a coin of five, listed and bought; a delisting by the buyer in between aborts. -/
theorem marketplace_custody_small :
    ∃ w, w = run exec (opened {(1, ⟨10, .named 0, 7⟩), (2, ⟨11, .coin, 5⟩)} 12)
        [.list 1 ⟨10, .named 0, 7⟩ 5, .delist 2 (.named 0) 10, .buyAndTake 2 (.named 0) 10 ⟨11, .coin, 5⟩] ∧
      w.owned = {(2, ⟨10, .named 0, 7⟩), (1, ⟨11, .coin, 5⟩)} ∧
      w.objects = Multiset.map Prod.snd {((1 : Address), (⟨10, .named 0, 7⟩ : Object)), (2, ⟨11, .coin, 5⟩)} :=
  ⟨_, rfl, by decide, (marketplace_custody 12 (by decide) _ rfl).1.1⟩

end MoveTutorial.Market
