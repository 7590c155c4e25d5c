import MoveTutorial.MoveRun

/-! The module `tut_cash`. Cash that has been minted can be split and put together again in any order, and its
total does not change. The cap of `mint` is written `10^10`, which in Move is an exclusive or. -/

namespace MoveTutorial.TutCash

open Move

structure Cash where
  value : ℕ
  deriving DecidableEq, Repr

def mint (amt : ℕ) : Exec Cash := do
  assert (amt ≤ 10 ^^^ 10) 0x42
  return ⟨amt⟩

/-- The cash taken out, and what is left. -/
def withdraw (source : Cash) (amount : ℕ) : Exec (Cash × Cash) := do
  assert (source.value ≥ amount) 0x001
  let rest ← sub source.value amount
  return (⟨amount⟩, ⟨rest⟩)

def deposit (dest source : Cash) : Exec Cash := do
  let total ← add 128 dest.value source.value
  return ⟨total⟩

def split (source : Cash) (amt : ℕ) : Exec (Cash × Cash) := do
  let (other, source) ← withdraw source amt
  return (source, other)

def merge (source other : Cash) : Exec Cash := deposit source other

def destroyZero (source : Cash) : Exec Unit := assert (source.value = 0) 0x42

/-! ### Scripts -/

/-- The live piece at a position, and the other pieces. -/
def takePiece (pieces : List Cash) (k : ℕ) : Exec (Cash × List Cash) :=
  match pieces[k]? with
  | some piece => .ok (piece, pieces.eraseIdx k)
  | none => .error .missingData

/-- A step of a script on the pieces of cash it holds; `j` counts the pieces other than the one at `i`. -/
inductive Step where
  | split (k amt : ℕ)
  | merge (i j : ℕ)
  | deposit (i j : ℕ)
  deriving DecidableEq, Repr

def exec : Step → List Cash → Exec (Unit × List Cash)
  | .split k amt, pieces => procedure do
      let (source, pieces) ← takePiece pieces k
      let (source, other) ← split source amt
      return source :: other :: pieces
  | .merge i j, pieces => procedure do
      let (source, pieces) ← takePiece pieces i
      let (other, pieces) ← takePiece pieces j
      let source ← merge source other
      return source :: pieces
  | .deposit i j, pieces => procedure do
      let (dest, pieces) ← takePiece pieces i
      let (source, pieces) ← takePiece pieces j
      let dest ← deposit dest source
      return dest :: pieces

/-- The value of all live pieces. -/
def total (pieces : List Cash) : ℕ := (pieces.map Cash.value).sum

/-- The steps put `n` pieces together into one. -/
inductive JoinsAll : ℕ → List Step → Prop
  | single : JoinsAll 1 []
  | merge {n i j : ℕ} {steps : List Step} :
      i < n + 1 → j < n → JoinsAll n steps → JoinsAll (n + 1) (.merge i j :: steps)
  | deposit {n i j : ℕ} {steps : List Step} :
      i < n + 1 → j < n → JoinsAll n steps → JoinsAll (n + 1) (.deposit i j :: steps)

/-- The amount can be minted and cut, and the steps then put all pieces together again; the total is the
amount after every step. -/
def Rejoins (amt : ℕ) (cuts : List ℕ) (joins : List Step) : Prop :=
  ∃ genesis, mint amt = .ok genesis ∧
    (∀ k, ∃ outs pieces, successive exec [genesis] ((cuts.map (Step.split 0) ++ joins).take k) = .ok (outs, pieces) ∧
      total pieces = amt) ∧
    ∃ outs, successive exec [genesis] (cuts.map (Step.split 0) ++ joins) = .ok (outs, [⟨amt⟩])

/-! ### Single steps -/

section Steps

variable {pieces pieces' : List Cash} {piece source other : Cash} {k i j amt : ℕ}

theorem takePiece_eq_ok : takePiece pieces k = .ok (piece, pieces') ↔
    pieces[k]? = some piece ∧ pieces' = pieces.eraseIdx k := by
  rw [takePiece]
  cases pieces[k]? with
  | none => simp
  | some piece' =>
      simp only [Except.ok.injEq, Prod.mk.injEq, Option.some.injEq]
      exact and_congr_right fun _ => eq_comm

theorem takePiece_total (h : takePiece pieces k = .ok (piece, pieces')) :
    total pieces = piece.value + total pieces' ∧ pieces.length = pieces'.length + 1 := by
  obtain ⟨hk, rfl⟩ := takePiece_eq_ok.mp h
  obtain ⟨hlt, rfl⟩ := List.getElem?_eq_some_iff.mp hk
  have hperm := List.getElem_cons_eraseIdx_perm hlt
  refine ⟨?_, hperm.length_eq.symm⟩
  exact (List.Perm.sum_eq (hperm.map Cash.value)).symm

theorem takePiece_ok {pieces : List Cash} {k : ℕ} (h : k < pieces.length) :
    ∃ piece pieces', takePiece pieces k = .ok (piece, pieces') :=
  ⟨_, _, takePiece_eq_ok.mpr ⟨List.getElem?_eq_getElem h, rfl⟩⟩

theorem split_eq_ok : split piece amt = .ok (source, other) ↔
    amt ≤ piece.value ∧ source = ⟨piece.value - amt⟩ ∧ other = ⟨amt⟩ := by
  simp only [split, withdraw, bind_eq_ok, assert_eq_ok, sub_eq_ok, pure_eq_ok, Prod.exists, Prod.mk.injEq]
  constructor
  · rintro ⟨_, _, ⟨_, hle, _, ⟨-, rfl⟩, rfl, rfl⟩, rfl, rfl⟩
    exact ⟨hle, rfl, rfl⟩
  · rintro ⟨hle, rfl, rfl⟩
    exact ⟨_, _, ⟨(), hle, _, ⟨hle, rfl⟩, rfl, rfl⟩, rfl, rfl⟩

theorem deposit_eq_ok : deposit source other = .ok piece ↔
    source.value + other.value < 2 ^ 128 ∧ piece = ⟨source.value + other.value⟩ := by
  simp only [deposit, bind_eq_ok, add_eq_ok, pure_eq_ok]
  constructor
  · rintro ⟨_, ⟨hlt, rfl⟩, rfl⟩
    exact ⟨hlt, rfl⟩
  · rintro ⟨hlt, rfl⟩
    exact ⟨_, ⟨hlt, rfl⟩, rfl⟩

theorem total_cons (piece : Cash) (pieces : List Cash) : total (piece :: pieces) = piece.value + total pieces := by
  rw [total, List.map_cons, List.sum_cons, total]

/-- Both ways of joining two pieces do the same. -/
theorem exec_merge (i j : ℕ) (pieces : List Cash) : exec (.merge i j) pieces = exec (.deposit i j) pieces := rfl

theorem exec_deposit_total {u : Unit} (h : exec (.deposit i j) pieces = .ok (u, pieces')) :
    total pieces' = total pieces := by
  rw [exec, procedure_eq_ok] at h
  simp only [bind_eq_ok, pure_eq_ok, Prod.exists] at h
  obtain ⟨dest, rest, hi, source, rest', hj, dest', hdeposit, rfl⟩ := h
  obtain ⟨-, rfl⟩ := deposit_eq_ok.mp hdeposit
  calc total (⟨dest.value + source.value⟩ :: rest') = dest.value + source.value + total rest' := total_cons _ _
    _ = dest.value + (source.value + total rest') := Nat.add_assoc _ _ _
    _ = total pieces := by rw [(takePiece_total hi).1, (takePiece_total hj).1]

/-- **Conservation.** A step does not change the value of all pieces. -/
theorem exec_total {step : Step} {u : Unit} (h : exec step pieces = .ok (u, pieces')) :
    total pieces' = total pieces := by
  cases step with
  | split k amt =>
      rw [exec, procedure_eq_ok] at h
      simp only [bind_eq_ok, pure_eq_ok, Prod.exists] at h
      obtain ⟨piece, rest, hk, source, other, hsplit, rfl⟩ := h
      obtain ⟨hle, rfl, rfl⟩ := split_eq_ok.mp hsplit
      calc total (⟨piece.value - amt⟩ :: ⟨amt⟩ :: rest)
          = piece.value - amt + (amt + total rest) := by rw [total_cons, total_cons]
        _ = piece.value + total rest := by rw [← Nat.add_assoc, Nat.sub_add_cancel hle]
        _ = total pieces := (takePiece_total hk).1.symm
  | merge i j => exact exec_deposit_total (exec_merge i j pieces ▸ h)
  | deposit i j => exact exec_deposit_total h

theorem exec_deposit_ok (hi : i < pieces.length) (hj : j + 1 < pieces.length) (hfits : total pieces < 2 ^ 128) :
    ∃ pieces', exec (.deposit i j) pieces = .ok ((), pieces') ∧ pieces.length = pieces'.length + 1 := by
  obtain ⟨dest, rest, hdest⟩ := takePiece_ok hi
  obtain ⟨htotal, hlength⟩ := takePiece_total hdest
  have hj' : j < rest.length := by omega
  obtain ⟨source, rest', hsource⟩ := takePiece_ok hj'
  obtain ⟨htotal', hlength'⟩ := takePiece_total hsource
  have hsum : dest.value + source.value < 2 ^ 128 := by omega
  refine ⟨⟨dest.value + source.value⟩ :: rest', ?_, ?_⟩
  · rw [exec, hdest, ok_bind]
    dsimp only
    rw [hsource, ok_bind]
    dsimp only
    rw [deposit_eq_ok.mpr ⟨hsum, rfl⟩]
    rfl
  · rw [List.length_cons]
    omega

end Steps

/-! ### Cutting and joining -/

theorem successive_total {pieces pieces' : List Cash} {steps : List Step} {outs : List Unit}
    (h : successive exec pieces steps = .ok (outs, pieces')) : total pieces' = total pieces := by
  refine (successive_preorder (R := fun pieces pieces' => total pieces = total pieces') (fun _ => rfl) Eq.trans ?_ h).symm
  intro pieces step u pieces' hstep
  exact (exec_total hstep).symm

/-- Cuts that the cash covers. -/
theorem successive_cuts (source : Cash) (pieces : List Cash) {cuts : List ℕ} (hsum : cuts.sum ≤ source.value) :
    ∃ outs pieces', successive exec (source :: pieces) (cuts.map (Step.split 0)) = .ok (outs, pieces') ∧
      pieces'.length = pieces.length + cuts.length + 1 := by
  induction cuts generalizing source pieces with
  | nil => exact ⟨[], source :: pieces, rfl, rfl⟩
  | cons cut cuts ih =>
      rw [List.sum_cons] at hsum
      have hsplit : split source cut = .ok (⟨source.value - cut⟩, ⟨cut⟩) :=
        split_eq_ok.mpr ⟨(Nat.le_add_right _ _).trans hsum, rfl, rfl⟩
      have hfirst : exec (.split 0 cut) (source :: pieces) = .ok ((), ⟨source.value - cut⟩ :: ⟨cut⟩ :: pieces) := by
        show procedure (split source cut >>= fun parts => pure (parts.1 :: parts.2 :: pieces)) = _
        rw [hsplit]
        rfl
      obtain ⟨outs, pieces', hrest, hlength⟩ := ih ⟨source.value - cut⟩ (⟨cut⟩ :: pieces)
        (Nat.le_sub_of_add_le' hsum)
      refine ⟨() :: outs, pieces', successive_cons_ok.mpr ⟨(), _, outs, hfirst, hrest, rfl⟩, ?_⟩
      rw [hlength, List.length_cons, List.length_cons]
      omega

/-- One join, and the joins after it. -/
theorem successive_deposit {n i j : ℕ} {joins : List Step} {pieces : List Cash} (hi : i < n + 1) (hj : j < n)
    (hlength : pieces.length = n + 1) (hfits : total pieces < 2 ^ 128)
    (hrest : ∀ {pieces : List Cash}, pieces.length = n → total pieces < 2 ^ 128 →
      ∃ outs, successive exec pieces joins = .ok (outs, [⟨total pieces⟩])) :
    ∃ outs, successive exec pieces (.deposit i j :: joins) = .ok (outs, [⟨total pieces⟩]) := by
  have hj' : j + 1 < pieces.length := by omega
  obtain ⟨pieces', hexec, hlength'⟩ := exec_deposit_ok (hlength.symm ▸ hi) hj' hfits
  have htotal := exec_total hexec
  obtain ⟨outs, hjoins⟩ := hrest (by omega) (htotal.symm ▸ hfits)
  rw [htotal] at hjoins
  exact ⟨() :: outs, successive_cons_ok.mpr ⟨(), pieces', outs, hexec, hjoins, rfl⟩⟩

/-- Joining all pieces, in whatever order. -/
theorem successive_joins {n : ℕ} {joins : List Step} (h : JoinsAll n joins) {pieces : List Cash}
    (hlength : pieces.length = n) (hfits : total pieces < 2 ^ 128) :
    ∃ outs, successive exec pieces joins = .ok (outs, [⟨total pieces⟩]) := by
  induction h generalizing pieces with
  | single =>
      obtain ⟨piece, rfl⟩ := List.length_eq_one_iff.mp hlength
      refine ⟨[], ?_⟩
      rw [total_cons]
      rfl
  | merge hi hj _ ih => exact successive_deposit hi hj hlength hfits ih
  | deposit hi hj _ ih => exact successive_deposit hi hj hlength hfits ih

/-- Whatever can be minted can be cut and put together. -/
theorem rejoins_of_mint {amt : ℕ} {cuts : List ℕ} {joins : List Step} (hmint : mint amt = .ok ⟨amt⟩)
    (hfits : amt < 2 ^ 128) (hsum : cuts.sum ≤ amt) (hjoins : JoinsAll (cuts.length + 1) joins) :
    Rejoins amt cuts joins := by
  obtain ⟨outs, pieces, hcuts, hlength⟩ := successive_cuts ⟨amt⟩ [] hsum
  have htotal : total pieces = amt := by
    rw [successive_total hcuts, total_cons]
    rfl
  rw [List.length_nil, Nat.zero_add] at hlength
  obtain ⟨outs', hlast⟩ := successive_joins hjoins hlength (htotal.symm ▸ hfits)
  rw [htotal] at hlast
  have hall := successive_append hcuts hlast
  refine ⟨⟨amt⟩, hmint, fun k => ?_, _, hall⟩
  obtain ⟨mid, hfront, -⟩ := successive_split hall k
  refine ⟨_, mid, hfront, ?_⟩
  rw [successive_total hfront, total_cons]
  rfl

/-- Cash up to ten billion is minted, cut up and put together again exactly if there is none. -/
theorem cash_rejoins_iff (amt : ℕ) (hcap : amt ≤ 10 ^ 10) (cuts : List ℕ) (hsum : cuts.sum ≤ amt) (joins : List Step)
    (hjoins : JoinsAll (cuts.length + 1) joins) : Rejoins amt cuts joins ↔ amt = 0 := by
  have hxor : 10 ^^^ 10 = 0 := rfl
  constructor
  · rintro ⟨genesis, hmint, -⟩
    simp only [mint, bind_eq_ok, assert_eq_ok, hxor] at hmint
    obtain ⟨_, hle, -⟩ := hmint
    exact Nat.le_zero.mp hle
  · rintro rfl
    exact rejoins_of_mint rfl (by decide) hsum hjoins

theorem cash_rejoins_iff_zero : Rejoins 0 [0, 0] [.merge 2 0, .deposit 0 0] :=
  (cash_rejoins_iff 0 (by decide) [0, 0] (by decide) _
    (.merge (by decide) (by decide) (.deposit (by decide) (by decide) .single))).mpr rfl

/-- Ten million cannot be minted, let alone be split as in the script `cash`. -/
theorem cash_not_minted :
    mint 10000000 = .error (.code 0x42) ∧ ¬Rejoins 10000000 [1000000] [.merge 0 0] := by
  refine ⟨rfl, ?_⟩
  rintro ⟨genesis, hmint, -⟩
  cases hmint

end MoveTutorial.TutCash
