import GuardedBoot.Proofs.Watch.AnyBus
import GuardedBoot.Proofs.Word.CheckedFields

/-!
# Indices that fit their width

Indices of comparators, the addresses computed from them and the bits that stand for them are small
numbers. So nothing changes when they are computed in machine words with a check for overflow at
every step.

## Main definitions

- `RegisterArray.getIn`, `Watch.Pair.numbersIn`, `Watch.Inventory.assignIn`, `Watch.takeMatchesIn`,
  `Watch.Assignment.dutyAmongIn` — the computations with their checks
- `Watch.FitsWidth` — no check fails

## Main statements

- `Watch.fitsWidth` — no check fails in 32 bits or more, on any bus
-/

namespace GuardedBoot

open Watch

/-- The register with the given index, its address computed in words of a width. -/
def RegisterArray.getIn {R : Type} (a : RegisterArray R) (width index : Nat) :
    Except Halt (Register .readWrite R) :=
  if index < a.count then do
    let distance ← (Checked.mul width index a.stride).mapError .overflow
    let address ← (Checked.add width a.base distance).mapError .overflow
    return ⟨address⟩
  else .error (.registerIndex a.count)

theorem RegisterArray.getIn_eq {R : Type} (a : RegisterArray R) {width : Nat}
    (hfits : a.base + a.count * a.stride < 1 <<< width) : a.getIn width = a.get := by
  funext index
  unfold getIn get
  split
  · next hlt =>
    have hle : index * a.stride ≤ a.count * a.stride := Nat.mul_le_mul_right _ (Nat.le_of_lt hlt)
    have haddress : a.base + index * a.stride < 1 <<< width :=
      Nat.lt_of_le_of_lt (Nat.add_le_add_left hle _) hfits
    rw [Checked.mul_eq_ok (Nat.lt_of_le_of_lt (Nat.le_add_left _ _) haddress)]
    show ((Checked.add width a.base (index * a.stride)).mapError Halt.overflow).bind _ = _
    rw [Checked.add_eq_ok haddress]
    rfl
  · rfl

namespace Watch

/-- The numbers of the two comparators of a pair, computed in words of a width. -/
def Pair.numbersIn (width : Nat) (p : Pair) : Except Halt (Nat × Nat) := do
  let first ← (Checked.mul width 2 p.index).mapError .overflow
  let second ← (Checked.add width first 1).mapError .overflow
  return (first, second)

/-- The assignment, with the place where the scan goes on computed in words of a width. -/
def Inventory.assignIn (width : Nat) (v : Inventory) : Except Stop Assignment :=
  match v.firstLinkable 0 with
  | none => .error (.refused (.tooFewPairs v.linkables))
  | some code => do
    let position ← (Checked.add width code.index 1).mapError fun step => .halted (.overflow step)
    match v.firstLinkable position with
    | none => .error (.refused (.tooFewPairs v.linkables))
    | some debugRegisters => .ok ⟨code, debugRegisters⟩

/-- The comparators that have matched, with addresses and bits computed in words of a width. -/
def takeMatchesIn {σ : Type} [Bus σ] (width : Nat) : Run σ Matches := do
  let implemented := (← Run.read ctrl).get Ctrl.comparators
  (List.range (min implemented.toNat comparators.count)).foldlM (fun matched i => do
    let f ← Run.read (← Run.orHalt (functions.getIn width i))
    if f.get Function.matched then
      let bit ← Run.orHalt ((Checked.shiftLeft (1 : Matches) i).mapError .overflow)
      return matched ||| bit
    else return matched) 0

/-- The duty of the first of some comparators that is in the set and serves one, with the bit of
each comparator computed in the width of the set. -/
def Assignment.dutyAmongIn (a : Assignment) (matched : Matches) :
    List Nat → Except Overflow (Option Duty)
  | [] => .ok none
  | i :: is => do
    let bit ← Checked.shiftLeft (1 : Matches) i
    if matched &&& bit != 0 then
      match a.dutyAt i with
      | some duty => .ok (some duty)
      | none => a.dutyAmongIn matched is
    else a.dutyAmongIn matched is

variable {σ : Type} [Bus σ] {width : Nat}

theorem le_one_shiftLeft (hwidth : 32 ≤ width) : 2 ^ 32 ≤ 1 <<< width := by
  rw [Nat.one_shiftLeft]
  exact Nat.pow_le_pow_right (by decide) hwidth

theorem comparators_getIn (hwidth : 32 ≤ width) : comparators.getIn width = comparators.get := by
  have hle := le_one_shiftLeft hwidth
  refine comparators.getIn_eq (Nat.lt_of_lt_of_le ?_ hle)
  decide

theorem functions_getIn (hwidth : 32 ≤ width) : functions.getIn width = functions.get := by
  have hle := le_one_shiftLeft hwidth
  refine functions.getIn_eq (Nat.lt_of_lt_of_le ?_ hle)
  decide

theorem Pair.numbersIn_eq {p : Pair} (hwidth : 32 ≤ width) (hp : p.index < Inventory.capacity) :
    p.numbersIn width = p.numbers := by
  have hle := le_one_shiftLeft hwidth
  have hlt := first_lt hp
  rw [numbers_eq_ok hp, numbersIn, Checked.mul_eq_ok (by omega)]
  show ((Checked.add width (2 * p.index) 1).mapError Halt.overflow).bind _ = _
  rw [Checked.add_eq_ok (by omega)]
  rfl

theorem Inventory.assignIn_eq {v : Inventory} (hwidth : 32 ≤ width) (hv : v.Numbered)
    (hlen : v.pairs.length ≤ capacity) : v.assignIn width = v.assign.mapError .refused := by
  have hle := le_one_shiftLeft hwidth
  unfold assignIn assign
  cases hcode : v.firstLinkable 0 with
  | none => rfl
  | some code =>
    obtain ⟨_, hlt, _⟩ := index_of_firstLinkable hv hcode
    have hfits : code.index + 1 < 1 <<< width := by
      simp only [capacity, comparators] at hlen
      omega
    show ((Checked.add width code.index 1).mapError _).bind _ = _
    rw [Checked.add_eq_ok hfits]
    show (match v.firstLinkable (code.index + 1) with
      | none => .error (.refused (.tooFewPairs v.linkables))
      | some debugRegisters => .ok ⟨code, debugRegisters⟩ : Except Stop Assignment) = _
    dsimp only
    cases v.firstLinkable (code.index + 1) with
    | none => rfl
    | some debugRegisters => rfl

theorem shiftLeft_bit {i : Nat} (hi : i < 16) :
    Checked.shiftLeft (1 : Matches) i = .ok (BitVec.twoPow 16 i) :=
  Checked.shiftLeft_eq_ok hi _

theorem takeMatchesIn_eq (hwidth : 32 ≤ width) :
    (takeMatchesIn width : Run σ Matches) = takeMatches := by
  unfold takeMatchesIn takeMatches
  refine congrArg (Run.read ctrl >>= ·) (funext fun c =>
    Run.foldlM_congr (fun matched i hi => ?_) 0)
  have hlt : i < 16 := Nat.lt_of_lt_of_le (List.mem_range.mp hi) (Nat.min_le_right _ _)
  rw [functions_getIn hwidth]
  refine congrArg (Run.orHalt (functions.get i) >>= ·) (funext fun r => ?_)
  refine congrArg (Run.read r >>= ·) (funext fun f => ?_)
  rw [shiftLeft_bit hlt]
  split <;> rfl

theorem Assignment.dutyAmongIn_eq (a : Assignment) (matched : Matches) {is : List Nat}
    (his : ∀ i ∈ is, i < comparators.count) :
    a.dutyAmongIn matched is = .ok ((is.filter fun i => matched.getLsbD i).findSome? a.dutyAt) := by
  induction is with
  | nil => rfl
  | cons i is ih =>
    have hi : i < 16 := his i List.mem_cons_self
    have hrest := ih fun j hj => his j (List.mem_cons_of_mem _ hj)
    rw [dutyAmongIn, shiftLeft_bit hi]
    show (if matched &&& BitVec.twoPow 16 i != 0 then _ else _) = _
    rw [Word.and_twoPow_bne_zero hi, List.filter_cons]
    by_cases hmatch : matched.getLsbD i = true
    · rw [if_pos hmatch, if_pos hmatch, List.findSome?_cons]
      cases a.dutyAt i with
      | none => exact hrest
      | some duty => rfl
    · rw [if_neg hmatch, if_neg hmatch]
      exact hrest

/-- With words of the width, no check for overflow fails. -/
structure FitsWidth (σ : Type) [Bus σ] (width : Nat) : Prop where
  comparators : comparators.getIn width = comparators.get
  functions : functions.getIn width = functions.get
  survey : (Inventory.survey : Run σ Inventory).Ensures (fun v =>
    v.assignIn width = v.assign.mapError .refused ∧ ∀ p ∈ v.pairs, p.numbersIn width = p.numbers)
    fun _ => False
  takeMatches : (takeMatchesIn width : Run σ Matches) = takeMatches
  dutyAmong : ∀ (a : Assignment) (matched : Matches),
    a.dutyAmongIn matched (List.range Watch.comparators.count) = .ok (a.dutyAmong matched)

theorem fitsWidth (σ : Type) [Bus σ] (hwidth : 32 ≤ width) : FitsWidth σ width := by
  refine ⟨comparators_getIn hwidth, functions_getIn hwidth, ?_, takeMatchesIn_eq hwidth, ?_⟩
  · refine Inventory.ensures_survey.mono fun v hv => ⟨Inventory.assignIn_eq hwidth hv.1 hv.2, ?_⟩
    intro p hp
    obtain ⟨i, hi, rfl⟩ := List.getElem_of_mem hp
    refine Pair.numbersIn_eq hwidth ?_
    rw [hv.1 i hi]
    exact Nat.lt_of_lt_of_le hi hv.2
  · intro a matched
    exact a.dutyAmongIn_eq matched fun i hi => List.mem_range.mp hi

end Watch

end GuardedBoot
