import GuardedBoot.Watch.Pair

/-!
# Assignments

Which pair of comparators serves which duty, and which duty a match therefore belongs to.

## Main definitions

- `Assignment` — one pair for each duty
- `Inventory.assign` — gives the duties the first two pairs that can watch a range
- `Assignment.dutyAt`, `Assignment.dutyAmong` — from comparators back to duties
- `takeMatches`, `Assignment.fired` — the matches that the hardware reports

## Design notes

Matches are a set of comparators, kept as a word with one bit for each. Asking the hardware for
them clears them.
-/

namespace GuardedBoot.Watch

/-- A set of comparators, one bit for each. -/
abbrev Matches := BitVec 16

/-- One pair of comparators for each duty. -/
structure Assignment where
  code : Pair
  debugRegisters : Pair
  deriving DecidableEq

/-- Gives each duty a pair that can watch a range, in one ascending scan: the second duty goes on
where the first one stopped, so they never share a comparator. -/
def Inventory.assign (v : Inventory) : Except Refusal Assignment :=
  match v.firstLinkable 0 with
  | none => .error (.tooFewPairs v.linkables)
  | some code =>
    match v.firstLinkable (code.index + 1) with
    | none => .error (.tooFewPairs v.linkables)
    | some debugRegisters => .ok ⟨code, debugRegisters⟩

namespace Assignment

/-- The pair that serves a duty. -/
def pair (a : Assignment) : Duty → Pair
  | .codeIntegrity => a.code
  | .debugRegisters => a.debugRegisters

/-- The duty that a comparator serves, if it serves one. -/
def dutyAt (a : Assignment) (comparator : Nat) : Option Duty :=
  Duty.all.find? fun duty => (a.pair duty).index == comparator / 2

/-- The duty of the lowest comparator in a set that serves one. -/
def dutyAmong (a : Assignment) (matched : Matches) : Option Duty :=
  ((List.range comparators.count).filter fun i => matched.getLsbD i).findSome? a.dutyAt

/-- Reports which comparators serve which duty; halts at a pair whose comparators have no
number. -/
def report {σ : Type} (a : Assignment) : Run σ Unit :=
  Duty.all.forM fun duty => do
    let p := a.pair duty
    let (first, second) ← Run.orHalt p.numbers
    .say .debug
      s!"{duty.name}: pair {p.index} (comparators {first}, {second}) {duty.access.text}"

end Assignment

variable {σ : Type} [Bus σ]

/-- The implemented comparators that have matched since they were last asked. -/
def takeMatches : Run σ Matches := do
  let implemented := (← Run.read ctrl).get Ctrl.comparators
  (List.range (min implemented.toNat comparators.count)).foldlM (fun matched i => do
    let f ← Run.read (← Run.orHalt (functions.get i))
    return if f.get Function.matched then matched ||| BitVec.twoPow 16 i else matched) 0

/-- The duty of a watchpoint that has fired since it was last asked for. -/
def Assignment.fired (a : Assignment) : Run σ (Option Duty) := do
  return a.dutyAmong (← takeMatches)

end GuardedBoot.Watch
