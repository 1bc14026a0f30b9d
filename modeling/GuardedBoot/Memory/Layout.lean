import GuardedBoot.Refusal

/-!
# Memory layouts

Where the sections of an image and the peripherals lie, and the rules of placement that make such
a layout fit for protection: every boundary on the edge of a protection block, and the parts in
ascending order without overlap.

## Main definitions

- `PlacementRule` — one condition on landmarks, with `PlacementRule.Holds` as its meaning
- `PlacementRule.checkAll` — the first broken rule of a list, as a refusal
- `ImageLayout` — the boundaries of an image, with `ImageLayout.rules`
- `Aperture` — the peripheral addresses, with `Aperture.rules`

## Main statements

- `PlacementRule.checkAll_eq_ok_iff` — a list of rules passes exactly when all of them hold
-/

namespace GuardedBoot

/-- The protection unit works on blocks of this many bytes. -/
def blockSize : Word := 32

/-- A condition that the landmarks of a layout have to meet. -/
inductive PlacementRule where
  /-- The landmark lies on the edge of a block. -/
  | aligned (mark : Landmark)
  /-- The first landmark lies strictly below the second. -/
  | below (lower upper : Landmark)
  /-- The first landmark does not lie above the second. -/
  | notAbove (lower upper : Landmark)

namespace PlacementRule

/-- The condition that a rule states. -/
def Holds : PlacementRule → Prop
  | .aligned mark => mark.address % blockSize = 0
  | .below lower upper => lower.address < upper.address
  | .notAbove lower upper => lower.address ≤ upper.address

instance : DecidablePred Holds := fun rule =>
  match rule with
  | .aligned mark => inferInstanceAs (Decidable (mark.address % blockSize = 0))
  | .below lower upper => inferInstanceAs (Decidable (lower.address < upper.address))
  | .notAbove lower upper => inferInstanceAs (Decidable (lower.address ≤ upper.address))

/-- The refusal that a broken rule leads to. -/
def violation : PlacementRule → Refusal
  | .aligned mark => .unaligned mark.boundary mark.address
  | .below lower upper | .notAbove lower upper => .misordered lower.boundary upper.boundary

/-- Refuses a layout that breaks the rule. -/
def check (rule : PlacementRule) : Except Refusal Unit :=
  if rule.Holds then .ok () else .error rule.violation

/-- Refuses a layout that breaks one of the rules, for the first that it breaks. -/
def checkAll (rules : List PlacementRule) : Except Refusal Unit :=
  rules.forM check

@[simp] theorem checkAll_nil : checkAll [] = .ok () := rfl

@[simp] theorem checkAll_cons (rule : PlacementRule) (rules : List PlacementRule) :
    checkAll (rule :: rules) =
      if rule.Holds then checkAll rules else .error rule.violation := by
  by_cases h : rule.Holds <;> simp [checkAll, check, h, bind, Except.bind]

/-- A list of rules passes exactly when all of them hold. -/
theorem checkAll_eq_ok_iff (rules : List PlacementRule) :
    checkAll rules = .ok () ↔ ∀ rule ∈ rules, rule.Holds := by
  induction rules with
  | nil => simp
  | cons rule rules ih => by_cases h : rule.Holds <;> simp [h, ih]

end PlacementRule

/-- The boundaries of the sections of an image. -/
structure ImageLayout where
  codeStart : Word
  codeEnd : Word
  rodataStart : Word
  rodataEnd : Word
  dataStart : Word
  ramTop : Word
  deriving DecidableEq

namespace ImageLayout

variable (m : ImageLayout)

/-- The boundaries in ascending order. -/
def landmarks : List Landmark :=
  [⟨.codeStart, m.codeStart⟩, ⟨.codeEnd, m.codeEnd⟩, ⟨.rodataStart, m.rodataStart⟩,
    ⟨.rodataEnd, m.rodataEnd⟩, ⟨.dataStart, m.dataStart⟩, ⟨.ramTop, m.ramTop⟩]

/-- Every boundary is aligned; no section is empty, and none starts before the last one ends. -/
def rules : List PlacementRule :=
  m.landmarks.map .aligned ++
    [.below ⟨.codeStart, m.codeStart⟩ ⟨.codeEnd, m.codeEnd⟩,
      .notAbove ⟨.codeEnd, m.codeEnd⟩ ⟨.rodataStart, m.rodataStart⟩,
      .below ⟨.rodataStart, m.rodataStart⟩ ⟨.rodataEnd, m.rodataEnd⟩,
      .notAbove ⟨.rodataEnd, m.rodataEnd⟩ ⟨.dataStart, m.dataStart⟩,
      .below ⟨.dataStart, m.dataStart⟩ ⟨.ramTop, m.ramTop⟩]

/-- Refuses a layout for the first of its rules that it breaks. -/
def check : Except Refusal Unit :=
  PlacementRule.checkAll m.rules

/-- The executable section. -/
def code : Extent := ⟨m.codeStart, m.codeEnd⟩

/-- The constants. -/
def rodata : Extent := ⟨m.rodataStart, m.rodataEnd⟩

/-- The writable data through the top of the stack. -/
def ram : Extent := ⟨m.dataStart, m.ramTop⟩

end ImageLayout

/-- The addresses of the peripherals, both ends included. -/
structure Aperture where
  base : Word
  limit : Word
  deriving DecidableEq

namespace Aperture

/-- The aperture is a whole number of blocks and not empty. The limit is aligned when the next
address is, which for the last address of all is zero. -/
def rules (a : Aperture) : List PlacementRule :=
  [.aligned ⟨.peripheralBase, a.base⟩, .aligned ⟨.peripheralLimit, a.limit + 1⟩,
    .below ⟨.peripheralBase, a.base⟩ ⟨.peripheralLimit, a.limit⟩]

/-- The aperture lies above an image. Sections ascend, so it is enough that memory ends below. -/
def aboveRule (a : Aperture) (m : ImageLayout) : PlacementRule :=
  .notAbove ⟨.ramTop, m.ramTop⟩ ⟨.peripheralBase, a.base⟩

end Aperture

end GuardedBoot
