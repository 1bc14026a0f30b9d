import GuardedBoot.Proofs.Device.Reachable
import GuardedBoot.Watch.Arming

/-!
# The registers of comparator pairs

Where the registers of a pair lie. The four registers of a pair differ from each other, from those
of every other pair, and from all other registers that the boot sequence uses.

## Main definitions

- `Watch.IsComparatorRegister` — the value or the function register of a comparator
- `Watch.Pair.wiring` — the registers at the place of a pair
- `Watch.Pair.Owns` — one of these registers

## Main statements

- `Watch.Pair.registers_eq_ok` — a pair that exists has its registers
- `Watch.Pair.Owns.index_unique` — pairs share no register
-/

namespace GuardedBoot

open Watch

theorem RegisterArray.get_eq_ok {R : Type} (a : RegisterArray R) {i : Nat} (hi : i < a.count) :
    a.get i = .ok ⟨a.addressOf i⟩ :=
  if_pos hi

namespace Watch

/-- The address is that of the value or of the function of a comparator. -/
def IsComparatorRegister (a : Address) : Prop :=
  ∃ i < comparators.count, a = comparators.addressOf i ∨ a = functions.addressOf i

instance : DecidablePred IsComparatorRegister := fun _ =>
  inferInstanceAs (Decidable (∃ i < comparators.count, _ ∨ _))

theorem isPlain_comparator {i : Nat} (hi : i < comparators.count) :
    IsPlain (comparators.addressOf i) := by
  simp only [comparators] at hi
  refine ⟨?_, ?_⟩
  · simp only [IsSlotWindow, RegisterArray.addressOf, comparators, Mpu.rbar, Mpu.rlar, Address]
    omega
  · rintro ⟨j, hj, heq⟩
    simp only [RegisterArray.addressOf, comparators, functions, Address] at hj heq
    omega

/-- Comparators lie below the registers of the protection unit. -/
theorem IsComparatorRegister.lt_protection {a : Address} (h : IsComparatorRegister a) :
    a < Mpu.typeReg.address := by
  obtain ⟨i, hi, h⟩ := h
  simp only [RegisterArray.addressOf, comparators, functions, Mpu.typeReg, Address] at hi h ⊢
  omega

namespace Pair

variable {p q : Pair}

/-- The registers at the place of a pair. -/
def wiring (p : Pair) : PairRegisters where
  base := ⟨comparators.addressOf (2 * p.index)⟩
  limit := ⟨comparators.addressOf (2 * p.index + 1)⟩
  baseFunction := ⟨functions.addressOf (2 * p.index)⟩
  limitFunction := ⟨functions.addressOf (2 * p.index + 1)⟩

theorem first_lt (hp : p.index < Inventory.capacity) : 2 * p.index < 16 := by
  simp only [Inventory.capacity, comparators] at hp
  omega

theorem second_lt (hp : p.index < Inventory.capacity) : 2 * p.index + 1 < 16 := by
  simp only [Inventory.capacity, comparators] at hp
  omega

theorem numbers_eq_ok (hp : p.index < Inventory.capacity) :
    p.numbers = .ok (2 * p.index, 2 * p.index + 1) := by
  have hlt := first_lt hp
  have hfirst : (Checked.mul 64 2 p.index).mapError Halt.overflow = .ok (2 * p.index) := by
    rw [Checked.mul, if_pos (by omega)]
    rfl
  have hsecond : (Checked.add 64 (2 * p.index) 1).mapError Halt.overflow =
      .ok (2 * p.index + 1) := by
    rw [Checked.add, if_pos (by omega)]
    rfl
  simp only [numbers, hfirst, hsecond, bind, Except.bind]
  rfl

theorem registers_eq_ok (hp : p.index < Inventory.capacity) : p.registers = .ok p.wiring := by
  have hfirst := first_lt hp
  have hsecond := second_lt hp
  simp only [registers, numbers_eq_ok hp, bind, Except.bind,
    comparators.get_eq_ok hfirst, comparators.get_eq_ok hsecond, functions.get_eq_ok hfirst,
    functions.get_eq_ok hsecond]
  rfl

theorem isFunction_limitFunction (hp : p.index < Inventory.capacity) :
    IsFunction p.wiring.limitFunction.address :=
  isFunction_addressOf (second_lt hp)

theorem isPlain_base (hp : p.index < Inventory.capacity) : IsPlain p.wiring.base.address :=
  isPlain_comparator (first_lt hp)

theorem isPlain_limit (hp : p.index < Inventory.capacity) : IsPlain p.wiring.limit.address :=
  isPlain_comparator (second_lt hp)

/-- The address is that of one of the four registers of the pair. -/
def Owns (p : Pair) (a : Address) : Prop :=
  a ∈ [p.wiring.base.address, p.wiring.limit.address, p.wiring.baseFunction.address,
    p.wiring.limitFunction.address]

theorem owns_iff {a : Address} :
    p.Owns a ↔ a = comparators.addressOf (2 * p.index) ∨
      a = comparators.addressOf (2 * p.index + 1) ∨ a = functions.addressOf (2 * p.index) ∨
        a = functions.addressOf (2 * p.index + 1) := by
  simp [Owns, wiring]

theorem owns_comparator_iff {i : Nat} :
    p.Owns (comparators.addressOf i) ↔ i / 2 = p.index := by
  rw [owns_iff]
  simp only [RegisterArray.addressOf, comparators, functions, Address]
  omega

theorem owns_function_iff {i : Nat} : p.Owns (functions.addressOf i) ↔ i / 2 = p.index := by
  rw [owns_iff]
  simp only [RegisterArray.addressOf, comparators, functions, Address]
  omega

/-- The registers that say what the range of the pair is. -/
def boundRegisters (p : Pair) : List Address :=
  [p.wiring.base.address, p.wiring.limit.address, p.wiring.limitFunction.address]

theorem Owns.of_mem_boundRegisters {a : Address} (ha : a ∈ p.boundRegisters) : p.Owns a := by
  simp only [boundRegisters, List.mem_cons, List.not_mem_nil, or_false] at ha
  rcases ha with rfl | rfl | rfl <;> simp [Owns]

theorem owns_baseFunction : p.Owns p.wiring.baseFunction.address := by
  simp [Owns]

theorem baseFunction_not_mem_boundRegisters :
    p.wiring.baseFunction.address ∉ p.boundRegisters := by
  simp only [boundRegisters, List.mem_cons, List.not_mem_nil, or_false]
  simp only [wiring, RegisterArray.addressOf, comparators, functions, Address]
  omega

/-- Pairs share no register. -/
theorem Owns.index_unique {a : Address} (hp : p.Owns a) (hq : q.Owns a) : p.index = q.index := by
  rw [owns_iff] at hp hq
  simp only [RegisterArray.addressOf, comparators, functions, Address] at hp hq
  omega

theorem Owns.isComparatorRegister {a : Address} (hp : p.index < Inventory.capacity)
    (ha : p.Owns a) : IsComparatorRegister a := by
  rcases owns_iff.mp ha with rfl | rfl | rfl | rfl
  · exact ⟨_, first_lt hp, .inl rfl⟩
  · exact ⟨_, second_lt hp, .inl rfl⟩
  · exact ⟨_, first_lt hp, .inr rfl⟩
  · exact ⟨_, second_lt hp, .inr rfl⟩

end Pair

end Watch

end GuardedBoot
