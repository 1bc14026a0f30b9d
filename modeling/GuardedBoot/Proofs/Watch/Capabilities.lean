import GuardedBoot.Proofs.Device.Accesses
import GuardedBoot.Proofs.Watch.Matches
import GuardedBoot.Proofs.Watch.Policy

/-!
# Capabilities through all uses

A core reports the pairs that it was made with, and goes on reporting them whatever it is used for:
the bits that describe a comparator are out of the reach of writes, and a match that comes or goes
leaves them alone.

## Main definitions

- `Use`, `RegisterFile.use` — one use of a core: an access, or a watchpoint that fires
- `Watch.Inventory.reported` — the pairs of a number of comparators, some of which can link

## Main statements

- `RegisterFile.inventory_of_m33` — a core reports the pairs that it was made with
- `RegisterFile.Equipped.use_ok`, `RegisterFile.Equipped.uses_ok` — no use changes what is reported
-/

namespace GuardedBoot

open Watch

/-- One use that is made of a core. -/
inductive Use where
  | access (x : Access)
  | fire (comparator : Nat)
  deriving DecidableEq

/-- The count of comparators is not written, and only comparators that exist fire. -/
def Use.Allowed : Use → Prop
  | .access (.read _) => True
  | .access (.perform op) => op.WritesOnly (· ≠ Watch.ctrl.address)
  | .fire comparator => comparator < functions.count

/-- The file after one use. -/
def RegisterFile.use (f : RegisterFile) : Use → Except Halt RegisterFile
  | .access x => .ok (f.access x)
  | .fire comparator => f.latchMatch comparator

/-- The pairs of a number of comparators, of which those of the list can watch a range. -/
def Watch.Inventory.reported (implemented : Byte) (linkable : List Nat) : Inventory where
  pairs := (List.range (implemented.toNat / 2)).map fun p => ⟨p, decide (p ∈ linkable)⟩

namespace RegisterFile

variable {f g : RegisterFile} {implemented : Byte} {linkable : List Nat}

theorem m33_eq_error_iff :
    m33 implemented linkable = .error .comparatorCount ↔ 15 < implemented.toNat := by
  have hle : implemented ≤ 15 ↔ implemented.toNat ≤ 15 := Iff.rfl
  unfold m33
  split
  · next h =>
    simp only [reduceCtorEq, false_iff]
    exact Nat.not_lt.mpr (hle.mp h)
  · next h =>
    simp only [true_iff]
    exact Nat.lt_of_not_le (mt hle.mpr h)

theorem exists_of_m33 (h : implemented.toNat ≤ 15) :
    ∃ core, m33 implemented linkable = .ok core := by
  have hle : implemented ≤ 15 := h
  unfold m33
  rw [if_pos hle]
  exact ⟨_, rfl⟩

/-- A core reports the pairs that it was made with. -/
theorem inventory_of_m33 (h : m33 implemented linkable = .ok f) :
    f.inventory = .reported implemented linkable := by
  have hcount := comparatorCount_of_m33 h
  have hlt := f.comparatorCount_lt
  rw [inventory, pairs_ofCount, hcount, Inventory.reported, List.map_map]
  refine congrArg Inventory.mk (List.map_congr_left fun p hp => ?_)
  have hp : p < implemented.toNat / 2 := List.mem_range.mp hp
  have hfunction : 2 * p + 1 < functions.count := by
    rw [hcount] at hlt
    simp only [functions]
    omega
  have hodd : (2 * p + 1) % 2 = 1 := by omega
  have hpair : (2 * p + 1) / 2 = p := by omega
  have hstored := stored_function_of_m33 h hfunction
  simp only [hodd, hpair, true_and] at hstored
  simp only [Function.comp_apply, capable, Pair.wiring, hstored, Function.canLimit_eq, Pair.mk.injEq,
    true_and]
  by_cases hmem : p ∈ linkable
  · simp only [hmem, if_true, decide_true]
    decide
  · simp only [hmem, if_false, decide_false]
    decide

/-- Matches that are taken are no capabilities. -/
theorem WellFormed.inventory_unlatch (hf : f.WellFormed) (taken : List Address) :
    (f.unlatch taken).inventory = f.inventory := by
  refine inventory_congr (comparatorCount_congr ?_) fun p _ => f.capable_unlatch taken p
  exact stored_unlatch_of_readOnly_eq_none (hf.readOnly_eq_none (by decide))

/-- What a comparator reports about itself is out of the reach of writes. -/
theorem Equipped.inventory_execute (hf : f.Equipped) {script : List BusOp}
    (hscript : Bus.Confined (· ≠ Watch.ctrl.address) script) :
    (Bus.execute script f).inventory = f.inventory := by
  refine inventory_congr (comparatorCount_execute_of_confined hscript f) fun p hp => ?_
  have hfunction := Pair.isFunction_limitFunction (Inventory.index_lt_capacity hp)
  have hcapability : Function.capability.mask &&& ~~~functionReadOnly = 0 := by decide
  rw [capable, Function.canLimit, hf.get_execute_of_fixed hfunction script hcapability, capable,
    Function.canLimit]

/-- The bit of a match lies outside the capabilities. -/
theorem inventory_latchMatch {i : Nat} (h : f.latchMatch i = .ok g) :
    g.inventory = f.inventory := by
  refine inventory_congr (comparatorCount_latchMatch h) fun p _ => ?_
  obtain ⟨_, rfl⟩ := latchMatch_eq_ok h
  have hget : (⟨(f.store (functions.addressOf i) (f.stored (functions.addressOf i) |||
      matchedBit)).stored p.wiring.limitFunction.address⟩ : Contents Function).get
        Function.capability =
      (⟨f.stored p.wiring.limitFunction.address⟩ : Contents Function).get Function.capability := by
    by_cases hi : p.wiring.limitFunction.address = functions.addressOf i
    · rw [hi, stored_store_self]
      have hmatched : Function.capability.mask &&& matchedBit = 0 := by decide
      refine Contents.get_congr hmatched ?_
      ext k hk
      by_cases hbit : matchedBit[k] <;> simp [hbit]
    · rw [stored_store_of_ne _ _ hi]
  simp only [capable, Function.canLimit, hget]

/-- No use changes what a core reports. -/
theorem Equipped.use_ok (hf : f.Equipped) {u : Use} (hu : u.Allowed) :
    ∃ g, f.use u = .ok g ∧ g.Equipped ∧ g.inventory = f.inventory := by
  cases u with
  | access x =>
    cases x with
    | read a =>
      refine ⟨_, rfl, hf.of_readOnly_eq (readOnly_read f a), ?_⟩
      rw [access, hf.wellFormed.left_read, hf.wellFormed.inventory_unlatch]
    | perform op =>
      refine ⟨_, rfl, hf.of_readOnly_eq (readOnly_perform f op), ?_⟩
      have hscript : Bus.Confined (· ≠ Watch.ctrl.address) [op] := by
        intro op' hop'
        rw [List.mem_singleton.mp hop']
        exact hu
      show (Bus.execute [op] f).inventory = f.inventory
      exact hf.inventory_execute hscript
  | fire i =>
    have hfire := f.latchMatch_of_lt hu
    exact ⟨_, hfire, hf.of_readOnly_eq (readOnly_latchMatch hfire), inventory_latchMatch hfire⟩

/-- Nor does any number of uses. -/
theorem Equipped.uses_ok (hf : f.Equipped) {uses : List Use} (huses : ∀ u ∈ uses, u.Allowed) :
    ∃ g, uses.foldlM RegisterFile.use f = .ok g ∧ g.Equipped ∧ g.inventory = f.inventory := by
  induction uses generalizing f with
  | nil => exact ⟨f, rfl, hf, rfl⟩
  | cons u uses ih =>
    obtain ⟨next, hnext, hequipped, hinventory⟩ := hf.use_ok (huses u List.mem_cons_self)
    obtain ⟨g, hg, hequipped', hinventory'⟩ :=
      ih hequipped fun u' hu' => huses u' (List.mem_cons_of_mem _ hu')
    refine ⟨g, ?_, hequipped', hinventory'.trans hinventory⟩
    rw [List.foldlM_cons, hnext]
    exact hg

end RegisterFile

end GuardedBoot
