import GuardedBoot.Proofs.Device.Unlatch
import GuardedBoot.Proofs.Watch.Wiring

/-!
# Surveying the comparators

What the watchpoint unit reports about itself, told from the words that are stored, and what the
survey leaves: nothing is changed but that matches may be taken.

## Main definitions

- `RegisterFile.comparatorCount`, `RegisterFile.inventory` — what the unit reports
- `RegisterFile.surveyed` — the file after the survey

## Main statements

- `Watch.Inventory.survey_apply` — a survey gives the inventory and leaves the surveyed file
- `Watch.Inventory.assign_eq_ok` — an assignment has two pairs that exist, in ascending order
-/

namespace GuardedBoot

open Watch

namespace Watch.Inventory

variable {p : Pair} {implemented : Byte}

theorem length_ofCount (implemented : Byte) :
    (ofCount implemented).pairs.length = min (implemented.toNat / 2) capacity := by
  simp [ofCount]

theorem index_lt_of_mem_ofCount (hp : p ∈ (ofCount implemented).pairs) :
    p.index < min (implemented.toNat / 2) capacity := by
  obtain ⟨i, hi, rfl⟩ := List.mem_map.mp hp
  exact List.mem_range.mp hi

theorem index_lt_capacity (hp : p ∈ (ofCount implemented).pairs) : p.index < capacity :=
  Nat.lt_of_lt_of_le (index_lt_of_mem_ofCount hp) (Nat.min_le_right _ _)

end Watch.Inventory

namespace RegisterFile

variable (f : RegisterFile)

/-- The number of comparators that the unit reports. -/
def comparatorCount : Byte := (⟨f.stored Watch.ctrl.address⟩ : Contents Ctrl).get Ctrl.comparators

/-- The pair with the capability that its second comparator reports. -/
def capable (p : Pair) : Pair :=
  { p with linkable := Function.canLimit ⟨f.stored p.wiring.limitFunction.address⟩ }

/-- The pairs with the capabilities that they report. -/
def inventory : Inventory :=
  ⟨(Inventory.ofCount f.comparatorCount).pairs.map f.capable⟩

/-- The registers that a survey of some pairs reads. -/
def probed (ps : List Pair) : List Address :=
  ps.map fun p => p.wiring.limitFunction.address

/-- The file after a survey: the matches of the comparators that were asked are gone. -/
def surveyed : RegisterFile :=
  f.unlatch (probed (Inventory.ofCount f.comparatorCount).pairs)

theorem length_inventory :
    f.inventory.pairs.length = min (f.comparatorCount.toNat / 2) Inventory.capacity :=
  (List.length_map _).trans (Inventory.length_ofCount _)

theorem capable_unlatch (taken : List Address) (p : Pair) :
    (f.unlatch taken).capable p = f.capable p := by
  simp only [capable, Function.canLimit, get_unlatch f taken _ Function.capability (by decide)]

variable {f}

theorem comparatorCount_congr {g : RegisterFile}
    (h : g.stored Watch.ctrl.address = f.stored Watch.ctrl.address) :
    g.comparatorCount = f.comparatorCount := by
  rw [comparatorCount, h, comparatorCount]

theorem comparatorCount_execute_of_confined {script : List BusOp}
    (hscript : Bus.Confined (· ≠ Watch.ctrl.address) script) (f : RegisterFile) :
    (Bus.execute script f).comparatorCount = f.comparatorCount :=
  comparatorCount_congr (stored_execute_of_confined hscript f)

/-- The inventory can be told from the count and from the capabilities of the pairs that it counts. -/
theorem inventory_congr {g : RegisterFile} (hcount : g.comparatorCount = f.comparatorCount)
    (hcapable : ∀ p ∈ (Inventory.ofCount f.comparatorCount).pairs, g.capable p = f.capable p) :
    g.inventory = f.inventory := by
  rw [inventory, hcount, inventory]
  exact congrArg Inventory.mk (List.map_congr_left hcapable)

theorem stored_surveyed (f : RegisterFile) {a : Address} (ha : ¬ IsFunction a) :
    f.surveyed.stored a = f.stored a := by
  refine stored_unlatch_of_not_mem fun hmem => ha ?_
  obtain ⟨p, hp, rfl⟩ := List.mem_map.mp hmem
  exact Pair.isFunction_limitFunction (Inventory.index_lt_capacity hp)

theorem comparatorCount_surveyed (f : RegisterFile) :
    f.surveyed.comparatorCount = f.comparatorCount :=
  comparatorCount_congr (f.stored_surveyed (by decide))

theorem WellFormed.surveyed (hf : f.WellFormed) : f.surveyed.WellFormed :=
  hf.unlatch

end RegisterFile

namespace Watch

variable {f : RegisterFile} {log : List Log.Entry} {p : Pair}

theorem Pair.probe_apply (hp : p.index < Inventory.capacity) (f : RegisterFile)
    (log : List Log.Entry) :
    p.probe ⟨f, log⟩ = .ok (f.capable p) ⟨f.unlatch [p.wiring.limitFunction.address], log⟩ := by
  rw [probe, registers_eq_ok hp, Run.bind_of_ok (Run.orHalt_ok _ _),
    Run.bind_of_ok (f.run_read_function _ (isFunction_limitFunction hp) log)]
  rfl

theorem mapM_probe_apply (f : RegisterFile) (log : List Log.Entry) {ps : List Pair}
    (hps : ∀ p ∈ ps, p.index < Inventory.capacity) :
    ps.mapM Pair.probe ⟨f, log⟩ =
      .ok (ps.map f.capable) ⟨f.unlatch (RegisterFile.probed ps), log⟩ := by
  induction ps generalizing f with
  | nil =>
    rw [List.mapM_nil, Run.pure_apply]
    simp [RegisterFile.probed]
  | cons p ps ih =>
    have hp := hps p List.mem_cons_self
    have hrest := fun q hq => hps q (List.mem_cons_of_mem _ hq)
    rw [List.mapM_cons, Run.bind_of_ok (Pair.probe_apply hp f log),
      Run.bind_of_ok (ih _ hrest), Run.pure_apply, RegisterFile.unlatch_unlatch]
    have hcapable : (f.unlatch [p.wiring.limitFunction.address]).capable = f.capable := by
      funext q
      exact f.capable_unlatch _ q
    rw [hcapable]
    rfl

namespace Inventory

/-- The pairs of an inventory are numbered by their positions. -/
def Numbered (v : Inventory) : Prop :=
  ∀ i (h : i < v.pairs.length), (v.pairs[i]).index = i

/-- A survey gives the inventory, and takes the matches of the comparators that it asks. -/
theorem survey_apply (hf : f.WellFormed) (log : List Log.Entry) :
    survey ⟨f, log⟩ = .ok f.inventory ⟨f.surveyed, log⟩ := by
  rw [survey, Run.bind_of_ok (hf.run_read Watch.ctrl (by decide) log)]
  exact Run.bind_of_ok (mapM_probe_apply f log fun p hp => index_lt_capacity hp)

theorem numbered_inventory (f : RegisterFile) : f.inventory.Numbered := by
  intro i hi
  simp [RegisterFile.inventory, RegisterFile.capable, ofCount]

variable {v : Inventory}

theorem index_of_firstLinkable (hv : v.Numbered) {position : Nat}
    (h : v.firstLinkable position = some p) :
    position ≤ p.index ∧ p.index < v.pairs.length ∧ p.linkable = true := by
  have hmem := List.mem_of_find?_eq_some h
  obtain ⟨j, hj, hget⟩ := List.getElem_of_mem hmem
  rw [List.length_drop] at hj
  rw [List.getElem_drop] at hget
  have hindex : p.index = position + j := by
    rw [← hget]
    exact hv _ (by omega)
  refine ⟨by omega, by omega, ?_⟩
  simpa using List.find?_some h

/-- An assignment has two pairs that exist, that for the code below that for the debug
registers, and both can watch a range. -/
theorem assign_eq_ok (hv : v.Numbered) {a : Assignment} (h : v.assign = .ok a) :
    a.code.index < a.debugRegisters.index ∧ a.debugRegisters.index < v.pairs.length ∧
      a.code.linkable = true ∧ a.debugRegisters.linkable = true := by
  unfold assign at h
  split at h
  · cases h
  · next code hcode =>
    split at h
    · cases h
    · next debugRegisters hdebug =>
      cases h
      obtain ⟨_, _, hlink⟩ := index_of_firstLinkable hv hcode
      obtain ⟨hlt, hlen, hlink'⟩ := index_of_firstLinkable hv hdebug
      exact ⟨by dsimp only; omega, hlen, hlink, hlink'⟩

theorem assign_eq_error {reason : Refusal} (h : v.assign = .error reason) :
    reason = .tooFewPairs v.linkables := by
  unfold assign at h
  split at h
  · exact (Except.error.inj h).symm
  · split at h
    · exact (Except.error.inj h).symm
    · cases h

end Inventory

end Watch

end GuardedBoot
