import GuardedBoot.Proofs.Device.Contents
import GuardedBoot.Proofs.Watch.Arming

/-!
# Armed pairs

What the registers of a pair hold once its duty has been programmed, told from what they held
before the comparators were surveyed.

## Main definitions

- `RegisterFile.Armed` — a pair has a duty programmed, with everything else in its registers kept
- `RegisterFile.Alerts` — a pair reports what meets a condition

## Main statements

- `Watch.Assignment.Sound.bounds_execute`, `Watch.Assignment.Sound.alerts_execute` — whatever is
  written before, each pair ends up watching the extent of its duty
- `Watch.Assignment.Sound.armed_execute` — both pairs end up armed
- `RegisterFile.Equipped.stored_surveyed_limit` — what a survey takes
-/

namespace GuardedBoot

open Watch

/-- In `g` the pair watches the addresses from `first` to `last` with the given function. Its
function registers have kept what they report about the comparators in `f`; of the two, only the
second has lost a match. -/
structure RegisterFile.Armed (f g : RegisterFile) (p : Pair) (first last function : Word) :
    Prop where
  base : g.stored (comparators.addressOf (2 * p.index)) = first
  limit : g.stored (comparators.addressOf (2 * p.index + 1)) = last
  baseFunction : g.stored (functions.addressOf (2 * p.index)) =
    f.stored (functions.addressOf (2 * p.index)) &&& functionReadOnly ||| function
  limitFunction : g.stored (functions.addressOf (2 * p.index + 1)) =
    f.stored (functions.addressOf (2 * p.index + 1)) &&& Function.capability.mask ||| 0x07

/-- The first comparator of the pair raises a debug event on accesses that meet the condition. -/
structure RegisterFile.Alerts (f : RegisterFile) (p : Pair) (condition : Condition) : Prop where
  condition : (⟨f.stored p.wiring.baseFunction.address⟩ : Contents Function).get
    Function.condition = some condition
  action : (⟨f.stored p.wiring.baseFunction.address⟩ : Contents Function).get
    Function.action = some .debugEvent

namespace RegisterFile

variable {f : RegisterFile} {a : Assignment} {addr : Address}

/-- The count of comparators is a field of four bits. -/
theorem comparatorCount_lt (f : RegisterFile) : f.comparatorCount.toNat < 16 := by
  have hlt := ((f.stored Watch.ctrl.address) &&& Word.span 28 31).isLt
  simp only [comparatorCount, Contents.get, Watch.Ctrl.comparators, Field.readOnly, Field.number,
    BitVec.toNat_setWidth, BitVec.toNat_ushiftRight, Nat.shiftRight_eq_div_pow]
  omega

/-- The pairs that are surveyed are those of the implemented comparators. -/
theorem pairs_ofCount (f : RegisterFile) : (Inventory.ofCount f.comparatorCount).pairs =
    (List.range (f.comparatorCount.toNat / 2)).map fun i => { index := i } := by
  have hlt := f.comparatorCount_lt
  have hmin : min (f.comparatorCount.toNat / 2) Inventory.capacity =
      f.comparatorCount.toNat / 2 := by
    simp only [Inventory.capacity, comparators]
    omega
  rw [Inventory.ofCount, hmin]

theorem debugRegisters_lt_of_choice (h : f.choice = .ok a) :
    a.debugRegisters.index < f.comparatorCount.toNat / 2 := by
  obtain ⟨_, hlt, _⟩ := Inventory.assign_eq_ok (Inventory.numbered_inventory f) (choice_eq_ok h).2
  have hlength := f.length_inventory
  omega

theorem mem_probed_iff : addr ∈ probed (Inventory.ofCount f.comparatorCount).pairs ↔
    ∃ p < f.comparatorCount.toNat / 2, functions.addressOf (2 * p + 1) = addr := by
  simp [probed, pairs_ofCount, Pair.wiring]

/-- A survey takes the matches of the second comparators. -/
theorem Equipped.stored_surveyed_limit (hf : f.Equipped) {p : Nat}
    (hp : p < f.comparatorCount.toNat / 2) :
    f.surveyed.stored (functions.addressOf (2 * p + 1)) =
      f.stored (functions.addressOf (2 * p + 1)) &&& ~~~matchedBit := by
  have hlt := f.comparatorCount_lt
  have hfunction : IsFunction (functions.addressOf (2 * p + 1)) :=
    isFunction_addressOf (show 2 * p + 1 < 16 by omega)
  have hsome : (f.readOnly (functions.addressOf (2 * p + 1))).isSome := by
    rw [hf.readOnly_function hfunction]
    rfl
  exact if_pos ⟨mem_probed_iff.mpr ⟨p, hp, rfl⟩, hsome⟩

theorem stored_surveyed_of_forall_ne
    (h : ∀ p < f.comparatorCount.toNat / 2, functions.addressOf (2 * p + 1) ≠ addr) :
    f.surveyed.stored addr = f.stored addr := by
  refine stored_unlatch_of_not_mem fun hmem => ?_
  obtain ⟨p, hp, heq⟩ := mem_probed_iff.mp hmem
  exact h p hp heq

/-- A survey leaves the first comparator of every pair alone. -/
theorem stored_surveyed_base (f : RegisterFile) (p : Nat) :
    f.surveyed.stored (functions.addressOf (2 * p)) =
      f.stored (functions.addressOf (2 * p)) := by
  refine stored_surveyed_of_forall_ne fun q _ => ?_
  simp only [RegisterArray.addressOf, functions, Address]
  omega

theorem Equipped.surveyed (hf : f.Equipped) : f.surveyed.Equipped := hf.of_readOnly_eq rfl

end RegisterFile

namespace Watch

variable {f : RegisterFile} {p : Pair} {extent : Extent} {access : AccessKinds} {addr : Address}
  {w : Word}

/-- The words that make a pair watch an extent, with their registers. -/
def Pair.settings (p : Pair) (extent : Extent) (access : AccessKinds) : List (Address × Word) :=
  [(p.wiring.base.address, extent.start), (p.wiring.limit.address, extent.last),
    (p.wiring.limitFunction.address, limiting.word),
    (p.wiring.baseFunction.address, (reporting access).word)]

theorem Pair.lastWrite_commands (h : (addr, w) ∈ p.settings extent access) :
    Bus.lastWrite addr (p.commands extent access) = some w := by
  have hcommands : p.commands extent access =
      (p.settings extent access).map fun x => .write x.1 x.2 := rfl
  rw [hcommands]
  refine Bus.lastWrite_of_mem ?_ h
  simp only [settings, wiring, List.map_cons, List.map_nil, List.nodup_cons, List.mem_cons,
    List.not_mem_nil, or_false, not_false_eq_true, List.nodup_nil, and_true, RegisterArray.addressOf,
    comparators, functions, Address]
  omega

theorem Pair.owns_of_mem_settings (h : (addr, w) ∈ p.settings extent access) : p.Owns addr := by
  simp only [settings, List.mem_cons, List.not_mem_nil, or_false, Prod.mk.injEq] at h
  rcases h with ⟨rfl, _⟩ | ⟨rfl, _⟩ | ⟨rfl, _⟩ | ⟨rfl, _⟩ <;> simp [Owns]

namespace Assignment

variable {a : Assignment} {code : Extent} {old : Contents Demcr}

theorem confined_commands_owned :
    Bus.Confined
      (fun addr => addr = demcr.address ∨ a.code.Owns addr ∨ a.debugRegisters.Owns addr)
      (a.commands code old) := by
  refine .append (confined_monitoring.mono fun _ => .inl) (.append ?_ (.append ?_ Bus.confined_fence))
  · exact Pair.confined_commands.mono fun _ h => .inr (.inl h)
  · exact Pair.confined_commands.mono fun _ h => .inr (.inr h)

/-- The duties do not overwrite each other. -/
theorem Sound.lastWrite_commands (ha : a.Sound) (duty : Duty)
    (h : (addr, w) ∈ (a.pair duty).settings (watched code duty) duty.access) :
    Bus.lastWrite addr (a.commands code old) = some w := by
  have hlast := Pair.lastWrite_commands h
  have howns := Pair.owns_of_mem_settings h
  have hne : Duty.codeIntegrity ≠ .debugRegisters := by decide
  refine Bus.lastWrite_append_eq_some _ ?_
  cases duty with
  | codeIntegrity =>
    have hafter : Bus.Confined (· ≠ addr)
        (a.debugRegisters.commands debugExtent Duty.debugRegisters.access ++ BusOp.fence) := by
      refine .append (Pair.confined_commands.mono ?_) Bus.confined_fence
      rintro _ hother rfl
      exact ha.not_owns hne howns hother
    exact (Bus.lastWrite_append_of_confined_right hafter).trans hlast
  | debugRegisters =>
    refine Bus.lastWrite_append_eq_some _ ?_
    exact (Bus.lastWrite_append_of_confined_right Bus.confined_fence).trans hlast

theorem Sound.lastWrite_demcr (ha : a.Sound) :
    Bus.lastWrite demcr.address (a.commands code old) = some (monitored old).word := by
  have hafter : Bus.Confined (· ≠ demcr.address) (a.watching code) := by
    refine (ha.confined_watching code).mono ?_
    rintro addr haddr rfl
    exact absurd haddr (by decide)
  exact Bus.lastWrite_append_of_confined_right hafter

section Watching

variable (before : List BusOp) (code : Extent) (old : Contents Demcr) (duty : Duty)

theorem Sound.lastWrite_append_commands (ha : a.Sound)
    (h : (addr, w) ∈ (a.pair duty).settings (watched code duty) duty.access) :
    Bus.lastWrite addr (before ++ a.commands code old) = some w :=
  Bus.lastWrite_append_eq_some before (ha.lastWrite_commands duty h)

/-- After a script that ends with the commands of an assignment, each pair bounds the extent of its
duty. -/
theorem Sound.bounds_execute (hf : f.WellFormed) (ha : a.Sound) :
    (Bus.execute (before ++ a.commands code old) f).Bounds (a.pair duty)
      (watched code duty).start (watched code duty).last := by
  refine Pair.bounds_of_lastWrite hf (ha.index_lt duty) fun addr w h => ?_
  exact ha.lastWrite_append_commands before code old duty (List.mem_append_left _ h)

/-- So does each pair report the accesses of its duty. -/
theorem Sound.alerts_execute (hf : f.WellFormed) (ha : a.Sound) :
    (Bus.execute (before ++ a.commands code old) f).Alerts (a.pair duty) duty.condition := by
  have hword : Bus.lastWrite (a.pair duty).wiring.baseFunction.address
      (before ++ a.commands code old) = some (Pair.reporting duty.access).word :=
    ha.lastWrite_append_commands before code old duty (by simp [Pair.settings])
  have hfunction : IsFunction (a.pair duty).wiring.baseFunction.address :=
    isFunction_addressOf (Pair.first_lt (ha.index_lt duty))
  refine ⟨?_, ?_⟩
  · rw [hf.get_execute_function hfunction hword (by decide)]
    cases duty <;> decide
  · rw [hf.get_execute_function hfunction hword (by decide)]
    cases duty <;> decide

end Watching

theorem limiting_word : Pair.limiting.word = 0x07 := by decide

/-- After the survey and a script that ends with the commands of an assignment, both of its pairs
are armed. -/
theorem Sound.armed_execute (hf : f.Equipped) (ha : a.Sound)
    (hlt : a.debugRegisters.index < f.comparatorCount.toNat / 2) (before : List BusOp)
    (code : Extent) (old : Contents Demcr) (duty : Duty) :
    f.Armed (Bus.execute (before ++ a.commands code old) f.surveyed) (a.pair duty)
      (watched code duty).start (watched code duty).last
      ((Pair.reporting duty.access).word &&& ~~~RegisterFile.functionReadOnly) := by
  have hpair := ha.index_lt duty
  have hcount : (a.pair duty).index < f.comparatorCount.toNat / 2 := by
    cases duty with
    | codeIntegrity => exact Nat.lt_trans ha.ascending hlt
    | debugRegisters => exact hlt
  have hlast {addr : Address} {w : Word}
      (h : (addr, w) ∈ (a.pair duty).settings (watched code duty) duty.access) :
      Bus.lastWrite addr (before ++ a.commands code old) = some w :=
    ha.lastWrite_append_commands before code old duty h
  have hs : f.surveyed.Equipped := hf.surveyed
  have hbounds := ha.bounds_execute before code old duty hs.wellFormed
  refine ⟨?_, ?_, ?_, ?_⟩
  · exact hbounds.base
  · exact hbounds.limit
  · have hfunction : IsFunction (functions.addressOf (2 * (a.pair duty).index)) :=
      isFunction_addressOf (Pair.first_lt hpair)
    have hword : Bus.lastWrite (functions.addressOf (2 * (a.pair duty).index))
        (before ++ a.commands code old) = some (Pair.reporting duty.access).word :=
      hlast (by simp [Pair.settings, Pair.wiring])
    rw [hs.stored_execute_function hfunction hword, RegisterFile.stored_surveyed_base]
  · have hfunction : IsFunction (functions.addressOf (2 * (a.pair duty).index + 1)) :=
      Pair.isFunction_limitFunction hpair
    have hmask : ~~~RegisterFile.matchedBit &&& RegisterFile.functionReadOnly =
        Function.capability.mask := by decide
    have hseven : (0x07 : Word) &&& ~~~RegisterFile.functionReadOnly = 0x07 := by decide
    have hword : Bus.lastWrite (functions.addressOf (2 * (a.pair duty).index + 1))
        (before ++ a.commands code old) = some Pair.limiting.word :=
      hlast (by simp [Pair.settings, Pair.wiring])
    rw [hs.stored_execute_function hfunction hword, hf.stored_surveyed_limit hcount,
      BitVec.and_assoc, hmask, limiting_word, hseven]

end Assignment

end Watch

end GuardedBoot
