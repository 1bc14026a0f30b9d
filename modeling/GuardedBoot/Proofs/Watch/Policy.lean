import GuardedBoot.Proofs.Device.Latches
import GuardedBoot.Proofs.Watch.Armed
import GuardedBoot.Proofs.Watch.Scan

/-!
# The policy by which pairs are chosen

Which pairs are chosen, or why none are, in terms of a few bits: whether two units exist, how many
comparators there are, and which pairs among them can watch a range.

## Main definitions

- `RegisterFile.linkablePairs` — the implemented pairs that can watch a range
- `RegisterFile.Policy` — the answer that these bits call for
- `RegisterFile.Unasked` — a function register that has no say

## Main statements

- `RegisterFile.choice_eq_iff_policy` — the choice is what the policy calls for
- `Watch.choose_iff_policy` — so is the answer of the run, which writes nothing
-/

namespace GuardedBoot

open Watch

theorem Watch.Function.canLimit_eq (v : Contents Function) :
    Function.canLimit v = v.word.getLsbD 31 := by
  have hcapable : limitCapable = BitVec.twoPow 8 4 := by decide
  have hbit : (v.get Function.capability).getLsbD 4 = v.word.getLsbD 31 := by
    simp [Contents.get, Function.capability, Field.readOnly, Field.number]
  rw [Function.canLimit, hcapable, Word.and_twoPow_bne_zero (by decide), hbit]

namespace RegisterFile

variable {f g : RegisterFile} {r : Except Refusal Assignment} {a : Address}

theorem comparatorCount_eq (f : RegisterFile) :
    f.comparatorCount = (f.stored Watch.ctrl.address >>> 28).setWidth 8 := by
  apply BitVec.eq_of_getLsbD_eq
  intro i hi
  simp only [comparatorCount, Contents.get, Ctrl.comparators, Field.readOnly, Field.number,
    BitVec.getLsbD_setWidth, BitVec.getLsbD_ushiftRight, BitVec.getLsbD_and, Word.getLsbD_span]
  by_cases h : 28 + i < 32
  · simp [hi, h, show 28 + i ≤ 31 by omega]
  · simp [Nat.le_of_not_lt h]

variable (f)

/-- The pairs of implemented comparators of which the second can limit the range of the first. -/
def linkablePairs : Finset Nat :=
  (Finset.range (f.comparatorCount.toNat / 2)).filter fun p =>
    (f.stored (functions.addressOf (2 * p + 1))).getLsbD 31

theorem links_inventory : f.inventory.links = f.linkablePairs := by
  ext i
  rw [Inventory.mem_links, linkablePairs, Finset.mem_filter, Finset.mem_range]
  simp only [inventory, pairs_ofCount, List.mem_map, List.mem_range, exists_exists_and_eq_and,
    capable, Function.canLimit_eq]
  constructor
  · rintro ⟨p, hp, hbit, rfl⟩
    exact ⟨hp, hbit⟩
  · rintro ⟨hp, hbit⟩
    exact ⟨i, hp, hbit, rfl⟩

/-- The answer that the hardware calls for: a missing unit is refused first, then too few
comparators, then too few linkable pairs; else the two least linkable pairs are chosen. -/
def Policy (r : Except Refusal Assignment) : Prop :=
  if (f.stored romDwt.address).getLsbD 0 = false then
    r = .error (.missingUnit .dwt)
  else if (f.stored romItm.address).getLsbD 0 = false then
    r = .error (.missingUnit .itm)
  else if f.comparatorCount.toNat < 4 then
    r = .error (.tooFewComparators f.comparatorCount)
  else if f.linkablePairs.card < 2 then
    r = .error (.tooFewPairs f.linkablePairs.card)
  else
    ∃ c d, IsLeast (f.linkablePairs : Set Nat) c ∧ IsLeast (f.linkablePairs.erase c : Set Nat) d ∧
      r = .ok ⟨⟨c, true⟩, ⟨d, true⟩⟩

theorem assign_inventory_eq_iff :
    f.inventory.assign = r ↔
      if f.linkablePairs.card < 2 then r = .error (.tooFewPairs f.linkablePairs.card)
      else ∃ c d, IsLeast (f.linkablePairs : Set Nat) c ∧
        IsLeast (f.linkablePairs.erase c : Set Nat) d ∧ r = .ok ⟨⟨c, true⟩, ⟨d, true⟩⟩ := by
  have hnumbered := Inventory.numbered_inventory f
  rw [← f.links_inventory]
  by_cases hcard : f.inventory.links.card < 2
  · rw [if_pos hcard, (Inventory.assign_eq_error_iff hnumbered).mpr ⟨hcard, rfl⟩]
    exact ⟨Eq.symm, Eq.symm⟩
  rw [if_neg hcard]
  cases r with
  | error reason =>
    rw [Inventory.assign_eq_error_iff hnumbered]
    simp [hcard]
  | ok a =>
    rw [Inventory.assign_eq_ok_iff hnumbered]
    constructor
    · rintro ⟨hcode, hdebug, hleast, hsecond⟩
      refine ⟨_, _, hleast, hsecond, ?_⟩
      obtain ⟨⟨_, _⟩, ⟨_, _⟩⟩ := a
      simp_all
    · rintro ⟨c, d, hleast, hsecond, h⟩
      cases h
      exact ⟨rfl, rfl, hleast, hsecond⟩

/-- The choice is what the policy calls for. -/
theorem choice_eq_iff_policy : f.choice = r ↔ f.Policy r := by
  have hbit (w : Word) : (⟨w⟩ : Contents RomEntry).get RomEntry.present = w.getLsbD 0 := by
    simp [Contents.get, RomEntry.present, Field.readOnly, Field.flag]
  have hcount : f.comparatorCount < minimumComparators ↔ f.comparatorCount.toNat < 4 := Iff.rfl
  rw [choice, checkUnits, romEntry, romEntry, hbit, hbit, Policy]
  by_cases hdwt : (f.stored romDwt.address).getLsbD 0 = false
  · rw [if_pos (by rw [hdwt]; rfl), if_pos hdwt]
    exact ⟨Eq.symm, Eq.symm⟩
  by_cases hitm : (f.stored romItm.address).getLsbD 0 = false
  · rw [if_neg (by simpa using hdwt), if_pos (by rw [hitm]; rfl), if_neg hdwt, if_pos hitm]
    exact ⟨Eq.symm, Eq.symm⟩
  rw [if_neg (by simpa using hdwt), if_neg (by simpa using hitm), if_neg hdwt, if_neg hitm]
  by_cases hfew : f.comparatorCount.toNat < 4
  · rw [if_pos (hcount.mpr hfew), if_pos hfew]
    exact ⟨Eq.symm, Eq.symm⟩
  · rw [if_neg (hcount.not.mpr hfew), if_neg hfew]
    exact f.assign_inventory_eq_iff

/-- The address is that of the function register of a comparator that has no say in the choice: the
first comparator of a pair, or one of a pair that is not implemented. -/
def Unasked (a : Address) : Prop :=
  ∃ i < functions.count, a = functions.addressOf i ∧
    (i % 2 = 0 ∨ f.comparatorCount.toNat / 2 ≤ i / 2)

variable {f}

theorem Unasked.isFunction (h : f.Unasked a) : IsFunction a := by
  obtain ⟨i, hi, rfl, _⟩ := h
  exact isFunction_addressOf hi

/-- What is stored in registers that have no say does not matter. -/
theorem Policy.congr (h : ∀ a, ¬ f.Unasked a → g.stored a = f.stored a) :
    g.Policy r ↔ f.Policy r := by
  have hplain {a : Address} (ha : ¬ IsFunction a) : g.stored a = f.stored a :=
    h a fun hun => ha hun.isFunction
  have hcount : g.comparatorCount = f.comparatorCount := comparatorCount_congr (hplain (by decide))
  have hpairs : g.linkablePairs = f.linkablePairs := by
    rw [linkablePairs, hcount, linkablePairs]
    refine Finset.filter_congr fun p hp => ?_
    have hlt := Finset.mem_range.mp hp
    rw [h]
    rintro ⟨i, _, heq, hi⟩
    rw [addressOf_functions_inj] at heq
    omega
  rw [Policy, hplain (by decide), hplain (by decide), hcount, hpairs, Policy]

end RegisterFile

namespace Watch

variable {f : RegisterFile} {log : List Log.Entry}

theorem choose_settle (hf : f.WellFormed) (log : List Log.Entry) :
    ∃ s, s.bus.events = f.events ∧ choose.left ⟨f, log⟩ = s ∧
      choose.settle ⟨f, log⟩ = .ok f.choice s := by
  have hchoose := choose_apply hf log
  rw [RegisterFile.choice]
  cases hunits : f.checkUnits with
  | error reason =>
    rw [hunits] at hchoose
    exact ⟨_, rfl, Run.left_of_error hchoose, Run.settle_of_refused hchoose⟩
  | ok u =>
    show ∃ s, _ ∧ _ ∧ choose.settle ⟨f, log⟩ = .ok f.inventory.assign s
    rw [hunits] at hchoose
    cases hassign : f.inventory.assign with
    | error reason =>
      rw [hassign] at hchoose
      exact ⟨_, rfl, Run.left_of_error hchoose, Run.settle_of_refused hchoose⟩
    | ok a =>
      rw [hassign] at hchoose
      exact ⟨_, rfl, Run.left_of_ok hchoose, Run.settle_of_ok hchoose⟩

/-- A core with an odd number of comparators, so the last one belongs to no pair. -/
def oddCore : RegisterFile :=
  (RegisterFile.m33 5 [2, 1]).toOption.getD .empty

theorem reachable_oddCore : oddCore.Reachable := by
  have hcore : RegisterFile.m33 5 [2, 1] = .ok oddCore := rfl
  exact .core hcore

end Watch

end GuardedBoot
