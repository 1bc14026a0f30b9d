import GuardedBoot.Proofs.Bus.Ensures
import GuardedBoot.Proofs.Watch.Arming

/-!
# Watchpoints on any bus

Whatever a bus answers to reads, the watchpoints are set up without a halt. The indices of the pairs
come from counting and not from the bus, so they stay in their bounds even if the bus contradicts
itself from one read to the next.

## Main statements

- `Watch.Inventory.ensures_survey` — a survey gives pairs numbered by position, within the bounds
- `Watch.ensures_choose` — a choice gives two different pairs that exist, or is refused
- `Watch.Assignment.Sound.ensures_arm`, `Watch.ensures_takeMatches` — what follows does not fail
-/

namespace GuardedBoot.Watch

variable {σ : Type} [Bus σ] {refusal : Refusal → Prop}

theorem Pair.ensures_probe {p : Pair} (hp : p.index < Inventory.capacity) :
    (p.probe : Run σ Pair).Ensures (fun q => q.index = p.index) refusal := by
  refine (Run.ensures_orHalt (registers_eq_ok hp)).bind fun r _ => ?_
  refine (Run.ensures_read r.limitFunction).bind fun f _ => ?_
  exact .pure rfl

namespace Inventory

variable {v : Inventory}

theorem Numbered.of_forall₂ {ps : List Pair} {implemented : Byte}
    (h : List.Forall₂ (fun p q => q.index = p.index) (ofCount implemented).pairs ps) :
    Numbered ⟨ps⟩ ∧ ps.length ≤ capacity := by
  have hlength : ps.length = min (implemented.toNat / 2) capacity := by
    rw [← h.length_eq, length_ofCount]
  refine ⟨?_, by omega⟩
  intro i hi
  have hpair := List.forall₂_iff_get.mp h |>.2 i (by rw [h.length_eq]; exact hi) hi
  simpa [ofCount] using hpair

/-- The pairs of a survey are numbered by position, and there are no more than can exist. -/
theorem ensures_survey :
    (survey : Run σ Inventory).Ensures (fun v => v.Numbered ∧ v.pairs.length ≤ capacity)
      refusal := by
  refine (Run.ensures_read ctrl).bind fun c _ => ?_
  refine (Run.Ensures.mapM fun p hp => Pair.ensures_probe (index_lt_capacity hp)).bind ?_
  intro ps hps
  exact .pure (Numbered.of_forall₂ hps)

end Inventory

theorem ensures_requireUnits : (requireUnits : Run σ Unit).Ensures (fun _ => True) fun _ => True := by
  refine (Run.ensures_read romDwt).bind fun dwt _ => ?_
  refine (Run.ensures_refuseIf trivial).bind fun _ _ => ?_
  refine (Run.ensures_read romItm).bind fun itm _ => ?_
  exact Run.ensures_refuseIf trivial

/-- A choice gives two different pairs that exist, or is refused. -/
theorem ensures_choose : (choose : Run σ Assignment).Ensures Assignment.Sound fun _ => True := by
  refine ensures_requireUnits.bind fun _ _ => ?_
  refine (Run.ensures_read ctrl).bind fun c _ => ?_
  refine (Run.ensures_refuseIf trivial).bind fun _ _ => ?_
  refine Inventory.ensures_survey.bind fun v hv => ?_
  refine (Run.ensures_say _ _).bind fun _ _ => ?_
  refine Run.ensures_orRefuse (fun a ha => ?_) fun _ _ => trivial
  obtain ⟨hlt, hlen, _⟩ := Inventory.assign_eq_ok hv.1 ha
  exact ⟨hlt, Nat.lt_of_lt_of_le hlen hv.2⟩

namespace Assignment

variable {a : Assignment}

theorem Sound.ensures_report {σ : Type} (ha : a.Sound) :
    (a.report : Run σ Unit).Ensures (fun _ => True) refusal := by
  refine Run.Ensures.forM fun duty _ => ?_
  refine (Run.ensures_orHalt (Pair.numbers_eq_ok (ha.index_lt duty))).bind fun _ _ => ?_
  exact Run.ensures_say _ _

/-- Arming two different pairs that exist succeeds, for every extent. -/
theorem Sound.ensures_arm (ha : a.Sound) (code : Extent) :
    (a.arm code : Run σ Unit).Ensures (fun _ => True) refusal := by
  have hcode := Pair.script_eq_ok (ha.index_lt .codeIntegrity) code Duty.codeIntegrity.access
  have hdebug := Pair.script_eq_ok (ha.index_lt .debugRegisters) debugExtent
    Duty.debugRegisters.access
  refine (Run.ensures_requireNe (Nat.ne_of_lt ha.ascending) _).bind fun _ _ => ?_
  refine (Run.ensures_read demcr).bind fun old _ => ?_
  refine (Run.ensures_issue _).bind fun _ _ => ?_
  refine (Run.ensures_orHalt hcode).bind fun _ _ => ?_
  refine (Run.ensures_issue _).bind fun _ _ => ?_
  refine (Run.ensures_orHalt hdebug).bind fun _ _ => ?_
  refine (Run.ensures_issue _).bind fun _ _ => ?_
  refine (Run.ensures_issue _).bind fun _ _ => ?_
  refine (Run.ensures_say _ _).bind fun _ _ => ?_
  exact ha.ensures_report

end Assignment

theorem ensures_setUp (code : Extent) :
    (setUp code : Run σ Assignment).Ensures Assignment.Sound fun _ => True := by
  refine ensures_choose.bind fun a ha => ?_
  refine (ha.ensures_arm code).bind fun _ _ => ?_
  exact .pure ha

theorem ensures_takeMatches : (takeMatches : Run σ Matches).Ensures (fun _ => True) refusal := by
  refine (Run.ensures_read ctrl).bind fun c _ => ?_
  refine Run.Ensures.foldlM (fun _ => True) (fun matched _ i hi => ?_) trivial
  have hlt : i < functions.count :=
    Nat.lt_of_lt_of_le (List.mem_range.mp hi) (Nat.min_le_right _ _)
  refine (Run.ensures_orHalt (functions.get_eq_ok hlt)).bind fun r _ => ?_
  refine (Run.ensures_read r).bind fun f _ => ?_
  exact .pure trivial

theorem Assignment.ensures_fired (a : Assignment) :
    (a.fired : Run σ (Option Duty)).Ensures (fun _ => True) refusal := by
  refine ensures_takeMatches.bind fun matched _ => ?_
  exact .pure trivial

end GuardedBoot.Watch
