import GuardedBoot.Proofs.Watch.Survey

/-!
# Choosing the pairs

The choice of the pairs as a decision about a register file: which reason it refuses for, or which
pairs it gives. A choice that is refused before the survey has not changed anything.

## Main definitions

- `RegisterFile.checkUnits` — what is checked before the survey
- `RegisterFile.choice` — the pairs, or the reason for which there are none

## Main statements

- `Watch.choose_apply` — the choice as a run, and the file that it leaves
- `Watch.choose_eq_ok`, `Watch.choose_eq_error` — the two endings
-/

namespace GuardedBoot

open Watch

namespace RegisterFile

variable (f : RegisterFile)

/-- What the table of units says about a unit. -/
def romEntry : DebugUnit → Contents RomEntry
  | .dwt => ⟨f.stored romDwt.address⟩
  | .itm => ⟨f.stored romItm.address⟩

/-- The units that watchpoints need are there, with enough comparators. -/
def checkUnits : Except Refusal Unit :=
  if !(f.romEntry .dwt).get RomEntry.present then .error (.missingUnit .dwt)
  else if !(f.romEntry .itm).get RomEntry.present then .error (.missingUnit .itm)
  else if f.comparatorCount < minimumComparators then .error (.tooFewComparators f.comparatorCount)
  else .ok ()

/-- The pairs for the two duties, or the reason for which there are none. -/
def choice : Except Refusal Assignment :=
  f.checkUnits.bind fun _ => f.inventory.assign

theorem checkUnits_ne_tooFewPairs (found : Nat) : f.checkUnits ≠ .error (.tooFewPairs found) := by
  unfold checkUnits
  repeat' split
  all_goals intro h
  all_goals cases h

variable {f} {a : Assignment} {reason : Refusal}

theorem choice_eq_ok (h : f.choice = .ok a) : f.checkUnits = .ok () ∧ f.inventory.assign = .ok a := by
  unfold choice at h
  cases hunits : f.checkUnits with
  | ok u =>
    rw [hunits] at h
    exact ⟨rfl, h⟩
  | error r =>
    rw [hunits] at h
    cases h

theorem index_of_choice (h : f.choice = .ok a) :
    a.code.index < a.debugRegisters.index ∧ a.debugRegisters.index < Inventory.capacity := by
  obtain ⟨hlt, hlen, _⟩ := Inventory.assign_eq_ok (Inventory.numbered_inventory f) (choice_eq_ok h).2
  have hlength := f.length_inventory
  exact ⟨hlt, by omega⟩

end RegisterFile

namespace Watch

variable {f : RegisterFile} {a : Assignment} {log : List Log.Entry} {s : System RegisterFile}

/-- What is reported between the survey and the assignment. -/
def surveyEntry (f : RegisterFile) : Log.Entry :=
  ⟨.debug, s!"DWT: {f.comparatorCount.toNat} comparators, {f.inventory.linkables} linkable pairs"⟩

theorem requireUnits_apply (hf : f.WellFormed) (log : List Log.Entry) :
    requireUnits ⟨f, log⟩ =
      if !(f.romEntry .dwt).get RomEntry.present then .error (.refused (.missingUnit .dwt)) ⟨f, log⟩
      else if !(f.romEntry .itm).get RomEntry.present then
        .error (.refused (.missingUnit .itm)) ⟨f, log⟩
      else .ok () ⟨f, log⟩ := by
  rw [requireUnits, Run.bind_of_ok (hf.run_read romDwt (by decide) log)]
  by_cases hdwt : (f.romEntry .dwt).get RomEntry.present = true
  · rw [if_neg (by simp [hdwt]), Run.bind_of_ok (a := ()) (t := ⟨f, log⟩),
      Run.bind_of_ok (hf.run_read romItm (by decide) log)]
    · exact Run.refuseIf_apply _ _ _
    · exact (Run.refuseIf_apply _ _ _).trans (if_neg (by simpa [RegisterFile.romEntry] using hdwt))
  · rw [if_pos (by simp [hdwt])]
    refine Run.bind_of_error ((Run.refuseIf_apply _ _ _).trans (if_pos ?_))
    simpa [RegisterFile.romEntry] using hdwt

/-- The choice as a run. The survey comes last, so only a want of pairs is found after it. -/
theorem choose_apply (hf : f.WellFormed) (log : List Log.Entry) :
    choose ⟨f, log⟩ =
      match f.checkUnits with
      | .error reason => .error (.refused reason) ⟨f, log⟩
      | .ok () =>
        match f.inventory.assign with
        | .error reason => .error (.refused reason) ⟨f.surveyed, log ++ [surveyEntry f]⟩
        | .ok a => .ok a ⟨f.surveyed, log ++ [surveyEntry f]⟩ := by
  have hunits := requireUnits_apply hf log
  unfold choose RegisterFile.checkUnits
  by_cases hdwt : (!(f.romEntry .dwt).get RomEntry.present) = true
  · rw [if_pos hdwt] at hunits ⊢
    exact Run.bind_of_error hunits
  by_cases hitm : (!(f.romEntry .itm).get RomEntry.present) = true
  · rw [if_neg hdwt, if_pos hitm] at hunits ⊢
    exact Run.bind_of_error hunits
  rw [if_neg hdwt, if_neg hitm] at hunits ⊢
  rw [Run.bind_of_ok hunits, Run.bind_of_ok (hf.run_read Watch.ctrl (by decide) log)]
  by_cases hcount : f.comparatorCount < minimumComparators
  · rw [if_pos hcount]
    refine Run.bind_of_error ((Run.refuseIf_apply _ _ _).trans (if_pos ?_))
    simpa [RegisterFile.comparatorCount] using hcount
  · rw [if_neg hcount, Run.bind_of_ok (a := ()) (t := ⟨f, log⟩),
      Run.bind_of_ok (Inventory.survey_apply hf log), Run.bind_of_ok (Run.say_apply _ _ _)]
    · cases f.inventory.assign with
      | ok a => rfl
      | error reason => rfl
    · refine (Run.refuseIf_apply _ _ _).trans (if_neg ?_)
      simpa [RegisterFile.comparatorCount] using hcount

theorem choose_eq_ok (hf : f.WellFormed) (h : choose ⟨f, log⟩ = .ok a s) :
    f.choice = .ok a ∧ s.bus = f.surveyed := by
  rw [choose_apply hf] at h
  unfold RegisterFile.choice
  split at h
  · cases h
  · next hunits =>
    split at h
    · cases h
    · next hassign =>
      cases h
      rw [hunits]
      exact ⟨hassign, rfl⟩

theorem choose_of_choice (hf : f.WellFormed) (h : f.choice = .ok a) (log : List Log.Entry) :
    choose ⟨f, log⟩ = .ok a ⟨f.surveyed, log ++ [surveyEntry f]⟩ := by
  obtain ⟨hunits, hassign⟩ := RegisterFile.choice_eq_ok h
  rw [choose_apply hf, hunits, hassign]

/-- A choice that was refused leaves the file as it was, or, for want of pairs, the surveyed
file. -/
theorem choose_eq_error (hf : f.WellFormed) {e : Stop} (h : choose ⟨f, log⟩ = .error e s) :
    ∃ reason, e = .refused reason ∧
      ((∀ found, reason ≠ .tooFewPairs found) ∧ s.bus = f ∨
        reason = .tooFewPairs f.inventory.linkables ∧ s.bus = f.surveyed) := by
  rw [choose_apply hf] at h
  split at h
  · next reason hunits =>
    cases h
    refine ⟨reason, rfl, .inl ⟨?_, rfl⟩⟩
    rintro found rfl
    exact f.checkUnits_ne_tooFewPairs found hunits
  · split at h
    · next reason hassign =>
      cases h
      exact ⟨reason, rfl, .inr ⟨Inventory.assign_eq_error hassign, rfl⟩⟩
    · cases h

end Watch

end GuardedBoot
