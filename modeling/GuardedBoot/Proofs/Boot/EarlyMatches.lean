import GuardedBoot.Proofs.Boot.FinalState
import GuardedBoot.Proofs.Watch.Matches

/-!
# Matches from before the watchpoints are armed

What becomes of a match that is latched when the boot sequence starts. The survey asks the second
comparator of every pair and so takes its match; arming takes none. Afterwards a first comparator
is still reported and a second one is not.

## Main definitions

- `Boot.firedCore` — a core on which watchpoints have fired before the boot

## Main statements

- `Boot.latched_execute_script` — which matches are left once a core is secured
- `Boot.fired_of_earlyMatches` — which duty is reported for them, and when that is the duty of the
  lowest comparator that had fired
- `Boot.fired_secondComparator` — a match that is not reported
-/

namespace GuardedBoot

open Watch

variable {f core : RegisterFile} {i : Nat}

namespace RegisterFile

/-- The survey asks exactly the second comparators of the pairs. -/
theorem Equipped.latched_surveyed (hf : f.Equipped) (hi : i < f.comparatorCount.toNat) :
    f.surveyed.latched i = (f.latched i && decide (i % 2 = 0)) := by
  have hlt : i < functions.count := Nat.lt_trans hi f.comparatorCount_lt
  by_cases heven : i % 2 = 0
  · have hnot : functions.addressOf i ∉ probed (Inventory.ofCount f.comparatorCount).pairs := by
      rw [mem_probed_iff]
      rintro ⟨p, _, heq⟩
      have := addressOf_functions_inj.mp heq
      omega
    rw [RegisterFile.surveyed, latched_unlatch_of_not_mem hnot]
    simp [heven]
  · have hmem : functions.addressOf i ∈ probed (Inventory.ofCount f.comparatorCount).pairs :=
      mem_probed_iff.mpr ⟨i / 2, by omega, addressOf_functions_inj.mpr (by omega)⟩
    rw [RegisterFile.surveyed, latched_unlatch_of_mem hf hlt hmem]
    simp [heven]

section Core

variable {implemented : Byte} {linkable fired : List Nat}

theorem fromCore_of_latchMatches (hcore : m33 implemented linkable = .ok core)
    (h : fired.foldlM RegisterFile.latchMatch core = .ok f) : f.FromCore :=
  ⟨implemented, linkable, core, hcore,
    latchMatches_preserves (fun _ _ _ hg hnext => hg.latchMatch hnext) .refl h⟩

end Core

end RegisterFile

namespace Boot

variable {config : ProtectionConfig} {m : ImageLayout} {log : List Log.Entry}
  {secured : Secured} {s : System RegisterFile}

/-- Once a core is secured, what was latched in the first comparators is left. -/
theorem latched_execute_script (hf : f.Equipped) (hi : i < f.comparatorCount.toNat) :
    (Bus.execute (secured.script m f) f.surveyed).latched i =
      (f.latched i && decide (i % 2 = 0)) := by
  have hlt : i < functions.count := Nat.lt_trans hi f.comparatorCount_lt
  rw [RegisterFile.latched_execute hf.surveyed _ hlt, hf.latched_surveyed hi]

theorem comparatorCount_execute_script (ha : secured.assignment.Sound) :
    (Bus.execute (secured.script m f) f.surveyed).comparatorCount = f.comparatorCount := by
  rw [RegisterFile.comparatorCount_execute_of_confined (Secured.confined_counted ha m f),
    f.comparatorCount_surveyed]

/-- What is reported first once a core is secured: the matches that were latched before in first
comparators of pairs. -/
theorem fired_of_secure (hf : f.Equipped) (h : secure config m ⟨f, log⟩ = .ok secured s) :
    ∃ s', secured.fired s = .ok (secured.assignment.dutyAmong (.ofList
      ((List.range f.comparatorCount.toNat).filter fun i => f.latched i && decide (i % 2 = 0))))
        s' := by
  obtain ⟨hadmits, hbus⟩ := secure_eq_ok hf.wellFormed h
  have ha : secured.assignment.Sound := .of_choice hadmits.choice
  have hwell : s.bus.WellFormed := by
    rw [hbus]
    exact hf.wellFormed.surveyed.execute _
  have hcount : s.bus.comparatorCount = f.comparatorCount := by
    rw [hbus]
    exact comparatorCount_execute_script ha
  have hlatched : ∀ i ∈ List.range f.comparatorCount.toNat,
      s.bus.latched i = (f.latched i && decide (i % 2 = 0)) := by
    intro i hi
    rw [hbus]
    exact latched_execute_script hf (List.mem_range.mp hi)
  have htake := takeMatches_apply hwell s.log
  rw [hcount, List.filter_congr hlatched] at htake
  exact ⟨_, Run.bind_of_ok htake⟩

/-- On a core that some watchpoints have fired on before, the first duty reported is that of the
lowest first comparator among them. It is the duty of the lowest comparator exactly if no second
comparator of a pair comes before all others that serve a duty. -/
theorem fired_of_earlyMatches {implemented : Byte} {linkable early : List Nat}
    (hcore : RegisterFile.m33 implemented linkable = .ok core)
    (hearly : ∀ i ∈ early, i < implemented.toNat)
    (hfired : early.foldlM RegisterFile.latchMatch core = .ok f)
    (h : secure config m ⟨f, log⟩ = .ok secured s) :
    ∃ reported s', secured.fired s = .ok reported s' ∧
      reported = secured.assignment.dutyAmong (.ofList (early.filter (· % 2 = 0))) ∧
      (reported = secured.assignment.dutyAmong (.ofList early) ↔
        ∀ i, secured.assignment.Decides early i → i % 2 = 0) := by
  have he : f.Equipped := (RegisterFile.fromCore_of_latchMatches hcore hfired).equipped
  have hcount : f.comparatorCount = implemented := by
    rw [RegisterFile.comparatorCount_of_latchMatches hfired,
      RegisterFile.comparatorCount_of_m33 hcore]
  have hlt := f.comparatorCount_lt
  rw [hcount] at hlt
  have hexist : ∀ i ∈ early, i < comparators.count := fun i hi => Nat.lt_trans (hearly i hi) hlt
  have hlatched : ∀ i < 16, f.latched i = decide (i ∈ early) := by
    intro i hi
    rw [RegisterFile.latched_of_latchMatches hfired, RegisterFile.latched_of_m33 hcore hi,
      Bool.false_or]
  have hset : Matches.ofList ((List.range f.comparatorCount.toNat).filter
      fun i => f.latched i && decide (i % 2 = 0)) =
      .ofList (early.filter (· % 2 = 0)) := by
    refine Matches.ofList_congr fun i hi => ?_
    rw [List.mem_filter, List.mem_filter, List.mem_range, hcount, hlatched i hi]
    simp only [Bool.and_eq_true, decide_eq_true_eq]
    exact ⟨fun h => h.2, fun h => ⟨hearly i h.1, h⟩⟩
  obtain ⟨s', hreported⟩ := fired_of_secure he h
  rw [hset] at hreported
  exact ⟨_, s', hreported, rfl, Assignment.dutyAmong_firsts_eq_iff hexist⟩

/-- A core on which watchpoints have fired before the boot. -/
def firedCore (implemented : Byte) (linkable early : List Nat) : RegisterFile :=
  let core := (RegisterFile.m33 implemented linkable).toOption.getD .empty
  (early.foldlM RegisterFile.latchMatch core).toOption.getD core

/-- Watchpoints have fired on the first comparator of the pair that the debug registers get and, at
a lower place, on the second one of a pair that gets no duty. -/
theorem fired_firstComparator :
    ∃ core s s', RegisterFile.m33 8 [1, 3] = .ok core ∧ (∀ i ∈ [5, 6], i < (8 : Byte).toNat) ∧
      [5, 6].foldlM RegisterFile.latchMatch core = .ok (firedCore 8 [1, 3] [5, 6]) ∧
      secure wideConfig Board.layout ⟨firedCore 8 [1, 3] [5, 6], []⟩ = .ok usedSecured s ∧
      usedSecured.fired s = .ok (usedSecured.assignment.dutyAmong (.ofList [5, 6])) s' := by
  let core := (RegisterFile.m33 8 [1, 3]).toOption.getD .empty
  have hcore : RegisterFile.m33 8 [1, 3] = .ok core := rfl
  have hearly : ∀ i ∈ [5, 6], i < (8 : Byte).toNat := by decide
  have hfired : [5, 6].foldlM RegisterFile.latchMatch core = .ok (firedCore 8 [1, 3] [5, 6]) := rfl
  have hadmits : Admits (firedCore 8 [1, 3] [5, 6]) wideConfig Board.layout usedSecured :=
    ⟨rfl, rfl, rfl⟩
  have he := (RegisterFile.fromCore_of_latchMatches hcore hfired).equipped
  obtain ⟨log, h⟩ := secure_of_admits he.wellFormed hadmits []
  obtain ⟨reported, s', hreported, -, hiff⟩ := fired_of_earlyMatches hcore hearly hfired h
  have hfirst : ∀ i, usedSecured.assignment.Decides [5, 6] i → i % 2 = 0 := by
    intro i hi
    rcases List.mem_cons.mp hi.mem with rfl | hmem
    · exact absurd hi.serves (by decide)
    · rw [List.mem_singleton.mp hmem]
  rw [hiff.mpr hfirst] at hreported
  exact ⟨core, _, s', hcore, hearly, hfired, h, hreported⟩

/-- A watchpoint has fired on the second comparator of the pair that the code gets, and no duty is
reported for it. -/
theorem fired_secondComparator :
    ∃ core secured s s', RegisterFile.m33 4 [0, 1] = .ok core ∧
      [1].foldlM RegisterFile.latchMatch core = .ok (firedCore 4 [0, 1] [1]) ∧
      secure Board.config Board.layout ⟨firedCore 4 [0, 1] [1], []⟩ = .ok secured s ∧
      secured.fired s = .ok none s' ∧
      secured.assignment.dutyAmong (.ofList [1]) = some .codeIntegrity := by
  let core := (RegisterFile.m33 4 [0, 1]).toOption.getD .empty
  let secured : Secured :=
    ⟨Mpu.Table.standard Board.layout Board.config.aperture, ⟨⟨0, true⟩, ⟨1, true⟩⟩⟩
  have hcore : RegisterFile.m33 4 [0, 1] = .ok core := rfl
  have hfired : [1].foldlM RegisterFile.latchMatch core = .ok (firedCore 4 [0, 1] [1]) := rfl
  have hadmits : Admits (firedCore 4 [0, 1] [1]) Board.config Board.layout secured :=
    ⟨rfl, rfl, rfl⟩
  have he := (RegisterFile.fromCore_of_latchMatches hcore hfired).equipped
  obtain ⟨log, h⟩ := secure_of_admits he.wellFormed hadmits []
  obtain ⟨s', hreported⟩ := fired_of_secure he h
  have hnone : ((List.range (firedCore 4 [0, 1] [1]).comparatorCount.toNat).filter
      fun i => (firedCore 4 [0, 1] [1]).latched i && decide (i % 2 = 0)) = [] := by decide
  rw [hnone] at hreported
  exact ⟨core, secured, _, s', hcore, hfired, h, hreported, rfl⟩

end Boot

end GuardedBoot
