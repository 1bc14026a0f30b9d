import Mathlib.Data.Nat.Find
import GuardedBoot.Proofs.Device.Latches
import GuardedBoot.Proofs.Watch.Armed

/-!
# Matches and the duty they belong to

The set of matches that a file gives when it is asked, and the duty that a set of matches is
reported as: that of its lowest comparator with a duty.

## Main definitions

- `Matches.ofList` — the set of some comparators

## Main statements

- `RegisterFile.comparatorCount_of_m33` — a core reports the comparators that it was made with
- `Watch.takeMatches_apply` — the implemented comparators with a latched match are given, and have
  none afterwards
- `Watch.Assignment.dutyAmong_ofList_eq_some_iff` — the lowest comparator with a duty decides
- `Watch.Assignment.dutyAmong_firsts_eq_iff` — what is lost without the second comparators
-/

namespace GuardedBoot

namespace RegisterFile

section Count

open Watch

variable {f g : RegisterFile} {implemented : Byte} {linkable fired : List Nat}

theorem stored_foldl_presetComparator {a : Address} (ha : ¬ ∃ j, functions.addressOf j = a)
    (capability : Nat → Byte) (indices : List Nat) (f : RegisterFile) :
    (indices.foldl (fun f j => f.presetComparator j (capability j)) f).stored a = f.stored a := by
  induction indices generalizing f with
  | nil => rfl
  | cons j indices ih =>
    have hne : a ≠ functions.addressOf j := fun h => ha ⟨j, h.symm⟩
    rw [List.foldl_cons, ih]
    exact stored_store_of_ne _ _ hne

theorem ctrl_ne_function (j : Nat) : Watch.ctrl.address ≠ functions.addressOf j := by
  simp only [Watch.ctrl, RegisterArray.addressOf, functions, Address]
  omega

/-- A core reports the comparators that it was made with. -/
theorem comparatorCount_of_m33 (h : m33 implemented linkable = .ok f) :
    f.comparatorCount = implemented := by
  simp only [m33] at h
  split at h
  · next hle =>
    have hlow : implemented.toNat ≤ 15 := hle
    have hfits : (implemented.setWidth 32).toNat < 2 ^ (31 - 28 + 1) := by
      rw [BitVec.toNat_setWidth]
      omega
    have hspan := Word.toNat_shiftLeft_and_span (show 28 ≤ 31 by decide) (by decide) hfits
    have hctrl : ¬ ∃ j, functions.addressOf j = Watch.ctrl.address := by
      rintro ⟨j, hj⟩
      exact ctrl_ne_function j hj.symm
    rw [← Except.ok.inj h, comparatorCount, stored_foldl_presetComparator hctrl]
    change ((implemented.setWidth 32 <<< 28 &&& Word.span 28 31) >>> 28).setWidth 8 = implemented
    rw [hspan]
    apply BitVec.eq_of_toNat_eq
    simp only [BitVec.toNat_setWidth]
    omega
  · cases h

theorem comparatorCount_latchMatch {j : Nat} (h : f.latchMatch j = .ok g) :
    g.comparatorCount = f.comparatorCount := by
  rw [(latchMatch_eq_ok h).2]
  exact comparatorCount_congr (stored_store_of_ne _ _ (ctrl_ne_function j))

theorem comparatorCount_of_latchMatches (h : fired.foldlM RegisterFile.latchMatch f = .ok g) :
    g.comparatorCount = f.comparatorCount :=
  latchMatches_preserves (P := fun h => h.comparatorCount = f.comparatorCount)
    (fun _ _ _ hg hnext => (comparatorCount_latchMatch hnext).trans hg) rfl h

end Count

end RegisterFile

namespace Watch

/-- The set of some comparators. -/
def Matches.ofList (is : List Nat) : Matches :=
  is.foldl (fun matched i => matched ||| BitVec.twoPow 16 i) 0

theorem Matches.getLsbD_foldl (is : List Nat) (matched : Matches) (i : Nat) :
    (is.foldl (fun matched i => matched ||| BitVec.twoPow 16 i) matched).getLsbD i =
      (matched.getLsbD i || decide (i < 16 ∧ i ∈ is)) := by
  induction is generalizing matched with
  | nil => simp
  | cons j is ih =>
    rw [List.foldl_cons, ih, BitVec.getLsbD_or, BitVec.getLsbD_twoPow, Bool.or_assoc]
    by_cases hij : i = j
    · subst hij
      by_cases hlt : i < 16 <;> simp [hlt]
    · simp [hij, Ne.symm hij]

theorem Matches.getLsbD_ofList (is : List Nat) (i : Nat) :
    (ofList is).getLsbD i = decide (i < 16 ∧ i ∈ is) := by
  rw [ofList, getLsbD_foldl, BitVec.ofNat_eq_ofNat, BitVec.getLsbD_zero, Bool.false_or]

/-- Sets are equal if they have the same comparators. -/
theorem Matches.ofList_congr {is js : List Nat} (h : ∀ i < 16, i ∈ is ↔ i ∈ js) :
    ofList is = ofList js := by
  apply BitVec.eq_of_getLsbD_eq
  intro i hi
  rw [getLsbD_ofList, getLsbD_ofList]
  simp [hi, h i hi]

variable {f : RegisterFile} {log : List Log.Entry}

/-- The body of the loop in which the function registers are asked. -/
theorem foldlM_take (is : List Nat) (his : ∀ i ∈ is, i < functions.count) (hnodup : is.Nodup)
    (matched : Matches) (f : RegisterFile) (log : List Log.Entry) :
    (is.foldlM (fun matched i => do
      let g ← Run.read (← Run.orHalt (functions.get i))
      return if g.get Function.matched then matched ||| BitVec.twoPow 16 i else matched) matched :
      Run RegisterFile Matches) ⟨f, log⟩ =
    .ok ((is.filter f.latched).foldl (fun matched i => matched ||| BitVec.twoPow 16 i) matched)
      ⟨f.unlatch (is.map functions.addressOf), log⟩ := by
  induction is generalizing matched f with
  | nil => simp [Run.pure_apply]
  | cons i is ih =>
    obtain ⟨hnew, hrest⟩ := List.nodup_cons.mp hnodup
    have hi : i < functions.count := his i List.mem_cons_self
    -- taking the match of one comparator leaves those of the others
    have hlatched : ∀ j ∈ is, (f.unlatch [functions.addressOf i]).latched j = f.latched j := by
      intro j hj
      refine RegisterFile.latched_unlatch_of_not_mem ?_
      rw [List.mem_singleton, RegisterFile.addressOf_functions_inj]
      rintro rfl
      exact hnew hj
    have hstep : (do
        let g ← Run.read (← Run.orHalt (functions.get i))
        return if g.get Function.matched then matched ||| BitVec.twoPow 16 i else matched :
        Run RegisterFile Matches) ⟨f, log⟩ =
        .ok (if f.latched i then matched ||| BitVec.twoPow 16 i else matched)
          ⟨f.unlatch [functions.addressOf i], log⟩ := by
      rw [functions.get_eq_ok hi, Run.bind_of_ok (Run.orHalt_ok _ _),
        Run.bind_of_ok (f.run_read_function ⟨functions.addressOf i⟩ (isFunction_addressOf hi) log)]
      rfl
    rw [List.foldlM_cons, Run.bind_of_ok hstep,
      ih (fun j hj => his j (List.mem_cons_of_mem _ hj)) hrest, RegisterFile.unlatch_unlatch,
      List.filter_congr hlatched, List.map_cons, List.singleton_append, List.filter_cons]
    by_cases hmatch : f.latched i <;> simp [hmatch]

/-- The implemented comparators with a latched match are given, and have none afterwards. -/
theorem takeMatches_apply (hf : f.WellFormed) (log : List Log.Entry) :
    takeMatches ⟨f, log⟩ =
      .ok (.ofList ((List.range f.comparatorCount.toNat).filter f.latched))
        ⟨f.unlatch ((List.range f.comparatorCount.toNat).map functions.addressOf), log⟩ := by
  have hlt := f.comparatorCount_lt
  have hmin : min f.comparatorCount.toNat comparators.count = f.comparatorCount.toNat :=
    Nat.min_eq_left (Nat.le_of_lt hlt)
  rw [takeMatches, Run.bind_of_ok (hf.run_read ctrl (by decide) log)]
  change (List.foldlM _ _ (List.range (min f.comparatorCount.toNat comparators.count)) : 
    Run RegisterFile Matches) ⟨f, log⟩ = _
  rw [hmin]
  exact foldlM_take _ (fun i hi => Nat.lt_trans (List.mem_range.mp hi) hlt) List.nodup_range 0 f log

namespace Assignment

variable {a : Assignment} {duty : Duty} {is : List Nat}

theorem index_of_dutyAt {i : Nat} (h : a.dutyAt i = some duty) : (a.pair duty).index = i / 2 := by
  simpa using List.find?_some h

/-- The lowest of the comparators that serve a duty. -/
structure Decides (a : Assignment) (is : List Nat) (i : Nat) : Prop where
  mem : i ∈ is
  serves : (a.dutyAt i).isSome
  lowest : ∀ j ∈ is, (a.dutyAt j).isSome → i ≤ j

theorem exists_decides {i : Nat} (hi : i ∈ is) (hserves : (a.dutyAt i).isSome) :
    ∃ j, a.Decides is j := by
  have hexists : ∃ j, j ∈ is ∧ (a.dutyAt j).isSome := ⟨i, hi, hserves⟩
  obtain ⟨hmem, hserves⟩ := Nat.find_spec hexists
  exact ⟨Nat.find hexists, hmem, hserves, fun j hj hj' => Nat.find_min' hexists ⟨hj, hj'⟩⟩

theorem findSome?_dutyAt {i : Nat} (hsorted : is.Pairwise (· < ·)) (h : a.Decides is i) :
    is.findSome? a.dutyAt = a.dutyAt i := by
  induction is with
  | nil => cases h.mem
  | cons j is ih =>
    obtain ⟨hlt, hrest⟩ := List.pairwise_cons.mp hsorted
    rw [List.findSome?_cons]
    rcases List.mem_cons.mp h.mem with rfl | hmem
    · obtain ⟨duty, hduty⟩ := Option.isSome_iff_exists.mp h.serves
      rw [hduty]
    · have hnone : a.dutyAt j = none := by
        cases hduty : a.dutyAt j with
        | none => rfl
        | some duty =>
          have hle := h.lowest j List.mem_cons_self (Option.isSome_of_mem hduty)
          exact absurd (hlt i hmem) (Nat.not_lt.mpr hle)
      rw [hnone]
      exact ih hrest ⟨hmem, h.serves, fun k hk => h.lowest k (List.mem_cons_of_mem _ hk)⟩

/-- Of comparators that exist, the set holds exactly those it was made from. -/
theorem mem_matched_iff (his : ∀ i ∈ is, i < comparators.count) {i : Nat} :
    i ∈ ((List.range comparators.count).filter fun i => (Matches.ofList is).getLsbD i) ↔
      i ∈ is := by
  have hlt : i ∈ is → i < 16 := his i
  rw [List.mem_filter, List.mem_range, Matches.getLsbD_ofList, decide_eq_true_eq]
  exact ⟨fun h => h.2.2, fun h => ⟨hlt h, hlt h, h⟩⟩

/-- A set of matches is reported as the duty of its lowest comparator with a duty. -/
theorem dutyAmong_of_decides (his : ∀ i ∈ is, i < comparators.count) {i : Nat}
    (h : a.Decides is i) : a.dutyAmong (.ofList is) = a.dutyAt i := by
  refine findSome?_dutyAt (List.pairwise_lt_range.filter _) ⟨?_, h.serves, ?_⟩
  · exact (mem_matched_iff his).mpr h.mem
  · intro j hj
    exact h.lowest j ((mem_matched_iff his).mp hj)

theorem dutyAmong_eq_none_iff (his : ∀ i ∈ is, i < comparators.count) :
    a.dutyAmong (.ofList is) = none ↔ ∀ i ∈ is, a.dutyAt i = none := by
  simp only [dutyAmong, List.findSome?_eq_none_iff, mem_matched_iff his]

theorem dutyAmong_ofList_eq_some_iff (his : ∀ i ∈ is, i < comparators.count) :
    a.dutyAmong (.ofList is) = some duty ↔ ∃ i, a.Decides is i ∧ a.dutyAt i = some duty := by
  constructor
  · intro h
    have hserves : ∃ i ∈ is, (a.dutyAt i).isSome := by
      by_contra hnone
      have : a.dutyAmong (.ofList is) = none := by
        rw [dutyAmong_eq_none_iff his]
        simpa using hnone
      rw [this] at h
      cases h
    obtain ⟨i, hi, hserves⟩ := hserves
    obtain ⟨j, hj⟩ := exists_decides hi hserves
    exact ⟨j, hj, (dutyAmong_of_decides his hj).symm.trans h⟩
  · rintro ⟨i, hi, hduty⟩
    rw [dutyAmong_of_decides his hi, hduty]

/-- Without the second comparators of the pairs the same duty is reported exactly if none of them
was the one that decides. -/
theorem dutyAmong_firsts_eq_iff (his : ∀ i ∈ is, i < comparators.count) :
    a.dutyAmong (.ofList (is.filter (· % 2 = 0))) = a.dutyAmong (.ofList is) ↔
      ∀ i, a.Decides is i → i % 2 = 0 := by
  have hfirsts : ∀ i ∈ is.filter (· % 2 = 0), i < comparators.count :=
    fun i hi => his i (List.mem_filter.mp hi).1
  constructor
  · intro heq i hi
    obtain ⟨duty, hduty⟩ := Option.isSome_iff_exists.mp hi.serves
    rw [dutyAmong_of_decides his hi, hduty] at heq
    by_cases hserves : ∃ j ∈ is.filter (· % 2 = 0), (a.dutyAt j).isSome
    · obtain ⟨j, hj, hserves⟩ := hserves
      obtain ⟨k, hk⟩ := exists_decides hj hserves
      rw [dutyAmong_of_decides hfirsts hk] at heq
      obtain ⟨hmem, heven⟩ := List.mem_filter.mp hk.mem
      -- one pair serves the duty, and of its two comparators the first is not above the second
      have hpair : i / 2 = k / 2 := (index_of_dutyAt hduty).symm.trans (index_of_dutyAt heq)
      have hle : i ≤ k := hi.lowest k hmem hk.serves
      have hfirst : k % 2 = 0 := by simpa using heven
      omega
    · have hnone : a.dutyAmong (.ofList (is.filter (· % 2 = 0))) = none := by
        rw [dutyAmong_eq_none_iff hfirsts]
        simpa using hserves
      rw [hnone] at heq
      cases heq
  · intro heven
    by_cases hserves : ∃ i ∈ is, (a.dutyAt i).isSome
    · obtain ⟨i, hi, hserves⟩ := hserves
      obtain ⟨j, hj⟩ := exists_decides hi hserves
      have hfirst : a.Decides (is.filter (· % 2 = 0)) j := by
        refine ⟨List.mem_filter.mpr ⟨hj.mem, by simpa using heven j hj⟩, hj.serves, ?_⟩
        exact fun k hk => hj.lowest k (List.mem_filter.mp hk).1
      rw [dutyAmong_of_decides hfirsts hfirst, dutyAmong_of_decides his hj]
    · have hnone : ∀ i ∈ is, a.dutyAt i = none := by simpa using hserves
      rw [(dutyAmong_eq_none_iff his).mpr hnone, dutyAmong_eq_none_iff hfirsts]
      exact fun i hi => hnone i (List.mem_filter.mp hi).1

end Assignment

end Watch

end GuardedBoot
