import Mathlib.Data.Finset.Max
import GuardedBoot.Proofs.Watch.Survey

/-!
# The scan for linkable pairs

In an inventory whose pairs are numbered by their positions, the scan from a position finds the
linkable pair with the least index from there on. The assignment is made of the two least ones.

## Main definitions

- `Watch.Inventory.links` — the indices of the linkable pairs

## Main statements

- `Watch.Inventory.firstLinkable_eq_some_iff`, `Watch.Inventory.firstLinkable_eq_none_iff` — what a
  scan finds
- `Watch.Inventory.assign_eq_ok_iff`, `Watch.Inventory.assign_eq_error_iff` — which pairs are assigned
-/

namespace GuardedBoot.Watch.Inventory

variable {v : Inventory} {p : Pair} {position i : Nat}

/-- The indices of the pairs that can watch a range. -/
def links (v : Inventory) : Finset Nat :=
  ((v.pairs.filter (·.linkable)).map Pair.index).toFinset

theorem mem_links : i ∈ v.links ↔ ∃ p ∈ v.pairs, p.linkable = true ∧ p.index = i := by
  simp only [links, List.mem_toFinset, List.mem_map, List.mem_filter, and_assoc]

theorem Numbered.map_index (hv : v.Numbered) :
    v.pairs.map Pair.index = List.range v.pairs.length := by
  apply List.ext_getElem
  · rw [List.length_map, List.length_range]
  · intro j hj _
    rw [List.getElem_map, List.getElem_range]
    exact hv j (by simpa using hj)

/-- Linkable pairs are counted by their indices. -/
theorem Numbered.card_links (hv : v.Numbered) : v.links.card = v.linkables := by
  have hsublist : ((v.pairs.filter (·.linkable)).map Pair.index).Sublist
      (v.pairs.map Pair.index) := List.filter_sublist.map _
  have hnodup : ((v.pairs.filter (·.linkable)).map Pair.index).Nodup := by
    refine hsublist.nodup ?_
    rw [hv.map_index]
    exact List.nodup_range
  rw [links, List.toFinset_card_of_nodup hnodup, List.length_map, linkables,
    List.countP_eq_length_filter]

/-- The scan finds the linkable pair with the least index from the position on. -/
theorem firstLinkable_eq_some_iff (hv : v.Numbered) :
    v.firstLinkable position = some p ↔
      p.linkable = true ∧ IsLeast {i | i ∈ v.links ∧ position ≤ i} p.index := by
  rw [firstLinkable, List.find?_eq_some_iff_getElem]
  constructor
  · rintro ⟨hlinkable, j, hj, rfl, hbefore⟩
    rw [List.length_drop] at hj
    simp only [List.getElem_drop] at hlinkable hbefore ⊢
    have hindex : (v.pairs[position + j]).index = position + j := hv _ (by omega)
    refine ⟨hlinkable, ⟨mem_links.mpr ⟨_, List.getElem_mem _, hlinkable, rfl⟩, by omega⟩, ?_⟩
    rintro i ⟨hi, hle⟩
    obtain ⟨q, hq, hqlinkable, rfl⟩ := mem_links.mp hi
    obtain ⟨k, hk, rfl⟩ := List.getElem_of_mem hq
    rw [hv k hk] at hle ⊢
    by_contra hlt
    -- a linkable pair before the one that was found would have been found
    have hskipped := hbefore (k - position) (by omega)
    have hplace : position + (k - position) = k := by omega
    simp only [hplace, hqlinkable] at hskipped
    cases hskipped
  · rintro ⟨hlinkable, ⟨hmem, hle⟩, hleast⟩
    obtain ⟨q, hq, hqlinkable, hindex⟩ := mem_links.mp hmem
    obtain ⟨k, hk, rfl⟩ := List.getElem_of_mem hq
    have hkp : k = p.index := (hv k hk).symm.trans hindex
    have hpair : v.pairs[k] = p := by
      cases hpk : v.pairs[k] with
      | mk index linkable =>
        rw [hpk] at hindex hqlinkable
        cases p
        simp_all
    have hplace : position + (k - position) = k := by omega
    refine ⟨hlinkable, k - position, ?_, ?_, ?_⟩
    · rw [List.length_drop]
      omega
    · simp only [List.getElem_drop, hplace, hpair]
    · intro j hj
      rw [List.getElem_drop]
      have hj' : position + j < v.pairs.length := by omega
      by_contra hfound
      have hlinks : (v.pairs[position + j]).index ∈ v.links :=
        mem_links.mpr ⟨_, List.getElem_mem _, by simpa using hfound, rfl⟩
      rw [hv _ hj'] at hlinks
      have := hleast ⟨hlinks, Nat.le_add_right _ _⟩
      omega

theorem firstLinkable_eq_none_iff (hv : v.Numbered) :
    v.firstLinkable position = none ↔ ∀ i ∈ v.links, i < position := by
  constructor
  · intro hnone i hi
    obtain ⟨p, hp, hlinkable, rfl⟩ := mem_links.mp hi
    obtain ⟨k, hk, rfl⟩ := List.getElem_of_mem hp
    rw [hv k hk]
    by_contra hle
    have hplace : position + (k - position) = k := by omega
    have hmem : v.pairs[k] ∈ v.pairs.drop position := by
      refine List.mem_iff_getElem.mpr ⟨k - position, ?_, ?_⟩
      · rw [List.length_drop]
        omega
      · simp only [List.getElem_drop, hplace]
    exact absurd hlinkable (List.find?_eq_none.mp hnone _ hmem)
  · intro h
    cases hfirst : v.firstLinkable position with
    | none => rfl
    | some p =>
      obtain ⟨_, ⟨hmem, hle⟩, _⟩ := (firstLinkable_eq_some_iff hv).mp hfirst
      exact absurd (h _ hmem) (Nat.not_lt.mpr hle)

variable {a : Assignment} {reason : Refusal}

theorem assign_eq_ok_iff_scans : v.assign = .ok a ↔
    v.firstLinkable 0 = some a.code ∧
      v.firstLinkable (a.code.index + 1) = some a.debugRegisters := by
  constructor
  · intro h
    unfold assign at h
    split at h
    · cases h
    · next code hcode =>
      split at h
      · cases h
      · next debugRegisters hdebug =>
        cases h
        exact ⟨hcode, hdebug⟩
  · rintro ⟨hcode, hdebug⟩
    rw [assign, hcode]
    simp only [hdebug]

/-- From past the least link on, the links are all but that one. -/
theorem isLeast_links_erase_iff {c d : Nat} (hc : IsLeast (v.links : Set Nat) c) :
    IsLeast (v.links.erase c : Set Nat) d ↔ IsLeast {i | i ∈ v.links ∧ c + 1 ≤ i} d := by
  have hset : {i | i ∈ v.links ∧ c + 1 ≤ i} = (v.links.erase c : Set Nat) := by
    ext i
    simp only [Set.mem_ofPred_eq, Finset.coe_erase, Set.mem_sdiff, Finset.mem_coe,
      Set.mem_singleton_iff]
    constructor
    · rintro ⟨hi, hlt⟩
      exact ⟨hi, by omega⟩
    · rintro ⟨hi, hne⟩
      have hle : c ≤ i := hc.2 hi
      exact ⟨hi, by omega⟩
  rw [hset]

/-- The code is watched by the least linkable pair, the debug registers by the second least. -/
theorem assign_eq_ok_iff (hv : v.Numbered) :
    v.assign = .ok a ↔ a.code.linkable = true ∧ a.debugRegisters.linkable = true ∧
      IsLeast (v.links : Set Nat) a.code.index ∧
      IsLeast (v.links.erase a.code.index : Set Nat) a.debugRegisters.index := by
  have hall : {i | i ∈ v.links ∧ 0 ≤ i} = (v.links : Set Nat) := by
    ext i
    simp
  rw [assign_eq_ok_iff_scans, firstLinkable_eq_some_iff hv, firstLinkable_eq_some_iff hv, hall]
  constructor
  · rintro ⟨⟨hcode, hleast⟩, hdebug, hsecond⟩
    exact ⟨hcode, hdebug, hleast, (isLeast_links_erase_iff hleast).mpr hsecond⟩
  · rintro ⟨hcode, hdebug, hleast, hsecond⟩
    exact ⟨⟨hcode, hleast⟩, hdebug, (isLeast_links_erase_iff hleast).mp hsecond⟩

/-- There is an assignment unless fewer than two pairs are linkable. -/
theorem assign_eq_error_iff (hv : v.Numbered) :
    v.assign = .error reason ↔ v.links.card < 2 ∧ reason = .tooFewPairs v.links.card := by
  constructor
  · intro h
    refine ⟨?_, by rw [assign_eq_error h, hv.card_links]⟩
    by_contra hcard
    have hne : v.links.Nonempty := Finset.card_pos.mp (by omega)
    have hne' : (v.links.erase (v.links.min' hne)).Nonempty := by
      apply Finset.card_pos.mp
      rw [Finset.card_erase_of_mem (v.links.min'_mem hne)]
      omega
    have hok : v.assign = .ok ⟨⟨v.links.min' hne, true⟩, ⟨_, true⟩⟩ :=
      (assign_eq_ok_iff hv).mpr ⟨rfl, rfl, v.links.isLeast_min' hne, Finset.isLeast_min' _ hne'⟩
    rw [h] at hok
    cases hok
  · rintro ⟨hcard, rfl⟩
    cases h : v.assign with
    | error reason => rw [assign_eq_error h, hv.card_links]
    | ok a =>
      obtain ⟨_, _, hleast, hsecond⟩ := (assign_eq_ok_iff hv).mp h
      have hmem := Finset.mem_coe.mp hsecond.1
      have hone := Finset.card_pos.mpr ⟨_, hmem⟩
      rw [Finset.card_erase_of_mem hleast.1] at hone
      omega

end GuardedBoot.Watch.Inventory
