import GuardedBoot.Proofs.Watch.AnyBus
import GuardedBoot.Proofs.Watch.Scan

/-!
# Enumerating the linkable pairs

A scan that goes on behind each pair that it finds meets every linkable pair once, in ascending
order, and then ends. The two duties get the first two pairs of this enumeration.

## Main definitions

- `Watch.Inventory.Enumerates` — the pairs that are found one behind the other
- `Watch.Assignment.ofFirstTwo` — the assignment made of the first two pairs of a list
- `Watch.Inventory.Lists` — a list is the enumeration of the linkable pairs

## Main statements

- `Watch.Inventory.Numbered.enumerates_iff` — what is found is what a filter leaves
- `Watch.Inventory.Enumerates.assign_eq` — the assignment from an enumeration
- `Watch.Inventory.survey_lists` — every inventory that a survey gives is enumerated by its scan
-/

namespace GuardedBoot.Watch

/-- The assignment of the first two pairs of a list; the refusal says how many there are. -/
def Assignment.ofFirstTwo : List Pair → Except Refusal Assignment
  | code :: debugRegisters :: _ => .ok ⟨code, debugRegisters⟩
  | ps => .error (.tooFewPairs ps.length)

namespace Inventory

/-- From a position on, the scan finds these pairs, each from behind the one before it, and none
behind the last. -/
inductive Enumerates (v : Inventory) : Nat → List Pair → Prop where
  | done {position : Nat} (h : v.firstLinkable position = none) : Enumerates v position []
  | found {position : Nat} {p : Pair} {ps : List Pair} (h : v.firstLinkable position = some p)
      (rest : Enumerates v (p.index + 1) ps) : Enumerates v position (p :: ps)

/-- The list is what the scan enumerates: the linkable pairs, each of them once and in ascending
order. The assignment takes the first two. -/
structure Lists (v : Inventory) (ps : List Pair) : Prop where
  enumerates : ∀ qs, v.Enumerates 0 qs ↔ qs = ps
  length : ps.length = v.linkables
  mem : ∀ p, p ∈ ps ↔ p ∈ v.pairs ∧ p.linkable = true
  ascending : ps.Pairwise fun p q => p.index < q.index
  assign : v.assign = Assignment.ofFirstTwo ps

variable {v : Inventory} {p : Pair} {ps : List Pair} {position : Nat}

theorem filter_drop_of_none (h : v.firstLinkable position = none) :
    (v.pairs.drop position).filter (·.linkable) = [] :=
  List.filter_eq_nil_iff.mpr (List.find?_eq_none.mp h)

/-- The pair that is found stands first among those that are linkable, and the others are behind
the position that it is numbered by. -/
theorem Numbered.filter_drop (hv : v.Numbered) (h : v.firstLinkable position = some p) :
    (v.pairs.drop position).filter (·.linkable) =
      p :: (v.pairs.drop (p.index + 1)).filter (·.linkable) := by
  obtain ⟨hlinkable, before, after, hsplit, hbefore⟩ := List.find?_eq_some_iff_append.mp h
  have hplace : (v.pairs.drop position)[before.length]? = some p := by
    rw [hsplit, List.getElem?_append_right (Nat.le_refl _), Nat.sub_self]
    rfl
  have hindex : p.index = position + before.length := by
    rw [List.getElem?_drop] at hplace
    obtain ⟨hlt, hget⟩ := List.getElem?_eq_some_iff.mp hplace
    rw [← hget]
    exact hv _ hlt
  -- The number of the pair is its place, so the scan goes on right behind it.
  have hafter : v.pairs.drop (p.index + 1) = after := by
    rw [hindex, Nat.add_assoc, ← List.drop_drop, hsplit, List.drop_length_add_append]
    rfl
  have hnone : before.filter (·.linkable) = [] := by
    refine List.filter_eq_nil_iff.mpr fun q hq => ?_
    simpa using hbefore q hq
  rw [hafter, hsplit, List.filter_append, hnone, List.nil_append, List.filter_cons_of_pos hlinkable]

/-- From any position on, the scan finds the linkable pairs of the rest. -/
theorem Numbered.enumerates_filter (hv : v.Numbered) (position : Nat) :
    v.Enumerates position ((v.pairs.drop position).filter (·.linkable)) := by
  cases hfirst : v.firstLinkable position with
  | none =>
    rw [filter_drop_of_none hfirst]
    exact .done hfirst
  | some p =>
    obtain ⟨hle, hlt, _⟩ := index_of_firstLinkable hv hfirst
    rw [hv.filter_drop hfirst]
    exact .found hfirst (hv.enumerates_filter (p.index + 1))
termination_by v.pairs.length - position

/-- It finds nothing else. -/
theorem Numbered.enumerates_iff (hv : v.Numbered) :
    v.Enumerates position ps ↔ ps = (v.pairs.drop position).filter (·.linkable) := by
  constructor
  · intro h
    induction h with
    | done hnone => exact (filter_drop_of_none hnone).symm
    | found hfirst _ ih => rw [hv.filter_drop hfirst, ih]
  · rintro rfl
    exact hv.enumerates_filter position

/-- Pairs that are numbered by their positions ascend. -/
theorem Numbered.pairwise_lt (hv : v.Numbered) :
    v.pairs.Pairwise fun p q => p.index < q.index := by
  rw [← List.pairwise_map, hv.map_index]
  exact List.pairwise_lt_range

/-- The assignment carries the scan as far as the second pair. -/
theorem Enumerates.assign_eq (h : v.Enumerates 0 ps) (hlength : ps.length = v.linkables) :
    v.assign = Assignment.ofFirstTwo ps := by
  unfold assign
  cases h with
  | done hnone =>
    rw [hnone, ← hlength]
    rfl
  | found hcode rest =>
    rw [hcode]
    cases rest with
    | done hnone =>
      simp only [hnone, ← hlength]
      rfl
    | found hdebug _ =>
      simp only [hdebug]
      rfl

theorem Numbered.lists_filter (hv : v.Numbered) : v.Lists (v.pairs.filter (·.linkable)) := by
  have henumerates (qs : List Pair) :
      v.Enumerates 0 qs ↔ qs = v.pairs.filter (·.linkable) := hv.enumerates_iff
  have hlength : (v.pairs.filter (·.linkable)).length = v.linkables :=
    List.countP_eq_length_filter.symm
  refine ⟨henumerates, hlength, fun p => List.mem_filter, ?_, ?_⟩
  · exact hv.pairwise_lt.filter _
  · exact ((henumerates _).mpr rfl).assign_eq hlength

/-- With other numbers the scan would go on at a wrong place, here past a linkable pair. -/
example : (⟨[⟨1, true⟩, ⟨0, true⟩]⟩ : Inventory).assign = .error (.tooFewPairs 2) := rfl

/-- On every bus, the pairs of a survey are numbered by their positions. The scan from a position
finds the linkable pair with the least index from there on, and nothing if there is none. So when it
is carried on behind each pair, it enumerates the linkable pairs, and the assignment takes the first
two. -/
theorem survey_lists (σ : Type) [Bus σ] :
    (survey : Run σ Inventory).Ensures (fun v => v.Numbered ∧
      (∀ position p, v.firstLinkable position = some p ↔
        p.linkable = true ∧ IsLeast {i | i ∈ v.links ∧ position ≤ i} p.index) ∧
      (∀ position, v.firstLinkable position = none ↔ ∀ i ∈ v.links, i < position) ∧
      ∃ ps, v.Lists ps) fun _ => False := by
  refine ensures_survey.mono fun v ⟨hv, _⟩ => ⟨hv, ?_, ?_, _, hv.lists_filter⟩
  · intro position p
    exact firstLinkable_eq_some_iff hv
  · intro position
    exact firstLinkable_eq_none_iff hv

end Inventory

end GuardedBoot.Watch
