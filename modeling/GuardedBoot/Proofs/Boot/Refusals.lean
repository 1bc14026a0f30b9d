import GuardedBoot.Proofs.Boot.Securing

/-!
# Refusals

Whatever set-up is refused, it is refused before anything is written. The only trace that a refusal
can leave is that latched matches were taken by the survey of the comparators, and then it is a
refusal for want of pairs.

## Main definitions

- `Run.stop` — how a run stops early, if it does
- `LeftAlone` — what a refusal leaves of a file

## Main statements

- `Boot.refused_atomically` — which refusal a set-up ends with, and what it leaves
-/

namespace GuardedBoot

namespace Run

variable {σ α : Type}

/-- How a run stops early, if it does. -/
def stop (x : Run σ α) (s : System σ) : Option Stop :=
  match x s with
  | .ok _ _ => none
  | .error e _ => some e

theorem stop_of_ok {x : Run σ α} {s t : System σ} {a : α} (h : x s = .ok a t) :
    x.stop s = none := by
  rw [stop, h]

theorem stop_of_error {x : Run σ α} {s t : System σ} {e : Stop} (h : x s = .error e t) :
    x.stop s = some e := by
  rw [stop, h]

theorem exists_of_stop {x : Run σ α} {s : System σ} {e : Stop} (h : x.stop s = some e) :
    ∃ t, x s = .error e t := by
  unfold stop at h
  split at h
  · cases h
  · next e' t heq =>
    cases h
    exact ⟨t, heq⟩

end Run

/-- Nothing was written, and every register is as it was. Only a refusal for want of pairs can have
taken matches, from second comparators of pairs that are implemented. -/
structure LeftAlone (f : RegisterFile) (reason : Refusal) (g : RegisterFile) : Prop where
  events : g.events = f.events
  slots : g.slots = f.slots
  readOnly : g.readOnly = f.readOnly
  stored : ∀ a, g.stored a = f.stored a ∨
    (∃ found, reason = .tooFewPairs found) ∧
      ∃ p, p < f.comparatorCount.toNat / 2 ∧ a = Watch.functions.addressOf (2 * p + 1) ∧
        g.stored a = f.stored a &&& ~~~RegisterFile.matchedBit
  unchanged : (∀ found, reason ≠ .tooFewPairs found) → g = f

namespace LeftAlone

variable {f : RegisterFile} {reason : Refusal}

theorem refl (f : RegisterFile) (reason : Refusal) : LeftAlone f reason f :=
  ⟨rfl, rfl, rfl, fun _ => .inl rfl, fun _ => rfl⟩

theorem surveyed (f : RegisterFile) (found : Nat) :
    LeftAlone f (.tooFewPairs found) f.surveyed := by
  refine ⟨rfl, rfl, rfl, ?_, fun h => absurd rfl (h found)⟩
  intro a
  rcases RegisterFile.stored_unlatch_cases f _ a with h | ⟨hmem, h⟩
  · exact .inl h
  · obtain ⟨p, hp, rfl⟩ := List.mem_map.mp hmem
    have hlt := Watch.Inventory.index_lt_of_mem_ofCount hp
    exact .inr ⟨⟨found, rfl⟩, p.index, Nat.lt_of_lt_of_le hlt (Nat.min_le_left _ _), rfl, h⟩

end LeftAlone

variable {f : RegisterFile} {log : List Log.Entry} {s : System RegisterFile} {e : Stop}

theorem Watch.leftAlone_of_choose (hf : f.WellFormed) (h : choose ⟨f, log⟩ = .error e s) :
    ∃ reason, e = .refused reason ∧ LeftAlone f reason s.bus := by
  obtain ⟨reason, he, ⟨_, hbus⟩ | ⟨hreason, hbus⟩⟩ := choose_eq_error hf h
  · refine ⟨reason, he, ?_⟩
    rw [hbus]
    exact .refl f reason
  · refine ⟨reason, he, ?_⟩
    rw [hbus, hreason]
    exact .surveyed f _

namespace Boot

/-- The sequence stops exactly when one of its three checks does, and as the first of them does. -/
theorem secure_stop (hf : f.WellFormed) (config : ProtectionConfig) (m : ImageLayout)
    (log : List Log.Entry) :
    (secure config m).stop ⟨f, log⟩ =
      ((Run.orRefuse (Mpu.Table.ofLayout m config.aperture)).stop (⟨f, log⟩ : System RegisterFile)).or
        ((Mpu.requireSlots.stop ⟨f, log⟩).or (Watch.choose.stop ⟨f, log⟩)) := by
  obtain ⟨reason, htable, heq⟩ | ⟨t, reason, htable, hslots, heq⟩ |
    ⟨t, e, s, htable, hslots, hchoose, heq⟩ | ⟨secured, log', hadmits, heq⟩ :=
      secure_cases hf config m log
  · rw [Run.stop_of_error heq, htable, Run.stop_of_error (Run.orRefuse_error _ _)]
    rfl
  · rw [Run.stop_of_error heq, htable, Run.stop_of_ok (Run.orRefuse_ok _ _),
      Run.stop_of_error (Mpu.requireSlots_of_error hf hslots log)]
    rfl
  · rw [Run.stop_of_error heq, htable, Run.stop_of_ok (Run.orRefuse_ok _ _),
      Run.stop_of_ok (Mpu.requireSlots_of_ok hf hslots log), Run.stop_of_error hchoose]
    rfl
  · rw [Run.stop_of_ok heq, hadmits.table, Run.stop_of_ok (Run.orRefuse_ok _ _),
      Run.stop_of_ok (Mpu.requireSlots_of_ok hf hadmits.slots log),
      Run.stop_of_ok (Watch.choose_of_choice hf hadmits.choice log)]
    rfl

/-- Which refusal securing a core ends with is up to the first check that fails on the core as it
was found. However a set-up fails, of all or of either half, it is refused and not halted, and the
core is left alone. -/
theorem refused_atomically (hf : f.Reachable) (log : List Log.Entry) :
    (∀ config m, (secure config m).stop ⟨f, log⟩ =
      ((Run.orRefuse (Mpu.Table.ofLayout m config.aperture)).stop (⟨f, log⟩ : System RegisterFile)).or
        ((Mpu.requireSlots.stop ⟨f, log⟩).or (Watch.choose.stop ⟨f, log⟩))) ∧
    (∀ config m e s, secure config m ⟨f, log⟩ = .error e s →
      ∃ reason, e = .refused reason ∧ LeftAlone f reason s.bus) ∧
    (∀ m a e s, Mpu.setUp m a ⟨f, log⟩ = .error e s →
      ∃ reason, e = .refused reason ∧ LeftAlone f reason s.bus) ∧
    (∀ code e s, Watch.setUp code ⟨f, log⟩ = .error e s →
      ∃ reason, e = .refused reason ∧ LeftAlone f reason s.bus) := by
  have hw := hf.wellFormed
  refine ⟨fun config m => secure_stop hw config m log, ?_, ?_, ?_⟩
  · intro config m e s h
    obtain ⟨reason, _, heq⟩ | ⟨_, reason, _, _, heq⟩ | ⟨_, _, _, _, _, hchoose, heq⟩ |
      ⟨_, _, _, heq⟩ := secure_cases hw config m log <;> rw [heq] at h <;> cases h
    · exact ⟨reason, rfl, .refl f reason⟩
    · exact ⟨reason, rfl, .refl f reason⟩
    · exact Watch.leftAlone_of_choose hw hchoose
  · intro m a e s h
    obtain ⟨reason, heq, _⟩ | ⟨_, _, _, _, heq⟩ := Mpu.setUp_cases hw m a log <;>
      rw [heq] at h <;> cases h
    exact ⟨reason, rfl, .refl f reason⟩
  · intro code e s h
    obtain ⟨_, _, hchoose, heq⟩ | ⟨_, _, _, heq⟩ := Watch.setUp_cases hw code log <;>
      rw [heq] at h <;> cases h
    exact Watch.leftAlone_of_choose hw hchoose

/-- A core on which only one pair can watch a range, with a match latched in that pair. -/
def scantCore : RegisterFile :=
  let core := (RegisterFile.m33 8 [1]).toOption.getD .empty
  (core.latchMatch 3).toOption.getD core

theorem reachable_scantCore : scantCore.Reachable := by
  let core := (RegisterFile.m33 8 [1]).toOption.getD .empty
  have hcore : RegisterFile.m33 8 [1] = .ok core := rfl
  have hscant : core.latchMatch 3 = .ok scantCore := rfl
  exact (RegisterFile.Reachable.core hcore).latchMatch hscant

theorem refused_atomically_scantCore : scantCore.Reachable ∧
    (∃ s, secure wideConfig Board.layout ⟨scantCore, []⟩ =
      .error (.refused (.tooFewPairs 1)) s ∧ LeftAlone scantCore (.tooFewPairs 1) s.bus) ∧
    ∃ s, Watch.setUp Board.layout.code ⟨scantCore, []⟩ =
      .error (.refused (.tooFewPairs 1)) s ∧ LeftAlone scantCore (.tooFewPairs 1) s.bus := by
  obtain ⟨_, hsecure, _, hsetUp⟩ := refused_atomically reachable_scantCore []
  obtain ⟨s, hs⟩ := Run.exists_of_stop (x := secure wideConfig Board.layout)
    (s := ⟨scantCore, []⟩) (e := .refused (.tooFewPairs 1)) rfl
  obtain ⟨t, ht⟩ := Run.exists_of_stop (x := Watch.setUp Board.layout.code)
    (s := ⟨scantCore, []⟩) (e := .refused (.tooFewPairs 1)) rfl
  obtain ⟨_, hreason, halone⟩ := hsecure _ _ _ _ hs
  obtain ⟨_, hreason', halone'⟩ := hsetUp _ _ _ ht
  cases hreason
  cases hreason'
  exact ⟨reachable_scantCore, ⟨s, hs, halone⟩, t, ht, halone'⟩

end Boot

end GuardedBoot
