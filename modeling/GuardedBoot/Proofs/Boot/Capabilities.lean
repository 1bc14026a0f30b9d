import GuardedBoot.Proofs.Boot.Refusals
import GuardedBoot.Proofs.Watch.Capabilities

/-!
# Capabilities of a secured core

A core reports the pairs that it was made with whatever it was used for, and also when watchpoints
were set up on it, alone or with the protection unit, successfully or not.

## Main statements

- `Watch.left_setUp`, `Boot.left_secure` — setting up leaves what a core reports
- `RegisterFile.survey_of_m33` — a survey gives the pairs that a core was made with, at any time
-/

namespace GuardedBoot

open Watch

variable {f : RegisterFile}

theorem RegisterFile.Equipped.surveyed_inventory (hf : f.Equipped) :
    f.surveyed.Equipped ∧ f.surveyed.inventory = f.inventory :=
  ⟨hf.surveyed, hf.wellFormed.inventory_unlatch _⟩

/-- A survey that is part of a refused choice leaves what the core reports. -/
theorem Watch.left_choose_of_error (hf : f.Equipped) {log : List Log.Entry} {e : Stop}
    {s : System RegisterFile} (h : choose ⟨f, log⟩ = .error e s) :
    s.bus.Equipped ∧ s.bus.inventory = f.inventory := by
  obtain ⟨_, _, ⟨_, hbus⟩ | ⟨_, hbus⟩⟩ := choose_eq_error hf.wellFormed h
  · rw [hbus]
    exact ⟨hf, rfl⟩
  · rw [hbus]
    exact hf.surveyed_inventory

theorem Watch.left_setUp (hf : f.Equipped) (code : Extent) (log : List Log.Entry) :
    ((setUp code).left ⟨f, log⟩).bus.Equipped ∧
      ((setUp code).left ⟨f, log⟩).bus.inventory = f.inventory := by
  obtain ⟨e, s, hchoose, heq⟩ | ⟨a, log', hchoice, heq⟩ := setUp_cases hf.wellFormed code log
  · rw [Run.left_of_error heq]
    exact left_choose_of_error hf hchoose
  · rw [Run.left_of_ok heq]
    obtain ⟨hequipped, hinventory⟩ := hf.surveyed_inventory
    refine ⟨hequipped.of_readOnly_eq (RegisterFile.readOnly_execute _ _), ?_⟩
    rw [hequipped.inventory_execute ((Assignment.Sound.of_choice hchoice).confined_counted _ _),
      hinventory]

theorem Boot.left_secure (hf : f.Equipped) (config : ProtectionConfig) (m : ImageLayout)
    (log : List Log.Entry) :
    ((secure config m).left ⟨f, log⟩).bus.Equipped ∧
      ((secure config m).left ⟨f, log⟩).bus.inventory = f.inventory := by
  obtain ⟨_, _, heq⟩ | ⟨_, _, _, _, heq⟩ | ⟨_, _, _, _, _, hchoose, heq⟩ |
    ⟨secured, _, hadmits, heq⟩ := secure_cases hf.wellFormed config m log
  · rw [Run.left_of_error heq]
    exact ⟨hf, rfl⟩
  · rw [Run.left_of_error heq]
    exact ⟨hf, rfl⟩
  · rw [Run.left_of_error heq]
    exact left_choose_of_error hf hchoose
  · rw [Run.left_of_ok heq]
    obtain ⟨hequipped, hinventory⟩ := hf.surveyed_inventory
    have hscript : Bus.Confined (· ≠ Watch.ctrl.address) (secured.script m f) :=
      Secured.confined_counted (.of_choice hadmits.choice) m f
    refine ⟨hequipped.of_readOnly_eq (RegisterFile.readOnly_execute _ _), ?_⟩
    rw [hequipped.inventory_execute hscript, hinventory]

namespace RegisterFile

/-- A core can be made with at most fifteen comparators. Whatever it is used for then, a survey
gives a pair for every two of its comparators, and those of the list can watch a range; and it gives
the same after watchpoints were armed. -/
theorem survey_of_m33 (implemented : Byte) (linkable : List Nat) :
    (m33 implemented linkable = .error .comparatorCount ↔ 15 < implemented.toNat) ∧
    (implemented.toNat ≤ 15 → ∃ core, m33 implemented linkable = .ok core ∧
      ∀ uses : List Use, (∀ u ∈ uses, u.Allowed) →
        ∃ g, uses.foldlM RegisterFile.use core = .ok g ∧ ∀ log,
          (∃ s, Inventory.survey ⟨g, log⟩ = .ok (.reported implemented linkable) s) ∧
          (∀ code, ∃ s, Inventory.survey ((setUp code).left ⟨g, log⟩) =
            .ok (.reported implemented linkable) s) ∧
          ∀ config m, ∃ s, Inventory.survey ((Boot.secure config m).left ⟨g, log⟩) =
            .ok (.reported implemented linkable) s) := by
  refine ⟨m33_eq_error_iff, fun hle => ?_⟩
  obtain ⟨core, hcore⟩ := exists_of_m33 hle
  refine ⟨core, hcore, fun uses huses => ?_⟩
  obtain ⟨g, hg, hequipped, hinventory⟩ := (equipped_of_m33 hcore).uses_ok huses
  have hreports (s : System RegisterFile) (hs : s.bus.Equipped)
      (hsame : s.bus.inventory = g.inventory) :
      ∃ t, Inventory.survey s = .ok (.reported implemented linkable) t := by
    rw [← inventory_of_m33 hcore, ← hinventory, ← hsame]
    exact ⟨_, Inventory.survey_apply hs.wellFormed s.log⟩
  refine ⟨g, hg, fun log => ⟨hreports ⟨g, log⟩ hequipped rfl, fun code => ?_, fun config m => ?_⟩⟩
  · obtain ⟨hs, hsame⟩ := left_setUp hequipped code log
    exact hreports _ hs hsame
  · obtain ⟨hs, hsame⟩ := Boot.left_secure hequipped config m log
    exact hreports _ hs hsame

/-- Uses that try to forge a capability, to erase one, and to change the number of a register. -/
def tampering : List Use :=
  [.access (.perform (.write (functions.addressOf 1) 0xffffffff)), .fire 3,
    .access (.perform (.write (functions.addressOf 3) 0)), .access (.read (functions.addressOf 3)),
    .access (.perform .dataBarrier), .access (.perform (.write Mpu.rnr.address 0xffffffff)),
    .access (.perform (.write Mpu.rbar.address 0xffffffff))]

theorem survey_tampering :
    ((m33 16 [] = .error .comparatorCount) ∧ ∀ u ∈ tampering, u.Allowed) ∧
      ∃ core g, m33 5 [1, 9, 1] = .ok core ∧ tampering.foldlM RegisterFile.use core = .ok g ∧
        ∃ s, Inventory.survey ((Boot.secure {} Board.layout).left ⟨g, []⟩) =
          .ok ⟨[⟨0, false⟩, ⟨1, true⟩]⟩ s := by
  have hallowed : ∀ u ∈ tampering, u.Allowed := by
    intro u hu
    simp only [tampering, List.mem_cons, List.not_mem_nil, or_false] at hu
    rcases hu with rfl | rfl | rfl | rfl | rfl | rfl | rfl <;>
      simp [Use.Allowed, BusOp.WritesOnly] <;> decide
  refine ⟨⟨(survey_of_m33 16 []).1.mpr (by decide), hallowed⟩, ?_⟩
  obtain ⟨core, hcore, huses⟩ := (survey_of_m33 5 [1, 9, 1]).2 (by decide)
  obtain ⟨g, hg, hsurvey⟩ := huses tampering hallowed
  exact ⟨core, g, hcore, hg, (hsurvey []).2.2 {} Board.layout⟩

end RegisterFile

end GuardedBoot
