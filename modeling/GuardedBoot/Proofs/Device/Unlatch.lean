import GuardedBoot.Proofs.Bus.RunLaws
import GuardedBoot.Proofs.Device.Replay
import GuardedBoot.Proofs.Word.FieldLaws

/-!
# Matches taken by reading

A read takes the match that is latched in a function register. Apart from that, reading leaves a
file as it was.

## Main definitions

- `RegisterFile.unlatch` — the file after the matches at some addresses were taken

## Main statements

- `RegisterFile.read_of_not_slotWindow`, `RegisterFile.WellFormed.left_read` — what a read gives and
  leaves
- `RegisterFile.unlatch_unlatch` — matches taken in two goes
- `RegisterFile.WellFormed.execute_unlatch` — a script can be exchanged with taking matches
- `RegisterFile.WellFormed.run_read`, `RegisterFile.run_read_function` — the same of runs
-/

namespace GuardedBoot.RegisterFile

open Mpu Watch

variable (f : RegisterFile) (taken : List Address)

/-- The file after the matches at the addresses were taken. Registers without fixed bits latch no
match. -/
def unlatch : RegisterFile :=
  { f with stored := fun a =>
      if a ∈ taken ∧ (f.readOnly a).isSome then f.stored a &&& ~~~matchedBit else f.stored a }

theorem stored_unlatch (a : Address) :
    (f.unlatch taken).stored a =
      if a ∈ taken ∧ (f.readOnly a).isSome then f.stored a &&& ~~~matchedBit else f.stored a := rfl

@[simp] theorem readOnly_unlatch : (f.unlatch taken).readOnly = f.readOnly := rfl

@[simp] theorem slots_unlatch : (f.unlatch taken).slots = f.slots := rfl

@[simp] theorem events_unlatch : (f.unlatch taken).events = f.events := rfl

@[simp] theorem unlatch_nil : f.unlatch [] = f := by
  apply RegisterFile.ext
  · funext a
    simp [stored_unlatch]
  · rfl
  · rfl
  · rfl

variable {f taken}

theorem WellFormed.unlatch (hf : f.WellFormed) : (f.unlatch taken).WellFormed :=
  hf.of_readOnly_eq rfl

theorem stored_unlatch_of_not_mem {a : Address} (ha : a ∉ taken) :
    (f.unlatch taken).stored a = f.stored a := by
  rw [stored_unlatch, if_neg (fun h => ha h.1)]

theorem stored_unlatch_cases (f : RegisterFile) (taken : List Address) (a : Address) :
    (f.unlatch taken).stored a = f.stored a ∨
      a ∈ taken ∧ (f.unlatch taken).stored a = f.stored a &&& ~~~matchedBit := by
  rw [stored_unlatch]
  split
  · next h => exact .inr ⟨h.1, rfl⟩
  · exact .inl rfl

theorem unlatch_unlatch (f : RegisterFile) (first second : List Address) :
    (f.unlatch first).unlatch second = f.unlatch (first ++ second) := by
  apply RegisterFile.ext
  · funext a
    simp only [stored_unlatch, readOnly_unlatch, List.mem_append]
    by_cases hsome : (f.readOnly a).isSome
    · by_cases h₁ : a ∈ first <;> by_cases h₂ : a ∈ second <;>
        simp [hsome, h₁, h₂, BitVec.and_assoc]
    · simp [hsome]
  · rfl
  · rfl
  · rfl

/-- Without fixed bits there is no match to take. -/
theorem stored_unlatch_of_readOnly_eq_none {a : Address} (h : f.readOnly a = none) :
    (f.unlatch taken).stored a = f.stored a := by
  rw [stored_unlatch, h]
  exact if_neg fun h => Bool.false_ne_true h.2

theorem unlatch_of_readOnly_eq_none (h : ∀ a ∈ taken, f.readOnly a = none) :
    f.unlatch taken = f := by
  apply RegisterFile.ext
  · funext a
    by_cases ha : a ∈ taken
    · exact stored_unlatch_of_readOnly_eq_none (h a ha)
    · exact stored_unlatch_of_not_mem ha
  · rfl
  · rfl
  · rfl

/-- A word that is stored before matches are taken may lose its own. -/
theorem unlatch_store (f : RegisterFile) (taken : List Address) (a : Address) (w : Word) :
    (f.store a w).unlatch taken =
      (f.unlatch taken).store a
        (if a ∈ taken ∧ (f.readOnly a).isSome then w &&& ~~~matchedBit else w) := by
  apply RegisterFile.ext
  · funext b
    rw [stored_unlatch, readOnly_store]
    by_cases hba : b = a
    · rw [hba, stored_store_self, stored_store_self]
    · rw [stored_store_of_ne _ _ hba, stored_store_of_ne _ _ hba, stored_unlatch]
  · rfl
  · rfl
  · rfl

namespace WellFormed

theorem changeSlot_unlatch (hf : f.WellFormed) (change : Slot → Slot) :
    (f.unlatch taken).changeSlot change = (f.changeSlot change).unlatch taken := by
  have hselected : (f.unlatch taken).selected = f.selected := by
    rw [selected, stored_unlatch_of_readOnly_eq_none (hf.readOnly_eq_none (by decide)), selected]
  rw [changeSlot, hselected]
  rfl

/-- A write can be exchanged with taking matches: a latched match is not in its reach. -/
theorem write_unlatch (hf : f.WellFormed) (taken : List Address) (a : Address) (w : Word) :
    (f.unlatch taken).write a w = (f.write a w).unlatch taken := by
  unfold RegisterFile.write
  split
  · exact hf.changeSlot_unlatch _
  · split
    · exact hf.changeSlot_unlatch _
    · rw [readOnly_unlatch]
      cases hro : f.readOnly a with
      | none =>
        show (f.unlatch taken).store a w = (f.store a w).unlatch taken
        rw [unlatch_store, hro, if_neg fun h => Bool.false_ne_true h.2]
      | some mask =>
        show (f.unlatch taken).store a _ = (f.store a _).unlatch taken
        rw [unlatch_store, stored_unlatch, hro]
        congr 1
        split
        · have hlatch : mask &&& matchedBit = matchedBit := by
            rw [(hf a mask hro).2]
            decide
          rw [← hlatch]
          ext i hi
          by_cases hbit : mask[i] <;> simp [hbit]
        · rfl

theorem perform_unlatch (hf : f.WellFormed) (taken : List Address) (op : BusOp) :
    Bus.perform op (f.unlatch taken) = (Bus.perform op f).unlatch taken := by
  cases op with
  | write a w => exact (hf.record _).write_unlatch taken a w
  | dataBarrier => rfl
  | instructionBarrier => rfl

/-- So can a script, operation by operation. -/
theorem execute_unlatch (hf : f.WellFormed) (taken : List Address) (script : List BusOp) :
    Bus.execute script (f.unlatch taken) = (Bus.execute script f).unlatch taken := by
  induction script generalizing f with
  | nil => rfl
  | cons op script ih =>
    have hop : Bus.perform op (f.unlatch taken) = (Bus.perform op f).unlatch taken :=
      hf.perform_unlatch taken op
    rw [Bus.execute_cons, hop, Bus.execute_cons]
    exact ih (hf.perform op)

end WellFormed

/-- Fields other than the latched match read as before. -/
theorem get_unlatch {α β : Type} (f : RegisterFile) (taken : List Address) (a : Address)
    (field : Field Function α β) (hfield : field.mask &&& matchedBit = 0) :
    (⟨(f.unlatch taken).stored a⟩ : Contents Function).get field =
      (⟨f.stored a⟩ : Contents Function).get field := by
  rcases stored_unlatch_cases f taken a with h | ⟨_, h⟩
  · rw [h]
  · refine Contents.get_congr hfield ?_
    simp only [h, BitVec.and_assoc, BitVec.and_self]

/-- A read of a register that shows no slot gives the word stored there and takes its match. -/
theorem read_of_not_slotWindow (f : RegisterFile) {a : Address} (ha : ¬ IsSlotWindow a) :
    f.read a = (f.stored a, f.unlatch [a]) := by
  simp only [IsSlotWindow, not_or] at ha
  have hleft : (if f.stored a &&& matchedBit ≠ 0 ∧ (f.readOnly a).isSome then
      f.store a (f.stored a &&& ~~~matchedBit) else f) = f.unlatch [a] := by
    apply RegisterFile.ext
    · funext b
      simp only [stored_unlatch, List.mem_singleton]
      by_cases hab : b = a
      · subst hab
        by_cases hsome : (f.readOnly b).isSome
        · by_cases hbit : f.stored b &&& matchedBit = 0
          · have hsame : f.stored b &&& ~~~matchedBit = f.stored b := by
              ext i hi
              have hi' : (f.stored b &&& matchedBit)[i] = (0 : Word)[i] := by rw [hbit]
              by_cases hf : (f.stored b)[i]
              · have : matchedBit[i] = false := by simpa [hf] using hi'
                simp [hf, this]
              · simp [hf]
            simp [hbit, hsame]
          · rw [if_pos ⟨hbit, hsome⟩, if_pos ⟨rfl, hsome⟩]
            simp [store]
        · simp [hsome]
      · split <;> simp [store, hab]
    · split <;> rfl
    · split <;> rfl
    · split <;> rfl
  unfold read
  rw [if_neg ha.1, if_neg ha.2, ← hleft]
  dsimp only
  split <;> rfl

theorem read_function (f : RegisterFile) {a : Address} (ha : IsFunction a) :
    f.read a = (f.stored a, f.unlatch [a]) :=
  f.read_of_not_slotWindow ha.not_slotWindow

/-- Whatever is read, at most the match latched there is gone afterwards. -/
theorem WellFormed.left_read (hf : f.WellFormed) (a : Address) : (f.read a).2 = f.unlatch [a] := by
  by_cases ha : IsSlotWindow a
  · have hro : f.readOnly a = none := hf.readOnly_eq_none fun h => h.not_slotWindow ha
    rw [unlatch_of_readOnly_eq_none (by simpa using hro)]
    rcases ha with rfl | rfl <;> rfl
  · rw [f.read_of_not_slotWindow ha]

variable {rights : Rights} {R : Type}

theorem WellFormed.run_read (hf : f.WellFormed) (r : Register rights R) (hr : IsPlain r.address)
    (log : List Log.Entry) : Run.read r ⟨f, log⟩ = .ok ⟨f.stored r.address⟩ ⟨f, log⟩ := by
  have hbus : Bus.read r.address f = (f.stored r.address, f) := hf.read_plain hr
  rw [Run.read_apply]
  simp only [hbus]

theorem run_read_function (f : RegisterFile) (r : Register rights R) (hr : IsFunction r.address)
    (log : List Log.Entry) :
    Run.read r ⟨f, log⟩ = .ok ⟨f.stored r.address⟩ ⟨f.unlatch [r.address], log⟩ := by
  have hbus : Bus.read r.address f = (f.stored r.address, f.unlatch [r.address]) :=
    f.read_function hr
  rw [Run.read_apply]
  simp only [hbus]

end GuardedBoot.RegisterFile
