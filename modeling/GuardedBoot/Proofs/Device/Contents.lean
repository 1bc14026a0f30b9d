import GuardedBoot.Proofs.Bus.LastWrite
import GuardedBoot.Proofs.Device.Cores
import GuardedBoot.Proofs.Word.FieldLaws

/-!
# What a script leaves in a register

A register holds what the last write to it left there: the fixed bits as they were, and all others
from the word written. Earlier writes leave no trace.

## Main definitions

- `RegisterFile.merged` — a word written over the fixed bits of a register

## Main statements

- `RegisterFile.stored_execute` — the word stored after a script, for any register but the two that
  show a slot
- `RegisterFile.stored_execute_slotWindow` — no script stores anything at these two
- `RegisterFile.WellFormed.get_execute_function` — the fields of a function register after a script
-/

namespace GuardedBoot.RegisterFile

open Mpu Watch

variable {f : RegisterFile} {script : List BusOp} {a : Address} {w : Word}

/-- The bits of a register that writes do not reach. -/
def fixedBits (f : RegisterFile) (a : Address) : Word := (f.readOnly a).getD 0

/-- What a write leaves in a register. -/
def merged (f : RegisterFile) (a : Address) (w : Word) : Word :=
  f.stored a &&& f.fixedBits a ||| (w &&& ~~~f.fixedBits a)

theorem merged_of_fixedBits_eq_zero (h : f.fixedBits a = 0) (w : Word) : f.merged a w = w := by
  have hall : ~~~(0 : Word) = BitVec.allOnes 32 := by decide
  rw [merged, h, hall, BitVec.and_allOnes]
  simp

/-- The second of two writes leaves the same as it would have left alone. -/
theorem and_or_and_not (old mask v w : Word) :
    (old &&& mask ||| (v &&& ~~~mask)) &&& mask ||| (w &&& ~~~mask) =
      old &&& mask ||| (w &&& ~~~mask) := by
  ext i hi
  by_cases h : mask[i] <;> simp [h]

theorem stored_perform_write (ha : ¬ IsSlotWindow a) (w : Word) :
    (Bus.perform (.write a w) f).stored a = f.merged a w := by
  simp only [IsSlotWindow, not_or] at ha
  change ((f.record _).write a w).stored a = _
  unfold write
  rw [if_neg ha.1, if_neg ha.2]
  cases hro : f.readOnly a with
  | none =>
    simp only [readOnly_record, hro, stored_store_self]
    exact (merged_of_fixedBits_eq_zero (by rw [fixedBits, hro]; rfl) w).symm
  | some mask =>
    simp only [readOnly_record, hro, stored_store_self, stored_record]
    rw [merged, fixedBits, hro]
    rfl

theorem stored_perform_of_wordFor_eq_none {op : BusOp} (h : op.wordFor a = none) :
    (Bus.perform op f).stored a = f.stored a := by
  cases op with
  | write b w =>
    refine stored_write_of_ne (f.record _) w ?_
    rintro rfl
    simp [BusOp.wordFor] at h
  | dataBarrier => rfl
  | instructionBarrier => rfl

theorem fixedBits_perform (op : BusOp) : (Bus.perform op f).fixedBits a = f.fixedBits a := by
  rw [fixedBits]
  exact congrArg (fun readOnly => (readOnly a).getD 0) (readOnly_perform f op)

/-- After a script a register holds what the last write to it left there. -/
theorem stored_execute (ha : ¬ IsSlotWindow a) (script : List BusOp) (f : RegisterFile) :
    (Bus.execute script f).stored a =
      (Bus.lastWrite a script).elim (f.stored a) (f.merged a) := by
  induction script generalizing f with
  | nil => rfl
  | cons op script ih =>
    rw [Bus.execute_cons, ih, Bus.lastWrite_cons]
    cases hop : op.wordFor a with
    | none =>
      have hstored : (Bus.perform op f).stored a = f.stored a :=
        stored_perform_of_wordFor_eq_none hop
      have hmerged : (Bus.perform op f).merged a = f.merged a := by
        funext w
        rw [merged, hstored, fixedBits_perform, merged]
      rw [hstored, hmerged, Option.or_none]
    | some v =>
      -- the operation is a write to the register, which a later one hides
      have hwrite : op = .write a v := by
        cases op with
        | write b w =>
          simp only [BusOp.wordFor, Option.ite_none_right_eq_some, Option.some.injEq] at hop
          rw [hop.1, hop.2]
        | dataBarrier => cases hop
        | instructionBarrier => cases hop
      subst hwrite
      cases Bus.lastWrite a script with
      | none => exact stored_perform_write ha v
      | some w =>
        change (Bus.perform (.write a v) f).merged a w = f.merged a w
        rw [merged, stored_perform_write ha v, fixedBits_perform, merged, and_or_and_not, merged]

theorem stored_perform_slotWindow (ha : IsSlotWindow a) (op : BusOp) :
    (Bus.perform op f).stored a = f.stored a := by
  cases op with
  | write b w =>
    by_cases hab : a = b
    · subst hab
      change ((f.record _).write a w).stored a = _
      unfold write
      rcases ha with rfl | rfl
      · rw [if_pos rfl]
        rfl
      · rw [if_neg (by decide), if_pos rfl]
        rfl
    · exact stored_write_of_ne (f.record _) w hab
  | dataBarrier => rfl
  | instructionBarrier => rfl

/-- The two registers that show a slot keep no word of their own. -/
theorem stored_execute_slotWindow (ha : IsSlotWindow a) (script : List BusOp) (f : RegisterFile) :
    (Bus.execute script f).stored a = f.stored a := by
  induction script generalizing f with
  | nil => rfl
  | cons op script ih => rw [Bus.execute_cons, ih, stored_perform_slotWindow ha]

theorem stored_execute_of_lastWrite_eq_none (h : Bus.lastWrite a script = none) :
    (Bus.execute script f).stored a = f.stored a := by
  by_cases ha : IsSlotWindow a
  · exact stored_execute_slotWindow ha script f
  · rw [stored_execute ha, h]
    rfl

theorem WellFormed.stored_execute_plain (hf : f.WellFormed) (ha : IsPlain a)
    (h : Bus.lastWrite a script = some w) : (Bus.execute script f).stored a = w := by
  have hfixed : f.fixedBits a = 0 := by
    rw [fixedBits, hf.readOnly_eq_none ha.2]
    rfl
  rw [stored_execute ha.1, h]
  exact merged_of_fixedBits_eq_zero hfixed w

/-- A write to a function register reaches all fields but those of the fixed bits. -/
theorem WellFormed.get_merged {α β : Type} (hf : f.WellFormed) (a : Address) (w : Word)
    {field : Field Function α β} (hfield : field.mask &&& functionReadOnly = 0) :
    (⟨f.merged a w⟩ : Contents Function).get field = (⟨w⟩ : Contents Function).get field := by
  cases hro : f.readOnly a with
  | none => rw [merged_of_fixedBits_eq_zero (by rw [fixedBits, hro]; rfl)]
  | some mask =>
    have hfixed : f.fixedBits a = functionReadOnly := by
      rw [fixedBits, hro, (hf a mask hro).2]
      rfl
    refine Contents.get_congr hfield ?_
    rw [merged, hfixed]
    ext i hi
    by_cases h : functionReadOnly[i] <;> simp [h]

theorem WellFormed.get_execute_function {α β : Type} (hf : f.WellFormed) (ha : IsFunction a)
    (h : Bus.lastWrite a script = some w) {field : Field Function α β}
    (hfield : field.mask &&& functionReadOnly = 0) :
    (⟨(Bus.execute script f).stored a⟩ : Contents Function).get field =
      (⟨w⟩ : Contents Function).get field := by
  rw [stored_execute ha.not_slotWindow, h]
  exact hf.get_merged a w hfield

theorem Equipped.stored_execute_function (hf : f.Equipped) (ha : IsFunction a)
    (h : Bus.lastWrite a script = some w) :
    (Bus.execute script f).stored a =
      f.stored a &&& functionReadOnly ||| (w &&& ~~~functionReadOnly) := by
  have hfixed : f.fixedBits a = functionReadOnly := by
    rw [fixedBits, hf.readOnly_function ha]
    rfl
  rw [stored_execute ha.not_slotWindow, h, ← hfixed]
  rfl

/-- Without fixed bits, a register holds the last word written to it. -/
theorem stored_execute_of_readOnly_eq_none (ha : ¬ IsSlotWindow a) (hro : f.readOnly a = none)
    (script : List BusOp) :
    (Bus.execute script f).stored a = (Bus.lastWrite a script).getD (f.stored a) := by
  have hfixed : f.fixedBits a = 0 := by
    rw [fixedBits, hro]
    rfl
  rw [stored_execute ha]
  cases Bus.lastWrite a script with
  | none => rfl
  | some w => exact merged_of_fixedBits_eq_zero hfixed w

/-- A script leaves the fixed bits of a function register. -/
theorem Equipped.get_execute_of_fixed {α β : Type} (hf : f.Equipped) (ha : IsFunction a)
    (script : List BusOp) {field : Field Function α β}
    (hfield : field.mask &&& ~~~functionReadOnly = 0) :
    (⟨(Bus.execute script f).stored a⟩ : Contents Function).get field =
      (⟨f.stored a⟩ : Contents Function).get field := by
  cases hlast : Bus.lastWrite a script with
  | none => rw [stored_execute_of_lastWrite_eq_none hlast]
  | some w =>
    refine Contents.get_congr hfield ?_
    rw [hf.stored_execute_function ha hlast]
    ext i hi
    by_cases h : functionReadOnly[i] <;> simp [h]

/-- All other bits are those of the last write. -/
theorem Equipped.stored_execute_and_not (hf : f.Equipped) (ha : IsFunction a)
    (script : List BusOp) :
    (Bus.execute script f).stored a &&& ~~~functionReadOnly =
      (Bus.lastWrite a script).getD (f.stored a) &&& ~~~functionReadOnly := by
  cases hlast : Bus.lastWrite a script with
  | none => rw [stored_execute_of_lastWrite_eq_none hlast, Option.getD_none]
  | some w =>
    rw [hf.stored_execute_function ha hlast, Option.getD_some]
    ext i hi
    by_cases h : functionReadOnly[i] <;> simp [h]

end GuardedBoot.RegisterFile
