import GuardedBoot.Proofs.Device.Reachable

/-!
# Scripts on a register file

What a script leaves in a register file. A script is only seen at the addresses that it writes to,
so facts about a file survive a script that writes elsewhere.

## Main definitions

- `RegisterFile.AgreeOn` — two files that show the same at the addresses of a set
- `RegisterFile.LocalTo` — a property that can be told from the addresses of a set

## Main statements

- `RegisterFile.events_execute` — a script is appended to the events as it stands
- `RegisterFile.agreeOn_execute` — a script is not seen where it does not write
- `RegisterFile.LocalTo.throughout` — a property holds throughout a script that writes elsewhere
-/

namespace GuardedBoot.RegisterFile

open Mpu Watch

variable {f g h : RegisterFile} {script : List BusOp}

@[simp] theorem stored_record (f : RegisterFile) (op : BusOp) :
    (f.record op).stored = f.stored := rfl

@[simp] theorem slots_record (f : RegisterFile) (op : BusOp) : (f.record op).slots = f.slots := rfl

@[simp] theorem readOnly_record (f : RegisterFile) (op : BusOp) :
    (f.record op).readOnly = f.readOnly := rfl

theorem WellFormed.record (hf : f.WellFormed) (op : BusOp) : (f.record op).WellFormed :=
  hf.of_readOnly_eq rfl

theorem WellFormed.perform (hf : f.WellFormed) (op : BusOp) : (Bus.perform op f).WellFormed :=
  hf.of_readOnly_eq (readOnly_perform f op)

theorem slots_perform_rbar (f : RegisterFile) (v : Contents Rbar) (i : Fin slotCount) :
    (Bus.perform (Mpu.rbar.assign v) f).slots i =
      if i = f.selected then { f.slots i with rbar := v } else f.slots i := rfl

theorem selected_perform_rbar (f : RegisterFile) (v : Contents Rbar) :
    (Bus.perform (Mpu.rbar.assign v) f).selected = f.selected := rfl

theorem slots_perform_rlar (f : RegisterFile) (v : Contents Rlar) (i : Fin slotCount) :
    (Bus.perform (Mpu.rlar.assign v) f).slots i =
      if i = f.selected then { f.slots i with rlar := v } else f.slots i := rfl

/-- A script is appended to the events as it stands. -/
@[simp] theorem events_execute (script : List BusOp) (f : RegisterFile) :
    (Bus.execute script f).events = f.events ++ script := by
  induction script generalizing f with
  | nil => simp
  | cons op script ih =>
    rw [Bus.execute_cons, ih]
    change (f.perform op).events ++ script = _
    simp

@[simp] theorem readOnly_execute (script : List BusOp) (f : RegisterFile) :
    (Bus.execute script f).readOnly = f.readOnly := by
  induction script generalizing f with
  | nil => rfl
  | cons op script ih =>
    rw [Bus.execute_cons, ih]
    exact readOnly_perform f op

theorem WellFormed.execute (hf : f.WellFormed) (script : List BusOp) :
    (Bus.execute script f).WellFormed :=
  hf.of_readOnly_eq (readOnly_execute script f)

theorem Reachable.execute (hf : f.Reachable) (script : List BusOp) :
    (Bus.execute script f).Reachable := by
  induction script generalizing f with
  | nil => exact hf
  | cons op script ih => exact ih (hf.perform op)

/-- The files show the same at the addresses of the set. What the two region registers show is
their part of every slot. -/
structure AgreeOn (visible : Address → Prop) (f g : RegisterFile) : Prop where
  stored : ∀ a, visible a → g.stored a = f.stored a
  rbar : visible Mpu.rbar.address → ∀ i, (g.slots i).rbar = (f.slots i).rbar
  rlar : visible Mpu.rlar.address → ∀ i, (g.slots i).rlar = (f.slots i).rlar

section AgreeOn

variable {visible : Address → Prop}

theorem AgreeOn.refl (visible : Address → Prop) (f : RegisterFile) : AgreeOn visible f f :=
  ⟨fun _ _ => rfl, fun _ _ => rfl, fun _ _ => rfl⟩

theorem AgreeOn.trans (hfg : AgreeOn visible f g) (hgh : AgreeOn visible g h) :
    AgreeOn visible f h where
  stored a ha := (hgh.stored a ha).trans (hfg.stored a ha)
  rbar ha i := (hgh.rbar ha i).trans (hfg.rbar ha i)
  rlar ha i := (hgh.rlar ha i).trans (hfg.rlar ha i)

theorem AgreeOn.mono {fewer : Address → Prop} (hfg : AgreeOn visible f g)
    (hle : ∀ a, fewer a → visible a) : AgreeOn fewer f g where
  stored a ha := hfg.stored a (hle a ha)
  rbar ha := hfg.rbar (hle _ ha)
  rlar ha := hfg.rlar (hle _ ha)

theorem AgreeOn.slots (hfg : AgreeOn visible f g) (hbar : visible Mpu.rbar.address)
    (hlar : visible Mpu.rlar.address) : g.slots = f.slots := by
  funext i
  have hb := hfg.rbar hbar i
  have hl := hfg.rlar hlar i
  cases hg : g.slots i
  cases hf : f.slots i
  simp_all

theorem agreeOn_write {a : Address} (w : Word) (ha : ¬ visible a) :
    AgreeOn visible f (f.write a w) where
  stored b hb := by
    refine stored_write_of_ne f w ?_
    rintro rfl
    exact ha hb
  rbar hbar i := by
    have hne : a ≠ Mpu.rbar.address := by
      rintro rfl
      exact ha hbar
    unfold write
    rw [if_neg hne]
    split
    · dsimp only [changeSlot]
      split <;> rfl
    · split <;> rfl
  rlar hlar i := by
    have hne : a ≠ Mpu.rlar.address := by
      rintro rfl
      exact ha hlar
    unfold write
    rw [if_neg hne]
    split
    · dsimp only [changeSlot]
      split <;> rfl
    · split <;> rfl

theorem agreeOn_record (op : BusOp) : AgreeOn visible f (f.record op) :=
  ⟨fun _ _ => rfl, fun _ _ => rfl, fun _ _ => rfl⟩

theorem agreeOn_perform {op : BusOp} (hop : op.WritesOnly (¬ visible ·)) :
    AgreeOn visible f (Bus.perform op f) := by
  cases op with
  | write a w => exact (agreeOn_record _).trans (agreeOn_write w hop)
  | dataBarrier => exact agreeOn_record _
  | instructionBarrier => exact agreeOn_record _

/-- A script is not seen where it does not write. -/
theorem agreeOn_execute (hscript : Bus.Confined (¬ visible ·) script) :
    AgreeOn visible f (Bus.execute script f) := by
  induction script generalizing f with
  | nil => exact .refl visible f
  | cons op script ih =>
    have hop : AgreeOn visible f (Bus.perform op f) :=
      agreeOn_perform (hscript op List.mem_cons_self)
    exact hop.trans (ih fun op' hop' => hscript op' (List.mem_cons_of_mem _ hop'))

theorem stored_execute_of_confined {a : Address} (hscript : Bus.Confined (· ≠ a) script)
    (f : RegisterFile) : (Bus.execute script f).stored a = f.stored a := by
  have hagree : AgreeOn (· = a) f (Bus.execute script f) := agreeOn_execute hscript
  exact hagree.stored a rfl

/-- Whether a file has the property can be told from the addresses of the set. -/
def LocalTo (P : RegisterFile → Prop) (visible : Address → Prop) : Prop :=
  ∀ f g, AgreeOn visible f g → P f → P g

theorem localTo_stored (a : Address) (P : Word → Prop) :
    LocalTo (fun f => P (f.stored a)) (· = a) := by
  intro f g hfg hf
  rw [hfg.stored a rfl]
  exact hf

variable {P Q : RegisterFile → Prop} {other : Address → Prop}

theorem LocalTo.and (hP : LocalTo P visible) (hQ : LocalTo Q other) :
    LocalTo (fun f => P f ∧ Q f) (fun a => visible a ∨ other a) := by
  rintro f g hfg ⟨hf, hf'⟩
  exact ⟨hP f g (hfg.mono fun _ => .inl) hf, hQ f g (hfg.mono fun _ => .inr) hf'⟩

/-- A property holds throughout a script that writes elsewhere, if it holds at the start. -/
theorem LocalTo.throughout (hP : LocalTo P visible)
    (hscript : Bus.Confined (¬ visible ·) script) (hf : P f) :
    Bus.Throughout P script f :=
  Bus.Throughout.of_step (fun op hop g hg => hP g _ (agreeOn_perform (hscript op hop)) hg) hf

theorem LocalTo.execute (hP : LocalTo P visible)
    (hscript : Bus.Confined (¬ visible ·) script) (hf : P f) :
    P (Bus.execute script f) :=
  hP f _ (agreeOn_execute hscript) hf

end AgreeOn

end GuardedBoot.RegisterFile
