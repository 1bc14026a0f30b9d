import GuardedBoot.Mpu.Registers
import GuardedBoot.Watch.Registers

/-!
# The register file

The registers of a core as the boot sequence sees them. Most keep the word last written; some have
bits that writes do not reach; the two region registers show the slot of the protection unit that
is selected at the time; and a latched match is cleared when it is read. All writes and barriers
are kept in order.

## Main definitions

- `RegisterFile` — the words, the slots and the events so far
- `RegisterFile.read`, `RegisterFile.perform` — the file as a bus
- `RegisterFile.slot`, `RegisterFile.comparator`, `RegisterFile.writes` — looking inside without
  side effects

## Design notes

The file is a function of the address, zero where nothing was stored, so two files with the same
contents are equal. The word stored at the addresses of the region registers is never shown by a
read: those show the selected slot.
-/

namespace GuardedBoot

open Mpu Watch

/-- The number of region slots of the protection unit. -/
abbrev slotCount : Nat := 16

/-- One region slot of the protection unit. -/
structure Slot where
  rbar : Contents Rbar
  rlar : Contents Rlar
  deriving DecidableEq

/-- An empty slot. -/
def Slot.empty : Slot := ⟨Contents.zero, Contents.zero⟩

/-- The registers of a core. -/
@[ext] structure RegisterFile where
  /-- The word stored at each address. -/
  stored : Address → Word
  /-- The bits at an address that writes do not reach; only such registers latch matches. -/
  readOnly : Address → Option Word
  /-- The region slots of the protection unit. -/
  slots : Fin slotCount → Slot
  /-- The writes and barriers so far, first to last. -/
  events : List BusOp

namespace RegisterFile

/-- A file in which every register reads as zero. -/
def empty : RegisterFile where
  stored _ := 0
  readOnly _ := none
  slots _ := .empty
  events := []

variable (f : RegisterFile)

/-- The file with a word stored at an address. -/
def store (address : Address) (w : Word) : RegisterFile :=
  { f with stored := fun a => if a = address then w else f.stored a }

/-- The slot that the region registers show. -/
def selected : Fin slotCount :=
  Fin.ofNat slotCount (f.stored rnr.address).toNat

/-- The file with the selected slot changed. -/
def changeSlot (change : Slot → Slot) : RegisterFile :=
  { f with slots := fun i => if i = f.selected then change (f.slots i) else f.slots i }

/-- The bit in which a comparator latches a match. -/
def matchedBit : Word := Function.matched.mask

/-- The word at an address, and the file after it was read: a latched match is gone. -/
def read (address : Address) : Word × RegisterFile :=
  if address = Mpu.rbar.address then
    ((f.slots f.selected).rbar.word, f)
  else if address = Mpu.rlar.address then
    ((f.slots f.selected).rlar.word, f)
  else
    let w := f.stored address
    if w &&& matchedBit ≠ 0 ∧ (f.readOnly address).isSome then
      (w, f.store address (w &&& ~~~matchedBit))
    else
      (w, f)

/-- The file after a word was written to an address; read-only bits keep their value. -/
def write (address : Address) (w : Word) : RegisterFile :=
  if address = Mpu.rbar.address then
    f.changeSlot fun s => { s with rbar := ⟨w⟩ }
  else if address = Mpu.rlar.address then
    f.changeSlot fun s => { s with rlar := ⟨w⟩ }
  else
    match f.readOnly address with
    | none => f.store address w
    | some mask => f.store address (f.stored address &&& mask ||| (w &&& ~~~mask))

/-- The file with an event added to the list. -/
def record (op : BusOp) : RegisterFile :=
  { f with events := f.events ++ [op] }

/-- The file after an operation; barriers change nothing else. -/
def perform (op : BusOp) : RegisterFile :=
  match op with
  | .write address w => (f.record op).write address w
  | .dataBarrier | .instructionBarrier => f.record op

instance : Bus RegisterFile where
  read address f := f.read address
  perform op f := f.perform op

/-- A region slot by number. -/
def slot (index : Nat) : Except Halt Slot :=
  if h : index < slotCount then .ok (f.slots ⟨index, h⟩) else .error (.slotIndex slotCount index)

/-- The value and the function of a comparator. -/
def comparator (index : Nat) : Except Halt (Contents Comparator × Contents Function) := do
  let value ← comparators.get index
  let function ← functions.get index
  return (⟨f.stored value.address⟩, ⟨f.stored function.address⟩)

/-- The writes so far, in order. -/
def writes : List (Address × Word) :=
  f.events.filterMap fun
    | .write address w => some (address, w)
    | _ => none

/-- The place among the events of the first write to an address. -/
def firstWriteAt (address : Address) : Option Nat :=
  f.events.findIdx? fun
    | .write a _ => a == address
    | _ => false

/-- The file with a match latched in a comparator, as when its watchpoint fires. -/
def latchMatch (comparator : Nat) : Except Halt RegisterFile := do
  let r ← functions.get comparator
  return f.store r.address (f.stored r.address ||| matchedBit)

@[simp] theorem stored_store_self (a : Address) (w : Word) : (f.store a w).stored a = w := by
  simp [store]

@[simp] theorem stored_store_of_ne {a b : Address} (w : Word) (h : b ≠ a) :
    (f.store a w).stored b = f.stored b := by
  simp [store, h]

@[simp] theorem events_record (op : BusOp) : (f.record op).events = f.events ++ [op] := rfl

/-- A write leaves the list of events alone. -/
@[simp] theorem events_write (a : Address) (w : Word) : (f.write a w).events = f.events := by
  unfold write
  split
  · rfl
  · split
    · rfl
    · split <;> rfl

/-- Every operation leaves exactly one event. -/
@[simp] theorem events_perform (op : BusOp) : (f.perform op).events = f.events ++ [op] := by
  cases op <;> simp [perform]

/-- A read leaves the list of events alone. -/
@[simp] theorem events_read (a : Address) : (f.read a).2.events = f.events := by
  unfold read
  split
  · rfl
  · split
    · rfl
    · dsimp only
      split <;> rfl

end RegisterFile

end GuardedBoot
