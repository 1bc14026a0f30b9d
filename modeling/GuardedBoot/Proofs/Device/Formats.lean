import GuardedBoot.Mpu.Registers
import GuardedBoot.Watch.Registers
import GuardedBoot.Proofs.Word.Updates

/-!
# The formats of the registers

The fields of every register that is written, with the kind of each. They lie within the word, the
codes of a choice fit the bits it has, and no two fields of a register share a bit.

## Main definitions

- `Mpu.Ctrl.Name`, `Mpu.Rbar.Name`, `Watch.Function.Name`, … — the fields of each register

## Main statements

- `formats_independent` — the fields of every register are updated independently
-/

namespace GuardedBoot

namespace Mpu

/-- The fields of the control register. -/
inductive Ctrl.Name where
  | enable
  | faultEnable
  | privilegedDefault
  deriving DecidableEq

instance Ctrl.format : Format Ctrl where
  Name := Ctrl.Name
  decEq := inferInstance
  kind
    | .enable => .flag 0
    | .faultEnable => .flag 1
    | .privilegedDefault => .flag 2
  field
    | .enable => Ctrl.enable
    | .faultEnable => Ctrl.faultEnable
    | .privilegedDefault => Ctrl.privilegedDefault
  field_eq n := by cases n <;> rfl
  wellPlaced n := by cases n <;> decide
  disjoint m n h := by cases m <;> cases n <;> first | exact absurd rfl h | decide

/-- The field of the region number register. -/
inductive Rnr.Name where
  | region
  deriving DecidableEq

instance Rnr.format : Format Rnr where
  Name := Rnr.Name
  decEq := inferInstance
  kind _ := .number Byte 0 7 8 id
  field _ := Rnr.region
  field_eq _ := rfl
  wellPlaced _ := by decide
  disjoint m n h := by cases m; cases n; exact absurd rfl h

/-- The fields of the region base address register. -/
inductive Rbar.Name where
  | executeNever
  | access
  | shareability
  | base
  deriving DecidableEq

instance Rbar.format : Format Rbar where
  Name := Rbar.Name
  decEq := inferInstance
  kind
    | .executeNever => .flag 0
    | .access => .choice AccessPermission inferInstance 1 2
    | .shareability => .choice Shareability inferInstance 3 4
    | .base => .portion 0xffffffe0
  field
    | .executeNever => Rbar.executeNever
    | .access => Rbar.access
    | .shareability => Rbar.shareability
    | .base => Rbar.base
  field_eq n := by cases n <;> rfl
  wellPlaced n := by cases n <;> decide
  disjoint m n h := by cases m <;> cases n <;> first | exact absurd rfl h | decide

/-- The fields of the region limit address register. -/
inductive Rlar.Name where
  | enable
  | attributeIndex
  | privilegedExecuteNever
  | limit
  deriving DecidableEq

instance Rlar.format : Format Rlar where
  Name := Rlar.Name
  decEq := inferInstance
  kind
    | .enable => .flag 0
    | .attributeIndex => .number Byte 1 3 8 id
    | .privilegedExecuteNever => .flag 4
    | .limit => .portion 0xffffffe0
  field
    | .enable => Rlar.enable
    | .attributeIndex => Rlar.attributeIndex
    | .privilegedExecuteNever => Rlar.privilegedExecuteNever
    | .limit => Rlar.limit
  field_eq n := by cases n <;> rfl
  wellPlaced n := by cases n <;> decide
  disjoint m n h := by cases m <;> cases n <;> first | exact absurd rfl h | decide

/-- The four attributes of an attribute register are numbered. -/
instance Mair.format : Format Mair where
  Name := Fin 4
  decEq := inferInstance
  kind i := .number MemoryAttribute (8 * i) (8 * i + 7) 8 MemoryAttribute.encoding
  field := Mair.entry
  field_eq _ := rfl
  wellPlaced i := by
    show 8 * (i : Nat) ≤ 8 * i + 7 ∧ 8 * (i : Nat) + 7 < 32
    omega
  disjoint := by decide

end Mpu

namespace Watch

/-- The field of a comparator's value register. -/
inductive Comparator.Name where
  | value
  deriving DecidableEq

instance Comparator.format : Format Comparator where
  Name := Comparator.Name
  decEq := inferInstance
  kind _ := .portion 0xffffffff
  field _ := Comparator.value
  field_eq _ := rfl
  wellPlaced _ := by decide
  disjoint m n h := by cases m; cases n; exact absurd rfl h

/-- The fields of a comparator's function register, of which two are never written. -/
inductive Function.Name where
  | condition
  | action
  | dataSize
  | matched
  | capability
  deriving DecidableEq

instance Function.format : Format Function where
  Name := Function.Name
  decEq := inferInstance
  kind
    | .condition => .choice Condition inferInstance 0 3
    | .action => .choice Reaction inferInstance 4 5
    | .dataSize => .number Byte 10 11 8 id
    | .matched => .readOnly (.flag 24)
    | .capability => .readOnly (.number Byte 27 31 8 id)
  field
    | .condition => Function.condition
    | .action => Function.action
    | .dataSize => Function.dataSize
    | .matched => Function.matched
    | .capability => Function.capability
  field_eq n := by cases n <;> rfl
  wellPlaced n := by cases n <;> decide
  disjoint m n h := by cases m <;> cases n <;> first | exact absurd rfl h | decide

/-- The fields of the debug monitor's control register. -/
inductive Demcr.Name where
  | catchReset
  | monitorEnable
  | monitorPending
  | monitorStep
  | monitorRequest
  | traceEnable
  deriving DecidableEq

instance Demcr.format : Format Demcr where
  Name := Demcr.Name
  decEq := inferInstance
  kind
    | .catchReset => .flag 0
    | .monitorEnable => .flag 16
    | .monitorPending => .flag 17
    | .monitorStep => .flag 18
    | .monitorRequest => .flag 19
    | .traceEnable => .flag 24
  field
    | .catchReset => Demcr.catchReset
    | .monitorEnable => Demcr.monitorEnable
    | .monitorPending => Demcr.monitorPending
    | .monitorStep => Demcr.monitorStep
    | .monitorRequest => Demcr.monitorRequest
    | .traceEnable => Demcr.traceEnable
  field_eq n := by cases n <;> rfl
  wellPlaced n := by cases n <;> decide
  disjoint m n h := by cases m <;> cases n <;> first | exact absurd rfl h | decide

end Watch

/-- In every register that is written, fields are updated independently of each other and of all
other bits, and the last update of each wins. The two attribute registers have one format. -/
theorem formats_independent :
    Format.Independent Mpu.Ctrl ∧ Format.Independent Mpu.Rnr ∧ Format.Independent Mpu.Rbar ∧
      Format.Independent Mpu.Rlar ∧ Format.Independent Mpu.Mair ∧
      Format.Independent Watch.Comparator ∧ Format.Independent Watch.Function ∧
      Format.Independent Watch.Demcr :=
  ⟨Format.independent _, Format.independent _, Format.independent _, Format.independent _,
    Format.independent _, Format.independent _, Format.independent _, Format.independent _⟩

/-- Of two conditions the second is left, and the bits that are never written stay. -/
example :
    ((⟨0xf9000010⟩ : Contents Watch.Function).updateAll
      [⟨Watch.Function.Name.condition, Watch.Condition.dataValueRead⟩,
        ⟨Watch.Function.Name.action, Watch.Reaction.traceMatch⟩,
        ⟨Watch.Function.Name.condition, Watch.Condition.dataAddress⟩]).word = 0xf9000024 := by
  decide

end GuardedBoot
