import GuardedBoot.Mpu.Table
import GuardedBoot.Watch.Arming

/-!
# The boot sequence

Memory protection and watchpoints are set up before the application runs. With protection wanted,
the application runs fully protected or not at all.

## Main definitions

- `ProtectionConfig` — whether protection is wanted, and where the peripherals lie
- `Secured` — the protection that is in force
- `Boot.secure` — checks everything, then programs protection and watchpoints
- `Boot.start` — `Boot.secure` if the configuration wants it; a refusal halts
- `Hooks`, `Boot.run` — the sequence from the board's first hook to its last

## Design notes

Every check comes before the first write, so a refused set-up writes nothing.
-/

namespace GuardedBoot

/-- Whether protection is wanted, and where the peripherals lie. -/
structure ProtectionConfig where
  /-- The boot sequence sets up protection and watchpoints; without, it only runs the application. -/
  enabled : Bool := true
  /-- The addresses of the peripherals. -/
  aperture : Aperture := ⟨0x40000000, 0xdfffffff⟩
  deriving DecidableEq

/-- The protection that is in force once it is set up. -/
structure Secured where
  table : Mpu.Table
  assignment : Watch.Assignment
  deriving DecidableEq

/-- What a board does around the boot sequence. -/
structure Hooks (σ : Type) where
  /-- Runs before the data of the image is initialized. -/
  beforeData : Run σ Unit := pure ()
  /-- Brings up clocks, pins and console, before protection is set up. -/
  afterData : Run σ Unit := pure ()
  /-- Runs after the application has returned. -/
  atExit : Run σ Unit := pure ()

variable {σ α : Type} [Bus σ]

/-- The duty whose watchpoint has fired since this was last asked. -/
def Secured.fired (secured : Secured) : Run σ (Option Watch.Duty) :=
  secured.assignment.fired

namespace Boot

/-- Checks the layout and the hardware, then programs protection and after it the watchpoints. -/
def secure (config : ProtectionConfig) (m : ImageLayout) : Run σ Secured := do
  let table ← .orRefuse (Mpu.Table.ofLayout m config.aperture)
  Mpu.requireSlots
  let assignment ← Watch.choose
  table.enforce
  assignment.arm m.code
  return ⟨table, assignment⟩

/-- Sets up protection if the configuration wants it; a refusal halts the boot. -/
def start (config : ProtectionConfig) (m : ImageLayout) : Run σ (Option Secured) := do
  if config.enabled then
    match ← (secure config m).settle with
    | .ok secured =>
      .say .info "Security init complete"
      return some secured
    | .error reason =>
      .abort s!"Security init failed: {reason.message} (status {reason.status.code})"
  else
    .say .warn "Memory protection disabled, skipping security init"
    return none

/-- The whole sequence once the data of the image is initialized. The application is given the
protection that is in force, if there is any. -/
def run (hooks : Hooks σ) (config : ProtectionConfig) (m : ImageLayout)
    (app : Option Secured → Run σ α) : Run σ α := do
  hooks.afterData
  let secured ← start config m
  let result ← app secured
  hooks.atExit
  return result

end Boot

end GuardedBoot
