import GuardedBoot.Boot.Sequence
import GuardedBoot.Device.Core

/-!
# The board

An evaluation board with a Cortex-M33, its configuration and hooks, and a run of its image on a
register file.

## Main definitions

- `Board.hooks`, `Board.config`, `Board.layout` — what is particular to the board
- `Board.demonstration` — a boot with a small application
-/

namespace GuardedBoot.Board

/-- The name of the board's processor. -/
def name : String := "MIMXRT685"

/-- Clocks, pins and consoles stay as the boot code in read-only memory leaves them, so the hooks
only report. -/
def hooks {σ : Type} : Hooks σ where
  afterData := .say .info s!"{name} booting"
  atExit := .say .info "Bye!"

/-- The aperture covers external memory, the bus peripherals and the processor's own. -/
def config : ProtectionConfig where
  aperture := ⟨0x40000000, 0xdfffffff⟩

/-- The layout of a small image. -/
def layout : ImageLayout where
  codeStart := 0x08001000
  codeEnd := 0x08009000
  rodataStart := 0x08009000
  rodataEnd := 0x0800a000
  dataStart := 0x20080000
  ramTop := 0x20200000

/-- An application that reports by which comparators it is watched. -/
def app {σ : Type} (secured : Option Secured) : Run σ Unit := do
  if let some ⟨_, a⟩ := secured then
    .say .info
      s!"Code watched by pair {a.code.index}, debug registers by pair {a.debugRegisters.index}"
  .say .info "Application started"

/-- A boot of the board on the registers of a core. -/
def boot : Run RegisterFile Unit :=
  Boot.run hooks config layout app

/-- The console output of a boot on a core with four comparators, whose two pairs can both watch a
range, and the status that it ends with: zero unless it stopped early. -/
def demonstration : List String × Nat :=
  match RegisterFile.m33 4 [0, 1] with
  | .error _ => ([], 101)
  | .ok core =>
    match boot { bus := core } with
    | .ok _ s => (Log.console s.log, 0)
    | .error _ s => (Log.console s.log, 101)

end GuardedBoot.Board
