import GuardedBoot.Board

/-!
# The demonstration as a program

Boots the board and prints what it reports.
-/

open GuardedBoot in
/-- Prints the console output of the board and ends with its status. -/
def main : IO UInt32 := do
  let (lines, status) := Board.demonstration
  lines.forM IO.println
  return status.toUInt32
