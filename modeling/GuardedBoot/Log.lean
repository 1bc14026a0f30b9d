/-!
# Log entries

What the boot sequence reports while it runs: a text and how serious it is. Each entry is printed
on the console behind the tag of its level.

## Main definitions

- `Log.Level` — the levels, in ascending order of severity
- `Log.Entry` — one report
- `Log.console` — the lines that a list of entries fills on the console
-/

namespace GuardedBoot.Log

/-- How serious a report is. -/
inductive Level where
  /-- Detailed diagnostics, such as decoded register values. -/
  | debug
  /-- Milestones of normal operation. -/
  | info
  /-- Unexpected conditions that are tolerated. -/
  | warn
  /-- Failed operations. -/
  | error
  /-- Conditions that compromise the system. -/
  | critical
  /-- Conditions without recovery, reported right before the system halts. -/
  | fatal
  deriving DecidableEq

namespace Level

/-- The level's number in the wire encoding of log messages, which leaves 6 unused. -/
def number : Level → Nat
  | .debug => 1
  | .info => 2
  | .warn => 3
  | .error => 4
  | .critical => 5
  | .fatal => 7

/-- Levels are compared by severity. -/
instance : Ord Level := ⟨fun a b => compare a.number b.number⟩

/-- The three letters that stand for the level on the console. -/
def tag : Level → String
  | .debug => "DBG"
  | .info => "INF"
  | .warn => "WRN"
  | .error => "ERR"
  | .critical => "CRT"
  | .fatal => "FTL"

end Level

/-- One report. -/
structure Entry where
  level : Level
  text : String
  deriving DecidableEq

/-- The entry as it is printed, without the newline that ends it. -/
def Entry.line (e : Entry) : String :=
  "[" ++ e.level.tag ++ "] " ++ e.text

/-- The lines that the entries fill on the console; a text with line breaks fills several. -/
def console (entries : List Entry) : List String :=
  entries.flatMap fun e => e.line.splitOn "\n"

end GuardedBoot.Log
