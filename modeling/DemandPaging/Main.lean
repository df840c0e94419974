/-
  The command line: runs the demonstration and prints its lines.
-/
import DemandPaging.Demo

/-- Prints the lines of the demonstration, then the fault that ended it, if any. -/
def main : IO UInt32 := do
  match DemandPaging.Demo.run with
  | .error v =>
    IO.eprintln v.message
    return 101
  | .ok (lines, result) =>
    lines.forM fun line => IO.println line
    match result with
    | .ok () => return 0
    | .error e =>
      IO.eprintln s!"Error: {e.message}"
      return 1
