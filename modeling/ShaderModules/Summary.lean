import ShaderModules.Run

/-!
# The report on a run

A run is reported line by line: every module and source map that was written, every file that
failed with the reason, and the numbers of all at the end. Leading words may be coloured.

* `RunSummary.text`: the report.
-/

namespace ShaderModules

/-- How a part of the report looks. -/
inductive Emphasis where
  /-- Things went well. -/
  | good
  /-- Some things did not go well. -/
  | bad
  /-- This did not go well. -/
  | failure
  deriving DecidableEq, Repr

/-- The parameters that select the look on a terminal. -/
def Emphasis.parameters : Emphasis → String
  | .good => "32"
  | .bad => "31"
  | .failure => "1;31"

/-- A text with its look, when colours are in use. -/
def Emphasis.apply (e : Emphasis) (coloured : Bool) (s : String) : String :=
  if coloured then "\x1b[" ++ e.parameters ++ "m" ++ s ++ "\x1b[0m" else s

namespace FileReport

/-- The lines on a file. -/
def lines (coloured : Bool) (r : FileReport) : List String :=
  match r.outcome with
  | .written module map =>
    [Emphasis.good.apply coloured "transformed" ++ " " ++ module] ++
      (match map with
        | some map => [Emphasis.good.apply coloured "source map" ++ " " ++ map]
        | none => [])
  | .failed e =>
    [Emphasis.failure.apply coloured "failed" ++ " " ++ r.input ++ ": " ++ Problem.line e]

end FileReport

namespace RunSummary

/-- The numbers of written, failed and skipped files. -/
def totals (s : RunSummary) : String :=
  toString s.written ++ " written, " ++ toString s.failed ++ " failed, " ++ toString s.skipped ++
    " skipped"

/-- The report on a run. -/
def text (coloured : Bool) (s : RunSummary) : String :=
  let last := (if s.failed = 0 then Emphasis.good else Emphasis.bad).apply coloured s.totals
  String.join ((s.reports.flatMap (FileReport.lines coloured) ++ [last]).map (· ++ "\n"))

end RunSummary

end ShaderModules
