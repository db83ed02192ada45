import Publishing.Operation.Report
import Publishing.Overview
import Publishing.Run

/-
What the commands print.
-/

namespace Publishing
namespace CommandLine

/-- Fill up with blanks after the text. -/
def padRight (width : Nat) (text : String) : String :=
  text ++ String.ofList (List.replicate (width - text.length) ' ')

/-- Fill up with blanks before the number. -/
def padLeft (width n : Nat) : String :=
  let text := toString n
  String.ofList (List.replicate (width - text.length) ' ') ++ text

def lines (l : List String) : String := String.join (l.map (· ++ "\n"))

def report (r : Report) : String :=
  lines (r.message :: r.entities.map ("  " ++ ·) ++
    r.skipped.map fun s => "  skipped " ++ s.id ++ ": " ++ s.reason.message)

def summary (s : Summary) : String :=
  let count (name : String) (n : Nat) : String := "    " ++ padRight 12 name ++ " " ++ toString n
  lines (
    ["  Entities: " ++ toString s.total] ++
    s.byStatus.map (fun c => count c.1.name c.2) ++
    ["  Waiting at:"] ++
    Step.all.map (fun step => count step.name ((s.byStep.lookup step).getD 0)) ++
    s.attention.map (fun a => "  " ++ a.2.2.name ++ ": " ++ a.1 ++ " at " ++ a.2.1.name) ++
    s.stuck.map (fun id => "  stuck: " ++ id ++ " (resolve with complete or fail)") ++
    s.lastBatch.toList.map fun b =>
      "  Last batch: " ++ b.step.name ++ " at " ++ b.timestamp.display ++ " (" ++
        toString b.processed ++ " processed, " ++ toString b.failed ++ " failed)")

def outlook (o : Outlook) : String :=
  lines (o.message :: o.ready.map (fun e => "  " ++ e.1 ++ " at " ++ e.2.name) ++
    o.stuck.map ("  stuck: " ++ ·))

/-- Seconds with one decimal place. -/
def seconds (ms : Nat) : String :=
  let tenths := (ms + 50) / 100
  toString (tenths / 10) ++ "." ++ toString (tenths % 10)

def run (s : RunSummary) : String :=
  let batch (b : Batch) : String :=
    "  " ++ padRight 10 b.step.name ++ " processed " ++ padLeft 4 b.processed ++ "  succeeded " ++
      padLeft 4 b.succeeded ++ "  failed " ++ padLeft 4 b.failed ++ "  (" ++
      toString b.durationMs ++ " ms)"
  lines (
    ["", "  Run " ++ s.runId.text] ++
    s.batches.map batch ++
    (if s.batches.isEmpty then ["  Nothing pending."] else []) ++
    s.failures.map (fun f => "  failed: " ++ f.text) ++
    s.stuck.map (fun f => "  stuck:  " ++ f.stuckError.message) ++
    ["  Time:   " ++ seconds s.durationMs ++ "s", ""])

end CommandLine
end Publishing
