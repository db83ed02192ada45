import Publishing.Shell.Run
import Publishing.Shell.Utility.Calculation
import Publishing.Shell.Utility.Columns
import Publishing.Shell.Utility.Dump
import Publishing.Shell.Utility.Edit
import Publishing.Shell.Utility.Find
import Publishing.Shell.Utility.Grep
import Publishing.Shell.Utility.Listing
import Publishing.Shell.Utility.Names
import Publishing.Shell.Utility.Process
import Publishing.Shell.Utility.Translate

/-
The programs that scripts can call.
-/

namespace Publishing
namespace Shell

namespace Program

def isFull (why : String) : Bool := why = "No space left on device"

/-- What programs report that write line by line. -/
def lineFailure (name : String) (status n : Nat) (why : String) : Act Nat := do
  if isFull why then
    report name "write error".toList
    return status
  else writeFailure name status n why

def sortFailure (_ : Nat) (why : String) : Act Nat := do
  report "sort" ("fflush failed: 'standard output': " ++ why).toList
  report "sort" "write error".toList
  return 2

def sedFailure (_ : Nat) (why : String) : Act Nat := do
  report "sed" ((if isFull why then "couldn't flush stdout: " else "couldn't close stdout: ") ++
    why).toList
  return 4

def findFailure (n : Nat) (why : String) : Act Nat := do
  report "find" (Bytes.ofString "‘standard output’: " ++ why.toList)
  lineFailure "find" 1 n why

/-- The program that turns lines round only notices a full device. -/
def revFailure (n : Nat) (why : String) : Act Nat :=
  if isFull why then writeFailure "rev" 1 n why else return n

/-- Programs with their own way to say that they cannot write. -/
def careful : Programs :=
  [("wc", writing (lineFailure "wc" 1) wc), ("sort", writing sortFailure sort),
   ("sed", writing sedFailure sed), ("find", writing findFailure find),
   ("rev", writing revFailure rev), ("ls", writing (writeFailure "ls" 2) ls),
   ("grep", writing (writeFailure "grep" 2) grep),
   ("egrep", writing (writeFailure "grep" 2) (grepWith (some .extended))),
   ("fgrep", writing (writeFailure "grep" 2) (grepWith (some .fixed))),
   ("expr", writing (writeFailure "expr" 3) expr),
   ("printenv", writing (writeFailure "printenv" 2) printenv), ("tee", writing (fun n _ => return n) tee), ("yes", yes),
   ("true", fun _ => return 0), ("false", fun _ => return 1), ("sleep", sleep), ("kill", killUtility),
   ("test", testUtility []), ("[", bracketUtility [])]

/-- Programs that say it as most do. -/
def common : Programs :=
  [("cat", cat), ("head", head), ("tail", tail), ("tac", tac), ("nl", nl), ("tr", tr), ("cut", cut),
   ("paste", paste), ("fold", fold), ("seq", seq), ("uniq", uniq), ("mkdir", mkdir),
   ("touch", touch), ("chmod", chmod), ("rmdir", rmdir), ("rm", rm), ("cp", cp), ("mv", mv),
   ("basename", basename), ("dirname", dirname), ("uname", uname), ("whoami", whoami), ("id", id),
   ("base64", base64), ("sha256sum", sha256sum), ("comm", comm), ("od", od),
   ("echo", echoProgram), ("printf", printf), ("pwd", pwd)]

end Program

def programs : Programs :=
  Program.careful ++
    Program.common.map fun (name, u) => (name, Program.writing (Program.writeFailure name 1) u)

end Shell
end Publishing
