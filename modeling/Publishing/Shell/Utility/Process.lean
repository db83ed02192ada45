import Publishing.Shell.Utility.Gathering

/-
The programs that let time pass, or that only succeed or fail.
-/

namespace Publishing
namespace Shell

namespace Program

def sleep : Utility := fun args =>
  withOptions "sleep" 1 ⟨"", "", []⟩ args fun g => do
    if g.operands.isEmpty then misuse "sleep" 1 "missing operand".toList
    else
      let wrong := g.operands.filter fun a => (duration? a).isNone
      for a in wrong do report "sleep" ("invalid time interval ".toList ++ quotedWord a)
      if !wrong.isEmpty then
        hint "sleep"
        return 1
      let durations := g.operands.filterMap duration?
      if durations.any (·.isNone) then Act.stop .endless
      Act.pass (durations.foldl (fun n d => n + d.getD 0) 0)
      return 0

/-- Print a line again and again. -/
def yes : Utility := fun args => do
  if let some why ← Act.outputFault? 1 then
    report "yes" ("standard output: " ++ why).toList
    return 1
  let line := (if args.isEmpty then ['y'] else Bytes.joined [' '] args) ++ ['\n']
  let repeated := (List.replicate (200000 / line.length + 1) line).flatten
  Act.print repeated
  Act.stop .endless

end Program
end Shell
end Publishing
