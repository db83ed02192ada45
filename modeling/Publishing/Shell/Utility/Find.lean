import Publishing.Shell.Pattern
import Publishing.Shell.Utility.Entry

/-
The program that walks through directories.
-/

namespace Publishing
namespace Shell

namespace Program

/-- What is asked of each path. -/
inductive Question where
  | name (pattern : Bytes) (folds : Bool)
  | path (pattern : Bytes)
  | directory
  | file
  | empty
  | never
  | not (q : Question)

/-- What is known of a path. -/
structure Walked where
  path : Bytes
  node : FileNode
  depth : Nat

def Question.holds (w : Walked) : Question → Bool
  | name pattern folds =>
    let lower (cs : Bytes) : Bytes := if folds then cs.map Char.toLower else cs
    Pattern.fits (lower pattern) (lower (baseOf w.path))
  | path pattern => Pattern.fits pattern w.path
  | directory => w.node.isDirectory
  | file => !w.node.isDirectory
  | empty => match w.node with
    | .file content => content.isEmpty
    | .directory es => es.isEmpty
  | never => false
  | not q => !q.holds w
where
  baseOf (path : Bytes) : Bytes :=
    let name := lastName path
    if name = [] then path.take 1 else name

structure Walk where
  questions : List Question
  least : Nat
  most : Option Nat
  deletes : Bool

/-- What the arguments after the paths ask. -/
def readWalk (fuel : Nat) (args : List Bytes) (negated : Bool) (w : Walk) : Except Bytes Walk :=
  match fuel, args with
  | 0, _ | _, [] => .ok w
  | fuel + 1, arg :: rest =>
    let name := String.ofList arg
    let ask (q : Question) (rest : List Bytes) : Except Bytes Walk :=
      let q := if negated then .not q else q
      readWalk fuel rest false { w with questions := w.questions ++ [q] }
    if name = "!" ∨ name = "-not" then readWalk fuel rest (!negated) w
    else if ["-print", "-a", "-and", "-mount", "-xdev", "-depth"].contains name then
      readWalk fuel rest negated w
    else if name = "-delete" then readWalk fuel rest negated { w with deletes := true }
    else if name = "-empty" then ask .empty rest
    else if name = "-false" then ask .never rest
    else if name = "-true" then ask (.not .never) rest
    else if !(["-name", "-iname", "-path", "-type", "-maxdepth", "-mindepth"].contains name) then
      .error ("unknown predicate \x60".toList ++ arg ++ ['\''])
    else
      match rest with
      | [] => .error ("missing argument to \x60".toList ++ arg ++ ['\''])
      | value :: rest =>
        match name, Bytes.natural? value with
        | "-name", _ => ask (.name value false) rest
        | "-iname", _ => ask (.name value true) rest
        | "-path", _ => ask (.path value) rest
        | "-type", _ =>
          match value with
          | ['f'] => ask .file rest
          | ['d'] => ask .directory rest
          | ['l'] | ['p'] | ['s'] | ['b'] | ['c'] => ask .never rest
          | _ => .error ("Unknown argument to -type: ".toList ++ value)
        | "-maxdepth", some n => readWalk fuel rest negated { w with most := some n }
        | "-mindepth", some n => readWalk fuel rest negated { w with least := n }
        | _, _ =>
          .error ("Expected a positive decimal integer argument to ".toList ++ arg ++
            ", but got ".toList ++ quotedWord value)

def find : Utility := fun args => do
  let isPath (arg : Bytes) : Bool := arg.head? ≠ some '-' && arg ≠ ['!'] && arg ≠ ['(']
  let paths := args.takeWhile isPath
  match readWalk (args.length + 1) (args.dropWhile isPath) false ⟨[], 0, none, false⟩ with
  | .error cs =>
    report "find" cs
    return 1
  | .ok w =>
    let mut all := true
    for path in (if paths.isEmpty then [['.']] else paths) do
      match ← stat path with
      | .error cause =>
        report "find" (quotedWord path ++ ": ".toList ++ cause.reason.toList)
        all := false
      | .ok (place, n) =>
        let walked := (FileNode.nodes [] n).map fun (below, node) =>
          (below, Walked.mk (below.foldl (fun p name => under p (Bytes.ofString name)) path) node
            below.length)
        let chosen := walked.filter fun (_, k) =>
          w.least ≤ k.depth && !(w.most.any (· < k.depth)) && w.questions.all (·.holds k)
        if w.deletes then
          for (below, _) in chosen.reverse do removeAt (place ++ below)
        else for (_, k) in chosen do Act.printLine k.path
    return statusOf all

end Program
end Shell
end Publishing
