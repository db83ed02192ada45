import Publishing.Shell.Condition
import Publishing.Shell.Jobs
import Publishing.Shell.Expansion
import Publishing.Shell.Signals

/-
The utilities that change the shell itself.
-/

namespace Publishing
namespace Shell

/-- A count that is given or not. -/
def numberArgument (standard : Nat) (args : List Bytes) : Act Nat := do
  match args with
  | [] => return standard
  | arg :: _ =>
    match Bytes.natural? arg with
    | some n => if n < 2147483648 then return n else wrong arg
    | none => wrong arg
where
  wrong (arg : Bytes) : Act Nat := Act.fault ("Illegal number: ".toList ++ arg)

/-- The letters of the options in front of the arguments, and the arguments. -/
def optionLetters (allowed : List Char) : (args : List Bytes) → Act (List Char × List Bytes)
  | ['-', '-'] :: rest => return ([], rest)
  | ('-' :: c :: cs) :: rest => do
    match (c :: cs).find? fun c => !allowed.contains c with
    | some c => Act.fault ("Illegal option -".toList ++ [c])
    | none =>
      let (more, rest) ← optionLetters allowed rest
      return (c :: cs ++ more, rest)
  | args => return ([], args)

def exit : Utility := fun args => do
  let n ← numberArgument (← Act.context).status args
  Act.setStatus n
  Act.stop .exit

def returnUtility : Utility := fun args => do
  let n ← numberArgument (← Act.context).status args
  Act.modifyContext fun c => { c with skip := .leaveFunction }
  return n

/-- Leave loops, or begin their next turn. -/
def leaveLoops (skip : Nat → Skip) : Utility := fun args => do
  let n ← numberArgument 1 args
  if n = 0 then Act.fault ("Illegal number: ".toList ++ args.headD [])
  let n := min n (← Act.context).loops
  if 0 < n then Act.modifyContext fun c => { c with skip := skip n }
  return 0

/-- The path of the working directory. -/
def workingPath : Act Bytes :=
  return '/' :: Bytes.joined ['/'] ((← get).files.workingDirectory.map Bytes.ofString)

/-- The paths to which a change of directory may lead, and whether the new path is shown then. -/
def directoryPaths (target : Bytes) : Act (List (Bytes × Bool)) := do
  let own := (if target = [] then ['.'] else target, false)
  let part := target.takeWhile (· ≠ '/')
  match ← Act.value? "CDPATH".toList with
  | none => return [own]
  | some path =>
    if part = [] ∨ part = ['.'] ∨ part = ['.', '.'] then return [own]
    else
      let paths := (Bytes.splitOn ':' path).map fun d =>
        if d = [] then (target, false) else (d ++ '/' :: target, true)
      return paths ++ [own]

/-- Set a variable that programs get from then on. -/
def setExported (name value : Bytes) : Act Unit := do
  Act.setVariable name value
  Act.putVariable name (some ⟨some value, true, false⟩)

def changeDirectory : Utility := fun args => do
  let (_, args) ← optionLetters ['L', 'P'] args
  let (target, back) ← match args with
    | [] => pure ((← Act.value? "HOME".toList).getD [], false)
    | ['-'] :: _ => pure ((← Act.value? "OLDPWD".toList).getD [], true)
    | arg :: _ => pure (arg, false)
  for (path, shown) in ← directoryPaths target do
    match (← get).files.find (Bytes.toText path) with
    | .ok (place, .directory _) =>
      let old ← workingPath
      modify fun s => { s with files := { s.files with workingDirectory := place } }
      setExported "OLDPWD".toList old
      setExported "PWD".toList (← workingPath)
      if back ∨ shown then Act.printLine (← workingPath)
      return 0
    | _ => pure ()
  Act.fault ("can't cd to ".toList ++ target)

def pwd : Utility := fun args => do
  let _ ← optionLetters ['L', 'P'] args
  Act.printLine (← workingPath)
  return 0

/-- The variables with a property, as commands that set them again. -/
def listVariables (command : String) (p : Variable → Bool) : Act Unit := do
  let found := (← Act.context).bindings.filter fun v => p v.2
  let ordered := found.mergeSort fun a b => decide (String.ofList a.1 ≤ String.ofList b.1)
  let front := if command = "" then [] else command.toList ++ [' ']
  for (name, v) in ordered do
    let value := match v.value with
      | some value => '=' :: singleQuoted value
      | none => []
    Act.printLine (front ++ name ++ value)

/-- Change variables that are named or assigned to. -/
def markVariables (command : String) (p : Variable → Bool) (mark : Variable → Variable) :
    Utility := fun args => do
  let (letters, args) ← optionLetters ['p'] args
  if !letters.isEmpty ∨ args.isEmpty then
    listVariables command p
    return 0
  for arg in args do
    let name := arg.takeWhile (· ≠ '=')
    Act.checkName name
    if name.length < arg.length then Act.setVariable name (arg.drop (name.length + 1))
    let v := (← Act.binding? name).getD ⟨none, false, false⟩
    Act.putVariable name (some (mark v))
  return 0

def exportUtility : Utility :=
  markVariables "export" (·.exported) fun v => { v with exported := true }

def readonlyUtility : Utility :=
  markVariables "readonly" (·.readOnly) fun v => { v with readOnly := true }

def unset : Utility := fun args => do
  let (letters, args) ← optionLetters ['f', 'v'] args
  for arg in args do
    if letters.getLast? = some 'f' then
      Act.modifyContext fun c => { c with functions := c.functions.filter fun f => f.1 ≠ arg }
    else
      Act.checkName arg
      if ((← Act.binding? arg).map (·.readOnly)).getD false then
        Act.fault (arg ++ ": is read only".toList)
      Act.putVariable arg none
  return 0

/-- Hide a variable until the function that is running returns. -/
def hideVariable (name : Bytes) : Act Unit := do
  let old ← Act.binding? name
  Act.modifyContext fun c =>
    match c.hidden with
    | [] => c
    | frame :: frames =>
      if frame.any fun v => v.1 = name then c
      else { c with hidden := ((name, old) :: frame) :: frames }

/-- Keep the options as they are until the function that is running returns.  They are kept
beside the variables, under a name that no variable has. -/
def hideOptions : Act Unit :=
  Act.modifyContext fun c =>
    match c.hidden with
    | [] => c
    | frame :: frames => { c with hidden := ((['-'], some ⟨some c.options, false, false⟩) :: frame) :: frames }

def localUtility : Utility := fun args => do
  if (← Act.context).calls = 0 then Act.faultText "not in a function"
  for arg in args do
    if arg = ['-'] then hideOptions
    else
      let name := arg.takeWhile (· ≠ '=')
      Act.checkName name
      hideVariable name
      if name.length < arg.length then Act.setVariable name (arg.drop (name.length + 1))
  return 0

/-! ## Options and arguments -/

def setOption (on : Bool) (c : Char) : Act Unit := do
  if (Act.allOptions.lookup c).isNone then Act.fault ("Illegal option -".toList ++ [c])
  if on ∧ c = 'm' then Act.report "can't access tty; job control turned off".toList
  else
    Act.modifyContext fun k =>
      let others := k.options.filter (· ≠ c)
      { k with options := if on then c :: others else others }

def setNamedOption (on : Bool) (name : Bytes) : Act Unit := do
  match Act.allOptions.find? fun o => o.2.toList = name with
  | some (c, _) => setOption on c
  | none =>
    if !(["privileged", "nolog", "debug"].contains (String.ofList name)) then
      Act.fault ("Illegal option -o ".toList ++ name)

/-- List all options, as commands that set them if that is wanted. -/
def listOptions (asCommands : Bool) : Act Unit := do
  let options := (← Act.context).options
  let list (name : String) (isOn : Bool) : Act Unit :=
    if asCommands then
      Act.printLine ("set ".toList ++ (if isOn then "-o " else "+o ").toList ++ name.toList)
    else
      Act.printLine (name.toList ++ List.replicate (16 - name.length) ' ' ++
        (if isOn then "on" else "off").toList)
  if !asCommands then Act.print "Current option settings\n".toList
  for (c, name) in Act.allOptions do list name (options.contains c)
  for name in ["privileged", "nolog", "debug"] do list name false

/-- What options in front of arguments ask for. -/
structure OptionsRead where
  rest : List Bytes
  /-- Whether a mark ended the options. -/
  ended : Bool
  /-- Whether a command follows. -/
  command : Bool

/-- Set the options in front of arguments.  At the start of a shell one of them says that
a command follows. -/
def readOptions (starting : Bool) (fuel : Nat) (command : Bool) (args : List Bytes) :
    Act OptionsRead := do
  match fuel, args with
  | 0, args => return ⟨args, false, command⟩
  | _, ['-', '-'] :: rest => return ⟨rest, true, command⟩
  | _, ['-'] :: rest =>
    if !starting then
      setOption false 'x'
      setOption false 'v'
    return ⟨rest, false, command⟩
  | fuel + 1, (sign :: letters) :: rest =>
    if sign ≠ '-' ∧ sign ≠ '+' then return ⟨args, false, command⟩
    else
      let mut rest := rest
      let mut command := command
      for c in letters do
        if c = 'c' ∧ starting then command := true
        else if c = 'l' ∧ starting then pure ()
        else if c = 'o' then
          match rest with
          | [] => if !starting then listOptions (sign = '+')
          | name :: others =>
            setNamedOption (sign = '-') name
            rest := others
        else setOption (sign = '-') c
      readOptions starting fuel command rest
  | _, args => return ⟨args, false, command⟩

def setUtility : Utility := fun args => do
  if args.isEmpty then listVariables "" (·.value.isSome)
  else
    let r ← readOptions false (args.length + 1) false args
    if r.ended ∨ !r.rest.isEmpty then
      Act.modifyContext fun c => { c with
        arguments := r.rest
        optionIndex := 1
        optionOffset := none }
  return 0

def shift : Utility := fun args => do
  let n ← numberArgument 1 args
  if (← Act.context).arguments.length < n then Act.faultText "can't shift that many"
  Act.modifyContext fun c => { c with
    arguments := c.arguments.drop n
    optionIndex := 1
    optionOffset := none }
  return 0

/-! ## Reading -/

/-- One line, with what a backslash hides.  The flag says whether a line end was met. -/
def readLine (raw : Bool) (fuel : Nat) (escaped : Bool) (acc : List Glyph) :
    Act (List Glyph × Bool) := do
  match fuel with
  | 0 => return (acc.reverse, false)
  | fuel + 1 =>
    match ← Act.take? 0 (some 1) with
    | none => return (acc.reverse, false)
    | some bytes =>
      match (Bytes.ofByteArray bytes) with
      | [] => return (acc.reverse, false)
      | c :: _ =>
        if c.toNat = 0 then readLine raw fuel escaped acc
        else if escaped then
          readLine raw fuel false (if c = '\n' then acc else .byte c true false :: acc)
        else if !raw ∧ c = '\\' then readLine raw fuel true acc
        else if c = '\n' then return (acc.reverse, true)
        else readLine raw fuel false (.byte c false true :: acc)

/-- How far a line was dealt out to names. -/
structure Dealt where
  /-- How many names are left before the last one takes what remains. -/
  left : Nat
  /-- The values in reverse order. -/
  values : List Bytes
  /-- The value that is not yet ended, in reverse order. -/
  current : Bytes
  /-- The length to which the last value is cut, if nothing but separators follows it. -/
  kept : Option Nat
  /-- Whether a value was just ended by a blank. -/
  afterBlank : Bool

namespace Dealt

/-- Go on in the value of the last name.  Blanks at its end do not belong to it, nor does the
one separator that ended it. -/
def addToLast (d : Dealt) (c : Char) (separates blank : Bool) : Dealt :=
  if blank then
    { d with current := c :: d.current, kept := some (d.kept.getD d.current.length) }
  else
    { d with
      current := c :: d.current
      kept := if separates && d.afterBlank then d.kept else none
      afterBlank := false }

/-- Go on by a separator. -/
def addSeparator (d : Dealt) (c : Char) (blank : Bool) : Dealt :=
  if blank ∧ d.current = [] then { d with afterBlank := false }
  else if d.left = 1 then
    { d with
      left := 0
      current := c :: d.current
      kept := some d.current.length
      afterBlank := blank }
  else
    { d with
      left := d.left - 1
      values := d.current.reverse :: d.values
      current := []
      afterBlank := blank }

/-- Go on by one glyph. -/
def step (separators : Bytes) (d : Dealt) : Glyph → Dealt
  | .byte c false _ =>
    let separates := separators.contains c
    let blank := separates && Cut.blank c
    if d.left = 0 then d.addToLast c separates blank
    else if d.afterBlank then
      { d with current := if separates then [] else [c], afterBlank := blank }
    else if separates then d.addSeparator c blank
    else { d with current := c :: d.current }
  | .byte c true _ => { d with current := c :: d.current, afterBlank := false }
  | _ => d

end Dealt

/-- Deal a line out to names.  Those for which nothing is left get nothing. -/
def deal (separators : Bytes) (names : List Bytes) (gs : List Glyph) : List (Bytes × Bytes) :=
  let d := gs.foldl (Dealt.step separators) ⟨names.length, [], [], none, false⟩
  let last := d.current.reverse
  let last := (d.kept.map last.take).getD last
  let values := (if last = [] then d.values else last :: d.values).reverse
  names.zip (values ++ List.replicate names.length [])

example : (deal [' ', ':'] ["a".toList, "b".toList]
      ("x: y:z : ".toList.map fun c => .byte c false true)).map (fun v => String.ofList v.2) =
    ["x", "y:z :"] := by
  decide +kernel

def read : Utility := fun args => do
  let (raw, args) ← options false (args.length + 1) args
  if args.isEmpty then Act.faultText "arg count"
  let waiting := (← Act.streamOf? 0).isSome
  let (gs, ended) ← if waiting then readLine raw 10000000 false [] else pure ([], false)
  for (name, value) in deal (← Act.separators) args gs do
    Act.checkName name
    Act.setVariable name value
  return if ended then 0 else 1
where
  options (raw : Bool) : (fuel : Nat) → List Bytes → Act (Bool × List Bytes)
    | _, ['-', '-'] :: rest => return (raw, rest)
    | fuel + 1, ['-', 'r'] :: rest => options true fuel rest
    | fuel + 1, ['-', 'p'] :: _ :: rest => options raw fuel rest
    | _, ['-', 'p'] :: [] => Act.faultText "No arg for -p option"
    | _, ('-' :: c :: _) :: _ => Act.fault ("Illegal option -".toList ++ [c])
    | _, args => return (raw, args)

/-! ## The rest -/

/-- What `getopts` finds: the letter, its value and where to go on. -/
structure OptionFound where
  letter : Char
  value : Option Bytes
  index : Nat
  offset : Option Nat
  note : Option Bytes
  done : Bool

/-- The next option among arguments. -/
def nextOption (letters : Bytes) (args : List Bytes) (index : Nat) (offset : Option Nat) :
    OptionFound :=
  let silent := letters.head? = some ':'
  let ended (index : Nat) : OptionFound := ⟨'?', none, index, none, none, true⟩
  let before := args.getD (index - 2) []
  let rest := match offset with
    | some n => if 2 ≤ index then before.drop n else []
    | none => []
  let option (letter : Char) (rest : Bytes) (index size : Nat) : OptionFound :=
    let offset := if size < rest.length then none else some (size - rest.length)
    let known := (if silent then letters.tail else letters).dropWhile (· ≠ letter)
    if letter = ':' ∨ known = [] then
      if silent then ⟨'?', some [letter], index, offset, none, false⟩
      else ⟨'?', none, index, offset, some ("Illegal option -".toList ++ [letter]), false⟩
    else if known.getD 1 ' ' = ':' then
      if rest ≠ [] then ⟨letter, some rest, index, none, none, false⟩
      else
        match args[index - 1]? with
        | some value => ⟨letter, some value, index + 1, none, none, false⟩
        | none =>
          if silent then ⟨':', some [letter], index, offset, none, false⟩
          else
            ⟨'?', none, index, offset,
              some ("No arg for -".toList ++ letter :: " option".toList), false⟩
    else ⟨letter, some [], index, offset, none, false⟩
  match rest with
  | c :: rest => option c rest index before.length
  | [] =>
    match args[index - 1]? with
    | some ['-', '-'] => ended (index + 1)
    | some ('-' :: c :: cs) => option c cs (index + 1) (cs.length + 2)
    | _ => ended index

/-- The next option of the arguments. -/
def getopts : Utility := fun args => do
  match args with
  | letters :: name :: given =>
    let c ← Act.context
    let args := if given.isEmpty then c.arguments else given
    let restarts := args.length + 1 < c.optionIndex
    let found := if restarts then nextOption letters args 1 none
      else nextOption letters args c.optionIndex c.optionOffset
    match found.note with
    | some cs => Act.note cs
    | none => pure ()
    if !found.done ∨ found.value.isSome then
      match found.value with
      | some value => Act.setVariable "OPTARG".toList value
      | none => Act.putVariable "OPTARG".toList none
    Act.setVariable "OPTIND".toList (Bytes.decimal found.index)
    Act.checkName name
    Act.setVariable name [found.letter]
    Act.modifyContext fun c => { c with optionIndex := found.index, optionOffset := found.offset }
    return if found.done then 1 else 0
  | _ => Act.faultText "Usage: getopts optstring var [arg...]"

def umask : Utility := fun args => do
  let (letters, args) ← optionLetters ['S'] args
  let mask := (← Act.context).mask
  let digit (n : Nat) : Char := Char.ofNat (48 + n % 8)
  match args with
  | [] =>
    if letters.isEmpty then
      Act.printLine ['0', digit (mask / 64), digit (mask / 8), digit mask]
    else
      let part (n : Nat) : Bytes :=
        let n := 7 - n % 8
        (if n / 4 % 2 = 1 then ['r'] else []) ++ (if n / 2 % 2 = 1 then ['w'] else []) ++
          (if n % 2 = 1 then ['x'] else [])
      Act.printLine ("u=".toList ++ part (mask / 64) ++ ",g=".toList ++ part (mask / 8) ++
        ",o=".toList ++ part mask)
    return 0
  | arg :: _ =>
    if (arg.headD 'a').isDigit then
      if !(arg.all isOctal) then Act.fault ("Illegal number: ".toList ++ arg)
      Act.setMask (arg.foldl (fun n c => n * 8 + Text.digitValue c) 0 % 512)
    else
      match Mode.changed? 0 true (511 - mask) arg with
      | some n => Act.setMask (511 - n % 512)
      | none => Act.fault ("Illegal mode: ".toList ++ arg)
    return 0

def ulimit : Utility := fun args => do
  let (_, args) ← optionLetters "HSatfdscmlpnvwr".toList args
  match args with
  | a :: _ =>
    if a ≠ "unlimited".toList ∧ (Bytes.natural? a).isNone then Act.faultText "bad number"
  | [] => Act.print "unlimited\n".toList
  return 0

def times : Utility := fun _ => do
  let line := "0m0.000000s 0m0.000000s\n"
  Act.print (line ++ line).toList
  return 0

/-- The names of a table in the order in which they are listed. -/
def listed (size : Nat) (names : List Bytes) : List Bytes :=
  let place (name : Bytes) : Nat :=
    (name.foldl (fun n c => n + c.toNat) ((name.headD '\x00').toNat * 16)) % size
  (List.range size).flatMap fun i => names.filter fun name => place name = i

/-- The variables that programs get, in the order in which they are listed. -/
def environment (c : Context) : List (Bytes × Bytes) :=
  let known := c.bindings.filterMap fun (name, v) =>
    if v.exported then v.value.map fun value => (name, value) else none
  (listed 39 (known.reverse.map (·.1))).map fun name => (name, (known.lookup name).getD [])

def aliasUtility : Utility := fun args => do
  let show_ (name text : Bytes) : Act Unit :=
    Act.printLine (name ++ '=' :: singleQuoted text)
  if args.isEmpty then
    let known := (← Act.context).aliases
    for name in listed 39 (known.map (·.1)) do show_ name ((known.lookup name).getD [])
    return 0
  else
    let mut status := 0
    for arg in args do
      let known := (← Act.context).aliases
      let name := arg.takeWhile (· ≠ '=')
      if name ≠ [] ∧ name.length < arg.length then
        let text := arg.drop (name.length + 1)
        let aliases := if (known.lookup name).isSome then
            known.map fun a => if a.1 = name then (name, text) else a
          else known ++ [(name, text)]
        Act.modifyContext fun c => { c with aliases := aliases }
      else
        match known.lookup arg with
        | some text => show_ arg text
        | none =>
          Act.note ("alias: ".toList ++ arg ++ " not found".toList)
          status := 1
    return status

def unalias : Utility := fun args => do
  let (letters, names) ← optionLetters ['a'] args
  if letters.contains 'a' then
    Act.modifyContext fun c => { c with aliases := [] }
    return 0
  else
    let mut status := 0
    for name in names do
      let known := (← Act.context).aliases
      if (known.lookup name).isNone then
        Act.note ("unalias: ".toList ++ name ++ " not found".toList)
        status := 1
      else Act.modifyContext fun c => { c with aliases := known.filter fun a => a.1 ≠ name }
    return status

/-- The utilities that the shell itself has, apart from those that run others. -/
def builtins (programs : List String) : List (String × Utility) :=
  [(":", fun _ => return 0), ("true", fun _ => return 0), ("false", fun _ => return 1),
   ("echo", echo), ("printf", printf), ("test", testUtility programs),
   ("[", bracketUtility programs), ("exit", exit), ("return", returnUtility),
   ("break", leaveLoops .leaveLoops), ("continue", leaveLoops .nextTurn),
   ("cd", changeDirectory), ("chdir", changeDirectory), ("pwd", pwd), ("export", exportUtility),
   ("readonly", readonlyUtility), ("unset", unset), ("local", localUtility), ("set", setUtility),
   ("shift", shift), ("read", read), ("getopts", getopts), ("wait", wait), ("fg", resume),
   ("bg", resume),
   ("kill", killUtility), ("trap", trap), ("umask", umask), ("ulimit", ulimit),
   ("times", times), ("jobs", jobsUtility), ("alias", aliasUtility),
   ("unalias", unalias)]

end Shell
end Publishing
