import Publishing.Shell.Utility.Basic

/-
The programs that make, take away, copy and move files and directories.
-/

namespace Publishing

namespace Shell

namespace Program

/-- Do something with each operand: the status is zero if nothing failed. -/
def each (operands : List Bytes) (f : Bytes → Act Bool) : Act Nat := do
  let mut all := true
  for operand in operands do
    if !(← f operand) then all := false
  return statusOf all

/-- Report what could not be done with a path, and why. -/
def refuse (name what : String) (path : Bytes) (why : String) : Act Bool := do
  report name (what.toList ++ quotedAlways path ++ ": ".toList ++ why.toList)
  return false

def modifyFiles (f : FileSystem → FileSystem) : Act Unit :=
  modify fun s => { s with files := f s.files }

def stat (path : Bytes) : Act (Except FileFault (List String × FileNode)) :=
  return (← get).files.find (Bytes.toText path)

def isSlashed (path : Bytes) : Bool := path.getLast? = some '/'

/-- The last name in a path. -/
def lastName (path : Bytes) : Bytes :=
  let trimmed := (path.reverse.dropWhile (· = '/')).reverse
  (trimmed.reverse.takeWhile (· ≠ '/')).reverse

/-- The path of an entry of a directory. -/
def under (path name : Bytes) : Bytes :=
  if isSlashed path then path ++ name else path ++ '/' :: name

/-! ## Making -/

/-- The paths that lead to a path, and the path itself. -/
def pathsTo (path : Bytes) : List Bytes :=
  let stop (i : Nat) : Bool :=
    (path.drop i).head? = some '/' && (path.take i).getLast?.any (· ≠ '/')
  ((List.range path.length).filter stop).map path.take ++
    (if isSlashed path then [] else [path])

def mkdir : Utility := fun args =>
  withOptions "mkdir" 1 ⟨"pvZ", "mZ", [("parents", 'p'), ("verbose", 'v'), ("mode", 'm'),
    ("context", 'Z')]⟩ args fun g => do
    let mask := (← Act.context).mask
    let mode? := (g.value? 'm').map fun text => (text, Mode.ofText? mask true 0o777 text)
    if let some (text, none) := mode? then
      report "mkdir" ("invalid mode ".toList ++ quotedWord text)
      return 1
    if g.operands.isEmpty then return ← misuse "mkdir" 1 "missing operand".toList
    let settle (path : Bytes) : Act Unit := do
      match mode?.bind (·.2), ← stat path with
      | some mode, .ok (place, _) => Act.setMode place mode
      | _, _ => pure ()
    each g.operands fun path => do
      let tell (path : Bytes) : Act Unit := do
        if g.has 'v' then
          Act.printLine ("mkdir: created directory ".toList ++ quotedAlways path)
      let refused (path : Bytes) (cause : FileFault) : Act Bool := do
        report "mkdir" ("cannot create directory ".toList ++ quotedWord path ++ ": ".toList ++
          cause.reason.toList)
        return false
      if !g.has 'p' ∨ path = [] then
        match (← get).files.createDirectory (Bytes.toText path) with
        | .ok fs =>
          modifyFiles fun _ => fs
          tell path
          settle path
          return true
        | .error cause => refused path cause
      else
        let way := pathsTo path
        for step in way do
          match ← stat step with
          | .ok (_, .directory _) => pure ()
          | .ok (_, .file _) =>
            return ← refused step (if step = way.getLastD [] then .alreadyExists else .notDirectory)
          | .error _ =>
            match (← get).files.createDirectory (Bytes.toText step) with
            | .ok fs =>
              modifyFiles fun _ => fs
              tell step
              if step = way.getLastD [] then settle step
            | .error cause => return ← refused step cause
        return true

/-- Whether a text has the form of a time in digits, or with separators or words. -/
def isTime (digitsOnly : Bool) (cs : Bytes) : Bool :=
  if digitsOnly then
    let ds := cs.takeWhile Text.isDigit
    let rest := cs.drop ds.length
    [8, 10, 12].contains ds.length &&
      (rest = [] || rest.length = 3 && rest.head? = some '.' && rest.tail.all Text.isDigit)
  else
    let words := (Bytes.splitOn ' ' cs).filter (· ≠ [])
    let known := ["now", "today", "yesterday", "tomorrow", "ago", "next", "last", "noon", "midnight",
      "utc", "z", "gmt", "am", "pm", "sec", "second", "min", "minute", "hour", "day", "week",
      "fortnight", "month", "year", "jan", "feb", "mar", "apr", "may", "jun", "jul", "aug", "sep",
      "oct", "nov", "dec", "mon", "tue", "wed", "thu", "fri", "sat", "sun"]
    words.all fun w =>
      let letters := String.ofList (w.map Char.toLower)
      w.any Text.isDigit || known.any fun k => letters = k || letters = k ++ "s" ||
        (3 < letters.length && k.length = 3 && letters.startsWith k)

def touch : Utility := fun args =>
  withOptions "touch" 1 ⟨"acfmh", "drtτ", [("no-create", 'c'), ("date", 'd'), ("reference", 'r'),
    ("no-dereference", 'h'), ("time", 'τ')]⟩ args fun g => do
    let times : List (List String) := [["atime", "access", "use"], ["mtime", "modify"]]
    for value in g.values 'τ' do
      if (wordGroup? times value).isNone then return ← refuseWord "touch" "--time" 1 times value
    for (letter, value) in g.options do
      if letter = 't' ∧ !isTime true value ∨ letter = 'd' ∧ !isTime false value then
        report "touch" ("invalid date format ".toList ++ quotedWord value)
        return 1
    if g.has 't' ∧ (g.has 'd' ∨ g.has 'r') then
      return ← misuse "touch" 1 "cannot specify times from more than one source".toList
    if let some path := g.value? 'r' then
      if let .error cause ← stat path then
        let _ ← refuse "touch" "failed to get attributes of " path cause.reason
        return 1
    if g.operands.isEmpty then misuse "touch" 1 "missing file operand".toList
    else each g.operands fun path => do
      match ← stat path with
      | .ok _ => return true
      | .error cause =>
        if path = ['-'] then return true
        else if isSlashed path then refuse "touch" "setting times of " path cause.reason
        else if g.has 'c' then return true
        else
          match (← get).files.append (Bytes.toText path) .empty with
          | .ok fs =>
            modifyFiles fun _ => fs
            return true
          | .error cause => refuse "touch" "cannot touch " path cause.reason

/-- Change the modes of what is at a path, or tell why that does not work. -/
def changeModes (g : Given) (path : Bytes) (change : Bool → Nat → Nat) : Act Bool := do
  match ← stat path with
  | .error cause =>
    if g.has 'f' then return false else refuse "chmod" "cannot access " path cause.reason
  | .ok (place, n) =>
    for (below, node) in (if g.has 'R' then FileNode.nodes [] n else [([], n)]) do
      let old ← Act.modeOf (place ++ below) node.isDirectory
      let new := change node.isDirectory old
      Act.setMode (place ++ below) new
      let shown := below.foldl (fun p name => under p (Bytes.ofString name)) path
      let text (mode : Nat) : Bytes := Mode.digits mode ++ " (".toList ++ Mode.letters mode ++ [')']
      if old ≠ new ∧ (g.has 'v' ∨ g.has 'c') then
        Act.printLine ("mode of ".toList ++ quotedAlways shown ++ " changed from ".toList ++
          text old ++ " to ".toList ++ text new)
      else if old = new ∧ g.has 'v' then
        Act.printLine ("mode of ".toList ++ quotedAlways shown ++ " retained as ".toList ++ text new)
    return true

def chmod : Utility := fun args =>
  let isMode (arg : Bytes) : Bool := match arg with
    | '-' :: c :: _ => "rwxXstugoa,+=".toList.contains c
    | _ => false
  let (modes, args) := (args.filter isMode, args.filter (!isMode ·))
  withOptions "chmod" 1 ⟨"Rcfvαβ", "ρ", [("recursive", 'R'), ("changes", 'c'), ("quiet", 'f'),
    ("silent", 'f'), ("verbose", 'v'), ("no-preserve-root", 'α'), ("preserve-root", 'β'),
    ("reference", 'ρ')]⟩ args fun g => do
    let mask := (← Act.context).mask
    match g.value? 'ρ', modes ++ g.operands with
    | _, [] => misuse "chmod" 1 "missing operand".toList
    | some path, paths =>
      match ← stat path with
      | .error cause =>
        let _ ← refuse "chmod" "failed to get attributes of " path cause.reason
        return 1
      | .ok (place, n) =>
        let mode ← Act.modeOf place n.isDirectory
        each paths fun path => changeModes g path fun _ _ => mode
    | none, [mode] => misuse "chmod" 1 ("missing operand after ".toList ++ quotedWord mode)
    | none, mode :: paths =>
      match Mode.ofText? mask false 0 mode with
      | none => misuse "chmod" 1 ("invalid mode: ".toList ++ quotedWord mode)
      | some _ => each paths fun path => changeModes g path fun isDirectory old =>
          (Mode.ofText? mask isDirectory old mode).getD old

/-! ## Taking away -/

def removeAt (place : List String) : Act Unit := do
  modifyFiles fun fs => { fs with root := fs.root.remove place }
  Act.forgetModes place

def rmdir : Utility := fun args =>
  withOptions "rmdir" 1 ⟨"pvι", "", [("parents", 'p'), ("verbose", 'v'),
    ("ignore-fail-on-non-empty", 'ι')]⟩ args fun g => do
    if g.operands.isEmpty then misuse "rmdir" 1 "missing operand".toList
    else each g.operands fun path => do
      for step in (if g.has 'p' then (pathsTo path).reverse else [path]) do
        if g.has 'v' then
          Act.printLine ("rmdir: removing directory, ".toList ++ quotedAlways step)
        match ← stat step with
        | .error cause => return ← refuse "rmdir" "failed to remove " step cause.reason
        | .ok (_, .file _) => return ← refuse "rmdir" "failed to remove " step "Not a directory"
        | .ok (place, .directory es) =>
          if lastName step = ['.'] then
            return ← refuse "rmdir" "failed to remove " step "Invalid argument"
          else if !es.isEmpty then
            if g.has 'ι' then return true
            return ← refuse "rmdir" "failed to remove " step "Directory not empty"
          else removeAt place
      return true

def rm : Utility := fun args =>
  withOptions "rm" 1 ⟨"dfirRIvαβπι", "ιπ", [("force", 'f'), ("recursive", 'r'), ("dir", 'd'),
    ("verbose", 'v'), ("interactive", 'ι'), ("one-file-system", 'α'), ("no-preserve-root", 'β'),
    ("preserve-root", 'π')]⟩ args fun g => do
    let deep := g.has 'r' || g.has 'R'
    if g.operands.isEmpty then
      if g.has 'f' then return 0 else misuse "rm" 1 "missing operand".toList
    else each g.operands fun path => do
      let name := lastName path
      match ← stat path with
      | .error cause =>
        if g.has 'f' ∧ (cause = .missing ∨ cause = .notDirectory) then return true
        else refuse "rm" "cannot remove " path cause.reason
      | .ok (place, .file _) =>
        removeAt place
        if g.has 'v' then Act.printLine ("removed ".toList ++ quotedAlways path)
        return true
      | .ok (place, .directory es) =>
        if deep ∧ (name = ['.'] ∨ name = ['.', '.']) then
          report "rm" ("refusing to remove '.' or '..' directory: skipping ".toList ++
            quotedAlways path)
          return false
        else if deep ∨ (g.has 'd' ∧ es.isEmpty) then
          removeAt place
          if g.has 'v' then
            for (place, n) in (FileNode.nodes [] (.directory es)).reverse do
              let shown := place.foldl (fun p name => under p (Bytes.ofString name)) path
              Act.printLine ((if n.isDirectory then "removed directory " else "removed ").toList ++
                quotedAlways shown)
          return true
        else
          refuse "rm" "cannot remove " path
            (if g.has 'd' then "Directory not empty" else "Is a directory")

/-! ## Copying and moving -/

/-- Put a node where a path leads, among what is in a directory that is there. -/
def placeNode (place : List String) (n : FileNode) : Act Unit := do
  for (below, node) in FileNode.nodes place n do
    let fs := (← get).files
    match node, fs.nodeAt? below with
    | .directory _, some (.directory _) => pure ()
    | .directory _, _ => modifyFiles fun fs => fs.putAt below .emptyDirectory
    | .file content, _ => modifyFiles fun fs => fs.putAt below (.file content)

/-- Bring what is at a path to another one: whether that worked. -/
def bring (name : String) (moves : Bool) (g : Given) (source target : Bytes) : Act Bool := do
  let deep := moves || g.has 'r' || g.has 'R' || g.has 'a'
  match ← stat source with
  | .error cause => refuse name "cannot stat " source cause.reason
  | .ok (start, n) =>
    let there ← stat target
    let both (what : String) (a b : Bytes) (between after : String) : Act Bool := do
      report name (what.toList ++ quotedAlways a ++ between.toList ++ quotedAlways b ++ after.toList)
      return false
    if n.isDirectory ∧ !deep then
      report name ("-r not specified; omitting directory ".toList ++ quotedAlways source)
      return false
    else
      match there with
      | .ok (place, old) =>
        if place = start then both "" source target " and " " are the same file"
        else if n.isDirectory ∧ !old.isDirectory then
          both "cannot overwrite non-directory " target source " with directory " ""
        else if !n.isDirectory ∧ old.isDirectory then
          report name ("cannot overwrite directory ".toList ++ quotedAlways target ++
            " with non-directory".toList)
          return false
        else if g.has 'n' then return true
        else if n.isDirectory ∧ start.isPrefixOf place then intoItself
        else if moves ∧ old.isDirectory ∧ !old.entries.isEmpty then
          both "cannot move " source target " to " ": Directory not empty"
        else finish start place n
      | .error .missing =>
        let fs := (← get).files
        match fs.walk (Bytes.toText target) with
        | .ok d =>
          if d.slashed ∧ !n.isDirectory then absent "Not a directory"
          else if n.isDirectory ∧ start.isPrefixOf d.place then intoItself
          else finish start d.place n
        | .error cause => absent cause.reason
      | .error cause => refuse name "cannot stat " target cause.reason
where
  intoItself : Act Bool := do
    if moves then
      report name ("cannot move ".toList ++ quotedAlways source ++ " to a subdirectory of itself, ".toList ++
        quotedAlways target)
    else
      report name ("cannot copy a directory, ".toList ++ quotedAlways source ++ ", into itself, ".toList ++
        quotedAlways target)
    return false
  absent (why : String) : Act Bool := do
    if moves then
      report name ("cannot move ".toList ++ quotedAlways source ++ " to ".toList ++
        quotedAlways target ++ ": ".toList ++ why.toList)
      return false
    else refuse name "cannot create regular file " target why
  finish (start place : List String) (n : FileNode) : Act Bool := do
    let modes ← (FileNode.nodes [] n).mapM fun (below, node) =>
      return (below, ← Act.modeOf (start ++ below) node.isDirectory)
    if moves then removeAt start
    placeNode place n
    for (below, mode) in modes do
      if moves ∨ ((← get).modes.lookup (place ++ below)).isNone then
        Act.setMode (place ++ below) mode
    if g.has 'v' then
      for (below, _) in (if moves then [([], 0)] else modes) do
        let shown (path : Bytes) : Bytes :=
          quotedAlways (below.foldl (fun p name => under p (Bytes.ofString name)) path)
        Act.printLine ((if moves then "renamed " else "").toList ++ shown source ++
          " -> ".toList ++ shown target)
    return true

/-- Bring files to another path, or into a directory. -/
def bringAll (name : String) (moves : Bool) (o : Options) : Utility := fun args =>
  withOptions name 1 o args fun g => do
    let (sources, target?) := match g.value? 't' with
      | some target => (g.operands, some target)
      | none => (g.operands.dropLast, g.operands.getLast?)
    match target?, sources with
    | none, _ => misuse name 1 "missing file operand".toList
    | some target, [] =>
      if (g.value? 't').isSome then misuse name 1 "missing file operand".toList
      else misuse name 1 ("missing destination file operand after ".toList ++ quotedAlways target)
    | some target, sources =>
      match ← stat target with
      | .ok (_, .directory _) =>
        if g.has 'T' then each sources fun source => bring name moves g source target
        else each sources fun source => bring name moves g source (under target (lastName source))
      | there =>
        if sources.length = 1 ∧ (g.value? 't').isNone then
          each sources fun source => bring name moves g source target
        else
          let why := match there with
            | .error cause => cause.reason
            | .ok _ => "Not a directory"
          report name ("target ".toList ++ quotedAlways target ++ ": ".toList ++ why.toList)
          return 1

/-- The long names that copying and moving have in common. -/
def bringingNames : List (String × Char) :=
  [("backup", 'b'), ("debug", 'δ'), ("force", 'f'), ("interactive", 'i'), ("no-clobber", 'n'),
   ("strip-trailing-slashes", 'σ'), ("suffix", 'S'), ("target-directory", 't'),
   ("no-target-directory", 'T'), ("update", 'u'), ("verbose", 'v'), ("context", 'Z')]

def cp : Utility :=
  bringAll "cp" false ⟨"abdfiHlLnprRsuvxPTZδσαγηκρ", "tSbuZπνωρ", bringingNames ++
    [("archive", 'a'), ("attributes-only", 'α'), ("copy-contents", 'γ'), ("link", 'l'),
     ("dereference", 'L'), ("no-dereference", 'P'), ("preserve", 'ρ'), ("no-preserve", 'ν'),
     ("parents", 'η'), ("recursive", 'R'), ("reflink", 'π'), ("remove-destination", 'κ'),
     ("sparse", 'ω'), ("symbolic-link", 's'), ("one-file-system", 'x')]⟩

def mv : Utility :=
  bringAll "mv" true ⟨"bfinuvTZδσν", "tSbu", bringingNames ++ [("no-copy", 'ν')]⟩

end Program
end Shell
end Publishing
