/-
Trees of files.  The entries of a directory stand in the order in which they are
listed.
-/

namespace Publishing

inductive FileNode where
  | file (content : ByteArray)
  | directory (entries : List (String × FileNode))

namespace FileNode

instance : Inhabited FileNode := ⟨directory []⟩

def emptyDirectory : FileNode := directory []

def isDirectory : FileNode → Bool
  | directory _ => true
  | file _ => false

def entries : FileNode → List (String × FileNode)
  | directory es => es
  | file _ => []

/-- What these names lead to. -/
def find? (n : FileNode) : List String → Option FileNode
  | [] => some n
  | name :: rest =>
    match n.entries.lookup name with
    | some child => child.find? rest
    | none => none

/-- Put a node under a name, in the stead of the one that had it. -/
def putEntry (name : String) (node : FileNode) :
    List (String × FileNode) → List (String × FileNode)
  | [] => [(name, node)]
  | e :: rest => if e.1 = name then (name, node) :: rest else e :: putEntry name node rest

/-- Put a node where these names lead, provided that all but the last one lead to
directories. -/
def put (n : FileNode) (node : FileNode) : List String → FileNode
  | [] => node
  | name :: rest =>
    match n with
    | file content => file content
    | directory es =>
      match rest, es.lookup name with
      | [], _ => directory (putEntry name node es)
      | _, some child => directory (putEntry name (child.put node rest) es)
      | _, none => directory es

/-- Take away what these names lead to. -/
def remove (n : FileNode) : List String → FileNode
  | [] => n
  | name :: rest =>
    match n with
    | file content => file content
    | directory es =>
      match rest, es.lookup name with
      | [], _ => directory (es.filter fun e => e.1 ≠ name)
      | _, some child => directory (putEntry name (child.remove rest) es)
      | _, none => directory es

mutual

/-- The paths of all files below, and of the empty directories with a slash at the
end. -/
def listing (above : String) : FileNode → List String
  | file _ => [above]
  | directory [] => [above ++ "/"]
  | directory (e :: es) => listingOfEntries above (e :: es)

def listingOfEntries (above : String) : List (String × FileNode) → List String
  | [] => []
  | (name, node) :: rest =>
    listing (if above = "" then name else above ++ "/" ++ name) node ++
      listingOfEntries above rest

end

mutual

/-- All that is in a tree, each directory in front of its entries. -/
def nodes (place : List String) : FileNode → List (List String × FileNode)
  | file content => [(place, file content)]
  | directory es => (place, directory es) :: nodesOfEntries place es

def nodesOfEntries (place : List String) :
    List (String × FileNode) → List (List String × FileNode)
  | [] => []
  | (name, node) :: rest => nodes (place ++ [name]) node ++ nodesOfEntries place rest

end

/-- A tree is the first of what is in it. -/
theorem head?_nodes (place : List String) (n : FileNode) :
    (nodes place n).head? = some (place, n) := by
  cases n <;> simp [nodes]

theorem lookup_putEntry_self (name : String) (node : FileNode) (es : List (String × FileNode)) :
    (putEntry name node es).lookup name = some node := by
  induction es with
  | nil => simp [putEntry]
  | cons e rest ih =>
    unfold putEntry
    split
    · simp
    · rename_i h
      have : (name == e.1) = false := by simpa using Ne.symm h
      rw [List.lookup_cons, this]
      exact ih

theorem lookup_putEntry_of_ne {name other : String} (h : other ≠ name) (node : FileNode)
    (es : List (String × FileNode)) : (putEntry name node es).lookup other = es.lookup other := by
  have hb : (other == name) = false := by simpa using h
  induction es with
  | nil => simp [putEntry, h]
  | cons e rest ih =>
    unfold putEntry
    split
    · rename_i he
      rw [List.lookup_cons, List.lookup_cons, hb, he, hb]
    · rw [List.lookup_cons, List.lookup_cons, ih]

end FileNode
end Publishing
