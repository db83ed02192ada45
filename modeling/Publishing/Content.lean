import Publishing.Digest.Sha256
import Publishing.Error
import Publishing.Files.System
import Publishing.Operation.Track

/-
Content on disk that can be tracked.

Every file below a root counts whose name has one of the wanted extensions, unless
its name or that of a directory on the way to it begins with a dot.  The root itself
may be hidden.
-/

namespace Publishing
namespace Content

def isHidden (name : String) : Bool := name.toList.head? = some '.'

mutual

/-- The files that a walk of a tree finds, each with the names that lead to it. -/
def filesBelow (above : List String) : FileNode → List (List String × ByteArray)
  | .file content => [(above, content)]
  | .directory es => filesIn above es

def filesIn (above : List String) : List (String × FileNode) → List (List String × ByteArray)
  | [] => []
  | (name, node) :: rest =>
    (if isHidden name then [] else filesBelow (above ++ [name]) node) ++ filesIn above rest

end

/-- Whether a name has one of these extensions.  Dots before an extension and the
case of ASCII letters do not matter. -/
def hasExtension (extensions : List String) (name : String) : Bool :=
  match (Path.splitExtension name).2 with
  | none => false
  | some ext => extensions.any fun wanted =>
      Text.lowerAscii (String.ofList (wanted.toList.dropWhile (· = '.'))) = Text.lowerAscii ext

/-- The names that lead to a file, without the extension of the last one. -/
def withoutExtension (names : List String) : List String :=
  match names.getLast? with
  | none => []
  | some last => names.dropLast ++ [(Path.splitExtension last).1]

def item (names : List String) (content : ByteArray) : ContentItem where
  id := "/".intercalate (withoutExtension names)
  metadata := .ofMembers
    [("path", .string ("/".intercalate names)),
      ("contentHash", .string (Sha256.hex content.toList)),
      ("sizeBytes", .nat content.size)]

/-- The content below a root, by id. -/
def discover (fs : FileSystem) (root : String) (extensions : List String) :
    Except Error (List ContentItem) :=
  match fs.stat root with
  | .error fault => .error (.file root (.walking root fault))
  | .ok node =>
    let rootName := (Path.fileName? root).getD ""
    let found := (filesBelow [] node).filter fun f =>
      hasExtension extensions (f.1.getLast?.getD rootName)
    .ok ((found.map fun f => item f.1 f.2).mergeSort fun a b => a.id ≤ b.id)

end Content
end Publishing
