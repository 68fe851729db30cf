import LSystem.Text.Quoted
import LSystem.Text.Utf8

/-!
Trees of files below a working directory, and how a path leads to the contents of one of them.
-/

namespace LSystem

/-- Why a path leads to no file that can be read. -/
inductive FileFault where
  | missing
  | notDirectory
  | isDirectory
  | nameTooLong
deriving DecidableEq, Repr

def FileFault.number : FileFault → Nat
  | missing => 2
  | notDirectory => 20
  | isDirectory => 21
  | nameTooLong => 36

def FileFault.text : FileFault → String
  | missing => "No such file or directory"
  | notDirectory => "Not a directory"
  | isDirectory => "Is a directory"
  | nameTooLong => "File name too long"

def FileFault.message (fault : FileFault) (path : String) : String :=
  "[Errno " ++ Text.decimal fault.number ++ "] " ++ fault.text ++ ": " ++ Text.quoted path

/-- The bytes of a file, or why there are none. -/
abbrev FileReader := String → Except FileFault (List UInt8)

/-- The names on the way from the working directory to a file or directory. -/
abbrev Route := List String

structure FileTree where
  files : List (Route × List UInt8)
  directories : List Route

namespace FileTree

/-- The longest name of a file, in bytes. -/
def maxName : Nat := 255

/-- The longest path, in bytes. -/
def maxPath : Nat := 4095

def byteLength (name : String) : Nat := name.toList.foldl (fun n c => n + Text.utf8Size c) 0

/-- The names between the slashes of a path; two slashes in a row have an empty name between
them. -/
def names (path : String) : List String :=
  (Text.runs (· == '/') path.toList).map String.ofList

/-- A place on the way along a path: in a directory of the tree, above the tree, or at a file. -/
inductive Place where
  | inside (route : Route)
  | above
  | file (bytes : List UInt8)

/-- The directories of a tree are its own and all that lie above a file or directory of it. -/
def hasDirectory (t : FileTree) (route : Route) : Bool :=
  (t.directories ++ t.files.map (fun file => file.1.dropLast)).any route.isPrefixOf

/-- One step along a path. Nothing but directories is known above the tree. -/
def step (t : FileTree) (place : Place) (name : String) : Except FileFault Place :=
  match place with
  | .file _ => .error .notDirectory
  | .above =>
      if name.isEmpty || name == "." || name == ".." then .ok .above
      else if maxName < byteLength name then .error .nameTooLong
      else .error .missing
  | .inside route =>
      if name.isEmpty || name == "." then .ok (.inside route)
      else if name == ".." then .ok (if route.isEmpty then .above else .inside route.dropLast)
      else if maxName < byteLength name then .error .nameTooLong
      else
        let next := route ++ [name]
        match t.files.lookup next with
        | some bytes => .ok (.file bytes)
        | none => if t.hasDirectory next then .ok (.inside next) else .error .missing

/-- Follows a path name by name, from the working directory or, if it starts with a slash, from
above it. -/
def read (t : FileTree) : FileReader := fun path =>
  if path.isEmpty then .error .missing
  else if maxPath < byteLength path then .error .nameTooLong
  else
    let origin := if path.toList.head? = some '/' then .above else .inside []
    match (names path).foldlM t.step origin with
    | .error fault => .error fault
    | .ok (.file bytes) => .ok bytes
    | .ok _ => .error .isDirectory

end FileTree

end LSystem
