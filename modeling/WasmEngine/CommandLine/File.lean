/-!
# Files

Why a file cannot be read, what a path says by itself, and reading from a given tree of files. A path leads
from a directory to a directory or to a file. Each name on the way is looked up where the names before it have
led, and only then the next one is.
-/

namespace WasmEngine.CommandLine

/-- Why a file cannot be read. -/
inductive FileFault where
  | notFound
  | accessDenied
  | notDirectory
  | isDirectory
  | nameTooLong
  | notUtf8
  | other (message : String)
  deriving DecidableEq, Repr

/-- The fault in words. -/
def FileFault.message : FileFault → String
  | notFound => "No such file or directory (os error 2)"
  | accessDenied => "Permission denied (os error 13)"
  | notDirectory => "Not a directory (os error 20)"
  | isDirectory => "Is a directory (os error 21)"
  | nameTooLong => "File name too long (os error 36)"
  | notUtf8 => "stream did not contain valid UTF-8"
  | other m => m

/-! ### Paths -/

/-- The last name in a path, if it is not one of the two that stand for directories. -/
def fileName? (path : String) : Option String :=
  match ((path.splitOn "/").filter fun s => s ≠ "" && s ≠ ".").getLast? with
  | some name => if name = ".." then none else some name
  | none => none

/-- The part of a file's name behind its last point. A point that begins the name does not count. -/
def extension? (path : String) : Option String := do
  let name ← fileName? path
  match (name.splitOn ".").reverse with
  | ext :: stem@(_ :: _) => if stem = [""] then none else some ext
  | _ => none

/-! ### Trees of files -/

/-- A file, or a directory of named files and directories. -/
inductive FileTree where
  | file (bytes : ByteArray)
  | directory (entries : List (String × FileTree))

namespace FileTree

/-- The most bytes that a name can have. -/
def maxNameSize : Nat := 255

/-- The most bytes that a path can have. -/
def maxPathSize : Nat := 4095

/-- What names lead to from a place, behind which are the directories above it, the nearest first. Nothing is
above the root but itself. -/
def walk : (names : List String) → (place : FileTree) → (above : List FileTree) →
    Except FileFault FileTree
  | [], place, _ => .ok place
  | _ :: _, file _, _ => .error .notDirectory
  | name :: names, directory entries, above =>
    if name = "" || name = "." then walk names (directory entries) above
    else if name = ".." then match above with
      | parent :: higher => walk names parent higher
      | [] => walk names (directory entries) []
    else if maxNameSize < name.utf8ByteSize then .error .nameTooLong
    else match entries.lookup name with
      | some place => walk names place (directory entries :: above)
      | none => .error .notFound

/-- The directories that a file system begins with. One of them has the file in it that is always empty. -/
def root : FileTree :=
  let bare := ["bin", "boot", "etc", "home", "lib", "media", "mnt", "opt", "proc", "root", "run", "sbin", "srv",
    "sys", "tmp", "usr", "var"]
  directory (("dev", directory [("null", file ByteArray.empty)]) :: bare.map ((·, directory [])))

end FileTree

/-- Read a file by its path. Paths that do not begin at the root begin at a directory with the given files,
which lies in a directory of the root. -/
def readFrom (files : List (String × ByteArray)) (path : String) : Except FileFault ByteArray :=
  if FileTree.maxPathSize < path.utf8ByteSize then .error .nameTooLong
  else
    let names := path.splitOn "/"
    let here := FileTree.directory (files.map fun (name, bytes) => (name, .file bytes))
    let found := if path.startsWith "/" then FileTree.walk names FileTree.root []
      else FileTree.walk names here [.directory [], FileTree.root]
    match found with
    | .ok (.file bytes) => .ok bytes
    | .ok (.directory _) => .error .isDirectory
    | .error fault => .error fault

end WasmEngine.CommandLine
