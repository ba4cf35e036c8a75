import Dhcp.Text.Utf8

/-!
# Dhcp.Disk

What a path leads to, and a directory of files.  A path is a walk from name to name: each
name but the last must lead to a directory, and so must the last if a slash follows it.

Only the files of the one directory are known.  The directories above it, which `..`
leads to, are taken to hold nothing else; at the top of them no file can be made.
-/

namespace Dhcp

namespace Disk

/-- Why a file could not be read or written. -/
inductive Fault where
  /-- The path leads to a directory. -/
  | isDirectory
  /-- The path leads through a directory that does not exist. -/
  | notFound
  /-- The path leads through a file. -/
  | notDirectory
  /-- A name, or the whole path, is longer than a file system takes. -/
  | nameTooLong
  /-- No file may be made in the directory. -/
  | denied
  /-- The file does not hold text. -/
  | notText
deriving DecidableEq

/-- How a fault is worded. -/
def Fault.text : Fault → String
  | isDirectory => "Is a directory (os error 21)"
  | notFound => "No such file or directory (os error 2)"
  | notDirectory => "Not a directory (os error 20)"
  | nameTooLong => "File name too long (os error 36)"
  | denied => "Permission denied (os error 13)"
  | notText => "stream did not contain valid UTF-8"

end Disk

/-- What a path leads to. -/
inductive Place where
  /-- A file with its content. -/
  | file (content : Octets)
  /-- Nothing yet: a file can be made here. -/
  | vacant
  | directory
  /-- Nothing, and no file can be made here. -/
  | unreachable (why : Disk.Fault)
deriving DecidableEq

namespace Place

/-- The text of a file. -/
def read : Place → Except Disk.Fault String
  | file content =>
    match Text.decodeChars? content with
    | some cs => .ok (String.ofList cs)
    | none => .error .notText
  | vacant => .error .notFound
  | directory => .error .isDirectory
  | unreachable why => .error why

/-- Makes a file of a text, in place of the one that was there. -/
def write (s : String) : Place → Except Disk.Fault Place
  | file _ | vacant => .ok (.file (Text.utf8 s))
  | directory => .error .isDirectory
  | unreachable why => .error why

/-- Whether there is something at the end of the path. -/
def exists? : Place → Bool
  | file _ | directory => true
  | vacant | unreachable _ => false

end Place

/-- A directory of files: their names and contents. -/
structure Disk where
  files : List (String × Octets)
deriving DecidableEq

namespace Disk

/-- The content of a file. -/
def content? (d : Disk) (name : String) : Option Octets := d.files.lookup name

/-! ## Walks along a path -/

/-- A directory that a walk comes through. -/
inductive Folder where
  /-- The directory itself. -/
  | home
  /-- The directory above it. -/
  | above
  /-- The directory at the top. -/
  | top
deriving DecidableEq

/-- The directory above a directory; the one at the top is above itself. -/
def Folder.parent : Folder → Folder
  | home => above
  | above | top => top

/-- What a name leads to. -/
inductive Target where
  | folder (f : Folder)
  | file (name : List Char) (content : Octets)
  /-- There is nothing of the name in the directory. -/
  | missing (f : Folder) (name : List Char)
deriving DecidableEq

/-- The greatest length of a name in octets. -/
abbrev maxName : Nat := 255

/-- The greatest length of a path in octets. -/
abbrev maxPath : Nat := 4095

/-- What a name leads to from a directory. -/
def lookup (d : Disk) (f : Folder) (name : List Char) : Except Fault Target :=
  if name = ['.'] then .ok (.folder f)
  else if name = ['.', '.'] then .ok (.folder f.parent)
  else if maxName < (String.ofList name).utf8ByteSize then .error .nameTooLong
  else
    match f with
    | .home =>
      match d.content? (String.ofList name) with
      | some content => .ok (.file name content)
      | none => .ok (.missing .home name)
    | f => .ok (.missing f name)

/-- What a walk from name to name leads to. -/
def walk (d : Disk) (f : Folder) : List (List Char) → Except Fault Target
  | [] => .ok (.folder f)
  | [name] => d.lookup f name
  | name :: names =>
    match d.lookup f name with
    | .error why => .error why
    | .ok (.folder f) => d.walk f names
    | .ok (.file ..) => .error .notDirectory
    | .ok (.missing ..) => .error .notFound

/-- The names that a path goes through.  It may have more slashes between them than one. -/
def pathNames (path : String) : List (List Char) := (path.toList.splitOn '/').filter (· ≠ [])

/-- What the names of a path lead to, from the top if it begins with a slash. -/
def target (d : Disk) (path : String) : Except Fault Target :=
  if path = "" then .error .notFound
  else if maxPath < path.utf8ByteSize then .error .nameTooLong
  else d.walk (if path.toList.head? = some '/' then .top else .home) (pathNames path)

/-- What a path leads to. -/
def place (d : Disk) (path : String) : Place :=
  let slashed := path.toList.getLast? = some '/'
  match d.target path with
  | .error why => .unreachable why
  | .ok (.folder _) => .directory
  | .ok (.file _ content) => if slashed then .unreachable .notDirectory else .file content
  | .ok (.missing f _) =>
    if slashed then .unreachable .isDirectory
    else if f = .top then .unreachable .denied
    else .vacant

/-! ## Changes -/

/-- Puts a file into the directory, at the end unless there is one of its name. -/
def putFile (d : Disk) (name : String) (content : Octets) : Disk :=
  if (d.content? name).isSome then
    ⟨d.files.map fun (n, old) => (n, if n = name then content else old)⟩
  else ⟨d.files ++ [(name, content)]⟩

/-- The directory once a path leads to a place.  What is made above it is not seen. -/
def put (d : Disk) (path : String) : Place → Disk
  | .file content =>
    match d.target path with
    | .ok (.file name _) | .ok (.missing .home name) => d.putFile (String.ofList name) content
    | _ => d
  | _ => d

end Disk

end Dhcp
