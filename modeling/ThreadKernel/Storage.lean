import ThreadKernel.Fail

/-!
# ThreadKernel.Storage

A working directory with files, and reading a file as text by its path.

* `Storage.resolve`  — what a path leads to.
* `Storage.readText` — the text of a file, or the error that reading it runs into.
-/

namespace ThreadKernel

structure StoredFile where
  /-- The names of the directories on the way, and the file's own. -/
  path : List String
  bytes : ByteArray

/-- The files below the working directory. Of two with one path the later one counts. -/
structure Storage where
  files : List StoredFile

/-- What a path leads to. -/
inductive Place where
  | file (bytes : ByteArray)
  /-- A directory below the working directory, which is the empty path. -/
  | directory (path : List String)
  /-- A directory elsewhere, of which nothing is known. -/
  | elsewhere

namespace Storage

/-- The components of a path. -/
def components (path : String) : List String := path.splitOn "/"

/-- The greatest size of a name and of a whole path, in bytes. -/
def maxNameSize : Nat := 255

def maxPathSize : Nat := 4095

/-- What stands under a path below the working directory. -/
def find? (s : Storage) (path : List String) : Option Place :=
  match s.files.reverse.find? (fun f => f.path == path) with
  | some f => some (.file f.bytes)
  | none => if s.files.any (fun f => path.isPrefixOf f.path) then some (.directory path) else none

/-- Goes into the directories of a path one after the other. -/
def walk (s : Storage) : List String → Place → Except StorageError Place
  | [], place => .ok place
  | _ :: _, .file _ => .error (.system Errno.notDirectory)
  | name :: rest, place =>
    if name = "" ∨ name = "." then walk s rest place
    else if name = ".." then
      match place with
      | .directory (d :: path) => walk s rest (.directory (d :: path).dropLast)
      | _ => walk s rest .elsewhere
    else if maxNameSize < name.utf8ByteSize then .error (.system Errno.nameTooLong)
    else
      match place with
      | .directory path =>
        match s.find? (path ++ [name]) with
        | some place => walk s rest place
        | none => .error (.system Errno.noEntry)
      | _ => .error (.system Errno.noEntry)

def resolve (s : Storage) (path : String) : Except StorageError Place :=
  if path.toList.any (fun c => c.toNat == 0) then
    .error (.other "file name contained an unexpected NUL byte")
  else if path = "" then .error (.system Errno.noEntry)
  else if maxPathSize < path.utf8ByteSize then .error (.system Errno.nameTooLong)
  else s.walk (components path) (if path.startsWith "/" then .elsewhere else .directory [])

def readText (s : Storage) (path : String) : Except StorageError String :=
  match s.resolve path with
  | .error e => .error e
  | .ok (.file bytes) =>
    match String.fromUTF8? bytes with
    | some text => .ok text
    | none => .error (.other "stream did not contain valid UTF-8")
  | .ok _ => .error (.system Errno.isDirectory)

end Storage
end ThreadKernel
