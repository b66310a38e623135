import Juju.Lib.FileTree

namespace Juju.Charm
open Juju.Base Juju.Lib

/-- All that a process sees of the file system. -/
structure Host where
  root : Listing
  wellFormed : root.WellFormed
  cwd : Location

namespace Host

variable (w : Host)

def fs : FileSystem := fun loc => if loc = [] then some (.directory 0o755) else w.root.find loc

/-- `os.getcwd()`. -/
def getcwd : String := "/" ++ joinPath w.cwd

/-- Where a path leads. -/
def leads (path : String) : Option Location := w.fs.leads false maxLinks w.cwd path

/-- Where a link leads that is found at `path`, its target taken from its own directory. -/
def follows (path target : String) : Option Location :=
  if target = "" then none
  else w.fs.leads false (maxLinks - 1) w.cwd (join (dirname path) target)

/-- `os.stat(path)` of a path that stands for a leaf. -/
def stat (path : String) : Leaf → Option Node
  | .link target => (w.follows path target).bind w.fs
  | l => some (.leaf l)

def isdir (path : String) (l : Leaf) : Bool :=
  match w.stat path l with
  | some (.directory _) => true
  | _ => false

end Host

/-- What `os.walk` gives for one directory, but for the directories in it. -/
structure Visit where
  dirpath : String
  perm : Perm
  filenames : List (String × Leaf)

section walk

variable (w : Host)

/-- The names in a directory that are not taken for directories. -/
def filenames (dirpath : String) : Listing → List (String × Leaf)
  | .nil => []
  | .leaf name l rest =>
    if w.isdir (join dirpath name) l then filenames dirpath rest
    else (name, l) :: filenames dirpath rest
  | .directory _ _ _ rest => filenames dirpath rest

/-- The directories below a directory. A link to a directory is not followed. -/
def walkBelow (dirpath : String) : Listing → List Visit
  | .nil => []
  | .leaf _ _ rest => walkBelow dirpath rest
  | .directory name perm inside rest =>
    ⟨join dirpath name, perm, filenames w (join dirpath name) inside⟩ ::
      walkBelow (join dirpath name) inside ++ walkBelow dirpath rest

/-- `os.walk(top)`, which gives nothing where `top` cannot be listed. -/
def walk (top : String) : List Visit :=
  match w.leads top with
  | none => []
  | some loc =>
    match w.fs loc, w.root.listdir loc with
    | some (.directory perm), some inside =>
      ⟨top, perm, filenames w top inside⟩ :: walkBelow w top inside
    | _, _ => []

end walk

/-- A `CharmDirectory` by its path and the name in its metadata. -/
structure CharmDirectory where
  path : String
  name : String

structure ZipInfo where
  filename : String
  externalAttr : Nat
  data : String
  deriving DecidableEq

inductive ArchiveError where
  | invalidCharmFile (charmName path message : String)
  | osError
  deriving DecidableEq

def S_IFDIR : Nat := 0o040000
def S_IFREG : Nat := 0o100000
def S_IFLNK : Nat := 0o120000

/-- The name under which `ZipFile.write` files a path. -/
def arcname (name : String) : String := String.ofList ((normpath name).toList.dropWhile (· = '/'))

def zipDirectory (name : String) (perm : Perm) : ZipInfo :=
  ⟨arcname name ++ "/", (S_IFDIR + perm) * 2 ^ 16, ""⟩

def zipFile (name : String) (perm : Perm) (content : String) : ZipInfo :=
  ⟨arcname name, (S_IFREG + perm) * 2 ^ 16, content⟩

def writeSymlink (target name : String) : ZipInfo := ⟨name, (S_IFLNK + 0o755) * 2 ^ 16, target⟩

def ignore (path : String) : Bool :=
  path = "build" || startswith path "build/" || startswith path "."

namespace CharmDirectory

variable (c : CharmDirectory) (w : Host)

/-- A directory's path in the archive, `dirpath[len(self.path) + 1:]`. -/
def relativePath (dirpath : String) : String :=
  String.ofList (dirpath.toList.drop (c.path.length + 1))

def invalid (path message : String) : ArchiveError := .invalidCharmFile c.name path message

def checkType (path : String) (l : Leaf) : Except ArchiveError Unit :=
  match w.stat path l with
  | none => .error .osError
  | some (.directory _) => .ok ()
  | some (.leaf (.file _ _)) => .ok ()
  | some (.leaf _) => .error (c.invalid path "Invalid file type for a charm")

def checkLink (path target : String) : Except ArchiveError Unit :=
  if isabs target then .error (c.invalid path "Absolute links are invalid")
  else if startswith (join (dirname path) target) (abspath w.getcwd c.path) then .ok ()
  else .error (c.invalid path "Only internal symlinks are allowed")

/-- What the archive gets for a file of the walk. -/
def archiveFile (dirpath : String) (file : String × Leaf) : Except ArchiveError (List ZipInfo) :=
  let archiveName := join (c.relativePath dirpath) file.1
  if ignore archiveName then .ok []
  else do
    let realPath := join dirpath file.1
    c.checkType w realPath file.2
    match file.2 with
    | .link target =>
      c.checkLink w realPath target
      return [writeSymlink target archiveName]
    | .file perm content => return [zipFile archiveName perm content]
    | .special => return []

def archiveDirectory (visit : Visit) : List ZipInfo :=
  let relativePath := c.relativePath visit.dirpath
  if relativePath ≠ "" ∧ ignore relativePath = false then [zipDirectory relativePath visit.perm]
  else []

def archiveVisit (visit : Visit) : Except ArchiveError (List ZipInfo) := do
  let files ← visit.filenames.mapM (c.archiveFile w visit.dirpath)
  return c.archiveDirectory visit ++ files.flatten

def makeArchive : Except ArchiveError (List ZipInfo) := do
  let parts ← (walk w c.path).mapM (c.archiveVisit w)
  return parts.flatten

end CharmDirectory

end Juju.Charm
