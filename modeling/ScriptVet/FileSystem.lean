import ScriptVet.Text

/-!
Paths in a tree of files and directories, seen from a working directory. A path is followed name by
name from the root, and every name on the way has to stand in a directory. The system reads a path
up to its first zero byte.
-/

namespace ScriptVet

inductive FileTree where
  | file
  | directory (entries : List (Text × FileTree))

structure FileSystem where
  root : FileTree
  /-- The names on the way from the root to the working directory. -/
  workingDirectory : List Text

namespace FileSystem

/-- Why a path leads nowhere. -/
inductive Fault where
  | missing
  | notDirectory
  | nameTooLong
  | noPath
  deriving DecidableEq, Repr

def Fault.message : Fault → Text
  | missing => .ascii "No such file or directory"
  | notDirectory => .ascii "Not a directory"
  | nameTooLong => .ascii "File name too long"
  | noPath => .ascii "Invalid argument"

def slash : UInt8 := Text.byte '/'

/-- The most bytes that the name of an entry has. -/
def nameLimit : Nat := 255

/-- The most bytes of a path that can be looked up at once. -/
def pathLimit : Nat := 4095

/-- The most directories that are made for one path. -/
def makeLimit : Nat := 1000

/-- The entries passed on the way from the root, the last one first. -/
abbrev Trail := List (Text × FileTree)

namespace Trail

/-- Where a trail from `root` ends. -/
def target (root : FileTree) : Trail → FileTree
  | [] => root
  | (_, t) :: _ => t

/-- The shortest absolute path along a trail. -/
def path : Trail → Text
  | [] => [slash]
  | e :: es => (e :: es).reverse.flatMap fun entry => slash :: entry.1

/-- Goes on by one name, where `absent` stands for an entry that is not there. A name can only be
looked up in a directory, also an empty one, which stands between two slashes or behind the last
one. -/
def step (root : FileTree) (absent : Except Fault FileTree) (trail : Trail) (name : Text) :
    Except Fault Trail :=
  match trail.target root with
  | .file => .error .notDirectory
  | .directory entries =>
    if name = [] ∨ name = .ascii "." then .ok trail
    else if name = .ascii ".." then .ok trail.tail
    else if nameLimit < name.length then .error .nameTooLong
    else
      match entries.find? (·.1 = name) with
      | some entry => .ok (entry :: trail)
      | none => absent.map fun t => (name, t) :: trail

end Trail

/-- The trail of names from the root. -/
def follow (root : FileTree) (absent : Except Fault FileTree) (names : List Text) :
    Except Fault Trail :=
  names.foldlM (Trail.step root absent) []

/-- The names to follow from the root for a path. -/
def names (fs : FileSystem) (path : Text) : List Text :=
  (if path.head? = some slash then [] else fs.workingDirectory) ++ path.splitOn slash

/-- The shortest absolute path to what a path leads to. An empty text is no path. -/
def resolve (fs : FileSystem) (path : Text) : Except Fault Text :=
  if path = [] then .error .noPath
  else (follow fs.root (.error .missing) (fs.names path.untilNul)).map Trail.path

/-- The path of the directory that holds what `path` leads to; it is empty for a single name. The
root holds itself. -/
def parent (path : Text) : Text :=
  if path.all (· = slash) then path
  else
    let front := path.reverse.dropWhile (· ≠ slash)
    match front.dropWhile (· = slash) with
    | [] => front.take 1
    | rest => rest.reverse

/-- Of names to follow, the entries from the first one on that is not there. -/
def unmade (root : FileTree) (trail : Trail) : List Text → List Text
  | [] => []
  | name :: rest =>
    match trail.step root (.error .missing) name with
    | .ok trail => unmade root trail rest
    | .error _ => (name :: rest).filter (· ∉ [[], Text.ascii ".", Text.ascii ".."])

/-- A directory is at a path or can be made there, with the directories that lead to it. -/
def canMake (fs : FileSystem) (path : Text) : Bool :=
  path ≠ [] && path.length ≤ pathLimit &&
    (unmade fs.root [] (fs.names path)).length ≤ makeLimit &&
    (follow fs.root (.ok (.directory [])) (fs.names path ++ [[]])).isOk

/-- The directory around a path is there or can be made. -/
def admits (fs : FileSystem) (path : Text) : Bool :=
  parent path = [] || fs.canMake (parent path).untilNul

end FileSystem

end ScriptVet
