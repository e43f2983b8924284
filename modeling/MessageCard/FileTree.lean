import MessageCard.FilePath

/-!
# A tree of files

Files lie below a directory, under paths of names. A path that is looked up is followed name by
name; empty names and single dots stay where they are, as long as that is a directory.
-/
namespace MessageCard

/-- Why a file cannot be read. -/
inductive FileError where
  | notFound
  | notADirectory
  | isADirectory
  | nameTooLong
  | other (text : String)
  deriving DecidableEq

def FileError.message : FileError → String
  | .notFound => "No such file or directory (os error 2)"
  | .notADirectory => "Not a directory (os error 20)"
  | .isADirectory => "Is a directory (os error 21)"
  | .nameTooLong => "File name too long (os error 36)"
  | .other text => text

/-- The names of a path. -/
abbrev Path := List String

/-- The files below a directory, by their paths from it. -/
structure FileTree where
  files : List (Path × String)

/-- A place in a tree. -/
inductive FileNode where
  | file (text : String)
  | directory (path : Path)

namespace FileTree

def empty : FileTree := ⟨[]⟩

/-- The tree of files that are given by their paths as texts. -/
def ofList (files : List (String × String)) : FileTree :=
  ⟨files.map fun f => ((f.1.splitOn "/").filter fun n => n ≠ "" ∧ n ≠ ".", f.2)⟩

/-- The greatest number of bytes of a name. -/
def nameLimit : Nat := 255

/-- The file under a path. -/
def file? (t : FileTree) (path : Path) : Option String :=
  (t.files.find? (·.1 = path)).map (·.2)

/-- Whether a path leads to files. -/
def isDirectory (t : FileTree) (path : Path) : Bool :=
  t.files.any fun f => path.isPrefixOf f.1 && path.length < f.1.length

/-- One name further. -/
def enter (t : FileTree) (name : String) : FileNode → Except FileError FileNode
  | .file _ => .error .notADirectory
  | .directory path =>
    if name = "" ∨ name = "." then .ok (.directory path)
    else if name = ".." then .ok (.directory path.dropLast)
    else if nameLimit < name.utf8ByteSize then .error .nameTooLong
    else match t.file? (path ++ [name]) with
      | some text => .ok (.file text)
      | none =>
        if t.isDirectory (path ++ [name]) then .ok (.directory (path ++ [name]))
        else .error .notFound

/-- What the names of a path lead to, one name after the other. -/
def follow (t : FileTree) (names : Path) (node : FileNode) : Except FileError FileNode :=
  names.foldlM (fun node name => t.enter name node) node

/-- The text of a place, which a directory does not have. -/
def textAt : FileNode → Except FileError String
  | .file text => .ok text
  | .directory _ => .error .isADirectory

/-- The place that a path leads to. A path that does not begin at the root goes on from a
directory. -/
def reach (t : FileTree) (start : Path) (path : List Char) : Except FileError FileNode :=
  t.follow ((FilePath.names path).map String.ofList)
    (.directory (if FilePath.isAbsolute path then [] else start))

/-- The text of the file that a path leads to. -/
def readFrom (t : FileTree) (start : Path) (path : List Char) : Except FileError String :=
  if path.contains '\x00' then .error (.other "file name contained an unexpected NUL byte")
  else (t.reach start path).bind textAt

/-- The text of the file that a path leads to from here; from elsewhere there is none. -/
def readPath (t : FileTree) (path : String) : Except FileError String :=
  if FilePath.isAbsolute path.toList then .error .notFound else t.readFrom [] path.toList

end FileTree
end MessageCard
