import PhasedUpgrade.Collections.NameMap
import PhasedUpgrade.Text.Split

/-!
# Trees of files

A file system below one directory: files with their bytes, and directories with their entries by
name.
-/

namespace PhasedUpgrade.Files

open NameMap (insertEntry)

inductive Tree where
  | file (bytes : ByteArray)
  | directory (entries : List (String × Tree))
deriving Inhabited

/-- Why a file cannot be had or put somewhere. -/
inductive Fault where
  | notFound
  | alreadyExists
  | notADirectory
  | isADirectory
  | notText
deriving DecidableEq

def Fault.message : Fault → String
  | notFound => "No such file or directory (os error 2)"
  | alreadyExists => "File exists (os error 17)"
  | notADirectory => "Not a directory (os error 20)"
  | isADirectory => "Is a directory (os error 21)"
  | notText => "stream did not contain valid UTF-8"

/-- The names on the way from a directory to a file. -/
abbrev Path : Type := List String

/-- The text of a file's path in a directory, by the text of the directory's own. -/
def join (directory name : String) : String :=
  if directory.isEmpty then name
  else if directory.toList.getLast? = some '/' then directory ++ name
  else directory ++ "/" ++ name

/-- The text of the path that a path's last name is in; a dot if there is nothing in front of it. -/
def parent (path : String) : String :=
  let isSlash (c : Char) : Bool := c == '/'
  let front := (path.toList.reverse.dropWhile isSlash).dropWhile (!isSlash ·)
  match front, front.dropWhile isSlash with
  | [], _ => "."
  | _ :: _, [] => "/"
  | _ :: _, name => .ofList name.reverse

/-- The names of a path with slashes between them. -/
def Path.ofText (text : String) : Path :=
  (Text.pieces '/' text).filter (!·.isEmpty)

namespace Tree

def empty : Tree := .directory []

def find : Path → Tree → Except Fault Tree
  | [], tree => .ok tree
  | _ :: _, .file _ => .error .notADirectory
  | name :: path, .directory entries =>
      match entries.lookup name with
      | none => .error .notFound
      | some tree => find path tree

def read (path : Path) (tree : Tree) : Except Fault ByteArray := do
  match ← tree.find path with
  | .file bytes => .ok bytes
  | .directory _ => .error .isADirectory

def readText (path : Path) (tree : Tree) : Except Fault String := do
  match String.fromUTF8? (← tree.read path) with
  | some text => return text
  | none => throw .notText

/-- Put a file at a path; directories that are missing on the way are made. -/
def write (bytes : ByteArray) : Path → Tree → Except Fault Tree
  | [], .file _ => .ok (.file bytes)
  | [], .directory _ => .error .isADirectory
  | _ :: _, .file _ => .error .notADirectory
  | name :: path, .directory entries => do
      let held := (entries.lookup name).getD (if path.isEmpty then .file bytes else .empty)
      return .directory (insertEntry name (← write bytes path held) entries)

/--
The text of the path that a failure to put a file tells of, and its cause: the file's own path if
there is a directory, and else that of its directory, which cannot be had.
-/
def writeFailure (tree : Tree) (path : Path) (text directory : String) : Fault → String × Fault
  | .isADirectory => (text, .isADirectory)
  | fault =>
      match tree.find path.dropLast with
      | .ok _ => (directory, .alreadyExists)
      | .error _ => (directory, fault)

/-- Make a directory and those that are missing on the way to it. -/
def makeDirectory : Path → Tree → Except Fault Tree
  | [], .directory entries => .ok (.directory entries)
  | _, .file _ => .error .notADirectory
  | name :: path, .directory entries => do
      return .directory
        (insertEntry name (← makeDirectory path ((entries.lookup name).getD .empty)) entries)

def remove : Path → Tree → Tree
  | [name], .directory entries => .directory (entries.filter (·.1 != name))
  | name :: path, .directory entries =>
      match entries.lookup name with
      | none => .directory entries
      | some held => .directory (insertEntry name (remove path held) entries)
  | _, tree => tree

mutual

/-- The paths of all files, with slashes, in front of which a text is put. -/
def filePaths (front : String) : Tree → List String
  | .file _ => [front]
  | .directory entries => entryPaths front entries

def entryPaths (front : String) : List (String × Tree) → List String
  | [] => []
  | (name, tree) :: rest =>
      filePaths (if front.isEmpty then name else front ++ "/" ++ name) tree ++
        entryPaths front rest

end

end Tree

end PhasedUpgrade.Files
