import ApiContract.Failure
import ApiContract.Table
import ApiContract.Text.Cut
import ApiContract.Text.Quoted

/-! # Files

Paths are kept in their plain form, without empty components and single points, and
there is a longest path and a longest name. A tree of files lists the files below one
directory; a directory is there when a file is below it or when it was made. Beyond
that directory only what every system has is known.
-/
namespace ApiContract.CommandLine

namespace FilePath

def components (path : String) : List String :=
  ((Text.splitAt '/' path.toList).filter fun c => c ≠ [] ∧ c ≠ ['.']).map String.ofList

/-- The slashes that a path from the root starts with; just two are kept as two. -/
def root (path : String) : String :=
  match path.toList.takeWhile (· == '/') with
  | [] => ""
  | ['/', '/'] => "//"
  | _ => "/"

def isRooted (path : String) : Bool := root path != ""

/-- The plain form of a path; a point when nothing is left. -/
def plain (path : String) : String :=
  let text := root path ++ "/".intercalate (components path)
  if text = "" then "." else text

def isBroken (path : String) : Bool := path.toList.contains '\x00'

def isLong (path : String) : Bool := path.utf8ByteSize ≥ 4096

def isLongName (name : String) : Bool := name.utf8ByteSize > 255

/-- The plain form of the path that some segments lead to from a directory. -/
def below (directory : String) (segments : List String) : String :=
  root directory ++ "/".intercalate (components directory ++ segments)

end FilePath

inductive Found
  | file (text : String)
  | directory
  | absent
  | throughFile
  | tooLong
  deriving DecidableEq, Repr

/-- The text at a path, or the number and the name of the fault. -/
def Found.text : Found → Except (Nat × String) String
  | file text => .ok text
  | absent => .error (2, "No such file or directory")
  | throughFile => .error (20, "Not a directory")
  | directory => .error (21, "Is a directory")
  | tooLong => .error (36, "File name too long")

def faultMessage (fault : Nat × String) (path : String) : String :=
  s!"[Errno {fault.1}] {fault.2}: " ++ Text.quoted path

structure FileTree where
  files : Table (List String) String := []
  made : List (List String) := []

namespace FileTree

def ofPairs (files : List (String × String)) : FileTree :=
  { files := Table.ofPairs (files.map fun f => (FilePath.components f.1, f.2)) }

def isFile (tree : FileTree) (path : List String) : Bool := Table.has tree.files path

def isDirectory (tree : FileTree) (path : List String) : Bool :=
  path.isEmpty || tree.made.contains path ||
    tree.files.any fun f => path.isPrefixOf f.1 && f.1 != path

def systemDirectories : List String :=
  ["bin", "boot", "dev", "etc", "home", "lib", "media", "mnt", "opt", "proc", "root", "run",
   "sbin", "srv", "sys", "tmp", "usr", "var"]

def fromRoot : List String → Found
  | [] => .directory
  | ["dev", "null"] => .file ""
  | "dev" :: "null" :: _ => .throughFile
  | name :: rest =>
    if name = ".." then fromRoot rest
    else if FilePath.isLongName name then .tooLong
    else if rest.isEmpty && systemDirectories.contains name then .directory
    else .absent

def fromAbove : List String → Found
  | [] => .directory
  | name :: rest =>
    if name = ".." then fromAbove rest
    else if FilePath.isLongName name then .tooLong
    else .absent

def follow (tree : FileTree) : List String → List String → Found
  | _, [] => .directory
  | directory, name :: rest =>
    if name = ".." then
      if directory.isEmpty then fromAbove rest else follow tree directory.dropLast rest
    else if FilePath.isLongName name then .tooLong
    else
      let here := directory ++ [name]
      match Table.get? tree.files here with
      | some text => if rest.isEmpty then .file text else .throughFile
      | none => if tree.isDirectory here then follow tree here rest else .absent

def look (tree : FileTree) (path : String) : Found :=
  if FilePath.isLong (FilePath.plain path) then .tooLong
  else if FilePath.isRooted path then fromRoot (FilePath.components path)
  else tree.follow [] (FilePath.components path)

/-- A place in the tree; none for a place outside. -/
abbrev Place := Option (List String)

/-- A way down to a directory, with the tree that has the directories so far. -/
structure Descent where
  tree : FileTree
  place : Place
  hasMade : Bool := false

/-- Goes down to a directory and makes those that are missing. The way may lead out of
the tree. A file behind a directory that was missing is met where a directory is to be
made; any other one is met on the way, unless it is at its end. -/
def Descent.down (d : Descent) : List String → Outcome Descent
  | [] => .ok d
  | name :: rest =>
    if name = ".." then
      let above := d.place.bind fun p => if p.isEmpty then none else some p.dropLast
      Descent.down { d with place := above } rest
    else if FilePath.isLongName name then .error .longPath
    else match d.place.map (· ++ [name]) with
      | none => Descent.down d rest
      | some here =>
        if d.tree.isFile here then
          .error (if d.hasMade || rest.isEmpty then .occupied else .throughFile)
        else if d.tree.isDirectory here then Descent.down { d with place := some here } rest
        else
          let tree := { d.tree with made := here :: d.tree.made }
          Descent.down { tree, place := some here, hasMade := true } rest

/-- The directory of a file to write, which is made where it is missing. -/
def descend (tree : FileTree) (path : String) : Outcome Descent :=
  let names := (FilePath.components path).dropLast
  if FilePath.isLong (FilePath.below (FilePath.root path) names) then .error .longPath
  else if !FilePath.isRooted path then Descent.down { tree, place := some [] } names
  else if fromRoot names = .throughFile then .error .throughFile
  else Descent.down { tree, place := none } names

def write (tree : FileTree) (path text : String) : Outcome FileTree :=
  if FilePath.isBroken path then .error .brokenPath
  else do
    let d ← descend tree path
    let name := (FilePath.components path).getLastD ""
    if FilePath.isLong path || FilePath.isLongName name then .error .longPath
    else match d.place.map (· ++ [name]) with
      | none => pure d.tree
      | some place =>
        if d.tree.isDirectory place then .error .directoryInPlace
        else pure { d.tree with files := Table.put d.tree.files place text }

def writeAll (tree : FileTree) (new : List (String × String)) : Outcome FileTree :=
  new.foldlM (fun tree f => tree.write f.1 f.2) tree

/-- The files that another tree does not have, sorted by path. -/
def since (tree before : FileTree) : List (String × String) :=
  let new := tree.files.filter fun f => !before.isFile f.1
  (new.map fun f => ("/".intercalate f.1, f.2)).mergeSort fun a b => a.1 ≤ b.1

end FileTree

end ApiContract.CommandLine
