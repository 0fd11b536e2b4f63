/-!
# Source files

Names of files, and what comes of reading one.

## Main definitions

* `FilePath.extension?` : the ending of a name that tells the kind of file.
* `FileContents`, `FileContents.source` : what is found under a name, and the text in it.
* `FileTree.read` : the reading of a file in a tree of directories that is held in memory.
-/

namespace MonkeyLang

namespace FilePath

/-- The parts of a text between the characters `separator`. -/
def splitAt (separator : Char) : List Char → List (List Char)
  | [] => [[]]
  | c :: cs =>
    if c == separator then [] :: splitAt separator cs
    else
      match splitAt separator cs with
      | [] => [[c]]
      | part :: parts => (c :: part) :: parts

/-- The names on a path, one in the other. Neither slashes at its end nor single dots count. -/
def components (path : String) : List String :=
  ((splitAt '/' path.toList).map String.ofList).filter fun part => part != "" && part != "."

/-- Whether the path can only be that of a directory. -/
def endsAsDirectory (path : String) : Bool :=
  match (splitAt '/' path.toList).getLast? with
  | some last => last == [] || last == ['.'] || last == ['.', '.']
  | none => false

/-- The extension of a file's path: what follows the last dot of its name, unless nothing precedes
that dot. -/
def extension? (path : String) : Option String :=
  match (components path).getLast? with
  | none => none
  | some name =>
    if name == ".." then none
    else
      match (splitAt '.' name.toList).reverse with
      | last :: before :: more =>
        if before.isEmpty && more.isEmpty then none else some (String.ofList last)
      | _ => none

/-- The lower-case letter for an upper-case letter of ASCII; any other character itself. -/
def lower (c : Char) : Char :=
  if 'A' ≤ c && c ≤ 'Z' then Char.ofNat (c.toNat + 32) else c

/-- The largest number of bytes that a path may have. -/
def maxBytes : Nat := 4095

/-- The largest number of bytes that a name on a path may have. -/
def maxNameBytes : Nat := 255

/-- Whether the path is that of a source file, by its extension. -/
def isSource (path : String) : Bool :=
  match extension? path with
  | some e =>
    let e := e.toList.map lower
    e == "mk".toList || e == "monkey".toList
  | none => false

end FilePath

/-- What is found under the path of a file. -/
inductive FileContents where
  /-- A file with these bytes. -/
  | bytes (content : ByteArray)
  /-- Nothing. -/
  | missing
  /-- A file that may not be read. -/
  | forbidden
  /-- Something that cannot be read, for the given reason. -/
  | unreadable (reason : String)

namespace FileContents

/-- Something that is a directory. -/
def directory : FileContents := .unreadable "Is a directory (os error 21)"

/-- Something inside what is no directory. -/
def insideFile : FileContents := .unreadable "Not a directory (os error 20)"

/-- Something with a path or a name on it that is too long. -/
def nameTooLong : FileContents := .unreadable "File name too long (os error 36)"

/-- The text of the file `path`, or the words in which it is said why there is none. -/
def source (path : String) : FileContents → Except String String
  | .bytes content =>
    match String.fromUTF8? content with
    | some text => .ok text
    | none => .error s!"'{path}' contains invalid UTF-8 data"
  | .missing => .error s!"cannot find file '{path}'"
  | .forbidden => .error s!"permission denied reading '{path}'"
  | .unreadable reason => .error s!"error reading '{path}': {reason}"

end FileContents

/-- A tree of files and directories held in memory. -/
structure FileTree where
  /-- Files with their bytes and directories with nothing, by the names on the way from the root. -/
  entries : List (List String × Option ByteArray)
  /-- The directory that paths start from, unless they start with a slash. -/
  home : List String

namespace FileTree

/-- What every tree holds: the usual directories at its root, and the file that is always empty. -/
def standard : List (List String × Option ByteArray) :=
  (["dev", "null"], some .empty) ::
    ["bin", "dev", "etc", "home", "lib", "opt", "proc", "root", "run", "sbin", "sys", "tmp", "usr",
      "var"].map fun name => ([name], none)

/-- The tree with a directory that holds the given files and directories and that paths start
from. -/
def ofFiles (files : List (String × Option ByteArray)) : FileTree :=
  let home := ["tmp", "scripts"]
  { entries := files.map (fun f => (home ++ FilePath.components f.1, f.2)) ++ standard, home }

/-- What stands under the names `names` from the root: a file with its bytes, a directory or nothing.
The root is a directory, and so is whatever has an entry or the starting place inside it. -/
def find (t : FileTree) (names : List String) : Option (Option ByteArray) :=
  match t.entries.lookup names with
  | some content => some content
  | none =>
    if names.isPrefixOf t.home || t.entries.any fun e => names.isPrefixOf e.1 then some none
    else none

/-- What is found on the way along the names `path` from the place `here`. Two dots lead back to the
outer directory, at the root to the root itself. The way goes on in directories only. -/
def follow (t : FileTree) (here : List String) : List String → FileContents
  | [] =>
    match t.find here with
    | some (some content) => .bytes content
    | some none => .directory
    | none => .missing
  | name :: path =>
    match t.find here with
    | some none =>
      if name == ".." then t.follow here.dropLast path
      else if FilePath.maxNameBytes < name.utf8ByteSize then .nameTooLong
      else t.follow (here ++ [name]) path
    | some (some _) => .insideFile
    | none => .missing

/-- What is found under a path. -/
def read (t : FileTree) (path : String) : FileContents :=
  if path == "" then .missing
  else if FilePath.maxBytes < path.utf8ByteSize then .nameTooLong
  else
    let start := if path.toList.head? == some '/' then [] else t.home
    match t.follow start (FilePath.components path) with
    | .bytes content => if FilePath.endsAsDirectory path then .insideFile else .bytes content
    | other => other

end FileTree

end MonkeyLang
