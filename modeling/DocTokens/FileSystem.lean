import DocTokens.Path
import DocTokens.Text.Bytes

/-! # File systems

A file system answers questions about paths; nothing in this library writes to it. Two kinds are
built here from a list of files: one whose paths are plain names, and one that sees the files below
a base directory only.
-/

namespace DocTokens

inductive EntryKind where
  | file
  | directory
  deriving DecidableEq, Repr

/-- One name in a directory. -/
structure DirectoryEntry where
  name : String
  kind : EntryKind
  deriving DecidableEq, Repr

structure FileSystem where
  /-- What a path leads to, if anything. -/
  kind? : String → Option EntryKind
  /-- The entries of a directory in the order of their names. -/
  entries? : String → Option (List DirectoryEntry)
  /-- The content of a file, or why it cannot be read. -/
  read : String → Except String Bytes
  /-- A bound on the length of paths, and so on the depth of directories. -/
  bound : Nat

namespace FileSystem

/-- A file to build a file system from. A name that ends in a slash is an empty directory. -/
structure File where
  path : String
  content : Bytes
  deriving DecidableEq, Repr

/-- What a known path leads to. -/
inductive Item where
  | directory
  | file (content : Bytes)
  deriving DecidableEq, Repr

namespace Item

def kind : Item → EntryKind
  | directory => .directory
  | file _ => .file

/-- What a given file puts at its path. -/
def ofFile (f : File) : Item := if f.path.endsWith "/" then directory else file f.content

end Item

/-- The known paths, each once. -/
abbrev Index := List (String × Item)

namespace Index

def item? (index : Index) (key : String) : Option Item := index.lookup key

def kind? (index : Index) (key : String) : Option EntryKind := (index.item? key).map Item.kind

/-- Adds a path that is not known yet. -/
def add (index : Index) (key : String) (item : Item) : Index :=
  if (index.item? key).isSome then index else index ++ [(key, item)]

def addDirectories (index : Index) (keys : List String) : Index :=
  keys.foldl (fun index key => index.add key .directory) index

/-- The entries of the directory `key`, `parent` telling the directory of each path. -/
def entries (index : Index) (parent : String → String) (key : String) : List DirectoryEntry :=
  let below := index.filter fun (path, _) => path != key && parent path == key
  let entries : List DirectoryEntry :=
    below.map fun (path, item) => ⟨Path.name path, item.kind⟩
  entries.mergeSort fun a b => a.name ≤ b.name

end Index

def pathBound (files : List File) : Nat :=
  files.foldl (fun n f => n + f.path.length + 1) 1

/-! ## Plain names -/

/-- The name under which a path is known: the root for the current directory and its parent. -/
def plainKey (path : String) : String :=
  let path := Path.clean path
  if path = "." ∨ path = ".." then "/" else path

/-- The directory in which a known name stands. -/
def plainParent (key : String) : String := plainKey (Path.parent key)

/-- The directories above a known name. -/
def plainAncestors : Nat → String → List String
  | 0, _ => []
  | fuel + 1, key =>
    if key = "/" then [] else plainParent key :: plainAncestors fuel (plainParent key)

def plainIndex (files : List File) : Index :=
  files.foldl (fun index file =>
    let key := plainKey file.path
    (index.add key (.ofFile file)).addDirectories (plainAncestors key.length key))
    [("/", .directory)]

/-- The file system of the given files. A directory reads as an empty file. -/
def ofFiles (files : List File) : FileSystem :=
  let index := plainIndex files
  { kind? := fun path => index.kind? (plainKey path)
    entries? := fun path =>
      let key := plainKey path
      if index.kind? key = some .directory then some (index.entries plainParent key) else none
    read := fun path =>
      match index.item? (plainKey path) with
      | some (.file content) => .ok content
      | some .directory => .ok []
      | none => .error s!"open {plainKey path}: file does not exist"
    bound := pathBound files }

/-- The file system in which the given paths cannot be opened, for the reason given. -/
def failing (fs : FileSystem) (paths : List String) (reason : String) : FileSystem :=
  { fs with
    entries? := fun path => if paths.contains path then none else fs.entries? path
    read := fun path => if paths.contains path then .error reason else fs.read path }

/-! ## Below a base directory -/

/-- The place of a path below `base`, unless it leads out of it. -/
def rootedKey? (base path : String) : Option String :=
  let key := Path.join base path
  if key.startsWith base then some key else none

/-- The directory above an absolute path. -/
def rootedParent (key : String) : String :=
  let parent := Path.parent key
  if parent = "" then "/" else parent

/-- The directories above an absolute path, the root last. -/
def rootedAncestors : Nat → String → List String
  | 0, _ => []
  | fuel + 1, key =>
    if key = "/" then [] else rootedParent key :: rootedAncestors fuel (rootedParent key)

/-- All paths of a disk whose working directory is `home`, with files at paths relative to it. -/
def rootedIndex (home : String) (files : List File) : Index :=
  let start := Index.addDirectories [] (home :: rootedAncestors home.length home)
  files.foldl (fun index file =>
    let key := Path.join home file.path
    (index.add key (.ofFile file)).addDirectories (rootedAncestors key.length key)) start

/-- The files below the directory `base` of a disk. Paths that lead out of it lead nowhere. -/
def rooted (home base : String) (files : List File) : FileSystem :=
  let index := rootedIndex home files
  { kind? := fun path => (rootedKey? base path).bind index.kind?
    entries? := fun path =>
      match rootedKey? base path with
      | none => none
      | some key =>
        if index.kind? key = some .directory then some (index.entries rootedParent key) else none
    read := fun path =>
      match rootedKey? base path with
      | none => .error s!"open {path}: file does not exist"
      | some key =>
        match index.item? key with
        | some (.file content) => .ok content
        | some .directory => .error s!"read {key}: is a directory"
        | none =>
          if (rootedAncestors key.length key).any fun k => index.kind? k = some .file then
            .error s!"open {key}: not a directory"
          else .error s!"open {key}: no such file or directory"
    bound := home.length + pathBound files }

end FileSystem

end DocTokens
