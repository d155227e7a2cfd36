import Mend.Command.Files

/-!
# Files kept in memory

A directory with its files given as paths and bytes. The directories are those that the paths
pass through.
-/

namespace Mend.Command.Memory

/-- A path as the names that lead to a file. -/
abbrev Path := List String

/-- Files with their contents. -/
abbrev Store := List (Path × ByteArray)

/-- What a path leads to. -/
inductive Entry where
  | file (bytes : ByteArray)
  | directory

/-- The parts of a path between its slashes. -/
def parts (path : String) : List String := path.splitOn "/"

/-- The names that a path leads through, steps that stay in place left out. -/
def normalize (path : String) : Path := (parts path).filter fun part => part ≠ "" && part ≠ "."

/-- The files of a list of paths and contents; what comes later replaces what came before. -/
def ofList (files : List (String × ByteArray)) : Store :=
  files.foldl (fun store (name, bytes) => (normalize name, bytes) :: store) []

/-- What stands at a place. -/
def find? (store : Store) (place : Path) : Option Entry :=
  match store.find? (·.1 = place) with
  | some (_, bytes) => some (.file bytes)
  | none =>
    if place = [] || store.any (fun file => place.isPrefixOf file.1) then some .directory else none

/-- What is found by walking on from a directory, given by the names that lead to it from the
outermost one, most recent first. -/
def walk (store : Store) (place : Path) : List String → Except ReadFault Entry
  | [] => .ok .directory
  | part :: rest =>
    if part = "" || part = "." then walk store place rest
    else if part = ".." then
      match place with
      | [] => .error .missing
      | _ :: outer => walk store outer rest
    else
      match find? store (part :: place).reverse with
      | none => .error .missing
      | some .directory => walk store (part :: place) rest
      | some (.file bytes) => if rest = [] then .ok (.file bytes) else .error .notDirectory

/-- What a path leads to. -/
def resolve (store : Store) (path : String) : Except ReadFault Entry :=
  if path = "" || path.startsWith "/" then .error .missing else walk store [] (parts path)

/-- The text of the file that a path leads to. -/
def read (store : Store) (path : String) : Except ReadFault String :=
  match resolve store path with
  | .ok (.file bytes) => decodeText bytes
  | .ok .directory => .error .directory
  | .error fault => .error fault

/-- The names in the directory at a place. -/
def namesIn (store : Store) (place : Path) : List String :=
  (store.filterMap fun file =>
    if place.isPrefixOf file.1 then (file.1.drop place.length).head? else none).eraseDups

/-- Looking at files in memory. -/
def files (store : Store) : Files Id where
  read path := read store path
  isThere path := (resolve store path).isOk
  list path := namesIn store (normalize path)

end Mend.Command.Memory
