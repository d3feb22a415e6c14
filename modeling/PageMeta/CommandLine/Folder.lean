import PageMeta.Value.Entries

/-!
# Paths and folders

The normal form of a path, and a folder of files in which paths are looked up.
-/

namespace PageMeta.CommandLine

/-- What a path leads to. -/
inductive Found where
  | file (content : List UInt8)
  | directory
  | nothing
  /-- The path, or a name in it, is too long to be looked up. -/
  | tooLong
deriving DecidableEq, Repr

/-- The parts of a text between slashes. -/
def parts : List Char → List (List Char)
  | [] => [[]]
  | '/' :: rest => [] :: parts rest
  | c :: rest =>
    match parts rest with
    | part :: others => (c :: part) :: others
    | [] => [[c]]

/-- The steps of a path: its parts but the empty ones and those that stay in place. -/
def pathSteps (path : String) : List String :=
  ((parts path.toList).filter fun part => !part.isEmpty && part != ['.']).map String.ofList

/-- What an absolute path begins with: one slash, but two if it has exactly two. -/
def pathRoot (path : String) : String :=
  let slashes := (path.toList.takeWhile (· == '/')).length
  if slashes = 0 then "" else if slashes = 2 then "//" else "/"

/-- The normal form of a path. -/
def normalPath (path : String) : String :=
  let text := pathRoot path ++ String.intercalate "/" (pathSteps path)
  if text = "" then "." else text

/-- The most bytes a whole path may have. -/
def maxPath : Nat := 4095

/-- The most bytes the name of a file or directory may have. -/
def maxName : Nat := 255

/-- A folder: its files, each by the steps that lead to it. -/
structure Folder where
  files : Entries (List String) (List UInt8)

/-- A place in the tree of directories around a folder. -/
inductive Place where
  /-- By the steps that lead there from the folder. -/
  | inside (steps : List String)
  /-- So many levels above the folder, but not less than one. -/
  | above (more : Nat)
  /-- By the steps that lead there from the root. -/
  | fromRoot (steps : List String)
  /-- Somewhere nothing is known of. -/
  | elsewhere

/-- Directories that stand at the root of every system. -/
def rootDirectories : List String :=
  ["bin", "boot", "dev", "etc", "home", "lib", "media", "mnt", "opt", "proc", "root", "run", "sbin",
   "srv", "sys", "tmp", "usr", "var"]

namespace Place

/-- The place one step down. -/
def down : Place → String → Place
  | .inside steps, name => .inside (steps ++ [name])
  | .fromRoot steps, name => .fromRoot (steps ++ [name])
  | _, _ => .elsewhere

/-- The place one level up; the root is above itself. -/
def up : Place → Place
  | .inside [] => .above 0
  | .inside steps => .inside steps.dropLast
  | .above more => .above (more + 1)
  | .fromRoot steps => .fromRoot steps.dropLast
  | .elsewhere => .elsewhere

end Place

namespace Folder

/-- A folder of files by path; of two files at one place the later one stays. -/
def ofList (files : List (String × List UInt8)) : Folder :=
  ⟨Entries.ofList (files.map fun p => (pathSteps p.1, p.2))⟩

/-- What steps from the folder lead to. -/
def at? (folder : Folder) (steps : List String) : Found :=
  match folder.files.get? steps with
  | some content => .file content
  | none =>
    if steps.isEmpty || folder.files.any (fun p => steps.isPrefixOf p.1) then .directory
    else .nothing

/-- What steps from the root lead to, as far as it is the same on every system. -/
def atRoot? : List String → Found
  | [] => .directory
  | [name] => if rootDirectories.contains name then .directory else .nothing
  | ["dev", "null"] => .file []
  | _ => .nothing

/-- What stands at a place. -/
def look (folder : Folder) : Place → Found
  | .inside steps => folder.at? steps
  | .above _ => .directory
  | .fromRoot steps => atRoot? steps
  | .elsewhere => .nothing

/-- Walks on from a place.  Every step is looked up in a directory, and its name must not be too
long for one. -/
def walk (folder : Folder) (here : Place) : List String → Found
  | [] => folder.look here
  | step :: rest =>
    match folder.look here with
    | .directory =>
      if step = ".." then walk folder here.up rest
      else if maxName < step.utf8ByteSize then .tooLong
      else walk folder (here.down step) rest
    | _ => .nothing

/-- What a path leads to.  A character of number zero stands in no path. -/
def find (folder : Folder) (path : String) : Found :=
  if path.toList.contains '\x00' then .nothing
  else if maxPath < (normalPath path).utf8ByteSize then .tooLong
  else
    folder.walk (if pathRoot path = "" then .inside [] else .fromRoot []) (pathSteps path)

end Folder

/-- A path with nothing to leave out is its own normal form. -/
example : normalPath "dir/settings.json" = "dir/settings.json" := by decide +kernel

example : normalPath "./a//b/./c/" = "a/b/c" := by decide +kernel

example : normalPath "" = "." := by decide +kernel

end PageMeta.CommandLine
