/-!
# Files

A `FileSystem` is a tree of files and directories together with the directory that relative paths
start from.  `FileSystem.read` follows a path through it, part by part, and gives the bytes of the
file at its end or the first `FileError` on the way.

The parts of a path are what the slashes divide: they hold no slash
(`slash_notMem_of_mem_pathParts`), and with slashes between them they are the path again
(`intercalate_pathParts`).
-/

namespace Lr35902

/-- Why a file could not be read. -/
inductive FileError where
  | missing
  | accessDenied
  /-- A part of the path in front of the last one is no directory. -/
  | notDirectory
  /-- The path names a directory. -/
  | isDirectory
  /-- The path, or one of its parts, is too long. -/
  | nameTooLong
  | tooManyLinks
  /-- The path holds the character that ends paths. -/
  | nulByte
  | other (text : String)
deriving DecidableEq

/-- The text of the error, with the number that the system gives it. -/
def FileError.message : FileError → String
  | missing => "No such file or directory (os error 2)"
  | accessDenied => "Permission denied (os error 13)"
  | notDirectory => "Not a directory (os error 20)"
  | isDirectory => "Is a directory (os error 21)"
  | nameTooLong => "File name too long (os error 36)"
  | tooManyLinks => "Too many levels of symbolic links (os error 40)"
  | nulByte => "file name contained an unexpected NUL byte"
  | other text => text

/-- A file, or a directory with what is in it. -/
inductive FileTree where
  | file (bytes : List UInt8)
  | directory (entries : List (String × FileTree))

namespace FileTree

/-- The most bytes that one part of a path may have. -/
def maxNameSize : Nat := 255

/-- Follows the parts of a path.  `above` holds the directories around the place that has been
reached, the innermost first.  A file has nothing below it, so no part may follow it, not even an
empty one; the root lies in itself. -/
def walk (above : List FileTree) : FileTree → List String → Except FileError FileTree
  | here, [] => .ok here
  | file _, _ :: _ => .error .notDirectory
  | directory entries, part :: rest =>
    if part = "" ∨ part = "." then walk above (directory entries) rest
    else if part = ".." then
      match above with
      | [] => walk [] (directory entries) rest
      | outer :: above => walk above outer rest
    else if maxNameSize < part.utf8ByteSize then .error .nameTooLong
    else
      match entries.lookup part with
      | some next => walk (directory entries :: above) next rest
      | none => .error .missing

end FileTree

/-- The parts of a path, which slashes divide.  There is always a part, be it empty. -/
def pathParts : List Char → List (List Char)
  | [] => [[]]
  | '/' :: rest => [] :: pathParts rest
  | c :: rest =>
    match pathParts rest with
    | part :: parts => (c :: part) :: parts
    | [] => [[c]]

theorem pathParts_ne_nil (chars : List Char) : pathParts chars ≠ [] := by
  fun_induction pathParts chars <;> simp

/-- Slashes between the parts give the path back. -/
theorem intercalate_pathParts (chars : List Char) :
    ['/'].intercalate (pathParts chars) = chars := by
  fun_induction pathParts chars with
  | case1 => rfl
  | case2 rest ih =>
    cases h : pathParts rest with
    | nil => exact absurd h (pathParts_ne_nil rest)
    | cons part parts => simp_all [List.intercalate]
  | case3 c rest _ part parts h ih =>
    cases parts <;> simp_all [List.intercalate]
  | case4 c rest _ h => exact absurd h (pathParts_ne_nil rest)

/-- No part holds a slash. -/
theorem slash_notMem_of_mem_pathParts {chars part : List Char} (h : part ∈ pathParts chars) :
    '/' ∉ part := by
  fun_induction pathParts chars generalizing part with
  | case1 => simp_all
  | case2 rest ih =>
    rcases List.mem_cons.1 h with rfl | h
    · exact List.not_mem_nil
    · exact ih h
  | case3 c rest hc first parts hrest ih =>
    rcases List.mem_cons.1 h with rfl | h
    · have hfirst := ih (hrest ▸ List.mem_cons_self)
      simp_all [eq_comm]
    · exact ih (hrest ▸ List.mem_cons_of_mem _ h)
  | case4 c rest _ hrest => exact absurd hrest (pathParts_ne_nil rest)

/-- All files, and where relative paths start. -/
structure FileSystem where
  root : FileTree
  /-- The parts of the path to the directory that relative paths start from. -/
  workingDirectory : List String := []

namespace FileSystem

/-- The number of bytes from which on a path is too long. -/
def pathLimit : Nat := 4096

/-- The bytes of the file at `path`.  A path that begins with a slash starts at the root. -/
def read (fs : FileSystem) (path : String) : Except FileError (List UInt8) :=
  let chars := path.toList
  if '\x00' ∈ chars then .error .nulByte
  else if chars = [] then .error .missing
  else if pathLimit ≤ path.utf8ByteSize then .error .nameTooLong
  else
    let start := if chars.head? = some '/' then [] else fs.workingDirectory
    match fs.root.walk [] (start ++ (pathParts chars).map String.ofList) with
    | .ok (.file bytes) => .ok bytes
    | .ok (.directory _) => .error .isDirectory
    | .error e => .error e

end FileSystem

end Lr35902
