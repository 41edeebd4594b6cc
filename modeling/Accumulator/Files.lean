/-!
Files: why one cannot be read as text, and how a relative path names one in a
directory that is given by all the files below it.
-/
namespace Accumulator

inductive FileError where
  | notFound
  | isDirectory
  /-- A part of the path before its end is a file. -/
  | notDirectory
  | notText
deriving DecidableEq

def FileError.message : FileError → String
  | notFound => "No such file or directory (os error 2)"
  | isDirectory => "Is a directory (os error 21)"
  | notDirectory => "Not a directory (os error 20)"
  | notText => "stream did not contain valid UTF-8"

/-- The text of a file's bytes. -/
def decodeText (bytes : List UInt8) : Except FileError String :=
  match String.fromUTF8? ⟨bytes.toArray⟩ with
  | some text => .ok text
  | none => .error .notText

theorem decodeText_toUTF8 (text : String) : decodeText text.toUTF8.data.toList = .ok text := by
  have valid : String.fromUTF8? text.toUTF8 = some text := dif_pos text.isValidUTF8
  unfold decodeText
  rw [Array.toArray_toList, valid]

/-- A directory: the path of each file below it, as a list of names, and its bytes. -/
structure Directory where
  files : List (List String × List UInt8)

/-- Where a path has led so far. -/
inductive Place where
  | directory (path : List String)
  /-- A directory above the given one. Nothing is known of what it holds. -/
  | outside
  | file (bytes : List UInt8)

namespace Directory

/-- The names of a path, which slashes separate. -/
def names (path : String) : List String :=
  (path.toList.foldr split [""])
where
  /-- Puts a character in front of the names. -/
  split (c : Char) (names : List String) : List String :=
    if c = '/' then "" :: names
    else (String.singleton c ++ names.headD "") :: names.tail

/-- One name further on the way. -/
def follow (d : Directory) (place : Place) (name : String) : Except FileError Place :=
  match place with
  | .file _ => .error .notDirectory
  | .outside => if name = "" ∨ name = "." ∨ name = ".." then .ok .outside else .error .notFound
  | .directory path =>
    if name = "" ∨ name = "." then .ok place
    else if name = ".." then .ok (if path = [] then .outside else .directory path.dropLast)
    else
      match d.files.lookup (path ++ [name]) with
      | some bytes => .ok (.file bytes)
      | none =>
        if d.files.any fun file => (path ++ [name]).isPrefixOf file.1 then .ok (.directory (path ++ [name]))
        else .error .notFound

/-- The bytes of the file that a relative path names. -/
def read (d : Directory) (path : String) : Except FileError (List UInt8) := do
  match ← (names path).foldlM d.follow (.directory []) with
  | .file bytes => .ok bytes
  | .directory _ | .outside => .error .isDirectory

end Directory
end Accumulator
