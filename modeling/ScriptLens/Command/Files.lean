import ScriptLens.Text.Basic

/-!
Paths and the reading of files from a folder that is held as a list of names and contents.
-/

namespace ScriptLens

/-- Why a file gave no text. -/
inductive FileError where
  | notFound
  | notADirectory
  | isDirectory
  | nameTooLong
  | holdsNul
  | notUtf8
  /-- What the system said otherwise. -/
  | other (message : String)
deriving DecidableEq, Repr

def FileError.message : FileError → String
  | notFound => "No such file or directory (os error 2)"
  | notADirectory => "Not a directory (os error 20)"
  | isDirectory => "Is a directory (os error 21)"
  | nameTooLong => "File name too long (os error 36)"
  | holdsNul => "file name contained an unexpected NUL byte"
  | notUtf8 => "stream did not contain valid UTF-8"
  | other message => message

namespace Path

/-- The parts of a path between slashes. -/
def parts (path : String) : List String :=
  ((path.toList.splitOn '/').map String.ofList)

/-- Whether a path leads through a parent directory. -/
def climbs (path : String) : Bool := (parts path).contains ".."

/-- What is said about a path that leads through a parent directory. -/
def climbMessage : String := "Parent directory components ('..') are not allowed in file paths."

/-- The parts that lead somewhere. -/
def names (path : String) : List String := (parts path).filter fun p => p != "" && p != "."

/-- Whether a path names a directory by its form. -/
def endsAsDirectory (path : String) : Bool :=
  match (parts path).getLast? with
  | some last => last = "" || last = "."
  | none => false

def isAbsolute (path : String) : Bool := path.startsWith "/"

/-- Bytes that one name in a path may have. -/
def longestName : Nat := 255

/-- Bytes that a whole path may have. -/
def longestPath : Nat := 4095

end Path

/-- The bytes of a file as text. -/
def decodeText (bytes : ByteArray) : Except FileError String :=
  match String.fromUTF8? bytes with
  | some text => .ok text
  | none => .error .notUtf8

/-- Files by the names that lead to them. -/
abbrev Folder := List (List String × ByteArray)

namespace Folder

/-- The file at a place, if there is one. -/
def file? (folder : Folder) (place : List String) : Option ByteArray :=
  (folder.find? (·.1 == place)).map (·.2)

/-- Whether a file or a directory is at a place. -/
def holds (folder : Folder) (place : List String) : Bool := folder.any fun f => place.isPrefixOf f.1

/-- Goes from an existing place along names, and gives the place where they lead. Each name is
looked up only in a directory that is there. -/
def walk (folder : Folder) (place : List String) : List String → Except FileError (List String)
  | [] => .ok place
  | name :: names =>
    if (folder.file? place).isSome then .error .notADirectory
    else if Path.longestName < name.utf8ByteSize then .error .nameTooLong
    else if folder.holds (place ++ [name]) then walk folder (place ++ [name]) names
    else .error .notFound

/-- The file that a path leads to. Outside the folder, which absolute paths leave, nothing is
found. -/
def read (folder : Folder) (path : String) : Except FileError ByteArray :=
  let folder : Folder := if Path.isAbsolute path then [] else folder
  if path.toList.contains '\x00' then .error .holdsNul
  else if path = "" then .error .notFound
  else if Path.longestPath < path.utf8ByteSize then .error .nameTooLong
  else do
    match folder.file? (← folder.walk [] (Path.names path)) with
    | some bytes => if Path.endsAsDirectory path then .error .notADirectory else .ok bytes
    | none => .error .isDirectory

end Folder

end ScriptLens
