/-
# Files of a folder

A folder by value: its files with their contents, and its subfolders. Paths are relative to it;
`.` and an empty component stay where they are and `..` goes up. Every component but the last must
be a folder, and what lies outside has no files.

A component has at most 255 bytes and a path at most 4095. A component is measured when it is
reached, so that a missing folder before it is found first.
-/

import BoolQuery.Command.Input
import BoolQuery.Text.Lines

namespace BoolQuery
namespace Command

/-- The files of a folder by path, and the paths of its subfolders. -/
structure Folder where
  files : List (String × ByteArray)
  folders : List String

namespace Folder

/-- The components of a path. -/
def components (path : String) : List String :=
  (Text.pieces '/' path.toList).map String.ofList

/-- The component does not lead to another name. -/
def isDot (component : String) : Bool := component == "" || component == "."

/-- The names on the way from the folder to the end of a path, where each component leads on from
the place before. -/
def place (path : String) : List String :=
  (components path).foldl
    (fun names c => if isDot c then names else if c = ".." then names.dropLast else names ++ [c]) []

/-- The file at a place: of several, the one put there last. -/
def file? (folder : Folder) (names : List String) : Option ByteArray :=
  (folder.files.reverse.find? fun f => place f.1 == names).map (·.2)

/-- A subfolder is at a place, or something is below it. -/
def hasFolder (folder : Folder) (names : List String) : Bool :=
  folder.folders.any (fun d => names.isPrefixOf (place d)) ||
    folder.files.any (fun f => names.isPrefixOf (place f.1).dropLast)

/-- A component that no file can have as its name. -/
def isTooLong (component : String) : Bool := 255 < component.utf8ByteSize

/-- What comes of following a path outside of the folder. -/
def outside (rest : List String) : ReadError :=
  match rest.find? fun c => !isDot c && c != ".." with
  | none => .isADirectory
  | some c => if isTooLong c then .nameTooLong else .notFound

/-- Follows the components of a path from a place in the folder, and reads the file there. -/
def follow (folder : Folder) (names : List String) : List String → Except ReadError ByteArray
  | [] => .error .isADirectory
  | c :: rest =>
    if isDot c then follow folder names rest
    else if c = ".." then
      if names = [] then .error (outside rest) else follow folder names.dropLast rest
    else if isTooLong c then .error .nameTooLong
    else match folder.file? (names ++ [c]) with
      | some bytes => if rest = [] then .ok bytes else .error .notADirectory
      | none =>
        if folder.hasFolder (names ++ [c]) then follow folder (names ++ [c]) rest
        else .error .notFound

/-- Reads the file at a path. The empty path leads nowhere. -/
def read (folder : Folder) (path : String) : Except ReadError ByteArray :=
  if path.toList.contains '\x00' then .error .nulInName
  else if 4095 < path.utf8ByteSize then .error .nameTooLong
  else if path = "" then .error .notFound
  else if path.toList.head? = some '/' then .error (outside (components path))
  else folder.follow [] (components path)

end Folder

end Command
end BoolQuery
