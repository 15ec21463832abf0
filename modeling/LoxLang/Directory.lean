import LoxLang.SourceFile

/-!
# Directories as data

A directory is a list of files, and a path read from inside it is followed part
by part, as a file system does: an empty part and `.` stay where they are, `..`
goes to the folder around, and nothing lies behind a file. Of the world around
the directory nothing is known but that it consists of folders.
-/

namespace LoxLang

/-- The files of a directory and of the folders in it, each under the parts of its path. -/
structure Directory where
  files : List (List String × List UInt8)

namespace Directory

/-- Where a path has led so far. -/
inductive Place where
  | folder (path : List String)
  | file (bytes : List UInt8)
  | outside

/-- The longest part that a path may have, in bytes. -/
def maxPart : Nat := 255

/-- The longest path, in bytes. -/
def maxPath : Nat := 4095

/-- Characters cut at the slashes; what has no slash is one part. -/
def cutParts : List Char → List (List Char)
  | [] => [[]]
  | c :: rest =>
    match cutParts rest with
    | [] => [[c]]
    | part :: parts => if c = '/' then [] :: part :: parts else (c :: part) :: parts

/-- The parts of a path; `a//b` has an empty one between the others. -/
def parts (path : String) : List String := (cutParts path.toList).map String.ofList

/-- A directory of files whose paths are given as text. -/
def ofFiles (files : List (String × List UInt8)) : Directory :=
  ⟨files.map fun (path, bytes) => (parts path, bytes)⟩

/-- The entry of a name in a folder. -/
def entry (d : Directory) (folder : List String) (name : String) : Except ReadError Place :=
  let path := folder ++ [name]
  match d.files.lookup path with
  | some bytes => .ok (.file bytes)
  | none => if d.files.any (path.isPrefixOf ·.1) then .ok (.folder path) else .error .missing

/-- The place that one part of a path leads to. A name is looked up only if it is not too long,
whatever the folder. -/
def step (d : Directory) (part : String) (place : Place) : Except ReadError Place :=
  match place with
  | .file _ => .error .notDirectory
  | .folder path =>
    if part = "" ∨ part = "." then .ok place
    else if part = ".." then .ok (if path.isEmpty then .outside else .folder path.dropLast)
    else if maxPart < part.utf8ByteSize then .error .nameTooLong
    else d.entry path part
  | .outside =>
    if part = "" ∨ part = "." ∨ part = ".." then .ok .outside
    else if maxPart < part.utf8ByteSize then .error .nameTooLong
    else .error .missing

/-- What is read where a path has led. -/
def Place.contents : Place → Contents
  | .file bytes => .ok bytes
  | .folder _ | .outside => .error .isDirectory

/-- What a path read from inside the directory gives. -/
def contents (d : Directory) (path : String) : Contents := do
  if path.toList.contains '\x00' then throw .zeroByteInName
  if path.isEmpty then throw .missing
  if maxPath < path.utf8ByteSize then throw .nameTooLong
  let start : Place := if path.toList.head? = some '/' then .outside else .folder []
  (← (parts path).foldlM (fun place part => d.step part place) start).contents

example : ((ofFiles [("a", [1])]).contents "./a").toOption = some [1] := by decide +kernel
example : ((ofFiles [("f/g", [2])]).contents "f/../f/g").toOption = some [2] := by decide +kernel
example : ((ofFiles [("a", [1])]).contents "a/").toOption = none := by decide +kernel

end Directory

end LoxLang
