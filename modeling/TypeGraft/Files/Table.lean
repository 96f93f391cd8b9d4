import TypeGraft.Files.Path

/-
  The files below a working directory.

  Paths are followed part by part.  Above the working
  directory there is nothing but the directories that lead to
  it.

  Key definitions include:
    * `FileError`
    * `FileContent`
    * `FileTable`
    * `FileTable.add`
    * `FileTable.resolve`
    * `FileTable.isFile`
    * `FileTable.read`
    * `FileTable.checkRunnable`
-/

namespace TypeGraft

------------------------------------------------------------
-- Errors
------------------------------------------------------------

/- Why a file cannot be used. -/
inductive FileError where
  | notFound
  | permissionDenied
  | notADirectory
  | isADirectory
  /- A part of the path, or the whole of it, is too long. -/
  | nameTooLong
  /- The path holds the character zero. -/
  | zeroByte
deriving DecidableEq, Repr

/- The text of an error, as the operating system gives it. -/
def FileError.text : FileError → String
  | .notFound => "No such file or directory (os error 2)"
  | .permissionDenied => "Permission denied (os error 13)"
  | .notADirectory => "Not a directory (os error 20)"
  | .isADirectory => "Is a directory (os error 21)"
  | .nameTooLong => "File name too long (os error 36)"
  | .zeroByte => "file name contained an unexpected NUL byte"

------------------------------------------------------------
-- Tables
------------------------------------------------------------

/- What is at a place. -/
inductive FileContent where
  | text (s : String)
  /- A program that may be run. -/
  | program
  | directory
deriving DecidableEq, Repr

/- Is it a file and no directory? -/
def FileContent.isFile : FileContent → Bool
  | .text _ => true
  | .program => true
  | .directory => false

/- What stands in a program: a script for the shell. -/
def programText : String := "#!/bin/sh\nexit\n"

/- Files by the steps that lead to them. -/
structure FileTable where
  entries : List (List String × FileContent) := []

/- Where a path leads. -/
inductive Place where
  | below (steps : List String)
  /- A directory above the working directory. -/
  | above
deriving DecidableEq, Repr

namespace FileTable

/- What is at some steps below the working directory. -/
def find?
    (t : FileTable) : List String → Option FileContent
  | [] => some .directory
  | steps => t.entries.lookup steps

/- Put something at some steps, in place of what is there. -/
def put
    (t : FileTable)
    (steps : List String)
    (content : FileContent) : FileTable :=
  ⟨(steps, content) ::
    t.entries.filter (fun e => e.1 != steps)⟩

/- The steps after one more part of a path. -/
def stepOn
    (steps : List String)
    (part : String) : List String :=
  if part = "" ∨ part = "." then steps
  else if part = ".." then steps.dropLast
  else steps ++ [part]

/- Add a file or a directory, with the directories around it. -/
def add
    (t : FileTable)
    (path : String)
    (content : FileContent) : FileTable :=
  let (around, steps) :=
    (PathText.parts path).foldl
      (fun (t, steps) part =>
        (t.put steps .directory, stepOn steps part))
      (t, [])
  around.put steps content

------------------------------------------------------------
-- Paths
------------------------------------------------------------

/- Is the place a directory? -/
def isDirectoryAt
    (t : FileTable) : Place → Bool
  | .above => true
  | .below steps => t.find? steps = some .directory

/- The most bytes that one part of a path may have. -/
def longestPart : Nat := 255

/- The most bytes that a path may have. -/
def longestPath : Nat := 4095

/- Follow one part of a path from a directory. -/
def follow
    (t : FileTable)
    (here : Place)
    (part : String) : Except FileError Place :=
  if !t.isDirectoryAt here then .error .notADirectory
  else if part = "" ∨ part = "." then .ok here
  else if part = ".." then
    match here with
    | .above => .ok .above
    | .below [] => .ok .above
    | .below steps => .ok (.below steps.dropLast)
  else if longestPart < part.utf8ByteSize then
    .error .nameTooLong
  else
    match here with
    | .above => .error .notFound
    | .below steps =>
        match t.find? (steps ++ [part]) with
        | some _ => .ok (.below (steps ++ [part]))
        | none => .error .notFound

/- Where a path leads from the working directory. -/
def resolve
    (t : FileTable)
    (path : String) : Except FileError Place :=
  if path.toList.contains '\x00' then .error .zeroByte
  else if path = "" then .error .notFound
  else if longestPath < path.utf8ByteSize then
    .error .nameTooLong
  else
    (PathText.parts path).foldlM t.follow
      (if PathText.isAbsolute path then .above else .below [])

/- What a path leads to. -/
def get
    (t : FileTable)
    (path : String) : Except FileError FileContent :=
  match t.resolve path with
  | .error e => .error e
  | .ok .above => .ok .directory
  | .ok (.below steps) =>
      match t.find? steps with
      | some content => .ok content
      | none => .error .notFound

/- Does a path lead to a file? -/
def isFile
    (t : FileTable)
    (path : String) : Bool :=
  match t.get path with
  | .ok content => content.isFile
  | .error _ => false

/- The text of a file. -/
def read
    (t : FileTable)
    (path : String) : Except FileError String :=
  match t.get path with
  | .error e => .error e
  | .ok (.text s) => .ok s
  | .ok .program => .ok programText
  | .ok .directory => .error .isADirectory

/- May what a path leads to be run? -/
def checkRunnable
    (t : FileTable)
    (path : String) : Except FileError Unit :=
  match t.get path with
  | .error e => .error e
  | .ok .program => .ok ()
  | .ok _ => .error .permissionDenied

/- Remove a file; a directory stays. -/
def remove
    (t : FileTable)
    (path : String) : FileTable :=
  match t.resolve path with
  | .ok (.below steps) =>
      if t.isDirectoryAt (.below steps) then t
      else ⟨t.entries.filter (fun e => e.1 != steps)⟩
  | _ => t

end FileTable

end TypeGraft
