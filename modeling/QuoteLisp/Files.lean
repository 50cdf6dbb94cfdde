/-!
# Files

Why a file cannot be read as text, and a directory of files as a plain value.
-/

set_option autoImplicit false

namespace QuoteLisp

/-- Why a file cannot be read. -/
inductive FileFault where
  | missing
  | isDirectory
  | notDirectory
  | notText
  /-- Another reason, in the words of the system. -/
  | other (reason : String)
  deriving DecidableEq, Repr

namespace FileFault

/-- The reason in words. -/
def message : FileFault → String
  | missing => "No such file or directory (os error 2)"
  | isDirectory => "Is a directory (os error 21)"
  | notDirectory => "Not a directory (os error 20)"
  | notText => "stream did not contain valid UTF-8"
  | other reason => reason

end FileFault

/-- Bytes as text, if they are UTF-8. -/
def textOfBytes (bytes : ByteArray) : Except FileFault (List Char) :=
  match String.fromUTF8? bytes with
  | some text => .ok text.toList
  | none => .error .notText

/-- A directory that holds files only. -/
structure Directory where
  files : List (String × ByteArray)

namespace Directory

/-- A directory without files. -/
def empty : Directory := ⟨[]⟩

/-- The contents of a file of the directory. -/
def get? (directory : Directory) (name : String) : Option ByteArray :=
  (directory.files.find? fun file => file.1 == name).map Prod.snd

/-- Writes a file, in place of the one that had its name. -/
def put (directory : Directory) (name : String) (bytes : ByteArray) : Directory :=
  ⟨(name, bytes) :: directory.files.filter fun file => file.1 != name⟩

/-- The directory after files were written one after the other. -/
def ofFiles (files : List (String × ByteArray)) : Directory :=
  files.foldl (fun directory file => directory.put file.1 file.2) empty

/-- Whether a part of a path names a directory wherever it stands. -/
def isStep (part : String) : Bool :=
  part == "" || part == "." || part == ".."

/-- Follows the parts of a path that leads out of the directory. Nothing is known of what lies
outside but that the steps lead to directories. -/
def followOutside (parts : List String) : Except FileFault ByteArray :=
  if parts.all isStep then .error .isDirectory else .error .missing

/-- Follows the parts of a path. A part that names the directory itself leads nowhere else, and
nothing lies below a file. -/
def follow (directory : Directory) : List String → Except FileFault ByteArray
  | [] => .error .isDirectory
  | part :: parts =>
      if part = "" ∨ part = "." then directory.follow parts
      else if part = ".." then followOutside parts
      else
        match directory.get? part with
        | none => .error .missing
        | some bytes => if parts.isEmpty then .ok bytes else .error .notDirectory

/-- Follows a path, which starts at the directory unless it starts with a slash. -/
def read (directory : Directory) (path : String) : Except FileFault ByteArray :=
  match path.splitOn "/" with
  | [""] => .error .missing
  | "" :: parts => followOutside parts
  | parts => directory.follow parts

/-- The text of the file at a path. -/
def readText (directory : Directory) (path : String) : Except FileFault (List Char) :=
  match directory.read path with
  | .ok bytes => textOfBytes bytes
  | .error fault => .error fault

end Directory

end QuoteLisp
