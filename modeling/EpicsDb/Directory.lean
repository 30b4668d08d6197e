/-!
# Directories

A directory as far as a reader of files sees it: names that stand for files or for further
directories.  A path is a name in the directory, which `./` may precede.
-/

namespace EpicsDb

/-- Why a file cannot be read. -/
inductive ReadError
  | notFound
  | isDirectory
  /-- The bytes of the file are not the encoding of a text. -/
  | notText
  /-- Some other reason, in the words of the system. -/
  | system (reason : String)
  deriving DecidableEq, Repr

/-- The wording of the reason. -/
def ReadError.message : ReadError → String
  | notFound => "No such file or directory (os error 2)"
  | isDirectory => "Is a directory (os error 21)"
  | notText => "stream did not contain valid UTF-8"
  | system reason => reason

/-- The text that the bytes of a file encode. -/
def decodeFile (bytes : ByteArray) : Except ReadError String :=
  match String.fromUTF8? bytes with
  | some text => .ok text
  | none => .error .notText

/-- What a name stands for. -/
inductive Node
  | file (bytes : ByteArray)
  | directory

/-- The names in a directory. -/
structure Directory where
  nodes : List (String × Node)

namespace Directory

/-- The path without the steps to the directory itself at its start. -/
def plainPath : List Char → List Char
  | '.' :: '/' :: cs => plainPath cs
  | cs => cs

/-- The text of the file at a path. -/
def read (d : Directory) (path : String) : Except ReadError String :=
  let name := String.ofList (plainPath path.toList)
  if name = "" ∨ name = "." ∨ name = ".." then .error .isDirectory
  else
    match d.nodes.lookup name with
    | none => .error .notFound
    | some .directory => .error .isDirectory
    | some (.file bytes) => decodeFile bytes

end Directory

end EpicsDb
