import TileFlow.Files.Basic
import TileFlow.Text.Utf8

/-!
# Programs

Scripts count and compare bytes. Inside of them, a text is therefore kept with one character
for each byte, whose number is the character's code. Texts of the world outside are turned into
this form on their way in, and back on their way out.

A program is an executable file. The only one that is known here is the shell; any other must
be a script whose first line names a program that it is given to. A path of a program starts from
a directory. A name without a slash is tried in each directory of a search path.

## Main definitions

* `ByteText.encode`, `ByteText.decode`: between a text and the text of its bytes.
* `ByteText.ofBytes`, `ByteText.toBytes`: between bytes and their text.
* `interpreter?`: the program that the first line of a script names.
* `programAt`: what starting the program behind a path comes to: the arguments of a shell.
* `shellArguments?`: the same, where a script without a first line of its own is given to the
  shell.
* `findProgram`: the program that a name stands for, by the directories of a search path.
-/

namespace TileFlow.Script.ByteText

/-- The character for a byte. -/
def ofByte (b : UInt8) : Char :=
  Char.ofNat b.toNat

/-- The byte that a character stands for. -/
def toByte (c : Char) : UInt8 :=
  UInt8.ofNat c.toNat

/-- The text of bytes. -/
def ofBytes (bytes : Bytes) : String :=
  String.ofList (bytes.map ofByte)

/-- The bytes of a text. -/
def toBytes (s : String) : Bytes :=
  s.toList.map toByte

/-- The text of the bytes of a text. -/
def encode (s : String) : String :=
  ofBytes (.ofText s)

/-- The text whose bytes a text has. -/
def decode (s : String) : String :=
  Text.decodeLossy (toBytes s)

end TileFlow.Script.ByteText

namespace TileFlow.Script

/-- The locations of the shell. -/
def shellLocations : List Location :=
  [["bin", "sh"], ["usr", "bin", "sh"], ["bin", "dash"], ["usr", "bin", "dash"]]

/-- The path under which the shell is looked for. -/
def shellPath : String := "/bin/sh"

/-- How much of a file is looked at for its first line. -/
def firstLineLimit : Nat := 256

/-- How many scripts can be given to each other. -/
def scriptLimit : Nat := 5

/-- Whether a byte is a blank. -/
def isBlankByte (b : UInt8) : Bool :=
  b == 32 || b == 9

/-- Bytes without the blanks at both ends. -/
def trimBytes (bytes : Bytes) : Bytes :=
  ((bytes.dropWhile isBlankByte).reverse.dropWhile isBlankByte).reverse

/-- The program that the first line of a script names, with an argument if there is one. The
line must end within the bytes that are looked at, or the name of the program must. -/
def interpreter? (bytes : Bytes) : Option (String × List String) :=
  let head := bytes.take firstLineLimit
  match head with
  | 35 :: 33 :: rest =>
    let line := rest.takeWhile fun b => b != 10 && b != 0
    let known := line.length < rest.length || bytes.length < firstLineLimit
    let named := trimBytes line
    let program := named.takeWhile (!isBlankByte ·)
    let behind := named.drop program.length
    if program.isEmpty then none
    else if ¬ known ∧ (line.dropWhile isBlankByte).all (!isBlankByte ·) then none
    else
      let argument := behind.dropWhile isBlankByte
      some (ByteText.ofBytes program,
        if argument.isEmpty then [] else [ByteText.ofBytes argument])
  | _ => none

/-- What starting the program behind a path comes to: the arguments of the shell, its own name
first. A script is given to what its first line names, with its path in the place of its name. -/
def programAt (t : FileTree) (directory : Location) :
    Nat → String → List String → Except SystemError (List String)
  | 0, _, _ => .error .tooManyLinks
  | n + 1, path, args =>
    match t.locate directory (ByteText.decode path) with
    | .error e => .error e
    | .ok (l, .file id true) =>
      if shellLocations.contains l then .ok args
      else
        match interpreter? (t.contentsOf id) with
        | none => .error .notExecutable
        | some (program, argument) =>
          programAt t directory n program (program :: argument ++ path :: args.drop 1)
    | .ok _ => .error .permissionDenied

/-- What starting a program comes to, for its path and its arguments with its name. -/
def program? (t : FileTree) (directory : Location) (path : String) (args : List String) :
    Except SystemError (List String) :=
  programAt t directory (scriptLimit + 1) path args

/-- What starting a program comes to where a file that names no program is given to the
shell. -/
def shellArguments? (t : FileTree) (directory : Location) (path : String) (args : List String) :
    Except SystemError (List String) :=
  match program? t directory path args with
  | .error .notExecutable =>
    program? t directory shellPath (shellPath :: path :: args.drop 1)
  | result => result

/-- Whether a path leads to an executable file. -/
def isExecutable (t : FileTree) (directory : Location) (path : String) : Bool :=
  match t.locate directory (ByteText.decode path) with
  | .ok (_, .file _ executable) => executable
  | _ => false

/-- The path of a name in a directory of a search path. -/
def inEntry (entry name : String) : String :=
  if entry = "" then name else entry ++ "/" ++ name

/-- The directories of a search path. -/
def searchEntries (path : String) : List String :=
  Text.split ':' path

/-- Whether another directory may have what one has not. -/
def isAbsent : SystemError → Bool
  | .notFound | .notADirectory => true
  | _ => false

/-- What starting a program by its name comes to. A name with a slash is a path, and names a
program itself. Other names are tried in each directory: a file that may not be executed is
passed over, and reported if there is nothing else. -/
def findProgram (t : FileTree) (directory : Location) (searchPath name : String)
    (args : List String) : Except SystemError (List String) :=
  if name.toList.contains '/' then program? t directory name args
  else if name = "" then .error .notFound
  else if FileTree.nameLimit < name.length then .error .nameTooLong
  else tryEntries .notFound false (searchEntries searchPath)
where
  /-- Tries some directories, with the last answer and whether a file was passed over. -/
  tryEntries (last : SystemError) (denied : Bool) :
      List String → Except SystemError (List String)
    | [] => .error (if denied then .permissionDenied else last)
    | entry :: rest =>
      match shellArguments? t directory (inEntry entry name) args with
      | .ok found => .ok found
      | .error .permissionDenied => tryEntries .permissionDenied true rest
      | .error e => if isAbsent e then tryEntries e denied rest else .error e

end TileFlow.Script
