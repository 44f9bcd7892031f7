import TileFlow.Source.ParseError
import TileFlow.Stage.Error
import TileFlow.Source.Lexer

/-!
# Errors of a compilation

Everything that can end a compilation, by its cause, with the wording in one place.

## Main definitions

* `SystemError`: what the file system and the start of programs answer.
* `EmitError`: why a target cannot be written.
* `CompileError`: why a compilation ended, with `CompileError.kind` and
  `CompileError.message`.
-/

namespace TileFlow

/-- The answers of the file system, and of the start of programs, that are errors. -/
inductive SystemError where
  | notFound
  | tooManyArguments
  | notExecutable
  | badDescriptor
  | permissionDenied
  | alreadyExists
  | notADirectory
  | isADirectory
  | noSpace
  | nameTooLong
  | tooManyLinks
  /-- A character with the code zero in a path. -/
  | nulInPath
  /-- A character with the code zero in what a program is started with. -/
  | nulInArgument
  | invalidText
  deriving DecidableEq, Repr

/-- What an answer of the system says. -/
def SystemError.description : SystemError → String
  | .notFound => "No such file or directory"
  | .tooManyArguments => "Argument list too long"
  | .notExecutable => "Exec format error"
  | .badDescriptor => "Bad file descriptor"
  | .permissionDenied => "Permission denied"
  | .alreadyExists => "File exists"
  | .notADirectory => "Not a directory"
  | .isADirectory => "Is a directory"
  | .noSpace => "No space left on device"
  | .nameTooLong => "File name too long"
  | .tooManyLinks => "Too many levels of symbolic links"
  | .nulInPath => "file name contained an unexpected NUL byte"
  | .nulInArgument => "nul byte found in provided data"
  | .invalidText => "stream did not contain valid UTF-8"

/-- The number of an answer, if the system itself gave it. -/
def SystemError.number? : SystemError → Option Nat
  | .notFound => some 2
  | .tooManyArguments => some 7
  | .notExecutable => some 8
  | .badDescriptor => some 9
  | .permissionDenied => some 13
  | .alreadyExists => some 17
  | .notADirectory => some 20
  | .isADirectory => some 21
  | .noSpace => some 28
  | .nameTooLong => some 36
  | .tooManyLinks => some 40
  | .nulInPath | .nulInArgument | .invalidText => none

/-- The wording of an answer of the system (in `CompileError`). -/
def SystemError.message (e : SystemError) : String :=
  match e.number? with
  | some n => s!"{e.description} (os error {n})"
  | none => e.description

/-- Why a target cannot be written (`translation`). -/
inductive EmitError where
  | noDevice
  | missingField (operation field : String)
  | fieldOutOfRange (operation field : String) (value : Int)
  | transferLeft (operation : String)
  | noEncoding (operation : String)
  | noBackendForm (operation : String)
  | untypedOperand (operand : String)
  | globalWithoutSize (symbol : String)
  | unrouted (operation : String)
  | unplaced (operation : String)
  | lockWithoutId
  | bufferWithoutAddress (symbol : String)
  | malformed (operation : String)
  | other (message : String)
  deriving DecidableEq, Repr

/-- The wording of a cause. -/
def EmitError.message : EmitError → String
  | .noDevice => "module has no aie.device"
  | .missingField operation field => s!"{operation} is missing '{field}'"
  | .fieldOutOfRange operation field value =>
    s!"{operation} field '{field}' does not fit a word: {value}"
  | .transferLeft operation => s!"{operation} must be lowered before translation"
  | .noEncoding operation => s!"no encoding for '{operation}'"
  | .noBackendForm operation => s!"cannot translate '{operation}' to LLVM IR"
  | .untypedOperand operand => s!"operand {operand} has no LLVM type"
  | .globalWithoutSize symbol => s!"global @{symbol} has no size"
  | .unrouted operation => s!"{operation} must be routed before translation"
  | .unplaced operation => s!"{operation} is not placed on a tile"
  | .lockWithoutId => "lock without an assigned ID"
  | .bufferWithoutAddress symbol => s!"buffer {symbol} has no address"
  | .malformed operation => s!"malformed {operation}"
  | .other message => message

/-- Why a compilation ended (`CompileError`). -/
inductive CompileError where
  | workDir (path : String) (error : SystemError)
  | lexer (error : Source.LexError)
  | parse (error : Source.ParseError)
  | read (path : String) (error : SystemError)
  | stageFailed (stage : String) (error : StageError)
  | unexpectedTargetArch (arch : String)
  | emission (target : String) (error : EmitError)
  | artifactOpen (path : String) (error : SystemError)
  | write (error : SystemError)
  | toolSpawn (program : String) (error : SystemError)
  | toolFailed (program : String) (code : Int)
  deriving DecidableEq, Repr

/-- The kind of an error, in one word (in `CompileError`). -/
def CompileError.kind : CompileError → String
  | .workDir .. => "WorkDir"
  | .lexer .. => "Lexer"
  | .parse .. => "Parse"
  | .read .. => "Io"
  | .stageFailed .. => "StageFailed"
  | .unexpectedTargetArch .. => "UnexpectedTargetArch"
  | .emission .. => "Translation"
  | .artifactOpen .. => "ArtifactOpen"
  | .write .. => "Write"
  | .toolSpawn .. => "ToolSpawn"
  | .toolFailed .. => "ToolFailed"

/-- The wording of an error (in `CompileError`). -/
def CompileError.message : CompileError → String
  | .workDir path error => s!"Failed to create working directory {path}: {error.message}"
  | .lexer error => s!"Lexer error at position {error.position}: {error.message}"
  | .parse error => s!"Parser error: {error.message}"
  | .read path error => s!"Failed to read {path}: {error.message}"
  | .stageFailed stage error => s!"Stage '{stage}' failed: {error.message}"
  | .unexpectedTargetArch arch => s!"Unexpected target architecture: {arch}"
  | .emission target error => s!"Translation to {target} failed: {error.message}"
  | .artifactOpen path error => s!"Failed to open output {path}: {error.message}"
  | .write error => s!"Failed to write output: {error.message}"
  | .toolSpawn program error => s!"Failed to launch {program}: {error.message}"
  | .toolFailed program code => s!"{program} exited with code {code}"

end TileFlow
