import TileFlow.Shell.Arithmetic
import TileFlow.Shell.Pattern
import TileFlow.Shell.State

/-!
# Expanding words

A word is expanded in three steps. First its pieces are replaced by what they stand for. Then
what came from outside of quotes is cut into fields at the separators. At last a field with the
special characters of a pattern is replaced by the paths that fit it.

A parameter in a word is a variable, one of the arguments, or something that the shell knows by
itself. All arguments together can stand for one text or for one text each.

## Main definitions

* `Sh.parameter?`: the value of a parameter as one text.
* `Sh.evaluate`: the value of an arithmetic expression.
* `Fragment`: what the pieces of a word come to.
* `Sh.expandPieces`: the fragments of a word.
* `fieldsOf`: the fields that fragments come to.
* `pathsFitting`: the paths that fit a pattern.
* `Sh.expandFields`, `Sh.expandText`, `Sh.expandPattern`: words as fields, as texts and as
  patterns.
-/

namespace TileFlow.Script

/-! ### Parameters -/

/-- The letters of the options that are set, as the parameter for them shows them. -/
def Options.letters (o : Options) : String :=
  let shown : List (Bool × Char) :=
    [(o.refuseUnset, 'u'), (o.exportAll, 'a'), (o.noClobber, 'C'), (o.verbose, 'v'),
      (o.trace, 'x'), (o.noExec, 'n'), (o.noGlob, 'f'), (o.exitOnError, 'e')]
  String.ofList (shown.filterMap fun (isSet, c) => if isSet then some c else none)

/-- Whether a name asks for all arguments. -/
def asksForAll (name : String) : Bool :=
  name == "@" || name == "*"

namespace Sh

/-- What is put between the arguments where they stand for one text. -/
def argumentSeparator : Sh String := do
  match ← value? "IFS" with
  | none => return " "
  | some s => return String.ofList (s.toList.take 1)

/-- The value of a parameter as one text, if it is set. -/
def parameter? (name : String) : Sh (Option String) := do
  let s ← shell
  match name with
  | "#" => return some (toString s.args.length)
  | "?" => return some (toString s.status)
  | "$" => return some (toString s.mainProcess)
  | "-" => return some s.options.letters
  | "!" => return s.background.map toString
  | "@" | "*" => return some ((← argumentSeparator).intercalate s.args)
  | _ =>
    match name.toNat? with
    | some 0 => return some s.name
    | some n => return s.args[n - 1]?
    | none => value? name

/-- Sets a parameter, which must be a variable for that. -/
def assignParameter (name value : String) : Sh Unit := do
  if isName name.toList then assign name value
  else fail s!"{name}: bad variable name"

/-- The end of the script at a parameter that is not set. -/
def failUnset {α : Type} (name message : String) : Sh α :=
  fail s!"{name}: {message}"

/-- The value of a parameter, which must be set if the options say so. -/
def requiredParameter (name : String) : Sh String := do
  match ← parameter? name with
  | some value => return value
  | none =>
    if (← shell).options.refuseUnset then failUnset name "parameter not set" else return ""

/-! ### Arithmetic -/

/-- The end of the script at a fault of an expression. -/
def failArithmetic {α : Type} (source : String) (f : Arithmetic.Fault) : Sh α :=
  fail s!"arithmetic expression: {f.message}: \"{source}\""

/-- The number that a variable is. -/
def numberOf (name : String) : Sh Int64 := do
  let value := (← value? name).getD ""
  match Arithmetic.number? value with
  | some n => return n
  | none => fail s!"Illegal number: {value}"

/-- The value of an arithmetic expression. -/
def evaluate (source : String) : Sh Int64 :=
  Arithmetic.evaluate
    { value := numberOf
      assign := fun name n => assign name (toString n.toInt)
      fault := failArithmetic source } source

end Sh

/-! ### Words -/

open Pattern (PatternChar)

/-- What the pieces of a word come to. -/
inductive Fragment where
  /-- A character, which may be a separator of fields if it `splits`. -/
  | char (c : PatternChar) (splits : Bool)
  /-- Quotes, which make a field even if there is nothing between them. -/
  | quotes
  /-- The end of one argument and the start of another. -/
  | boundary

/-- How a word is expanded. -/
structure Manner where
  /-- Whether it stands between double quotes. -/
  quoted : Bool := false
  /-- Whether its own characters may be separators, as those of a value are. -/
  splits : Bool := false
  /-- Whether it is cut into fields, so that arguments stay apart. -/
  apart : Bool := false

/-- The fragments of a value. -/
def Manner.fragments (m : Manner) (value : String) : List Fragment :=
  value.toList.map fun c => .char ⟨c, m.quoted⟩ (!m.quoted)

/-- The fragments of arguments that stay apart. -/
def Manner.argumentFragments (m : Manner) (args : List String) : List Fragment :=
  let each := args.map fun arg =>
    if m.quoted then .quotes :: m.fragments arg else m.fragments arg
  ([Fragment.boundary].intercalate each)

/-- The text of fragments. -/
def textOf (fragments : List Fragment) : String :=
  String.ofList (fragments.filterMap fun
    | .char c _ => some c.char
    | _ => none)

/-- The pattern of fragments. -/
def patternOf (fragments : List Fragment) : List PatternChar :=
  fragments.filterMap fun
    | .char c _ => some c
    | _ => none

/-! ### The home directory -/

/-- Whether a tilde before a word stands for the home directory: only a slash may follow it, and
in a list of paths a colon. -/
def endsTilde (inList : Bool) : Word → Bool
  | [] => true
  | .char c :: _ => c = '/' ∨ (inList ∧ c = ':')
  | _ => false

/-- A word with the home directory in the place of a tilde before it. -/
def replaceTilde (home : Option String) (inList : Bool) (w : Word) : Word :=
  match w, home with
  | .char '~' :: rest, some home =>
    if endsTilde inList rest then home.toList.map .escaped ++ rest else w
  | _, _ => w

/-- A word with the home directory in the place of a tilde before each path of a list. -/
def replaceTildes (home : Option String) : Word → Word
  | [] => []
  | .char ':' :: rest => .char ':' :: replaceTilde home true (replaceTildes home rest)
  | p :: rest => p :: replaceTildes home rest

namespace Sh

/-! ### Pieces -/

/-- A word with the home directory in the place of tildes. -/
def withHome (inList : Bool) (w : Word) : Sh Word := do
  let home ← value? "HOME"
  return if inList then replaceTilde home true (replaceTildes home w)
    else replaceTilde home false w

/-- The fragments of the value of a parameter. -/
def valueFragments (m : Manner) (name : String) : Sh (List Fragment) := do
  let args := (← shell).args
  if m.apart ∧ (name = "@" ∨ (name = "*" ∧ ¬ m.quoted)) then return m.argumentFragments args
  else return m.fragments (← requiredParameter name)

/-- Whether the value of a parameter counts as missing. -/
def isMissing (name : String) (nullToo : Bool) : Sh Bool := do
  match ← parameter? name with
  | none => return true
  | some value => return nullToo ∧ value = ""

/-- A text without the line ends at its end. -/
def withoutLineEnds (s : String) : String :=
  String.ofList (s.toList.reverse.dropWhile (· == '\n')).reverse

section

variable (output : Command → Sh String)

mutual

/-- The fragments of pieces, for a function that runs the commands whose output is asked
for. -/
def expandPieces (m : Manner) : List Piece → Sh (List Fragment)
  | [] => return []
  | p :: rest => do
    let first ← expandPiece m p
    return first ++ (← expandPieces m rest)

/-- The fragments of a piece. -/
def expandPiece (m : Manner) : Piece → Sh (List Fragment)
  | .char c => return [.char ⟨c, m.quoted⟩ (m.splits && !m.quoted)]
  | .escaped c => return [.char ⟨c, true⟩ false]
  | .quoted pieces => do
    let inner ← expandPieces { m with quoted := true, splits := false } pieces
    match pieces with
    | [.parameter "@" .value _] => if m.apart then return inner else return .quotes :: inner
    | _ => return .quotes :: inner
  | .output commands => do
    let text ← output commands
    return m.fragments (withoutLineEnds text)
  | .arithmetic expression => do
    let source ← expandPieces { quoted := true } expression
    return m.fragments (toString (← evaluate (textOf source)).toInt)
  | .parameter name usage word => do
    match usage with
    | .value => valueFragments m name
    | .length => return m.fragments (toString (← requiredParameter name).length)
    | .unknown => fail "Bad substitution"
    | .orElse nullToo =>
      if ← isMissing name nullToo then expandWord m word else valueFragments m name
    | .ifPresent nullToo =>
      if ← isMissing name nullToo then return [] else expandWord m word
    | .orAssign nullToo =>
      if ← isMissing name nullToo then
        let value ← expandWord {} word
        assignParameter name (textOf value)
      valueFragments m name
    | .orFail nullToo =>
      if ← isMissing name nullToo then
        let message ← expandWord {} word
        let absent := if nullToo then "parameter not set or null" else "parameter not set"
        failUnset name (if word.isEmpty then absent else textOf message)
      valueFragments m name
    | .dropStart longest =>
      let value ← requiredParameter name
      let pattern := Pattern.compile (patternOf (← expandWord {} word))
      return m.fragments (String.ofList (Pattern.dropStart longest pattern value.toList))
    | .dropEnd longest =>
      let value ← requiredParameter name
      let pattern := Pattern.compile (patternOf (← expandWord {} word))
      return m.fragments (String.ofList (Pattern.dropEnd longest pattern value.toList))

/-- The fragments of a word that may take the place of a value. -/
def expandWord (m : Manner) : List Piece → Sh (List Fragment)
  | [] => return []
  | p :: rest => do
    let m := { m with splits := !m.quoted }
    let home ← value? "HOME"
    match p, home with
    | .char '~', some home =>
      if !m.quoted && endsTilde false rest then
        return home.toList.map (fun c => .char ⟨c, true⟩ false) ++ (← expandPieces m rest)
      else
        let first ← expandPiece m p
        return first ++ (← expandPieces m rest)
    | _, _ =>
      let first ← expandPiece m p
      return first ++ (← expandPieces m rest)

end

end

end Sh

/-! ### Fields -/

/-- The fields so far, the last one first, and the one that is being made. -/
structure Splitting where
  fields : List (List PatternChar) := []
  current : List PatternChar := []
  /-- Whether the current field is one even without any character. -/
  started : Bool := false
  /-- Whether a separator stood directly before: a blank one, to which another may belong. -/
  afterBlank : Option Bool := none

namespace Splitting

/-- The end of the current field. -/
def close (s : Splitting) (afterBlank : Option Bool) : Splitting :=
  { fields := s.current.reverse :: s.fields, afterBlank }

/-- A separator. Blanks before a field are passed over, as are those around another separator. -/
def separate (s : Splitting) (isBlank : Bool) : Splitting :=
  if s.started then s.close (some isBlank)
  else if isBlank then s
  else if s.afterBlank = some true then { s with afterBlank := some false }
  else s.close (some false)

/-- One more fragment. -/
def add (separators : List Char) (s : Splitting) : Fragment → Splitting
  | .quotes => { s with started := true, afterBlank := none }
  | .boundary => if s.started then s.close none else { s with afterBlank := none }
  | .char c splits =>
    if splits && separators.contains c.char then s.separate (" \t\n".toList.contains c.char)
    else { s with current := c :: s.current, started := true, afterBlank := none }

end Splitting

/-- The fields that fragments come to. -/
def fieldsOf (separators : List Char) (fragments : List Fragment) : List (List PatternChar) :=
  let s := fragments.foldl (Splitting.add separators) {}
  (if s.started then s.close none else s).fields.reverse

/-! ### Paths -/

/-- The names in a directory that fit a pattern. A dot at the start of a name must stand in the
pattern. -/
def namesFitting (t : FileTree) (directory : Location) (base : String)
    (pattern : List PatternChar) : List String :=
  match t.locate directory (ByteText.decode (if base = "" then "." else base)) with
  | .ok (l, .directory) =>
    let elements := Pattern.compile pattern
    let isHidden (name : String) : Bool := name.toList.head? == some '.'
    let namesDot := (pattern.head?.map (·.char)) == some '.'
    ("." :: ".." :: (t.namesIn l).map ByteText.encode).filter fun name =>
      (namesDot || !isHidden name) && Pattern.fits elements name.toList
  | _ => []

/-- The paths that fit the parts of a pattern between slashes, below a base. -/
def pathsBelow (t : FileTree) (directory : Location) :
    String → List (List PatternChar) → List String
  | _, [] => []
  | base, [last] =>
    if Pattern.isGeneral last then (namesFitting t directory base last).map (base ++ ·)
    else
      let path := base ++ String.ofList (last.map (·.char))
      if t.hasEntry directory (ByteText.decode path) then [path] else []
  | base, part :: rest =>
    if Pattern.isGeneral part then
      (namesFitting t directory base part).flatMap fun name =>
        pathsBelow t directory (base ++ name ++ "/") rest
    else pathsBelow t directory (base ++ String.ofList (part.map (·.char)) ++ "/") rest

/-- The parts of a pattern between slashes. -/
def patternParts : List PatternChar → List (List PatternChar)
  | [] => [[]]
  | c :: rest =>
    if c.char = '/' then [] :: patternParts rest
    else
      match patternParts rest with
      | part :: parts => (c :: part) :: parts
      | [] => [[c]]

/-- The paths that fit a pattern, in the order of their bytes. -/
def pathsFitting (t : FileTree) (directory : Location) (pattern : List PatternChar) :
    List String :=
  (pathsBelow t directory "" (patternParts pattern)).mergeSort fun a b => decide (a ≤ b)

namespace Sh

/-- The texts that a field comes to: the paths that fit it, or the field itself. -/
def expandPaths (field : List PatternChar) : Sh (List String) := do
  let s ← shell
  let text := String.ofList (field.map (·.char))
  if s.options.noGlob ∨ ¬ Pattern.isGeneral field then return [text]
  else
    match pathsFitting (← world).files s.directory field with
    | [] => return [text]
    | paths => return paths

/-- The fields of a word. -/
def expandFields (output : Command → Sh String) (w : Word) : Sh (List String) := do
  let fragments ← expandPieces output { apart := true } (← withHome false w)
  let fields := fieldsOf (← separators) fragments
  return (← fields.mapM expandPaths).flatten

/-- A word as one text. -/
def expandText (output : Command → Sh String) (w : Word) : Sh String := do
  return textOf (← expandPieces output {} (← withHome false w))

/-- The value of an assignment. -/
def expandValue (output : Command → Sh String) (w : Word) : Sh String := do
  return textOf (← expandPieces output {} (← withHome true w))

/-- A word as a pattern. -/
def expandPattern (output : Command → Sh String) (w : Word) : Sh (List Pattern.Element) := do
  return Pattern.compile (patternOf (← expandPieces output {} (← withHome false w)))

/-- A text of the script with what stands in it for other text. -/
def expandDocument (output : Command → Sh String) (w : Word) : Sh String := do
  return textOf (← expandPieces output { quoted := true } w)

end Sh

end TileFlow.Script
