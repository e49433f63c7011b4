import Lots.CommandLine.Integer
import Lots.Separators
import Lots.Text.Quoted

/-!
# Lots — command-line arguments

Arguments are classified first and consumed afterwards. An argument that begins with a
dash is a switch: a long name, which may be cut short as long as it stays unambiguous and
may carry a value behind an equals sign, or letters of flags in a row. A dash alone, a
negative number, and a text with a space that names no switch are plain arguments, and so
is everything behind two dashes.

There is one place for a plain argument, the query. What finds no place is collected and
refused at the end; all other faults are refused where they occur.
-/

namespace Lots.CommandLine

/-! ## Switches -/

/-- Switches without a value. -/
inductive Flag where
  | help
  | hideExpr
  | evalStdin
  | verbose
deriving DecidableEq, Repr

/-- Switches with a value. -/
inductive Setting where
  | seed
  | separator (role : Separators.Role)
deriving DecidableEq, Repr

inductive Switch where
  | flag (flag : Flag)
  | setting (setting : Setting)
deriving DecidableEq, Repr

def Flag.letter : Flag → Char
  | .help => 'h'
  | .hideExpr => 'E'
  | .evalStdin => 'e'
  | .verbose => 'v'

def Flag.ofLetter? (c : Char) : Option Flag :=
  [Flag.help, .hideExpr, .evalStdin, .verbose].find? (·.letter == c)

def Switch.name : Switch → String
  | .flag .help => "--help"
  | .flag .hideExpr => "--hide-expr"
  | .flag .evalStdin => "--eval-stdin"
  | .flag .verbose => "--verbose"
  | .setting .seed => "--seed"
  | .setting (.separator .stmt) => "--stmt-sep"
  | .setting (.separator .entry) => "--entry-sep"
  | .setting (.separator .options) => "--options-sep"

/-- All switches, in the order in which messages list them. -/
def Switch.all : List Switch :=
  [.flag .help, .flag .hideExpr, .flag .evalStdin, .setting .seed,
    .setting (.separator .stmt), .setting (.separator .entry), .setting (.separator .options),
    .flag .verbose]

/-- All names of a switch, as messages show it. -/
def Switch.label : Switch → String
  | .flag f => String.ofList ['-', f.letter, '/'] ++ (Switch.flag f).name
  | .setting value => (Switch.setting value).name

def Switch.named? (name : List Char) : Option Switch :=
  Switch.all.find? fun switch => switch.name.toList == name

/-- The switches whose long names begin with a text. -/
def Switch.matching (text : List Char) : List Switch :=
  Switch.all.filter fun switch => text.isPrefixOf switch.name.toList

/-! ## Faults -/

/-- Why arguments are refused. -/
inductive UsageError where
  /-- A text cuts the names of several switches short. -/
  | ambiguous (text : List Char) (candidates : List Switch)
  /-- A flag is given a value. -/
  | ignored (flag : Flag) (text : List Char)
  | missing (setting : Setting)
  | badSeed (text : List Char)
  /-- The seed that the environment gives is not an integer. -/
  | badSeedVariable (text : List Char)
  | unrecognized (texts : List (List Char))
deriving DecidableEq, Repr

def UsageError.message : UsageError → String
  | .ambiguous text candidates =>
    "ambiguous option: " ++ String.ofList text ++ " could match " ++
      ", ".intercalate (candidates.map Switch.name)
  | .ignored flag text =>
    "argument " ++ (Switch.flag flag).label ++ ": ignored explicit argument " ++
      String.ofList (Text.quoted text)
  | .missing setting =>
    "argument " ++ (Switch.setting setting).label ++ ": expected one argument"
  | .badSeed text =>
    "argument --seed: invalid int value: " ++ String.ofList (Text.quoted text)
  | .badSeedVariable text =>
    "RQ_SEED must be an integer, got " ++ String.ofList (Text.quoted text)
  | .unrecognized texts =>
    "unrecognized arguments: " ++ " ".intercalate (texts.map String.ofList)

/-! ## Classification -/

/-- What an argument is. -/
inductive Word where
  | plain (text : List Char)
  /-- The two dashes behind which nothing is a switch. -/
  | dashes
  /-- A flag by its letter, with the text behind the letter. -/
  | short (flag : Flag) (attached : Option (List Char))
  /-- A switch by its long name, with the text behind the equals sign. -/
  | long (switch : Switch) (attached : Option (List Char))
  | unknown (text : List Char)
deriving DecidableEq, Repr

/-- A text cut at its first equals sign, if it has one. -/
def cutAtEquals (text : List Char) : List Char × Option (List Char) :=
  (text.takeWhile (· != '='), (text.dropWhile (· != '=')).tail?)

/-- Whether a text is a minus sign and decimal digits, which may have a point before the
last of them. A line feed may follow. -/
def isNegativeNumber (text : List Char) : Bool :=
  let isDigit := fun (c : Char) => (Text.decimalDigit? c).isSome
  let text := if text.getLast? == some '\n' then text.dropLast else text
  match text with
  | '-' :: rest =>
    match rest.dropWhile isDigit with
    | [] => !rest.isEmpty
    | '.' :: fraction => !fraction.isEmpty && fraction.all isDigit
    | _ => false
  | _ => false

/-- The switches that a text with a dash may mean, each with its attached text. -/
def interpretations (text : List Char) : List Word :=
  match text with
  | '-' :: '-' :: _ =>
    let (name, attached) := cutAtEquals text
    (Switch.matching name).map (Word.long · attached)
  | '-' :: c :: attached => ((Flag.ofLetter? c).map (Word.short · (some attached))).toList
  | _ => []

/-- The switch that a text names in full, if it does. -/
def inFull? (text : List Char) : Option (Option (List Char) → Word) :=
  match text with
  | ['-', c] => (Flag.ofLetter? c).map Word.short
  | _ => (Switch.named? text).map Word.long

/-- Classifies an argument that is not two dashes. -/
def classifyWord (text : List Char) : Except UsageError Word :=
  let (name, attached) := cutAtEquals text
  match inFull? text, inFull? name, text with
  | some word, _, _ => .ok (word none)
  | none, some word, _ => .ok (word attached)
  | none, none, '-' :: _ :: _ =>
    match interpretations text with
    | [word] => .ok word
    | [] => .ok (if isNegativeNumber text || text.contains ' ' then .plain text else .unknown text)
    | several =>
      .error (.ambiguous text (several.filterMap fun
        | .long switch _ => some switch
        | _ => none))
  | none, none, _ => .ok (.plain text)

def classifyWords : List (List Char) → Except UsageError (List Word)
  | [] => .ok []
  | text :: rest =>
    if text = ['-', '-'] then .ok (.dashes :: rest.map .plain)
    else do
      let word ← classifyWord text
      let words ← classifyWords rest
      return word :: words

/-! ## Consumption -/

/-- What the arguments ask for. -/
structure Arguments where
  query : Option (List Char) := none
  hideExpr : Bool := false
  evalStdin : Bool := false
  verbose : Bool := false
  seed : Option Int := none
  separators : Separators.Change := {}
deriving DecidableEq, Repr

/-- Why arguments do not lead to a run. -/
inductive Stop where
  | help
  | usage (error : UsageError)
deriving DecidableEq, Repr

/-- The flags of letters in a row, behind a flag that comes first. -/
def cluster (flag : Flag) : List Char → Except UsageError (List Flag)
  | [] => .error (.ignored flag [])
  | c :: rest =>
    match Flag.ofLetter? c with
    | none => .error (.ignored flag (c :: rest))
    | some next => if rest.isEmpty then .ok [flag, next] else (cluster next rest).map (flag :: ·)

namespace Arguments

/-- Takes a flag in. -/
def setFlag (a : Arguments) : Flag → Except Stop Arguments
  | .help => .error .help
  | .hideExpr => .ok { a with hideExpr := true }
  | .evalStdin => .ok { a with evalStdin := true }
  | .verbose => .ok { a with verbose := true }

def setFlags (a : Arguments) : List Flag → Except Stop Arguments
  | [] => .ok a
  | flag :: rest => do
    let a ← a.setFlag flag
    a.setFlags rest

def setValue (a : Arguments) (setting : Setting) (text : List Char) : Except Stop Arguments :=
  match setting with
  | .seed =>
    match integer? text with
    | some z => .ok { a with seed := some z }
    | none => .error (.usage (.badSeed text))
  | .separator .stmt => .ok { a with separators := { a.separators with stmt := some text } }
  | .separator .entry => .ok { a with separators := { a.separators with entry := some text } }
  | .separator .options => .ok { a with separators := { a.separators with options := some text } }

/-- The flags that a short switch stands for. -/
def shortFlags (flag : Flag) (attached : Option (List Char)) : Except Stop (List Flag) :=
  match attached with
  | none => .ok [flag]
  | some letters => (cluster flag letters).mapError .usage

/-- Takes classified arguments in, and collects those that find no place. Two dashes are
passed over next to the query, on either side. -/
def consume (a : Arguments) (afterQuery : Bool) (misplaced : List (List Char)) :
    List Word → Except Stop Arguments
  | [] =>
    if misplaced.isEmpty then .ok a else .error (.usage (.unrecognized misplaced.reverse))
  | .plain text :: rest =>
    if a.query.isNone then { a with query := some text }.consume true misplaced rest
    else a.consume false (text :: misplaced) rest
  | .dashes :: rest =>
    if a.query.isNone || afterQuery then a.consume false misplaced rest
    else a.consume false (['-', '-'] :: misplaced) rest
  | .unknown text :: rest => a.consume false (text :: misplaced) rest
  | .short flag attached :: rest => do
    let flags ← shortFlags flag attached
    let a ← a.setFlags flags
    a.consume false misplaced rest
  | .long (.flag flag) none :: rest => do
    let a ← a.setFlag flag
    a.consume false misplaced rest
  | .long (.flag flag) (some text) :: _ => .error (.usage (.ignored flag text))
  | .long (.setting setting) (some text) :: rest => do
    let a ← a.setValue setting text
    a.consume false misplaced rest
  | .long (.setting setting) none :: .plain text :: rest => do
    let a ← a.setValue setting text
    a.consume false misplaced rest
  | .long (.setting setting) none :: _ => .error (.usage (.missing setting))

/-- Reads arguments. -/
def parse (texts : List (List Char)) : Except Stop Arguments := do
  let words ← (classifyWords texts).mapError .usage
  consume {} false [] words

end Arguments

end Lots.CommandLine
