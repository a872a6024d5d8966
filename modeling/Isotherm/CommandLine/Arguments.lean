import Isotherm.CommandLine.Setting
import Isotherm.Number.Numeral
import Isotherm.Text.Quoted

/-!
# Reading the command line

Words are told apart first: options, which may be shortened while they stay unique and may carry
their value after an equals sign; plain words; and a `--` after which all words are plain. Then they
are used up from left to right. The first plain word that is not a value is the formula, and what is
left over is an error in the end. A request for help or for the version is served where it is met.
-/

namespace Isotherm.CommandLine

inductive UsageError where
  | ambiguous (text : String) (candidates : List Setting)
  | missingValue (s : Setting)
  /-- A switch was given a value. -/
  | ignoredValue (s : Setting) (value : String)
  | invalidValue (s : Setting) (kind : ValueKind) (value : String)
  | unrecognized (words : List String)
deriving DecidableEq, Repr

def UsageError.message : UsageError → String
  | ambiguous text candidates =>
    "ambiguous option: " ++ text ++ " could match "
      ++ ", ".intercalate (candidates.map Setting.spelling)
  | missingValue s => "argument " ++ s.label ++ ": expected one argument"
  | ignoredValue s value =>
    "argument " ++ s.label ++ ": ignored explicit argument " ++ Text.quoted value
  | invalidValue s kind value =>
    "argument " ++ s.label ++ ": invalid " ++ kind.name ++ " value: " ++ Text.quoted value
  | unrecognized words => "unrecognized arguments: " ++ " ".intercalate words

/-! ## Words -/

inductive Word where
  | plain (text : String)
  /-- The `--` that ends the options. -/
  | separator
  | option (s : Setting) (attached : Option String)
  /-- The short option for help, with what follows it in the word. -/
  | short (tail : List Char)
  /-- A word that looks like an option. -/
  | unknown (text : String)
deriving DecidableEq, Repr

/-- Whether a word that starts with a dash is a negative number. A line break may follow it. -/
def isNegativeNumber (afterDash : List Char) : Bool :=
  let body := if afterDash.getLast? = some '\n' then afterDash.dropLast else afterDash
  match body.dropWhile Text.isDigit with
  | [] => !body.isEmpty
  | '.' :: fraction => !fraction.isEmpty && fraction.all Text.isDigit
  | _ => false

/-- The text before the first equals sign and the text after it, if there is one. -/
def splitValue (cs : List Char) : String × Option String :=
  match cs.span (· != '=') with
  | (name, _ :: value) => (String.ofList name, some (String.ofList value))
  | (name, []) => (String.ofList name, none)

def unknownOrPlain (text : String) (afterDash : List Char) : Word :=
  if isNegativeNumber afterDash || afterDash.contains ' ' then .plain text else .unknown text

def classify (text : String) : Except UsageError Word :=
  match text.toList with
  | '-' :: '-' :: rest =>
    let (name, value) := splitValue text.toList
    match Setting.ofSpelling? name with
    | some s => .ok (.option s value)
    | none =>
      match Setting.startingWith name with
      | [] => .ok (unknownOrPlain text ('-' :: rest))
      | [s] => .ok (.option s value)
      | candidates => .error (.ambiguous text candidates)
  | '-' :: 'h' :: rest => .ok (.short rest)
  | '-' :: c :: rest => .ok (unknownOrPlain text (c :: rest))
  | _ => .ok (.plain text)

def classifyAll : List String → Except UsageError (List Word)
  | [] => .ok []
  | text :: rest =>
    if text = "--" then .ok (.separator :: rest.map Word.plain)
    else do
      let word ← classify text
      return word :: (← classifyAll rest)

/-! ## Arguments -/

structure Arguments where
  formula : Option String := none
  random : Bool := false
  seed : Option Int := none
  attempts : Int := 1000
  listFunctions : Bool := false
  simplify : Bool := false
  latex : Bool := false
  verbose : Bool := false
  heatColourCount : Int := 126
  speed : Int := 100
  pointSize : Float := 0.1
  scale : Int := 2
  timeLower : Int := 0
  timeUpper : Option Int := none
  size : Int := 100
  outputFile : String := "./out.gif"
  footerText : Option String := none

inductive Exit where
  | help
  | version
  | usage (e : UsageError)
deriving DecidableEq, Repr

namespace Arguments

def turnOn (a : Arguments) : Setting → Except Exit Arguments
  | .help => .error .help
  | .version => .error .version
  | .random => .ok { a with random := true }
  | .listFunctions => .ok { a with listFunctions := true }
  | .simplify => .ok { a with simplify := true }
  | .latex => .ok { a with latex := true }
  | .verbose => .ok { a with verbose := true }
  | _ => .ok a

def setInteger (a : Arguments) (n : Int) : Setting → Arguments
  | .seed => { a with seed := some n }
  | .attempts => { a with attempts := n }
  | .heatColourCount => { a with heatColourCount := n }
  | .speed => { a with speed := n }
  | .scale => { a with scale := n }
  | .timeLower => { a with timeLower := n }
  | .timeUpper => { a with timeUpper := some n }
  | .size => { a with size := n }
  | _ => a

def setText (a : Arguments) (text : String) : Setting → Arguments
  | .outputFile => { a with outputFile := text }
  | .footerText => { a with footerText := some text }
  | _ => a

def set (a : Arguments) (s : Setting) (kind : ValueKind) (text : String) :
    Except Exit Arguments :=
  match kind with
  | .text => .ok (a.setText text s)
  | .integer =>
    match Numeral.integer? text with
    | some n => .ok (a.setInteger n s)
    | none => .error (.usage (.invalidValue s kind text))
  | .real =>
    match Numeral.real? text with
    | some x => .ok { a with pointSize := x }
    | none => .error (.usage (.invalidValue s kind text))

/-- The short option for help may be repeated in its word. A letter that is no option stops that, and
the help is given; an attached value is an error. -/
def shortHelp : List Char → Exit
  | [] => .help
  | '=' :: value => .usage (.ignoredValue .help (String.ofList value))
  | '-' :: value => .usage (.ignoredValue .help (String.ofList ('-' :: value)))
  | 'h' :: tail => shortHelp tail
  | _ => .help

/-- Uses up the words. The formula can still be set while `isOpen`; words that nothing takes are
collected in `extras`. -/
def consume (a : Arguments) (isOpen : Bool) (extras : List String) :
    List Word → Except Exit (Arguments × List String)
  | [] => .ok (a, extras)
  | .plain text :: .separator :: rest =>
    if isOpen then consume { a with formula := some text } false extras rest
    else consume a false (extras ++ [text, "--"]) rest
  | .plain text :: rest =>
    if isOpen then consume { a with formula := some text } false extras rest
    else consume a false (extras ++ [text]) rest
  | .separator :: rest => consume a isOpen (if isOpen then extras else extras ++ ["--"]) rest
  | .unknown text :: rest => consume a isOpen (extras ++ [text]) rest
  | .short tail :: _ => .error (shortHelp tail)
  | .option s attached :: rest =>
    match s.valueKind?, attached with
    | none, none => do consume (← a.turnOn s) isOpen extras rest
    | none, some value => .error (.usage (.ignoredValue s value))
    | some kind, some value => do consume (← a.set s kind value) isOpen extras rest
    | some kind, none =>
      match rest with
      | .plain value :: rest => do consume (← a.set s kind value) isOpen extras rest
      | _ => .error (.usage (.missingValue s))

def read (words : List String) : Except Exit Arguments := do
  let words ← (classifyAll words).mapError Exit.usage
  let (a, extras) ← consume {} true [] words
  if extras.isEmpty then return a else throw (.usage (.unrecognized extras))

end Arguments
end Isotherm.CommandLine
