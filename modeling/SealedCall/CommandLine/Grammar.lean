import SealedCall.Text.Digits
import SealedCall.Text.Quoted

/-! # The grammar of a command

A command has options, which start with a hyphen and may stand anywhere, and operands, which are
told apart by their order. Every word of a command line is sorted by its own spelling first, and
the words that come after a divider are all plain, whatever their spelling.
-/

namespace SealedCall.CommandLine

/-- How many words an operand takes. -/
inductive Extent
  | one
  | several
  | everything
deriving DecidableEq

/-- An operand of a command. -/
structure Operand where
  name : String
  extent : Extent
deriving DecidableEq

/-- A command: what its messages start with, what it shows of itself, the options that take a
value, and its operands. Every command has the option that asks for help besides. -/
structure Grammar where
  program : String
  usage : String
  description : String
  settings : List String
  operands : List Operand
deriving DecidableEq

/-- What an option is for. -/
inductive Purpose
  | help
  | setting (name : String)
deriving DecidableEq

/-- What a word is. An option may have a value written onto it. -/
inductive Role
  | plain
  | divider
  | option (purpose : Purpose) (value : Option Text)
  | unknownOption
deriving DecidableEq

/-- A word of a command line. -/
structure Word where
  text : Text
  role : Role
deriving DecidableEq

/-- Why a command line is turned away. -/
inductive Refusal
  | ambiguous (written : Text) (candidates : List String)
  | uselessValue (value : Text)
  | missingValue (setting : String)
  | missingOperands (names : List String)
  | unknownChoice (operand : String) (written : Text) (choices : List String)
  | unrecognized (words : List Text)
deriving DecidableEq

/-- Why a command line does not come to a request: it asks for help, or it is turned away. -/
inductive Interruption
  | help (grammar : Grammar)
  | refused (grammar : Grammar) (refusal : Refusal)
deriving DecidableEq

def Refusal.message : Refusal → Text
  | .ambiguous written candidates =>
    Text.of "ambiguous option: " ++ written ++ Text.of " could match " ++
      Text.of (", ".intercalate candidates)
  | .uselessValue value =>
    Text.of "argument -h/--help: ignored explicit argument " ++ value.quoted
  | .missingValue setting =>
    Text.of "argument " ++ Text.of setting ++ Text.of ": expected one argument"
  | .missingOperands names =>
    Text.of "the following arguments are required: " ++ Text.of (", ".intercalate names)
  | .unknownChoice operand written choices =>
    Text.of "argument " ++ Text.of operand ++ Text.of ": invalid choice: " ++ written.quoted ++
      Text.of " (choose from " ++
      Text.joinWith (Text.of ", ") (choices.map fun choice => (Text.of choice).quoted) ++
      Text.of ")"
  | .unrecognized words =>
    Text.of "unrecognized arguments: " ++ Text.joinWith (Text.of " ") words

namespace Grammar

/-- The spellings of the options and what each is for. -/
def spellings (grammar : Grammar) : List (String × Purpose) :=
  [("-h", .help), ("--help", .help)] ++ grammar.settings.map fun name => (name, .setting name)

/-- What a complete spelling is for. -/
def purpose? (grammar : Grammar) (written : Text) : Option Purpose :=
  (grammar.spellings.find? fun entry => Text.of entry.1 == written).map (·.2)

/-- The part of a word before its first equals sign, and the part after it when there is one. -/
def divideAtEquals (written : Text) : Text × Option Text :=
  let name := written.takeWhile fun point => !point.is '='
  match written.dropWhile fun point => !point.is '=' with
  | _ :: value => (name, some value)
  | [] => (name, none)

def shortHelp : Text := Text.of "-h"

/-- The role of the short option for help with something written onto it. Each letter for help is
the same option again, and from the first one that is not, the rest is a value. -/
def shortHelpRole (attached : Text) : Role :=
  if attached.isEmpty then .option .help (some [])
  else match attached.dropWhile (·.is 'h') with
    | [] => .option .help none
    | value => .option .help (some value)

/-- The role of a word that starts with a hyphen and is no option: numbers and words with a space
in them are plain. -/
def looseRole (written : Text) : Role :=
  if written.isNegativeNumber || written.any (·.is ' ') then .plain else .unknownOption

/-- The role of a word that starts with two hyphens and is no complete spelling. It may be
shortened as long as only one option starts with it. -/
def longRole (grammar : Grammar) (written : Text) : Except Interruption Role :=
  let (name, value) := divideAtEquals written
  match grammar.spellings.filter fun entry => name.isPrefixOf (Text.of entry.1) with
  | [] => .ok (looseRole written)
  | [(_, purpose)] => .ok (.option purpose value)
  | candidates => .error (.refused grammar (.ambiguous written (candidates.map (·.1))))

/-- The role of a word that starts with a hyphen and has more code points, but is no complete
spelling by itself. -/
def hyphenedRole (grammar : Grammar) (written : Text) (second : CodePoint) (rest : Text) :
    Except Interruption Role :=
  match divideAtEquals written with
  | (name, some value) =>
    match grammar.purpose? name with
    | some purpose =>
      .ok (if name = shortHelp then shortHelpRole value else .option purpose (some value))
    | none =>
      if second.is '-' then grammar.longRole written
      else if second.is 'h' then .ok (shortHelpRole rest)
      else .ok (looseRole written)
  | (_, none) =>
    if second.is '-' then grammar.longRole written
    else if second.is 'h' then .ok (shortHelpRole rest)
    else .ok (looseRole written)

/-- The role that a word has by its spelling, before any divider. -/
def role (grammar : Grammar) (written : Text) : Except Interruption Role :=
  match written with
  | [] => .ok .plain
  | [_] => .ok .plain
  | first :: second :: rest =>
    if first.is '-' then
      match grammar.purpose? written with
      | some purpose => .ok (.option purpose none)
      | none => grammar.hyphenedRole written second rest
    else .ok .plain

/-- The words of a command line with their roles. -/
def sort (grammar : Grammar) : List Text → Except Interruption (List Word)
  | [] => .ok []
  | written :: rest =>
    if written = Text.of "--" then
      .ok (⟨written, .divider⟩ :: rest.map fun later => ⟨later, .plain⟩)
    else
      match grammar.role written, grammar.sort rest with
      | .ok role, .ok words => .ok (⟨written, role⟩ :: words)
      | .error interruption, _ => .error interruption
      | .ok _, .error interruption => .error interruption

end Grammar

end SealedCall.CommandLine
