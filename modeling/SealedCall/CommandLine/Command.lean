import SealedCall.CommandLine.Scan

/-! # The commands

Three commands serve whoever deploys the mechanism: one makes a key, one derives an id, and one
lists the actions that modules declare. A command line names one of them and goes on with its own
words.
-/

namespace SealedCall.CommandLine

/-- What a command line asks for. -/
inductive Request
  | freshKey
  | deriveId (module name : Text) (salt : Option Text)
  | actionTable (modules : List Text)
deriving DecidableEq

/-- The commands. -/
inductive Command
  | keygen
  | deriveId
  | manifest
deriving DecidableEq

namespace Command

def all : List Command := [.keygen, .deriveId, .manifest]

def name : Command → String
  | .keygen => "keygen"
  | .deriveId => "derive-id"
  | .manifest => "manifest"

def named? (written : Text) : Option Command :=
  all.find? fun command => Text.of command.name == written

/-- What a command shows about its option for help. -/
def helpOption : String := "options:\n  -h, --help  show this help message and exit\n"

def grammar : Command → Grammar
  | .keygen =>
    ⟨"actionseal keygen", "usage: actionseal keygen [-h]\n", "\n" ++ helpOption, [], []⟩
  | .deriveId =>
    ⟨"actionseal derive-id", "usage: actionseal derive-id [-h] [--salt SALT] module name\n",
      "\npositional arguments:\n  module\n  name\n\noptions:\n" ++
        "  -h, --help   show this help message and exit\n  --salt SALT\n",
      ["--salt"], [⟨"module", .one⟩, ⟨"name", .one⟩]⟩
  | .manifest =>
    ⟨"actionseal manifest", "usage: actionseal manifest [-h] modules [modules ...]\n",
      "\npositional arguments:\n  modules\n\n" ++ helpOption, [], [⟨"modules", .several⟩]⟩

/-- The one text of an operand or an option. One whose only word was taken for a divider is left
with an empty list, and that is what its text shows. -/
def single : List Text → Text
  | [only] => only
  | _ => Text.of "[]"

/-- The request that the arguments of a command make. The last salt counts. -/
def request (command : Command) (arguments : Arguments) : Request :=
  match command with
  | .keygen => .freshKey
  | .deriveId =>
    .deriveId (single (arguments.words "module")) (single (arguments.words "name"))
      (arguments.settings.getLast?.map fun setting => single setting.2)
  | .manifest => .actionTable (arguments.words "modules")

end Command

def outerGrammar : Grammar :=
  ⟨"actionseal", "usage: actionseal [-h] \x7bkeygen,derive-id,manifest\x7d ...\n",
    "\nSealed action references\n\npositional arguments:\n" ++
      "  \x7bkeygen,derive-id,manifest\x7d\n" ++
      "    keygen              Generate a sealing key\n" ++
      "    derive-id           Derive an action id\n" ++
      "    manifest            Print the action manifest\n\n" ++
      "options:\n  -h, --help            show this help message and exit\n",
    [], [⟨"cmd", .everything⟩]⟩

/-- The request with the words left over, which turn it away if there are any. -/
def settled (leftOver : List Text) (request : Request) : Except Interruption Request :=
  if leftOver.isEmpty then .ok request
  else .error (.refused outerGrammar (.unrecognized leftOver))

/-- The request that a command line makes. The words that its command leaves over come after the
ones before the name of the command. -/
def readRequest (line : List Text) : Except Interruption Request :=
  match outerGrammar.read line with
  | .error interruption => .error interruption
  | .ok outer =>
    match outer.words "cmd" with
    | [] => .error (.refused outerGrammar (.missingOperands ["cmd"]))
    | written :: words =>
      match Command.named? written with
      | none =>
        .error (.refused outerGrammar
          (.unknownChoice "cmd" written (Command.all.map Command.name)))
      | some command =>
        match command.grammar.read words with
        | .error interruption => .error interruption
        | .ok arguments =>
          settled (outer.leftOver ++ arguments.leftOver) (command.request arguments)

end SealedCall.CommandLine
