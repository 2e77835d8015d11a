import SealedCall.Text.System
import SealedCall.Value.Display

/-! # Failures

Every way in which an operation can end other than with a value. The mechanism refuses in six ways
of its own; beside them stand the misuse of an operation, data that nests too deep, and whatever
an action raises. The wording of each is one function.
-/

namespace SealedCall

/-- Why values have no snapshot form although they would read back unchanged. -/
inductive WritingFault
  | notFinite
  | noForm (typeName : String)
  | tooManyDigits
deriving DecidableEq

/-- Why an envelope or a wire form does not hold a value sequence. -/
inductive Malformation
  | tupleAt (path : Text)
  | keyAt (path : Text) (typeName : String)
  | notWritable (fault : WritingFault)
  | unreadable
  | notSequence (typeName : String)
  | badReference
  | stated (argument : Value)

/-- Why there is no sealing key. -/
inductive KeyFault
  | notBase64
  | wrongLength
  | neededToOpen
  | notConfigured
  | stated (argument : Value)

/-- Why a file operation fails. -/
inductive FileFault
  | missing
  | exists
  | notDirectory
  | isDirectory
  | nameTooLong
  | unusable (fault : SystemFault)
deriving DecidableEq

/-- An operation used on something that does not support it. -/
inductive Misuse
  | emptyActionId
  | notCallable (id : Text)
  | unhashable (typeName : String)
  | notUnpackable (typeName : String)
  | notIterable (typeName : String)
  | noAttribute (typeName member : Text)
  | unencodable (fault : Utf8.Unencodable)
  | shorterThanTag
  | wrongNonceLength
  | openOnWire
  | frozenField (field : Text)
  | noModuleAttribute (name : Text)
  | tooManyDigits
  | file (fault : FileFault) (path : Text)
  | unusableText (fault : SystemFault)
  | badSettingName
  | emptySettingName
  | unknownLogLevel (name : Text)
  | emptyModuleName
  | relativeModule (name : Text)
  | noModule (name : Text)
  | noModuleIn (name parent : Text)
  | noWrittenForm (typeName : String)
  | noKeyForm (typeName : String)
  | unnamed (name : Text)
  | indexOutOfRange (sequence : String)
  | indexTooWide
  | indexNotWhole (sequence typeName : String)
  | notWhole (typeName : String)
  | notOctet
  | missingArguments (function : Text) (names : List Text)
  | extraArguments (function : Text) (least most given : Nat)
  | oneArgument (function : Text) (given : Nat)
  | noLength (typeName : String)
  | badOperand (function : Text) (typeName : String)
  | unsupported (operator left right : String)
  | onlyConcatenates (own other : String)
  | notConcatenated (own other : String)
  | tooLargeForFloat
  | noItemAssignment (typeName : String)
  | argumentCount (function : String) (needed : Nat)

/-- How an operation ended when not with a value. What an action raises of its own is `raised`, with
the name of its class and its one argument. The list is closed: an exception that words itself in
another way, that fails to find its words for another reason than a number with too many digits, or
that aborts under a class name of its own is left out. -/
inductive Failure
  | duplicateAction (id : Value)
  | unknownAction (id : Value)
  | integrity
  | malformed (cause : Malformation)
  | keyMaterial (cause : KeyFault)
  | execution (id : Value) (cause : Failure)
  | misuse (cause : Misuse)
  | tooDeep
  | raised (kind : String) (argument : Value)

namespace WritingFault

def digitLimitText : String :=
  "Exceeds the limit (4300 digits) for integer string conversion; " ++
    "use sys.set_int_max_str_digits() to increase the limit"

def message : WritingFault → Text
  | .notFinite => Text.of "Out of range float values are not JSON compliant"
  | .noForm typeName =>
    Text.of "Object of type " ++ Text.of typeName ++ Text.of " is not JSON serializable"
  | .tooManyDigits => Text.of digitLimitText

end WritingFault

namespace Malformation

def message : Malformation → Text
  | .tupleAt path => Text.of "Bound argument " ++ path ++ Text.of " is a tuple; use a list"
  | .keyAt path typeName =>
    Text.of "Bound argument " ++ path ++ Text.of " has a " ++ Text.of typeName ++
      Text.of " key; keys must be str"
  | .notWritable fault => Text.of "Bound arguments are not serializable: " ++ fault.message
  | .unreadable => Text.of "Bound arguments could not be decoded"
  | .notSequence typeName =>
    Text.of "Bound arguments must decode to a list, got " ++ Text.of typeName
  | .badReference => Text.of "Malformed action reference"
  | .stated argument => argument.plain

end Malformation

namespace KeyFault

def message : KeyFault → Text
  | .notBase64 => Text.of "Sealing key is not valid base64"
  | .wrongLength => Text.of "Sealing key must be exactly 32 bytes"
  | .neededToOpen => Text.of "A sealing key is required to restore a sealed reference"
  | .notConfigured =>
    Text.of "No sealing key configured; set ACTIONSEAL_KEY or ACTIONSEAL_KEY_FILE"
  | .stated argument => argument.plain

end KeyFault

/-- The wording for a text that has no UTF-8 form. -/
def Utf8.Unencodable.message (fault : Utf8.Unencodable) : Text :=
  if fault.count = 1 then
    Text.of "'utf-8' codec can't encode character '" ++ Text.numericEscape fault.first.value ++
      Text.of "' in position " ++ Text.ofNat fault.start ++
      Text.of ": surrogates not allowed"
  else
    Text.of "'utf-8' codec can't encode characters in position " ++ Text.ofNat fault.start ++
      Text.of "-" ++ Text.ofNat (fault.start + fault.count - 1) ++
      Text.of ": surrogates not allowed"

namespace SystemFault

/-- The name of the class of a text that cannot go to the operating system. -/
def kindName : SystemFault → String
  | .unencodable _ => "UnicodeEncodeError"
  | .embeddedNull => "ValueError"

/-- The wording for a text that cannot go to the operating system. -/
def message : SystemFault → Text
  | .unencodable fault => fault.message
  | .embeddedNull => Text.of "embedded null byte"

end SystemFault

/-- What the operating system answers: the number of the fault and its wording. -/
def systemAnswer (number : Nat) (wording : String) : Text :=
  Text.of "[Errno " ++ Text.ofNat number ++ Text.of "] " ++ Text.of wording

namespace FileFault

def kindName : FileFault → String
  | .missing => "FileNotFoundError"
  | .exists => "FileExistsError"
  | .notDirectory => "NotADirectoryError"
  | .isDirectory => "IsADirectoryError"
  | .nameTooLong => "OSError"
  | .unusable fault => fault.kindName

/-- An answer of the operating system with the path that it is about. -/
def answered (path : Text) (number : Nat) (wording : String) : Text :=
  systemAnswer number wording ++ Text.of ": " ++ path.quoted

def message (path : Text) : FileFault → Text
  | .missing => answered path 2 "No such file or directory"
  | .exists => answered path 17 "File exists"
  | .notDirectory => answered path 20 "Not a directory"
  | .isDirectory => answered path 21 "Is a directory"
  | .nameTooLong => answered path 36 "File name too long"
  | .unusable fault => fault.message

end FileFault

namespace Misuse

/-- The names of missing arguments in a sentence. -/
def enumerated : List Text → Text
  | [] => []
  | [only] => only.quoted
  | [first, second] => first.quoted ++ Text.of " and " ++ second.quoted
  | first :: rest => first.quoted ++ Text.of ", " ++ enumerated rest

def counted (n : Nat) : Text :=
  Text.ofNat n ++ Text.of (if n = 1 then " positional argument" else " positional arguments")

/-- What a type is called where something of it is asked for a member. Among the values only the
type of whole numbers is a type itself, and it goes by its own name. -/
def owner (typeName : Text) : Text :=
  if typeName = Text.of "type" then Text.of "type object 'int'"
  else Text.of "'" ++ typeName ++ Text.of "' object"

def kindName : Misuse → String
  | .emptyActionId | .shorterThanTag | .openOnWire | .tooManyDigits
  | .unknownLogLevel _ | .emptyModuleName => "ValueError"
  | .noAttribute _ _ | .noModuleAttribute _ => "AttributeError"
  | .unencodable _ => "UnicodeEncodeError"
  | .frozenField _ => "FrozenInstanceError"
  | .file fault _ => fault.kindName
  | .unusableText fault => fault.kindName
  | .badSettingName => "ValueError"
  | .emptySettingName => "OSError"
  | .noModule _ | .noModuleIn _ _ => "ModuleNotFoundError"
  | .unnamed _ => "KeyError"
  | .indexOutOfRange _ | .indexTooWide => "IndexError"
  | .notOctet => "ValueError"
  | .tooLargeForFloat => "OverflowError"
  | _ => "TypeError"

def message : Misuse → Text
  | .emptyActionId => Text.of "Action id must be a non-empty string"
  | .notCallable id => Text.of "Implementation for " ++ id.quoted ++ Text.of " is not callable"
  | .unhashable typeName => Text.of "unhashable type: '" ++ Text.of typeName ++ Text.of "'"
  | .notUnpackable typeName =>
    Text.of "actionseal.capture.capture() argument after * must be an iterable, not " ++
      Text.of typeName
  | .notIterable typeName =>
    Text.of "'" ++ Text.of typeName ++ Text.of "' object is not iterable"
  | .noAttribute typeName member =>
    owner typeName ++ Text.of " has no attribute '" ++ member ++ Text.of "'"
  | .unencodable fault => fault.message
  | .shorterThanTag => Text.of "negative array length"
  | .wrongNonceLength => Text.of "Nonce must be a 24 bytes long bytes sequence"
  | .openOnWire => Text.of "Only sealed references can leave the process"
  | .frozenField field => Text.of "cannot assign to field " ++ field.quoted
  | .noModuleAttribute name =>
    Text.of "module 'actionseal.api' has no attribute " ++ name.quoted
  | .tooManyDigits => WritingFault.tooManyDigits.message
  | .file fault path => fault.message path
  | .unusableText fault => fault.message
  | .badSettingName => Text.of "illegal environment variable name"
  | .emptySettingName => systemAnswer 22 "Invalid argument"
  | .unknownLogLevel name => Text.of "Unknown level: " ++ name.quoted
  | .emptyModuleName => Text.of "Empty module name"
  | .relativeModule name =>
    Text.of "the 'package' argument is required to perform a relative import for " ++ name.quoted
  | .noModule name => Text.of "No module named " ++ name.quoted
  | .noModuleIn name parent =>
    Text.of "No module named " ++ name.quoted ++ Text.of "; " ++ parent.quoted ++
      Text.of " is not a package"
  | .noWrittenForm typeName => (WritingFault.noForm typeName).message
  | .noKeyForm typeName =>
    Text.of "keys must be str, int, float, bool or None, not " ++ Text.of typeName
  | .unnamed name => name.quoted
  | .indexOutOfRange sequence => Text.of sequence ++ Text.of " index out of range"
  | .indexTooWide => Text.of "cannot fit 'int' into an index-sized integer"
  | .indexNotWhole sequence typeName =>
    Text.of sequence ++ Text.of " indices must be integers or slices, not " ++ Text.of typeName
  | .notWhole typeName =>
    Text.of "'" ++ Text.of typeName ++ Text.of "' object cannot be interpreted as an integer"
  | .notOctet => Text.of "byte must be in range(0, 256)"
  | .missingArguments function names =>
    function ++ Text.of "() missing " ++ Text.ofNat names.length ++
      Text.of (if names.length = 1 then " required positional argument: "
        else " required positional arguments: ") ++ enumerated names
  | .extraArguments function least most given =>
    let were := Text.ofNat given ++ Text.of (if given = 1 then " was given" else " were given")
    if least = most then
      function ++ Text.of "() takes " ++ counted most ++ Text.of " but " ++ were
    else
      function ++ Text.of "() takes from " ++ Text.ofNat least ++ Text.of " to " ++
        counted most ++ Text.of " but " ++ were
  | .oneArgument function given =>
    function ++ Text.of "() takes exactly one argument (" ++ Text.ofNat given ++ Text.of " given)"
  | .noLength typeName =>
    Text.of "object of type '" ++ Text.of typeName ++ Text.of "' has no len()"
  | .badOperand function typeName =>
    Text.of "bad operand type for " ++ function ++ Text.of "(): '" ++ Text.of typeName ++
      Text.of "'"
  | .unsupported operator left right =>
    Text.of "unsupported operand type(s) for " ++ Text.of operator ++ Text.of ": '" ++
      Text.of left ++ Text.of "' and '" ++ Text.of right ++ Text.of "'"
  | .onlyConcatenates own other =>
    Text.of "can only concatenate " ++ Text.of own ++ Text.of " (not \"" ++ Text.of other ++
      Text.of "\") to " ++ Text.of own
  | .notConcatenated own other =>
    Text.of "can't concat " ++ Text.of other ++ Text.of " to " ++ Text.of own
  | .tooLargeForFloat => Text.of "int too large to convert to float"
  | .noItemAssignment typeName =>
    Text.of "'" ++ Text.of typeName ++ Text.of "' object does not support item assignment"
  | .argumentCount function needed =>
    Text.of function ++ Text.of " takes exactly " ++ Text.ofNat needed ++
      Text.of " arguments (1 given)"

end Misuse

namespace Failure

def kindName : Failure → String
  | .duplicateAction _ => "DuplicateActionError"
  | .unknownAction _ => "UnknownActionError"
  | .integrity => "IntegrityError"
  | .malformed _ => "MalformedPayloadError"
  | .keyMaterial _ => "KeyMaterialError"
  | .execution _ _ => "ActionExecutionError"
  | .misuse cause => cause.kindName
  | .tooDeep => "RecursionError"
  | .raised kind _ => kind

/-- The wording of a failure. Data that nests too deep leaves no fixed wording. -/
def message : Failure → Text
  | .duplicateAction id =>
    Text.of "Action " ++ id.shown ++
      Text.of " is already registered to a different implementation"
  | .unknownAction id => Text.of "Unknown action " ++ id.shown
  | .integrity => Text.of "Sealed payload failed integrity check"
  | .malformed cause => cause.message
  | .keyMaterial cause => cause.message
  | .execution id cause =>
    Text.of "Action " ++ id.shown ++ Text.of " failed: " ++ Text.of cause.kindName ++
      Text.of ": " ++ cause.message
  | .misuse cause => cause.message
  | .tooDeep => []
  | .raised kind argument => if kind = "KeyError" then argument.shown else argument.plain

/-- Whether the failure is one of the mechanism's own refusals. -/
def isRefusal : Failure → Bool
  | .duplicateAction _ | .unknownAction _ | .integrity | .malformed _ | .keyMaterial _
  | .execution _ _ => true
  | .raised kind _ => kind == "ActionSealError"
  | _ => false

/-- Whether the failure takes effect past everything that handles errors, as a cancellation does.
Only the classes listed here do; an action has none of its own. -/
def isAbort : Failure → Bool
  | .raised kind _ =>
    ["CancelledError", "BaseException", "KeyboardInterrupt", "SystemExit",
      "GeneratorExit"].contains kind
  | _ => false

/-- Whether the wording of a failure can be written down. It cannot where an argument holds a whole
number with too many digits, and that is the only reason there is. -/
def isShowable : Failure → Bool
  | .duplicateAction id | .unknownAction id => id.isShowable
  | .execution id cause => id.isShowable && cause.isShowable
  | .malformed (.stated argument) | .keyMaterial (.stated argument) | .raised _ argument =>
    argument.isShowable
  | _ => true

/-- The failure itself when its wording can be written down, and the digit limit otherwise. -/
def checked (failure : Failure) : Failure :=
  if failure.isShowable then failure else .misuse .tooManyDigits

/-- A failure whose wording can be read, or the failure to read it. -/
def readable (failure : Failure) : Except Failure Failure :=
  if failure.isShowable then .ok failure else .error (.misuse .tooManyDigits)

def className (name : String) : String :=
  if name = "IOError" || name = "EnvironmentError" then "OSError" else name

/-- The misuse of making a failure of a class with one argument, where the class needs more. -/
def misuseOfClass? : String → Option Misuse
  | "UnicodeEncodeError" | "UnicodeDecodeError" => some (.argumentCount "function" 5)
  | "UnicodeTranslateError" => some (.argumentCount "function" 4)
  | "ExceptionGroup" | "BaseExceptionGroup" =>
    some (.argumentCount "BaseExceptionGroup.__new__()" 2)
  | _ => none

/-- The failure of a class, made with one argument, or the failure to make it. A class that writes
its argument into its message when it is made needs an argument that can be written. -/
def ofClass (name : String) (argument : Value) : Except Failure Failure :=
  match name with
  | "IntegrityError" => .ok .integrity
  | "ActionExecutionError" =>
    readable (.execution (Value.ofString "inner") (.raised "ValueError" argument))
  | "DuplicateActionError" => readable (.duplicateAction argument)
  | "UnknownActionError" => readable (.unknownAction argument)
  | "MalformedPayloadError" => .ok (.malformed (.stated argument))
  | "KeyMaterialError" => .ok (.keyMaterial (.stated argument))
  | _ =>
    match misuseOfClass? name with
    | some cause => .error (.misuse cause)
    | none => .ok (.raised (className name) argument)

/-- What is raised where a failure of a class is to be raised: the failure, or the one to make
it. -/
def raisedOfClass (name : String) (argument : Value) : Failure :=
  match ofClass name argument with
  | .ok failure | .error failure => failure

end Failure

end SealedCall
