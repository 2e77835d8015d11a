import SealedCall.Value.Display

/-! # Journal

What the mechanism leaves behind for whoever operates it: log records, one span for every
invocation with the rejection in it if there was one, and the calls that actions note down.
-/

namespace SealedCall

/-- How grave a log record is. -/
inductive LogLevel
  | debug
  | warning
  | error
deriving DecidableEq

/-- The part of the mechanism that writes a log record. -/
inductive Logger
  | roster
  | envelope
  | invocation
  | telemetry
deriving DecidableEq

/-- One log record. -/
structure LogRecord where
  level : LogLevel
  logger : Logger
  message : Text
deriving DecidableEq

/-- Why a reference is turned away before its action runs. -/
inductive Rejection
  | integrity
  | malformed
  | unknownAction
deriving DecidableEq

/-- The span of one invocation: the id it is tagged with and its rejection events, each with the
id and the reason. -/
structure Span where
  actionId : Value
  rejections : List (Value × Rejection)

/-- A call that an action noted down: its name and the arguments it was called with. -/
structure Call where
  action : Text
  arguments : List Value

namespace LogLevel

def name : LogLevel → String
  | .debug => "DEBUG"
  | .warning => "WARNING"
  | .error => "ERROR"

def rank : LogLevel → Nat
  | .debug => 10
  | .warning => 30
  | .error => 40

end LogLevel

def Logger.name : Logger → String
  | .roster => "actionseal.registry"
  | .envelope => "actionseal.codec"
  | .invocation => "actionseal.binding"
  | .telemetry => "actionseal.observability"

def LogRecord.line (record : LogRecord) : Text :=
  Text.of record.level.name ++ Text.of " " ++ Text.of record.logger.name ++ Text.of ": " ++
    record.message

def Rejection.name : Rejection → String
  | .integrity => "integrity"
  | .malformed => "malformed"
  | .unknownAction => "unknown_action"

end SealedCall
