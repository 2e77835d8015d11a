import SealedCall.Value.Basic

/-! # Equality of values

Numbers are equal by their value whatever their type, with the truth values counting as one and
zero. Sequences are equal item by item but a list never equals a tuple, and dictionaries are equal
when they have equal values under equal keys in any order. What is no number, and an object without
content, equals only itself.
-/

namespace SealedCall.Value

/-- The whole number that a truth value or a whole number counts as. -/
def wholeNumber? : Value → Option Int
  | .bool b => some (if b then 1 else 0)
  | .int n => some n
  | _ => none

/-- Equality of values that hold no other values. -/
def equalLeaf (a b : Value) : Bool :=
  match a, b with
  | .null, .null => true
  | .float x, .float y => x.equal y
  | .text s, .text t => s == t
  | .bytes s, .bytes t | .bytes s, .byteArray t | .byteArray s, .bytes t
  | .byteArray s, .byteArray t => s == t
  | .foreign j, .foreign k => j.equal k
  | .float x, _ =>
    match b.wholeNumber? with
    | some n => x.equalInt n
    | none => false
  | _, .float y =>
    match a.wholeNumber? with
    | some n => y.equalInt n
    | none => false
  | _, _ =>
    match a.wholeNumber?, b.wholeNumber? with
    | some m, some n => m == n
    | _, _ => false

mutual

def equal : Value → Value → Bool
  | .list xs, .list ys => equalAll xs ys
  | .tuple xs, .tuple ys => equalAll xs ys
  | .dict xs, .dict ys => xs.length == ys.length && equalEntries xs ys
  | a, b => equalLeaf a b

def equalAll : List Value → List Value → Bool
  | [], [] => true
  | x :: xs, y :: ys => equal x y && equalAll xs ys
  | _, _ => false

/-- Whether every entry has an equal one among others. -/
def equalEntries : List (Value × Value) → List (Value × Value) → Bool
  | [], _ => true
  | (key, value) :: rest, others =>
    (others.any fun other => equal key other.1 && equal value other.2) && equalEntries rest others

end

/-- The entries with a value stored under a key: an equal key keeps its place and takes the new
value, and a new key goes to the end. -/
def store {α : Type} (key : Value) (value : α) : List (Value × α) → List (Value × α)
  | [] => [(key, value)]
  | (present, old) :: rest =>
    if equal present key then (present, value) :: rest
    else (present, old) :: store key value rest

def dictOf (entries : List (Value × Value)) : Value :=
  .dict (entries.foldl (fun stored entry => store entry.1 entry.2 stored) [])

end SealedCall.Value
