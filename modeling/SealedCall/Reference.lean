import SealedCall.Envelope

/-! # References

A reference is an action id with the values bound to it. An open reference holds them as a snapshot
in memory and stays inside the process; a sealed one holds an envelope and may leave it. Recovering
the values of an open reference hands out copies, so that nobody can change what it holds.
Recovering those of a sealed one goes by the id beside the envelope, not by the id inside.
-/

namespace SealedCall

/-- The wire form of a sealed reference: its id, and nonce and ciphertext in base64. -/
structure WireForm where
  id : Text
  nonce : Text
  payload : Text
deriving DecidableEq

/-- An action id with bound values, open or sealed. An open reference may be bound to anything that
counts as its snapshot. -/
structure Reference where
  id : Value
  snapshot : Datum
  envelope : Option Envelope

/-- A handle to which values can be bound. -/
structure Handle where
  id : Value

/-- How an id is shown, when it has a form. -/
def shownId (id : Value) : Except Failure Text :=
  if id.isShowable then .ok id.shown else .error (.misuse .tooManyDigits)

/-- How many levels of lists and dictionaries can be relied upon to be captured. Copying takes two
frames of the stack for each of them, so it gives out at about half of `nestingLimit`, and sooner
the deeper its callers stand; a fifth of the stack is left to them here. `freeze` goes on up to
`nestingLimit`, so whatever promises that data are captured has to keep to this limit itself. -/
def captureLimit : Nat := 400

/-- Freezes data, one after the other: each is copied with everything in it that can change. What a
datum holds at several places is copied at each of them, so the copies are equal to what they are
made from, but no longer share what that shares. -/
def freeze : List Datum → Operation (List Datum)
  | [] => pure []
  | datum :: rest => do
    let copy ← Operation.place (← Operation.view datum)
    return copy :: (← freeze rest)

/-- The data that a datum holds one after the other, where a call spreads it into arguments. -/
def spread (datum : Datum) : Operation (List Datum) := do
  let memory := (← get).memory
  match memory.items? datum with
  | some items => pure items
  | none => Operation.fail (.misuse (.notUnpackable (memory.typeName datum)))

namespace WireForm

/-- A field of a wire form: a text that is not empty and holds no surrogate, or octets that are
the UTF-8 form of one. -/
def field? : Value → Option Text
  | .text t => if t.isEmpty || t.hasSurrogate then none else some t
  | .bytes octets | .byteArray octets =>
    match Utf8.decode? octets with
    | some [] => none
    | decoded => decoded
  | _ => none

/-- The value held under a name, among the entries of a dictionary. -/
def member? (entries : List (Value × Value)) (name : String) : Option Value :=
  (entries.find? fun entry => entry.1.equal (Value.ofString name)).map (·.2)

/-- The wire form that a dictionary holds. Other entries do not count. -/
def ofValue? : Value → Option WireForm
  | .dict entries =>
    match (member? entries "id").bind field?, (member? entries "nonce").bind field?,
        (member? entries "payload").bind field? with
    | some id, some nonce, some payload => some ⟨id, nonce, payload⟩
    | _, _, _ => none
  | _ => none

def toValue (id : Value) (nonce payload : Text) : Value :=
  .dict [(Value.ofString "id", id), (Value.ofString "nonce", .text nonce),
    (Value.ofString "payload", .text payload)]

end WireForm

namespace Reference

def ofSnapshot (id : Value) (snapshot : Datum) : Reference := ⟨id, snapshot, none⟩

def ofEnvelope (id : Value) (envelope : Envelope) : Reference :=
  ⟨id, .fixed .null, some envelope⟩

def hasEnvelope (reference : Reference) : Bool := reference.envelope.isSome

/-- The snapshot, or an empty one where it does not count as present. -/
def heldSnapshot (reference : Reference) : Operation Datum := do
  pure (if (← get).memory.isTruthy reference.snapshot then reference.snapshot else .tuple [])

/-- The sealed form of a reference. A sealed reference is its own, whatever the key. -/
def sealWith (reference : Reference) (key : Value) : Operation Reference :=
  match reference.envelope with
  | some _ => pure reference
  | none => do
    let reading := do Operation.view (← reference.heldSnapshot)
    return ofEnvelope reference.id (← Envelope.sealRead reference.id reading key)

/-- The envelope that is opened for a sealed reference: the one that it holds, under the id beside
it. -/
def effectiveEnvelope (reference : Reference) (envelope : Envelope) : Envelope :=
  ⟨reference.id, envelope.nonce, envelope.ciphertext⟩

/-- The bound values, each with places of its own. -/
def recover (reference : Reference) (key : Value) : Operation (List Datum) :=
  match reference.envelope with
  | none => do freeze (← spread (← reference.heldSnapshot))
  | some envelope =>
    match key with
    | .null => Operation.fail (.keyMaterial .neededToOpen)
    | key => do
      let values ← (reference.effectiveEnvelope envelope).openUnder key
      values.mapM Operation.place

def wireForm (reference : Reference) : Except Failure Value :=
  match reference.envelope with
  | none => .error (.misuse .openOnWire)
  | some envelope =>
    .ok (WireForm.toValue reference.id (Base64.encode .urlSafe envelope.nonce)
      (Base64.encode .urlSafe envelope.ciphertext))

def ofWireForm (wire : WireForm) : Except Failure Reference :=
  match Base64.decodeUnpadded? .urlSafe wire.nonce,
      Base64.decodeUnpadded? .urlSafe wire.payload with
  | some nonce, some ciphertext =>
    .ok (ofEnvelope (.text wire.id) ⟨.text wire.id, nonce, ciphertext⟩)
  | _, _ => .error (.malformed .badReference)

/-- The reference of a value that holds a wire form. -/
def ofWireValue (data : Value) : Except Failure Reference :=
  match WireForm.ofValue? data with
  | some wire => ofWireForm wire
  | none => .error (.malformed .badReference)

def equalEnvelopes : Option Envelope → Option Envelope → Bool
  | some a, some b => a.id.equal b.id && a.nonce == b.nonce && a.ciphertext == b.ciphertext
  | none, none => true
  | _, _ => false

/-- Whether two references have equal ids, snapshots and envelopes at the moment. -/
def equal (a b : Reference) : Operation Bool := do
  let left ← Operation.view a.snapshot
  let right ← Operation.view b.snapshot
  return a.id.equal b.id && left.equal right && equalEnvelopes a.envelope b.envelope

def shown (reference : Reference) : Except Failure Text :=
  (shownId reference.id).map fun id =>
    Text.of "BoundReference(" ++ id ++ Text.of ", " ++
      Text.of (if reference.hasEnvelope then "sealed" else "open") ++ Text.of ")"

end Reference

namespace Handle

/-- The handle for a registered action. -/
def ofRegistered (id : Value) : Operation Handle := do
  match (← get).roster.entry id with
  | .ok _ => pure ⟨id⟩
  | .error failure => Operation.fail failure

/-- Binds data as they are at the moment. -/
def bind (handle : Handle) (data : List Datum) : Operation Reference := do
  return .ofSnapshot handle.id (.tuple (← freeze data))

/-- Binds a snapshot that was taken elsewhere. -/
def adopt (handle : Handle) (snapshot : Datum) : Reference :=
  .ofSnapshot handle.id snapshot

end Handle

/-- A bind that is declared up front and evaluated at each use: what it is bound to is read when it
is called. With a key it gives sealed references. -/
structure DeferredBind where
  id : Value
  values : Operation Datum
  key : Option Key

namespace DeferredBind

/-- A bind for a registered action that gives open references. -/
def ofRegistered (id : Value) (values : Operation Datum) : Operation DeferredBind := do
  return ⟨(← Handle.ofRegistered id).id, values, none⟩

/-- The reference bound to the values at the moment. -/
def evaluate (deferred : DeferredBind) : Operation Reference := do
  let snapshot ← freeze (← spread (← deferred.values))
  let reference := Reference.ofSnapshot deferred.id (.tuple snapshot)
  match deferred.key with
  | some key => reference.sealWith (.bytes key.octets)
  | none => pure reference

def shown (deferred : DeferredBind) : Except Failure Text :=
  (shownId deferred.id).map fun id => Text.of "HoistedBind(" ++ id ++ Text.of ")"

end DeferredBind

end SealedCall
