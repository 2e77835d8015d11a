import SealedCall.Json.Encoding
import SealedCall.Json.Response
import SealedCall.Service

/-! # HTTP endpoint

The endpoint lists the registered actions and invokes the one that a request names, with the sealed
reference and the arguments in its body. A body that does not have the right shape is answered with
everything that is wrong with it, and whatever turns the reference away is answered without a word
on how the action or its values look.
-/

namespace SealedCall.Endpoint

/-- The title under which the endpoint presents itself. -/
def title : String := "actionseal"

/-- The version under which the endpoint presents itself. -/
def version : String := "0.1.0"

/-- A request. A request without a content type has an empty one. -/
structure Request where
  method : Text
  path : Text
  contentType : Text
  body : Octets

/-- What is wrong with a part of a body. -/
inductive FaultKind
  | missing
  | notText
  | emptyText
  | surrogateText
  | notList
  | notObject
  | notJson
deriving DecidableEq

/-- A step on the way to a part of a body. -/
inductive Place
  | field (name : String)
  | position (n : Nat)
deriving DecidableEq

/-- A fault of a body and where it is. -/
structure Fault where
  kind : FaultKind
  location : List Place
deriving DecidableEq

/-- A reply: a JSON body as its reader sees it, the faults of the request's body, or a text, which a
JSON body is as well where a whole number in it is too long to be read. -/
inductive Reply
  | json (status : Nat) (body : Value)
  | faults (faults : List Fault)
  | text (status : Nat) (text : Text)

def FaultKind.name : FaultKind → String
  | .missing => "missing"
  | .notText => "string_type"
  | .emptyText => "string_too_short"
  | .surrogateText => "string_unicode"
  | .notList => "list_type"
  | .notObject => "model_attributes_type"
  | .notJson => "json_invalid"

/-- The reply that only states what happened. -/
def Reply.detail (status : Nat) (message : Text) : Reply :=
  .json status (.dict [(Value.ofString "detail", .text message)])

/-- The reply to a request that the endpoint fails on. -/
def Reply.broken : Reply := .text 500 (Text.of "Internal Server Error")

/-- The reply with one member, unless that has no form. -/
def Reply.member (name : String) (value : Value) : Reply :=
  match Json.written value with
  | some value =>
    let body := Value.dict [(Value.ofString name, value)]
    if body.isShowable then .json 200 body else .text 200 (Json.bodyText body)
  | none => .broken

/-! ## Routes -/

/-- What a path leads to. -/
inductive Route
  | list
  | action (id : Text)
deriving DecidableEq

/-- The route of a path: the list, possibly with a line break behind it, or one part below it. -/
def Route.ofPath? (path : Text) : Option Route :=
  if path = Text.of "/actions" || path = Text.of "/actions\n" then some .list
  else if (Text.of "/actions/").isPrefixOf path then
    let id := path.drop 9
    if id.isEmpty || id.any (·.is '/') then none else some (.action id)
  else none

def withoutSlashes (path : Text) : Text := (path.reverse.dropWhile (·.is '/')).reverse

/-- Whether a path ends in a slash and leads somewhere without it. -/
def isRedirected (path : Text) : Bool :=
  match path.getLast? with
  | some last => last.is '/' && (Route.ofPath? (withoutSlashes path)).isSome
  | none => false

/-! ## Bodies -/

/-- Whether a content type announces JSON, whatever its parameters. Only ASCII white space may stand
around it. An empty one announces nothing, so a body without a content type is not read; that is the
strict one of two rules in use, and the other would read it. -/
def announcesJson (contentType : Text) : Bool :=
  let kind := Text.stripAscii ((contentType.takeWhile fun point => !point.is ';').map
    CodePoint.asciiLower)
  match Text.splitAt '/' kind with
  | [main, sub] =>
    main == Text.of "application" &&
      (sub == Text.of "json" || (Text.of "+json").isSuffixOf sub)
  | _ => false

/-- What the body of a request comes to. -/
inductive Content
  | absent
  | opaqueOctets
  | value (value : Value)
  | badJson (position : Nat)
  | unreadable

def contentOf (contentType : Text) (body : Octets) : Content :=
  if body.isEmpty then .absent
  else if !announcesJson contentType then .opaqueOctets
  else match Json.textOf body with
    | none => .unreadable
    | some text =>
      match Json.read text with
      | .ok value => .value value
      | .error (.invalid position) => .badJson position
      | .error _ => .unreadable

/-- A request to invoke an action: the reference and the arguments. -/
structure Order where
  reference : WireForm
  arguments : List Value

/-- What was found in a part of a body, and the faults of that part. -/
structure Checked (α : Type) where
  value : Option α
  faults : List Fault

def checkText (entries : List (Value × Value)) (name : String) : Checked Text :=
  let faulty := fun kind => Checked.mk none [⟨kind, [.field "body", .field "reference",
    .field name]⟩]
  match WireForm.member? entries name with
  | none => faulty .missing
  | some (.text t) =>
    if t.hasSurrogate then faulty .surrogateText
    else if t.isEmpty then faulty .emptyText
    else ⟨some t, []⟩
  | some _ => faulty .notText

def checkReference (entries : List (Value × Value)) : Checked WireForm :=
  let location := [Place.field "body", .field "reference"]
  match WireForm.member? entries "reference" with
  | none => ⟨none, [⟨.missing, location⟩]⟩
  | some (.dict members) =>
    let id := checkText members "id"
    let nonce := checkText members "nonce"
    let payload := checkText members "payload"
    let reference := match id.value, nonce.value, payload.value with
      | some id, some nonce, some payload => some ⟨id, nonce, payload⟩
      | _, _, _ => none
    ⟨reference, id.faults ++ nonce.faults ++ payload.faults⟩
  | some _ => ⟨none, [⟨.notObject, location⟩]⟩

/-- The arguments of a body. There are none where they are left out. -/
def checkArguments (entries : List (Value × Value)) : Checked (List Value) :=
  match WireForm.member? entries "args" with
  | none => ⟨some [], []⟩
  | some (.list items) => ⟨some items, []⟩
  | some _ => ⟨none, [⟨.notList, [.field "body", .field "args"]⟩]⟩

/-- The order in the content of a body, or the faults of it. -/
def orderOf (value : Value) : Except (List Fault) Order :=
  match value with
  | .dict entries =>
    let reference := checkReference entries
    let arguments := checkArguments entries
    match reference.value, arguments.value with
    | some reference, some arguments => .ok ⟨reference, arguments⟩
    | _, _ => .error (reference.faults ++ arguments.faults)
  | _ => .error [⟨.notObject, [.field "body"]⟩]

/-! ## Replies -/

def replyTo : Failure → Reply
  | .unknownAction _ => .detail 404 (Text.of "Unknown action")
  | .integrity => .detail 400 Failure.integrity.message
  | .malformed _ => .detail 400 (Text.of "Malformed action reference")
  | .execution _ _ => .detail 500 (Text.of "action failed")
  | _ => .broken

/-- Invokes the action of an order under the id that the path names. -/
def fulfil (service : Service) (behaviour : Behaviour) (id : Text) (order : Order) :
    Activity Reply :=
  if order.reference.id = id then
    let activity : Activity Datum :=
      match Reference.ofWireForm order.reference with
      | .ok reference =>
        (Activity.ofOperation (order.arguments.mapM Operation.place)).bind fun arguments =>
          service.run behaviour reference arguments
      | .error failure => .done (.error failure)
    (activity.bind fun result => Activity.ofOperation (Operation.view result)).andThen fun
      | .ok value => .done (.ok (.member "result" value))
      | .error failure =>
        if failure.isAbort then .done (.error failure) else .done (.ok (replyTo failure))
  else .done (.ok (.detail 400 (Text.of "Reference does not match action")))

/-- The reply to a request to invoke the action under an id. -/
def runAction (service : Service) (behaviour : Behaviour) (id : Text) (request : Request) :
    Activity Reply :=
  match contentOf request.contentType request.body with
  | .absent => .done (.ok (.faults [⟨.missing, [.field "body"]⟩]))
  | .opaqueOctets => .done (.ok (.faults [⟨.notObject, [.field "body"]⟩]))
  | .badJson position =>
    .done (.ok (.faults [⟨.notJson, [.field "body", .position position]⟩]))
  | .unreadable => .done (.ok (.detail 400 (Text.of "There was an error parsing the body")))
  | .value value =>
    match orderOf value with
    | .ok order => fulfil service behaviour id order
    | .error faults => .done (.ok (.faults faults))

/-- The reply to a request for the list of actions. -/
def list : Activity Reply :=
  .inspect fun host =>
    .done (.ok (.member "ids" (.list (host.roster.ids.map .text))))

def respond (service : Service) (behaviour : Behaviour) (request : Request) : Activity Reply :=
  match Route.ofPath? request.path with
  | some .list =>
    if request.method = Text.of "GET" then list
    else .done (.ok (.detail 405 (Text.of "Method Not Allowed")))
  | some (.action id) =>
    if request.method = Text.of "POST" then runAction service behaviour id request
    else .done (.ok (.detail 405 (Text.of "Method Not Allowed")))
  | none =>
    .done (.ok (if isRedirected request.path then .text 307 []
      else .detail 404 (Text.of "Not Found")))

end SealedCall.Endpoint
