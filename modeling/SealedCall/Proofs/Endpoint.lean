import SealedCall.Endpoint
import SealedCall.Proofs.Delivery
import SealedCall.Proofs.Json.Response

/-! # The endpoint and the invocation in process

A request that reaches an action is answered by what invoking the wire form in its body comes to.
The endpoint has read the wire form by another way, but to the same parts, so it makes the same
calls, and each outcome has a reply of its own.
-/

namespace SealedCall.Endpoint

open Operation

/-! ## What a body holds -/

theorem member?_of_checkText {entries : List (Value × Value)} {name : String} {t : Text}
    (hcheck : (checkText entries name).value = some t) :
    (WireForm.member? entries name).bind WireForm.field? = some t := by
  rw [checkText] at hcheck
  split at hcheck
  · cases hcheck
  · next held hmember =>
      split at hcheck
      · cases hcheck
      · next hplain =>
          split at hcheck
          · cases hcheck
          · next hnonempty =>
              cases hcheck
              rw [hmember, Option.bind_some]
              exact WireForm.field?_text (fun hnil => hnonempty (by rw [hnil]; rfl))
                (Bool.eq_false_iff.mpr hplain)
  · cases hcheck

/-- The wire form in a body is the one that reading its reference in process gives. -/
theorem reference_of_orderOf {content : Value} {order : Order}
    (horder : orderOf content = .ok order) :
    ∃ entries data, content = .dict entries ∧
      WireForm.member? entries "reference" = some data ∧
        WireForm.ofValue? data = some order.reference := by
  cases content with
  | dict entries =>
      refine ⟨entries, ?_⟩
      rw [orderOf] at horder
      split at horder
      · next reference arguments hreference _ =>
          cases horder
          rw [checkReference] at hreference
          split at hreference
          · cases hreference
          · next members hmember =>
              simp only at hreference
              split at hreference
              · next id nonce payload hid hnonce hpayload =>
                  cases hreference
                  refine ⟨.dict members, rfl, hmember, ?_⟩
                  rw [WireForm.ofValue?, member?_of_checkText hid, member?_of_checkText hnonce,
                    member?_of_checkText hpayload]
              · cases hreference
          · cases hreference
      · cases horder
  | _ => cases horder

/-- Whether a request comes through to the invocation of the action under an id, with an order. -/
structure Request.Reaches (request : Request) (id : Text) (order : Order) : Prop where
  route : Route.ofPath? request.path = some (.action id)
  method : request.method = Text.of "POST"
  content : ∃ content, contentOf request.contentType request.body = .value content ∧
    orderOf content = .ok order

/-- A request that comes through is answered by fulfilling its order. -/
theorem respond_of_reaches {request : Request} {id : Text} {order : Order}
    (hreaches : request.Reaches id order) (service : Service) (behaviour : Behaviour) :
    respond service behaviour request = fulfil service behaviour id order := by
  obtain ⟨content, hcontent, horder⟩ := hreaches.content
  rw [respond, hreaches.route]
  simp only
  rw [if_pos hreaches.method, runAction, hcontent]
  simp only
  rw [horder]

/-! ## Replies to outcomes -/

/-- An activity with the reply to what it comes to, where a value is viewed first. -/
def replied (activity : Activity Datum) : Activity Reply :=
  (activity.bind fun result => Activity.ofOperation (view result)).andThen fun
    | .ok value => .done (.ok (.member "result" value))
    | .error failure =>
      if failure.isAbort then .done (.error failure) else .done (.ok (replyTo failure))

/-- What the outcome of an invocation becomes as the answer to a request. -/
def answerTo (memory : Memory) : Except Failure Datum → Except Failure Reply
  | .ok result =>
    match memory.view result with
    | some value => .ok (.member "result" value)
    | none => .ok .broken
  | .error failure => if failure.isAbort then .error failure else .ok (replyTo failure)

/-- The invocation in process of a wire form with the arguments of an order, each with places of its
own. -/
def inProcess (service : Service) (behaviour : Behaviour) (data : Value) (order : Order) :
    Activity Datum :=
  (Activity.ofOperation (order.arguments.mapM place)).bind fun arguments =>
    service.runWritten behaviour data arguments

/-- Replying changes nothing on the host. -/
theorem run_replied (activity : Activity Datum) (host : Host) :
    (replied activity).run host =
      (answerTo (activity.run host).2.memory (activity.run host).1, (activity.run host).2) := by
  rw [replied, Process.run_andThen, Process.run_bind]
  obtain ⟨outcome, after⟩ := activity.run host
  cases outcome with
  | error failure =>
      simp only [answerTo]
      split
      · rfl
      · rfl
  | ok result =>
      simp only [answerTo]
      rw [Activity.ofOperation, Process.run_ofStep, perform_view]
      cases after.memory.view result with
      | none => rfl
      | some value => rfl

/-- The status of a reply. -/
def Reply.status : Reply → Nat
  | .json status _ => status
  | .faults _ => 422
  | .text status _ => status

theorem member_of_carried {name : String} {value : Value} (hcarried : Json.Carried value)
    (hfits : Json.fits Json.responseLimit value = true) :
    Reply.member name value = .json 200 (.dict [(Value.ofString name, value)]) := by
  have hshowable : (Value.dict [(Value.ofString name, value)]).isShowable = true := by
    rw [Value.isShowable, Value.entriesShowable, Json.isShowable_of_carried hcarried]
    rfl
  rw [Reply.member, Json.written, Json.writtenWithin_of_carried hcarried hfits]
  simp only
  rw [if_pos hshowable]

theorem member_of_not_fits {name : String} {value : Value}
    (hfits : Json.fits Json.responseLimit value = false) : Reply.member name value = .broken := by
  rw [Reply.member, Json.written_of_not_fits hfits]

/-- How the answer to a request tells the outcome of the invocation that it stands for. A result is
answered as it is when the response carries it and it fits. One that nests too deep for a response,
or to be viewed at all, is answered like a request that the endpoint fails on. -/
structure Tells (memory : Memory) (outcome : Except Failure Datum)
    (answer : Except Failure Reply) : Prop where
  result : ∀ result value, outcome = .ok result → memory.view result = some value →
    Json.Carried value → Json.fits Json.responseLimit value = true →
      answer = .ok (.json 200 (.dict [(Value.ofString "result", value)]))
  tooDeep : ∀ result, outcome = .ok result → (∀ value, memory.view result = some value →
    Json.fits Json.responseLimit value = false) → answer = .ok .broken
  ok : ∀ reply, answer = .ok reply → reply.status = 200 → ∃ result, outcome = .ok result
  unknown : answer = .ok (.detail 404 (Text.of "Unknown action")) ↔
    ∃ id, outcome = .error (.unknownAction id)
  integrity : answer = .ok (.detail 400 Failure.integrity.message) ↔ outcome = .error .integrity
  malformed : answer = .ok (.detail 400 (Text.of "Malformed action reference")) ↔
    ∃ cause, outcome = .error (.malformed cause)
  execution : answer = .ok (.detail 500 (Text.of "action failed")) ↔
    ∃ id cause, outcome = .error (.execution id cause)
  abort : ∀ failure, answer = .error failure ↔ outcome = .error failure ∧ failure.isAbort = true

@[simp]
theorem detail_eq_detail {status other : Nat} {message text : Text} :
    Reply.detail status message = .detail other text ↔ status = other ∧ message = text := by
  simp [Reply.detail]

@[simp]
theorem broken_ne_detail (status : Nat) (message : Text) :
    Reply.broken ≠ .detail status message := nofun

@[simp]
theorem status_detail (status : Nat) (message : Text) :
    (Reply.detail status message).status = status := rfl

@[simp]
theorem status_broken : Reply.broken.status = 500 := rfl

theorem member_ne_detail (name : String) (value : Value) {status : Nat} (message : Text)
    (hstatus : status ≠ 200) : Reply.member name value ≠ .detail status message := by
  rw [Reply.member]
  split
  · simp only
    split
    · intro hsame
      exact hstatus (Reply.json.inj hsame).1.symm
    · nofun
  · exact broken_ne_detail status message

@[simp]
theorem message_ne_malformed :
    Failure.integrity.message ≠ Text.of "Malformed action reference" := by decide

@[simp]
theorem malformed_ne_message :
    Text.of "Malformed action reference" ≠ Failure.integrity.message := message_ne_malformed.symm

/-- What an invocation returns is told by its answer. -/
theorem tells_result (memory : Memory) (result : Datum) :
    Tells memory (.ok result) (answerTo memory (.ok result)) := by
  rw [answerTo]
  cases hview : memory.view result with
  | none =>
      constructor
      case result =>
        rintro _ viewed ⟨⟩ hviewed
        rw [hview] at hviewed
        cases hviewed
      case tooDeep => exact fun _ _ _ => rfl
      all_goals simp
  | some value =>
      -- the reply with the result is none that only states what happened
      have hdiffers : ∀ {status message}, status ≠ 200 →
          Reply.member "result" value ≠ .detail status message :=
        fun hstatus => member_ne_detail "result" value _ hstatus
      constructor
      case result =>
        rintro _ viewed ⟨⟩ hviewed hcarried hfits
        rw [hview] at hviewed
        cases hviewed
        simp only
        rw [member_of_carried hcarried hfits]
      case tooDeep =>
        rintro _ ⟨⟩ hdeep
        simp only
        rw [member_of_not_fits (hdeep value hview)]
      case ok => exact fun _ _ _ => ⟨result, rfl⟩
      all_goals simp [hdiffers]

/-- What an invocation fails with is told by its answer. -/
theorem tells_failure (memory : Memory) (failure : Failure) :
    Tells memory (.error failure) (answerTo memory (.error failure)) := by
  rw [answerTo]
  cases failure with
  | raised kind argument =>
      split
      · next habort => constructor <;> simp [habort]
      · next habort => constructor <;> simp [habort, replyTo]
  | _ => constructor <;> simp [Failure.isAbort, replyTo]

/-- Every outcome is told by its answer. -/
theorem tells_answerTo (memory : Memory) (outcome : Except Failure Datum) :
    Tells memory outcome (answerTo memory outcome) := by
  cases outcome with
  | ok result => exact tells_result memory result
  | error failure => exact tells_failure memory failure

/-! ## One invocation by two ways -/

section

variable {service : Service} {behaviour : Behaviour} {order : Order} {data : Value}

/-- An order that is for another action is refused before anything is done. -/
theorem fulfil_of_ne {id : Text} (hid : order.reference.id ≠ id) :
    fulfil service behaviour id order =
      .done (.ok (.detail 400 (Text.of "Reference does not match action"))) := by
  rw [fulfil, if_neg hid]

/-- An order whose wire form is read is fulfilled by the invocation in process, and a reply. -/
theorem fulfil_of_read (hdata : WireForm.ofValue? data = some order.reference)
    {reference : Reference} (hread : Reference.ofWireValue data = .ok reference) :
    fulfil service behaviour order.reference.id order =
      replied (inProcess service behaviour data order) := by
  have hwire : Reference.ofWireForm order.reference = .ok reference := by
    rw [Reference.ofWireValue, hdata] at hread
    exact hread
  have hwritten : ∀ arguments, service.runWritten behaviour data arguments =
      service.run behaviour reference arguments := by
    intro arguments
    rw [Service.runWritten, hread]
  rw [fulfil, if_pos rfl, hwire, inProcess]
  simp only [hwritten]
  rfl

/-- An order whose wire form is not read is refused without anything done, and so is its wire form
in process. -/
theorem fulfil_of_unread (hdata : WireForm.ofValue? data = some order.reference)
    {failure : Failure} (hread : Reference.ofWireValue data = .error failure) :
    fulfil service behaviour order.reference.id order = .done (.ok (replyTo failure)) ∧
      ∀ arguments, service.runWritten behaviour data arguments = .done (.error failure) := by
  obtain rfl := Reference.ofWireValue_eq_error hread
  have hwire : Reference.ofWireForm order.reference = .error (.malformed .badReference) := by
    rw [Reference.ofWireValue, hdata] at hread
    exact hread
  refine ⟨?_, fun arguments => ?_⟩
  · rw [fulfil, if_pos rfl, hwire]
    rfl
  · rw [Service.runWritten, hread]

theorem run_inProcess {host placed : Host} {arguments : List Datum}
    (hplace : (order.arguments.mapM place).perform host = (.ok arguments, placed)) :
    (inProcess service behaviour data order).run host =
      (service.runWritten behaviour data arguments).run placed := by
  rw [inProcess, Process.run_bind, Activity.ofOperation, Process.run_ofStep, hplace]

/-- An action that raises something else than an abort is answered in one way, as long as what it
raised has a written form. -/
theorem answer_of_raised (hdata : WireForm.ofValue? data = some order.reference)
    {reference : Reference} (hread : Reference.ofWireValue data = .ok reference)
    {host placed : Host} {arguments : List Datum}
    (hplace : (order.arguments.mapM place).perform host = (.ok arguments, placed))
    {implementation : Implementation} {values : List Datum} {before : Host}
    (happlies : Invocation.Applies reference arguments service.keyValue placed implementation
      values before)
    {raised : Failure} (hraised : ((behaviour implementation values).run before).1 = .error raised)
    (habort : raised.isAbort = false) :
    ((fulfil service behaviour order.reference.id order).run host).1 =
      .ok (if raised.isShowable then .detail 500 (Text.of "action failed") else .broken) := by
  obtain ⟨id, nonce, ciphertext, associated, -, rfl⟩ := Reference.ofWireValue_eq_ok hread
  have houtcome : ((inProcess service behaviour data order).run host).1 =
      .error (Failure.execution (.text id) raised).checked := by
    rw [run_inProcess hplace, Service.runWritten, hread]
    simp only [Service.run]
    rw [happlies behaviour, Invocation.conclude, hraised]
    simp only [Invocation.wrapped]
    rw [if_neg (by rw [habort]; exact Bool.false_ne_true)]
    rfl
  rw [fulfil_of_read hdata hread, run_replied, houtcome, Failure.checked, Failure.isShowable]
  have hid : (Value.text id).isShowable = true := rfl
  rw [hid, Bool.true_and]
  cases raised.isShowable with
  | true => rfl
  | false => rfl

end

/-- A request that comes through is answered like the invocation in process. One for another action
is refused with nothing done. Otherwise the same calls are made, since the endpoint goes through the
same process, and the answer tells the outcome. Whatever an action raises, short of an abort, is
answered in the same way where it has a written form. -/
theorem respond_agrees {request : Request} {id : Text} {order : Order}
    (hreaches : request.Reaches id order) (service : Service) :
    (∃ entries data, contentOf request.contentType request.body = .value (.dict entries) ∧
      WireForm.member? entries "reference" = some data ∧
        WireForm.ofValue? data = some order.reference) ∧
    (order.reference.id ≠ id → ∀ behaviour, respond service behaviour request =
      .done (.ok (.detail 400 (Text.of "Reference does not match action")))) ∧
    (order.reference.id = id → ∀ data, WireForm.ofValue? data = some order.reference →
      (∀ reference, Reference.ofWireValue data = .ok reference → ∀ behaviour,
        respond service behaviour request = replied (inProcess service behaviour data order)) ∧
      (∀ failure, Reference.ofWireValue data = .error failure → ∀ behaviour,
        respond service behaviour request = .done (.ok (replyTo failure)) ∧
          ∀ arguments, service.runWritten behaviour data arguments = .done (.error failure)) ∧
      (∀ behaviour host outcome ended answer finished,
        (inProcess service behaviour data order).run host = (outcome, ended) →
          (respond service behaviour request).run host = (answer, finished) →
            Tells ended.memory outcome answer ∧
              finished = { ended with memory := finished.memory }) ∧
      (∀ reference, Reference.ofWireValue data = .ok reference →
        ∀ host arguments placed,
          (order.arguments.mapM place).perform host = (.ok arguments, placed) →
          ∀ implementation values before,
            Invocation.Applies reference arguments service.keyValue placed implementation values
              before →
          ∀ (behaviour : Behaviour) raised,
            ((behaviour implementation values).run before).1 = .error raised →
              raised.isAbort = false →
                ((respond service behaviour request).run host).1 =
                  .ok (if raised.isShowable then .detail 500 (Text.of "action failed")
                    else .broken))) := by
  have hrespond := respond_of_reaches hreaches service
  refine ⟨?_, ?_, ?_⟩
  · obtain ⟨content, hcontent, horder⟩ := hreaches.content
    obtain ⟨entries, data, rfl, hmember, hdata⟩ := reference_of_orderOf horder
    exact ⟨entries, data, hcontent, hmember, hdata⟩
  · intro hid behaviour
    rw [hrespond, fulfil_of_ne hid]
  rintro rfl data hdata
  refine ⟨?_, ?_, ?_, ?_⟩
  · intro reference hread behaviour
    rw [hrespond, fulfil_of_read hdata hread]
  · intro failure hread behaviour
    rw [hrespond]
    exact fulfil_of_unread hdata hread
  · intro behaviour host outcome ended answer finished hrun hanswer
    rw [hrespond] at hanswer
    cases hread : Reference.ofWireValue data with
    | ok reference =>
        rw [fulfil_of_read hdata hread, run_replied, hrun] at hanswer
        cases hanswer
        exact ⟨tells_answerTo _ _, rfl⟩
    | error failure =>
        obtain ⟨hfulfil, hwritten⟩ := fulfil_of_unread hdata hread
        rw [hfulfil] at hanswer
        cases hanswer
        rw [run_inProcess (perform_placeAll _ _), hwritten] at hrun
        cases hrun
        obtain rfl := Reference.ofWireValue_eq_error hread
        exact ⟨tells_failure _ _, rfl⟩
  · intro reference hread host arguments placed hplace implementation values before happlies
      behaviour raised hraised habort
    rw [hrespond]
    exact answer_of_raised hdata hread hplace happlies hraised habort

/-- Whether a body holds a wire form and no arguments. -/
def Request.offers (request : Request) (wire : WireForm) : Bool :=
  match contentOf request.contentType request.body with
  | .value content =>
    match orderOf content with
    | .ok ⟨reference, []⟩ => decide (reference = wire)
    | _ => false
  | _ => false

theorem reaches_of_offers {request : Request} {id : Text} {wire : WireForm}
    (hroute : Route.ofPath? request.path = some (.action id))
    (hmethod : request.method = Text.of "POST") (hoffers : request.offers wire = true) :
    request.Reaches id ⟨wire, []⟩ := by
  refine ⟨hroute, hmethod, ?_⟩
  rw [Request.offers] at hoffers
  split at hoffers
  · next content hcontent =>
      split at hoffers
      · next reference horder =>
          obtain rfl := of_decide_eq_true hoffers
          exact ⟨content, hcontent, horder⟩
      · cases hoffers
  · cases hoffers

/-- The ciphertext of no values for the sample action, under the key of zeros. -/
def sampleCiphertext : Octets :=
  Aead.encrypt Reference.sampleKey.octets (List.replicate 24 0) [0x70, 0x61, 0x79] [0x5B, 0x5D]

/-- The wire form of a reference to the sample action that is bound to no values. -/
def sampleWire : WireForm :=
  ⟨Text.of "pay", Base64.encode .urlSafe (List.replicate 24 0),
    Base64.encode .urlSafe sampleCiphertext⟩

/-- A request to invoke the sample action without arguments. -/
def sampleRequest : Request :=
  ⟨Text.of "POST", Text.of "/actions/pay", Text.of "application/json", Snapshot.asciiOctets
    (Text.of "\x7b\"reference\":\x7b\"id\":\"" ++ sampleWire.id ++
      Text.of "\",\"nonce\":\"" ++ sampleWire.nonce ++
      Text.of "\",\"payload\":\"" ++ sampleWire.payload ++ Text.of "\"\x7d\x7d")⟩

theorem reaches_sample : sampleRequest.Reaches sampleWire.id ⟨sampleWire, []⟩ :=
  reaches_of_offers rfl rfl (by decide +kernel)

/-- What the wire form in the sample request holds. -/
def sampleData : Value :=
  WireForm.toValue (.text sampleWire.id) sampleWire.nonce sampleWire.payload

theorem ofValue?_sampleData : WireForm.ofValue? sampleData =
    some sampleWire :=
  WireForm.ofValue?_toValue rfl (WireForm.field?_encode (by decide))
    (WireForm.field?_encode (Aead.encrypt_ne_nil _ _ _ _))

theorem ofWireValue_sampleData : Reference.ofWireValue sampleData =
    .ok (.ofEnvelope (Value.ofString "pay")
      ⟨Value.ofString "pay", List.replicate 24 0, sampleCiphertext⟩) := by
  have hwritten : (Reference.ofEnvelope (Value.ofString "pay")
      ⟨Value.ofString "pay", List.replicate 24 0, sampleCiphertext⟩).wireForm =
        .ok sampleData := rfl
  exact Reference.ofWireValue_wireForm (by decide) rfl (by decide) (Aead.encrypt_ne_nil _ _ _ _)
    hwritten

theorem respond_agrees_sample :
    sampleRequest.Reaches sampleWire.id ⟨sampleWire, []⟩ ∧
      ∀ behaviour, respond .sample behaviour sampleRequest =
        replied (inProcess .sample behaviour sampleData ⟨sampleWire, []⟩) := by
  obtain ⟨-, -, hagrees⟩ := respond_agrees reaches_sample .sample
  obtain ⟨hcalls, -⟩ := hagrees rfl sampleData ofValue?_sampleData
  exact ⟨reaches_sample, hcalls _ ofWireValue_sampleData⟩

/-- Two actions that fail, one of them with what has no written form, are not answered alike. -/
theorem failures_not_always_alike :
    ¬ ∀ (service : Service) (request : Request) (id : Text) (order : Order) (host : Host)
        (first second : Failure), request.Reaches id order → order.reference.id = id →
      first.isAbort = false → second.isAbort = false →
        ((respond service (fun _ _ => .done (.error first)) request).run host).1 =
          ((respond service (fun _ _ => .done (.error second)) request).run host).1 := by
  intro hclaim
  have hassociated : Utf8.encode (Text.of "pay") = .ok [0x70, 0x61, 0x79] := rfl
  have hdecode : Snapshot.decode [0x5B, 0x5D] = .ok [] := rfl
  have hlookup : Session.sample.host.roster.implementationOf (Value.ofString "pay") =
      .ok .sample := rfl
  have hnonce : (List.replicate 24 0 : Octets).length = Aead.nonceLength := rfl
  have hrecover := Reference.perform_recover_encrypt Reference.sampleKey hassociated hnonce hdecode
    (Value.ofString "pay") Session.sample.host
  have happlies : Invocation.Applies (.ofEnvelope (Value.ofString "pay")
      ⟨Value.ofString "pay", List.replicate 24 0, sampleCiphertext⟩) [] Service.sample.keyValue
        Session.sample.host .sample _ _ := Invocation.applies_of_lookup hrecover hlookup
  have hplace : (([] : List Value).mapM place).perform Session.sample.host =
      (.ok [], Session.sample.host) := perform_pure _ _
  have hanswer : ∀ failure : Failure, failure.isAbort = false →
      ((respond .sample (fun _ _ => .done (.error failure)) sampleRequest).run
        Session.sample.host).1 =
          .ok (if failure.isShowable then .detail 500 (Text.of "action failed") else .broken) := by
    intro failure habort
    rw [respond_of_reaches reaches_sample]
    exact @answer_of_raised .sample _ ⟨sampleWire, []⟩ _ ofValue?_sampleData _
      ofWireValue_sampleData _ _ _ hplace _ _ _ happlies _ rfl habort
  have hsame := hclaim .sample sampleRequest _ _ Session.sample.host (.raised "ValueError" .null)
    (.raised "ValueError" (.int digitLimit)) reaches_sample rfl rfl rfl
  have hunshowable : (Failure.raised "ValueError" (.int digitLimit)).isShowable = false := by
    rw [Failure.isShowable, Value.isShowable, Int.natAbs_natCast]
    exact decide_eq_false (Nat.lt_irrefl _)
  rw [hanswer _ rfl, hanswer _ rfl, hunshowable] at hsame
  cases hsame

end SealedCall.Endpoint
