import SealedCall.Proofs.Concurrency.Invocation
import SealedCall.Proofs.Endpoint
import SealedCall.Proofs.KeyText
import SealedCall.Proofs.RosterGrowth
import SealedCall.Proofs.TrustBoundary

/-! # What one transaction adds to the log

A transaction with the mechanism adds at most one record of its own to the log. Which one is settled
by the kind of the transaction and of its ending, by the id that it is about, and, for an enrolment
that adds something, by the name under which it does so.
-/

namespace SealedCall

open Operation

/-- How a transaction ends. -/
inductive Ending
  | success
  | duplicate
  | badNonce
  | unverified
  | malformed
  | unknown
  | actionFailed
  | other
deriving DecidableEq

/-- Why a reference fails for its integrity: its nonce does not have the right length, or else it
does not verify. -/
def Reference.refusal (reference : Reference) : Ending :=
  if reference.envelope.all fun envelope => envelope.nonce.length = Aead.nonceLength then
    .unverified
  else .badNonce

namespace Ending

variable {α : Type}

/-- How something ends that fails, apart from failures for integrity. -/
def ofFailure : Failure → Ending
  | .duplicateAction _ => .duplicate
  | .malformed _ => .malformed
  | .unknownAction _ => .unknown
  | _ => .other

/-- How it ends when a reference is not opened. -/
def refused (reference : Reference) : Failure → Ending
  | .integrity => reference.refusal
  | failure => ofFailure failure

/-- How something ends that opens no reference. -/
def of : Except Failure α → Ending
  | .ok _ => .success
  | .error failure => ofFailure failure

/-- How it ends to open a reference. -/
def opening (reference : Reference) : Except Failure α → Ending
  | .ok _ => .success
  | .error failure => refused reference failure

/-- How an invocation ends by what its implementation comes to. The action has failed when the
implementation raises anything but an abort, and also when there are no words for what it raises. -/
def applied : Except Failure α → Ending
  | .ok _ => .success
  | .error failure => if failure.isAbort then .other else .actionFailed

/-- How a request ends by the answer to it. -/
def ofAnswer : Except Failure Endpoint.Reply → Ending
  | .ok reply => if reply.status = 200 then .success else .other
  | .error _ => .other

/-- How a request ends whose invocation ended in some way. A result may be without an answer. -/
def answered (answer : Except Failure Endpoint.Reply) : Ending → Ending
  | .success => ofAnswer answer
  | ending => ending

/-- Whether an ending is told under the id of the reference that was opened. -/
def isTold : Ending → Bool
  | .badNonce | .unverified | .actionFailed => true
  | _ => false

/-- The log records of an opened reference under an id. -/
def records (id : Value) : Ending → List LogRecord
  | .badNonce =>
    [⟨.warning, .envelope, Text.of "Rejected sealed payload for " ++ id.plain ++ Text.of ": " ++
      Text.of "bad nonce length"⟩]
  | .unverified =>
    [⟨.warning, .envelope, Text.of "Rejected sealed payload for " ++ id.plain ++ Text.of ": " ++
      Text.of "integrity check failed"⟩]
  | .actionFailed =>
    [⟨.error, .invocation, Text.of "Action " ++ id.plain ++ Text.of " raised"⟩]
  | _ => []

theorem records_of_not_isTold (id : Value) {ending : Ending} (htold : ending.isTold = false) :
    ending.records id = [] := by
  cases ending with
  | badNonce => cases htold
  | unverified => cases htold
  | actionFailed => cases htold
  | _ => rfl

theorem isTold_ofFailure (failure : Failure) : (ofFailure failure).isTold = false := by
  cases failure <;> rfl

theorem isTold_of (outcome : Except Failure α) : (of outcome).isTold = false := by
  cases outcome with
  | ok value => rfl
  | error failure => exact isTold_ofFailure failure

theorem isTold_ofAnswer (answer : Except Failure Endpoint.Reply) :
    (ofAnswer answer).isTold = false := by
  cases answer with
  | error failure => rfl
  | ok reply =>
      rw [ofAnswer]
      split
      · rfl
      · rfl

theorem isTold_opening (reference : Reference) {outcome : Except Failure α}
    (hother : outcome ≠ .error .integrity) : (opening reference outcome).isTold = false := by
  cases outcome with
  | ok value => rfl
  | error failure =>
      cases failure with
      | integrity => exact absurd rfl hother
      | _ => rfl

/-- Whatever a request is answered, the log tells how its invocation ended. -/
theorem records_answered (id : Value) (answer : Except Failure Endpoint.Reply) (ending : Ending) :
    (ending.answered answer).records id = ending.records id := by
  cases ending with
  | success => exact records_of_not_isTold id (isTold_ofAnswer answer)
  | _ => rfl

end Ending

/-- Whether an ending is the one that the outcome of an invocation under an id shows. -/
structure Ending.Shown (id : Value) (ending : Ending) (outcome : Except Failure Datum) : Prop where
  success : ending = .success ↔ ∃ result, outcome = .ok result
  integrity : ending = .badNonce ∨ ending = .unverified ↔ outcome = .error .integrity
  malformed : ending = .malformed ↔ ∃ cause, outcome = .error (.malformed cause)
  unknown : ending = .unknown ↔ ∃ id, outcome = .error (.unknownAction id)
  execution : ∀ id cause, outcome = .error (.execution id cause) → ending = .actionFailed
  raised : ending = .actionFailed → ∃ raised : Failure, raised.isAbort = false ∧
    outcome = .error (Failure.execution id raised).checked

/-! ## What leaves the log alone -/

/-- Whether the log and the roster are what they were. -/
structure Aside (host later : Host) : Prop where
  log : later.log = host.log
  roster : later.roster = host.roster

theorem aside_silent : Silent Aside where
  refl _ := ⟨rfl, rfl⟩
  trans hfirst hsecond :=
    ⟨hsecond.log.trans hfirst.log, hsecond.roster.trans hfirst.roster⟩
  place _ _ := ⟨rfl, rfl⟩
  draw _ _ := ⟨rfl, rfl⟩

/-! ## Opening a reference -/

/-- Whether something can fail in this way before an implementation runs. -/
def Failure.precedes : Failure → Bool
  | .integrity | .malformed _ | .unknownAction _ | .keyMaterial _ | .misuse _ | .tooDeep => true
  | .duplicateAction _ | .execution _ _ | .raised _ _ => false

/-- Whether the opening of a reference, and what comes after it before an implementation runs, adds
no record to the log but the one that tells how it ended. -/
structure Reference.Told {α : Type} (reference : Reference) (host : Host)
    (outcome : Except Failure α) (after : Host) : Prop where
  roster : after.roster = host.roster
  log : after.log = host.log ++ (Ending.opening reference outcome).records reference.id
  failure : ∀ failure, outcome = .error failure → failure.precedes = true

theorem Key.ofValue_eq_error {key : Value} {failure : Failure}
    (hkey : Key.ofValue key = .error failure) : failure = .keyMaterial .wrongLength := by
  cases key with
  | bytes octets => exact ofOctets_error hkey
  | byteArray octets => exact ofOctets_error hkey
  | _ =>
      cases hkey
      rfl

namespace Envelope

theorem idOctets_eq_error {id : Value} {failure : Failure} (hid : idOctets id = .error failure) :
    ∃ misuse, failure = .misuse misuse := by
  cases id with
  | text t =>
      rw [idOctets, ActionId.octets] at hid
      split at hid
      · cases hid
      · cases hid
        exact ⟨_, rfl⟩
  | _ =>
      cases hid
      exact ⟨_, rfl⟩

/-- An envelope that is refused for its integrity is noted with the reason, and no other that is
not opened leaves anything on the host. -/
theorem host_of_openWith_eq_error {envelope : Envelope} {key : Key} {host later : Host}
    {failure : Failure} (hopen : (envelope.openWith key).perform host = (.error failure, later)) :
    failure = .integrity ∧ later = ((noteRefusal envelope.id
        (if envelope.nonce.length = Aead.nonceLength then "integrity check failed"
          else "bad nonce length")).perform host).2 ∨
      (failure ≠ .integrity ∧ failure.precedes = true) ∧ later = host := by
  rw [perform_openWith] at hopen
  split at hopen
  · next hnonce =>
      rw [if_pos hnonce]
      split at hopen
      · next hid =>
          cases hopen
          obtain ⟨misuse, rfl⟩ := idOctets_eq_error hid
          exact .inr ⟨⟨by simp, rfl⟩, rfl⟩
      · split at hopen
        · obtain ⟨hdecode, rfl⟩ := Prod.mk.inj hopen
          rcases Snapshot.decode_eq_error hdecode with ⟨cause, rfl⟩ | rfl
          · exact .inr ⟨⟨by simp, rfl⟩, rfl⟩
          · exact .inr ⟨⟨by simp, rfl⟩, rfl⟩
        · cases hopen
          exact .inr ⟨⟨by simp, rfl⟩, rfl⟩
        · cases hopen
          exact .inl ⟨rfl, rfl⟩
  · next hnonce =>
      rw [if_neg hnonce]
      cases hopen
      exact .inl ⟨rfl, rfl⟩

end Envelope

namespace Reference

variable {α : Type} {reference : Reference} {key : Value} {host after : Host}
  {outcome : Except Failure (List Datum)}

/-- A sealed reference is not opened with what is no key. -/
theorem perform_recover_of_no_key {envelope : Envelope} {failure : Failure}
    (hsealed : reference.envelope = some envelope) (hkey : Key.ofValue key = .error failure)
    (host : Host) :
    ∃ cause, (reference.recover key).perform host = (.error (.keyMaterial cause), host) := by
  obtain rfl := Key.ofValue_eq_error hkey
  rw [recover, hsealed]
  cases key with
  | null => exact ⟨_, rfl⟩
  | _ =>
      refine ⟨.wrongLength, ?_⟩
      simp only
      rw [Envelope.openUnder, perform_bind, hkey]
      rfl

/-- What leaves the log alone and does not fail for integrity is not told. -/
theorem told_of_aside {outcome : Except Failure α} (haside : Aside host after)
    (hfailure : ∀ failure, outcome = .error failure →
      failure ≠ .integrity ∧ failure.precedes = true) : Told reference host outcome after where
  roster := haside.roster
  log := by
    have hother : outcome ≠ .error .integrity := fun hintegrity => (hfailure _ hintegrity).1 rfl
    rw [Ending.records_of_not_isTold _ (Ending.isTold_opening reference hother), List.append_nil,
      haside.log]
  failure failure houtcome := (hfailure failure houtcome).2

theorem told_recover_open (hopen : reference.envelope = none)
    (hrecover : (reference.recover key).perform host = (outcome, after)) :
    Told reference host outcome after := by
  rw [recover, hopen] at hrecover
  simp only at hrecover
  have haside := respects_recover_open aside_silent.toPlacing reference host
  rw [hrecover] at haside
  refine told_of_aside haside ?_
  rintro failure rfl
  rw [heldSnapshot, perform_bind, perform_bind, perform_get] at hrecover
  simp only [perform_pure] at hrecover
  rw [perform_bind, perform_spread] at hrecover
  cases hitems : host.memory.items?
      (if host.memory.isTruthy reference.snapshot then reference.snapshot else .tuple []) with
  | none =>
      rw [hitems] at hrecover
      cases hrecover
      exact ⟨by simp, rfl⟩
  | some items =>
      rw [hitems] at hrecover
      cases freeze_eq_error hrecover
      exact ⟨by simp, rfl⟩

theorem told_recover_sealed {envelope : Envelope} {sealing : Key}
    (hsealed : reference.envelope = some envelope) (hkey : Key.ofValue key = .ok sealing)
    (hrecover : (reference.recover key).perform host = (outcome, after)) :
    Told reference host outcome after := by
  rw [recover_eq_openWith hsealed hkey, perform_bind] at hrecover
  split at hrecover
  · next values opened hopen =>
      obtain rfl := Envelope.host_of_openWith hopen
      rw [perform_placeAll] at hrecover
      cases hrecover
      exact told_of_aside ⟨rfl, rfl⟩ nofun
  · next failure opened hopen =>
      cases hrecover
      rcases Envelope.host_of_openWith_eq_error hopen with ⟨rfl, rfl⟩ | ⟨hother, rfl⟩
      · refine ⟨rfl, ?_, fun _ hfailure => by cases hfailure; rfl⟩
        rw [Ending.opening, Ending.refused, refusal, hsealed]
        by_cases hnonce : envelope.nonce.length = Aead.nonceLength
        · simp [effectiveEnvelope, Envelope.noteRefusal, Ending.records, hnonce]
        · simp [effectiveEnvelope, Envelope.noteRefusal, Ending.records, hnonce]
      · refine told_of_aside (aside_silent.refl _) ?_
        rintro _ ⟨⟩
        exact hother

/-- Opening a reference is told where its integrity is at fault, and adds no record otherwise. -/
theorem told_recover (hrecover : (reference.recover key).perform host = (outcome, after)) :
    Told reference host outcome after := by
  cases hsealed : reference.envelope with
  | none => exact told_recover_open hsealed hrecover
  | some envelope =>
      cases hkey : Key.ofValue key with
      | ok sealing => exact told_recover_sealed hsealed hkey hrecover
      | error failure =>
          obtain ⟨cause, hperform⟩ := perform_recover_of_no_key hsealed hkey host
          cases hperform.symm.trans hrecover
          refine told_of_aside (aside_silent.refl host) ?_
          rintro _ ⟨⟩
          exact ⟨by simp, rfl⟩

end Reference

/-! ## Invocations -/

/-- An implementation that is applied to values, and the host on which it starts. -/
structure Application where
  implementation : Implementation
  values : List Datum
  start : Host

/-- What an applied implementation comes to. -/
def Application.run (application : Application) (behaviour : Behaviour) :
    Except Failure Datum × Host :=
  (behaviour application.implementation application.values).run application.start

/-- An invocation and the host on which it starts. -/
structure Invoked where
  reference : Reference
  arguments : List Datum
  key : Value
  start : Host

/-- A failure that cannot be written down gives way to the one that says so. -/
theorem Failure.checked_cases (failure : Failure) :
    failure.checked = failure ∨ failure.checked = .misuse .tooManyDigits := by
  rw [checked]
  by_cases hshowable : failure.isShowable
  · exact .inl (if_pos hshowable)
  · exact .inr (if_neg hshowable)

theorem Roster.precedes_of_implementationOf {roster : Roster} {id : Value} {failure : Failure}
    (hlookup : roster.implementationOf id = .error failure) :
    failure ≠ .integrity ∧ failure.precedes = true := by
  cases hpart : id.unhashablePart? with
  | some typeName =>
      obtain rfl := (implementationOf_eq_error hlookup).2 typeName hpart
      exact ⟨by simp, rfl⟩
  | none =>
      obtain ⟨found, hfound⟩ : ∃ found, roster.lookup id = .ok found := lookup_of_hashable hpart
      rw [implementationOf, entry, hfound] at hlookup
      cases found with
      | some held => cases hlookup
      | none =>
          cases hlookup
          rw [unknown]
          rcases (Failure.unknownAction id).checked_cases with hchecked | hchecked
          · rw [hchecked]
            exact ⟨by simp, rfl⟩
          · rw [hchecked]
            exact ⟨by simp, rfl⟩

namespace Ending

theorem shown_refused {reference : Reference} (id : Value) {failure : Failure}
    (hprecedes : failure.precedes = true) :
    (refused reference failure).Shown id (.error failure) := by
  cases failure with
  | integrity =>
      have hrefusal : reference.refusal = .unverified ∨ reference.refusal = .badNonce := by
        rw [Reference.refusal]
        split
        · exact .inl rfl
        · exact .inr rfl
      rcases hrefusal with hrefusal | hrefusal
      · constructor <;> simp [refused, hrefusal]
      · constructor <;> simp [refused, hrefusal]
  | duplicateAction id => cases hprecedes
  | execution id cause => cases hprecedes
  | raised kind argument => cases hprecedes
  | _ => constructor <;> simp [refused, ofFailure]

theorem shown_applied (id : Value) (outcome : Except Failure Datum) :
    (applied outcome).Shown id (Invocation.wrapped id outcome) := by
  cases outcome with
  | ok result => constructor <;> simp [applied, Invocation.wrapped]
  | error failure =>
      rw [applied, Invocation.wrapped]
      by_cases habort : failure.isAbort
      · rw [if_pos habort, if_pos habort]
        cases failure with
        | raised kind argument => constructor <;> simp
        | _ => cases habort
      · rw [if_neg habort, if_neg habort]
        have hraised : ∃ raised : Failure, raised.isAbort = false ∧
            (Except.error (Failure.execution id failure).checked : Except Failure Datum) =
              .error (Failure.execution id raised).checked :=
          ⟨failure, Bool.eq_false_iff.mpr habort, rfl⟩
        refine ⟨?_, ?_, ?_, ?_, fun _ _ _ => rfl, fun _ => hraised⟩
        all_goals
          rcases (Failure.execution id failure).checked_cases with hchecked | hchecked
          · simp [hchecked]
          · simp [hchecked]

end Ending

namespace Invoked

variable (invoked : Invoked) (behaviour : Behaviour)

/-- What comes before the implementation runs. -/
def prepared : Except Failure (List Datum × Implementation) × Host :=
  (Invocation.prepare invoked.reference invoked.key).perform invoked.start

/-- The application that an invocation comes to, unless it is turned away. -/
def application? : Option Application :=
  match invoked.prepared with
  | (.ok (recovered, implementation), before) =>
    some ⟨implementation, recovered ++ invoked.arguments, before⟩
  | (.error _, _) => none

def run : Except Failure Datum × Host :=
  (Invocation.run behaviour invoked.reference invoked.arguments invoked.key).run invoked.start

def ending : Ending :=
  match invoked.application? with
  | some application => .applied (application.run behaviour).1
  | none => .opening invoked.reference invoked.prepared.1

variable {invoked}

/-- What comes before the implementation leaves the log alone where it leads to one, and is told
like the opening of the reference otherwise. -/
theorem told_prepared {outcome : Except Failure (List Datum × Implementation)} {before : Host}
    (hprepared : invoked.prepared = (outcome, before)) :
    invoked.reference.Told invoked.start outcome before := by
  rw [prepared, Invocation.perform_prepare] at hprepared
  split at hprepared
  · next recovered after hrecover =>
      have htold := Reference.told_recover hrecover
      obtain ⟨houtcome, rfl⟩ := Prod.mk.inj hprepared
      refine Reference.told_of_aside ⟨htold.log.trans (List.append_nil _), htold.roster⟩ ?_
      rintro failure rfl
      cases hlookup : after.roster.implementationOf invoked.reference.id with
      | ok implementation =>
          rw [hlookup] at houtcome
          cases houtcome
      | error refused =>
          rw [hlookup] at houtcome
          cases houtcome
          exact Roster.precedes_of_implementationOf hlookup
  · next failure after hrecover =>
      obtain ⟨hroster, hlog, hfailure⟩ := Reference.told_recover hrecover
      cases hprepared
      refine ⟨hroster, hlog, ?_⟩
      rintro _ ⟨⟩
      exact hfailure _ rfl

/-- An invocation that is turned away is told like the opening of its reference. -/
theorem told_of_turned (hturned : invoked.application? = none) :
    (invoked.run behaviour).2.roster = invoked.start.roster ∧
      (invoked.run behaviour).2.log = invoked.start.log ++
        (invoked.ending behaviour).records invoked.reference.id := by
  rw [ending, hturned]
  rw [application?] at hturned
  split at hturned
  · cases hturned
  · next failure before hprepared =>
      obtain ⟨hroster, hlog, -⟩ := told_prepared hprepared
      rw [prepared] at hprepared ⊢
      rw [run, Invocation.run_of_prepare, hprepared]
      exact ⟨hroster, hlog⟩

/-- An invocation that applies an implementation leaves the log alone before, and adds one record
after it where the action has failed. -/
theorem told_of_applied {application : Application}
    (happlied : invoked.application? = some application) :
    Aside invoked.start application.start ∧
      (invoked.run behaviour).2.roster = (application.run behaviour).2.roster ∧
      (invoked.run behaviour).2.log = (application.run behaviour).2.log ++
        (invoked.ending behaviour).records invoked.reference.id := by
  rw [ending, happlied]
  rw [application?] at happlied
  split at happlied
  · next recovered implementation before hprepared =>
      cases happlied
      obtain ⟨hroster, hlog, -⟩ := told_prepared hprepared
      refine ⟨⟨hlog.trans (List.append_nil _), hroster⟩, ?_⟩
      rw [prepared] at hprepared
      rw [run, Invocation.run_of_prepare, hprepared]
      simp only [Invocation.conclude, Invocation.spanEnded, Application.run]
      cases ((behaviour implementation (recovered ++ invoked.arguments)).run before).1 with
      | ok result => exact ⟨rfl, (List.append_nil _).symm⟩
      | error failure =>
          rw [Invocation.noted, Ending.applied]
          split
          · exact ⟨rfl, (List.append_nil _).symm⟩
          · exact ⟨rfl, rfl⟩
  · cases happlied

/-- How an invocation ends is what its outcome shows, apart from two things that are not seen from
outside: why a reference fails for its integrity, and that an action has failed where there are no
words for what it raised. -/
theorem ending_shown (invoked : Invoked) (behaviour : Behaviour) :
    (invoked.ending behaviour).Shown invoked.reference.id (invoked.run behaviour).1 := by
  rw [ending, application?, run, Invocation.run_of_prepare]
  rw [← prepared]
  cases hprepared : invoked.prepared with
  | mk outcome before =>
      have hfailure := (told_prepared hprepared).failure
      cases outcome with
      | ok found =>
          obtain ⟨recovered, implementation⟩ := found
          exact Ending.shown_applied _ _
      | error failure => exact Ending.shown_refused _ (hfailure failure rfl)

end Invoked

/-! ## Requests -/

namespace Endpoint

/-- The order of a request that comes through to the invocation of the action in its path. -/
def Request.order? (request : Request) : Option Order :=
  match Route.ofPath? request.path with
  | some (.action id) =>
    if request.method = Text.of "POST" then
      match contentOf request.contentType request.body with
      | .value content =>
        match orderOf content with
        | .ok order => if order.reference.id = id then some order else none
        | .error _ => none
      | _ => none
    else none
  | _ => none

variable {request : Request} {order : Order}

theorem reaches_of_order? (horder : request.order? = some order) :
    request.Reaches order.reference.id order := by
  rw [Request.order?] at horder
  split at horder
  · next id hroute =>
      split at horder
      · next hmethod =>
          split at horder
          · next content hcontent =>
              split at horder
              · next read hread =>
                  split at horder
                  · next hid =>
                      cases horder
                      exact ⟨by rw [hroute, hid], hmethod, content, hcontent, hread⟩
                  · cases horder
              · cases horder
          · cases horder
      · cases horder
  · cases horder

/-- A request that does not come through changes nothing. -/
theorem host_of_no_order (hnone : request.order? = none) (service : Service)
    (behaviour : Behaviour) (host : Host) :
    ((respond service behaviour request).run host).2 = host := by
  rw [Request.order?] at hnone
  rw [respond]
  cases hroute : Route.ofPath? request.path with
  | none => rfl
  | some route =>
      rw [hroute] at hnone
      cases route with
      | list =>
          simp only
          split
          · rfl
          · rfl
      | action id =>
          simp only at hnone ⊢
          by_cases hmethod : request.method = Text.of "POST"
          · rw [if_pos hmethod] at hnone ⊢
            rw [runAction]
            cases hcontent : contentOf request.contentType request.body with
            | value content =>
                rw [hcontent] at hnone
                simp only at hnone ⊢
                cases hread : orderOf content with
                | error faults => rfl
                | ok order =>
                    rw [hread] at hnone
                    simp only at hnone ⊢
                    have hid : order.reference.id ≠ id := by
                      intro hid
                      rw [if_pos hid] at hnone
                      cases hnone
                    rw [fulfil_of_ne hid]
                    rfl
            | _ => rfl
          · rw [if_neg hmethod]
            rfl

/-- A request that comes through is fulfilled by one invocation, with copies of its arguments. -/
theorem host_of_order {reference : Reference} (horder : request.order? = some order)
    (hread : Reference.ofWireForm order.reference = .ok reference) (service : Service)
    (behaviour : Behaviour) (host : Host) :
    ((respond service behaviour request).run host).2 =
      ((service.run behaviour reference (host.copies order.arguments)).run
        (host.holding order.arguments)).2 := by
  have hreaches := reaches_of_order? horder
  obtain ⟨content, -, hcontent⟩ := hreaches.content
  obtain ⟨entries, data, -, -, hdata⟩ := reference_of_orderOf hcontent
  have hwritten : Reference.ofWireValue data = .ok reference := by
    rw [Reference.ofWireValue, hdata]
    exact hread
  rw [respond_of_reaches hreaches, fulfil_of_read hdata hwritten, run_replied,
    run_inProcess (perform_placeAll _ _), Service.runWritten, hwritten]
  rfl

/-- One whose wire form is not read is answered without anything done. -/
theorem host_of_unread_order {failure : Failure} (horder : request.order? = some order)
    (hread : Reference.ofWireForm order.reference = .error failure) (service : Service)
    (behaviour : Behaviour) (host : Host) :
    ((respond service behaviour request).run host).2 = host := by
  have hreaches := reaches_of_order? horder
  obtain ⟨content, -, hcontent⟩ := hreaches.content
  obtain ⟨entries, data, -, -, hdata⟩ := reference_of_orderOf hcontent
  have hwritten : Reference.ofWireValue data = .error failure := by
    rw [Reference.ofWireValue, hdata]
    exact hread
  rw [respond_of_reaches hreaches, (fulfil_of_unread hdata hwritten).1]
  rfl

end Endpoint

/-! ## Transactions -/

/-- What can be done with the mechanism, as far as it has a part in what is logged. -/
inductive Transaction
  | enrol (id : Value) (implementation : Implementation) (name : Value)
  | bind (handle : Handle) (data : List Datum)
  | issue (service : Service) (id : Value) (data : List Datum)
  | sealWith (reference : Reference) (key : Value)
  | recover (reference : Reference) (key : Value)
  | invoke (reference : Reference) (arguments : List Datum) (key : Value)
  | invokeWritten (service : Service) (data : Value) (arguments : List Datum)
  | respond (service : Service) (request : Endpoint.Request)

namespace Transaction

/-- The host after a transaction. -/
def after (behaviour : Behaviour) (host : Host) : Transaction → Host
  | .enrol id implementation name => ((Enrolment.enrol id implementation name).perform host).2
  | .bind handle data => ((handle.bind data).perform host).2
  | .issue service id data => ((service.issue id data).perform host).2
  | .sealWith reference key => ((reference.sealWith key).perform host).2
  | .recover reference key => ((reference.recover key).perform host).2
  | .invoke reference arguments key =>
    ((Invocation.run behaviour reference arguments key).run host).2
  | .invokeWritten service data arguments =>
    ((service.runWritten behaviour data arguments).run host).2
  | .respond service request => ((Endpoint.respond service behaviour request).run host).2

/-- The reference that is opened by a transaction, if it gets so far. -/
def opened? : Transaction → Option Reference
  | .recover reference _ | .invoke reference _ _ => some reference
  | .invokeWritten _ data _ => (Reference.ofWireValue data).toOption
  | .respond _ request =>
    request.order?.bind fun order => (Reference.ofWireForm order.reference).toOption
  | _ => none

/-- The invocation that a transaction comes down to, if it gets so far. -/
def invoked? (host : Host) : Transaction → Option Invoked
  | .invoke reference arguments key => some ⟨reference, arguments, key, host⟩
  | .invokeWritten service data arguments =>
    (Reference.ofWireValue data).toOption.map fun reference =>
      ⟨reference, arguments, service.keyValue, host⟩
  | .respond service request =>
    request.order?.bind fun order =>
      (Reference.ofWireForm order.reference).toOption.map fun reference =>
        ⟨reference, host.copies order.arguments, service.keyValue, host.holding order.arguments⟩
  | _ => none

/-- The application of an implementation that a transaction comes to, if it comes to one. -/
def application? (host : Host) (transaction : Transaction) : Option Application :=
  (transaction.invoked? host).bind Invoked.application?

/-- How a transaction ends. A request to invoke an action ends as the invocation that it comes down
to, unless that returns what cannot be answered. -/
def ending (behaviour : Behaviour) (host : Host) : Transaction → Ending
  | .enrol id implementation name =>
    .of ((Enrolment.enrol id implementation name).perform host).1
  | .bind handle data => .of ((handle.bind data).perform host).1
  | .issue service id data => .of ((service.issue id data).perform host).1
  | .sealWith reference key => .of ((reference.sealWith key).perform host).1
  | .recover reference key => .opening reference ((reference.recover key).perform host).1
  | .invoke reference arguments key =>
    Invoked.ending ⟨reference, arguments, key, host⟩ behaviour
  | .invokeWritten service data arguments =>
    match Reference.ofWireValue data with
    | .ok reference => Invoked.ending ⟨reference, arguments, service.keyValue, host⟩ behaviour
    | .error failure => .ofFailure failure
  | .respond service request =>
    let answer := ((Endpoint.respond service behaviour request).run host).1
    match request.order? with
    | none => .ofAnswer answer
    | some order =>
      match Reference.ofWireForm order.reference with
      | .ok reference =>
        (Invoked.ending ⟨reference, host.copies order.arguments, service.keyValue,
          host.holding order.arguments⟩ behaviour).answered answer
      | .error failure => .ofFailure failure

/-- Whether a transaction comes down to an invocation: it does nothing before it that is told, it
leaves what that leaves, and it opens the same reference and is told alike. -/
structure ComesDown (transaction : Transaction) (behaviour : Behaviour) (host : Host)
    (invoked : Invoked) : Prop where
  start : Aside host invoked.start
  after : transaction.after behaviour host = (invoked.run behaviour).2
  opened : transaction.opened? = some invoked.reference
  told : ∀ id, (transaction.ending behaviour host).records id =
    (invoked.ending behaviour).records id

theorem comesDown_of_invoked {transaction : Transaction} {host : Host} {invoked : Invoked}
    (hinvoked : transaction.invoked? host = some invoked) (behaviour : Behaviour) :
    transaction.ComesDown behaviour host invoked := by
  cases transaction with
  | invoke reference arguments key =>
      cases hinvoked
      exact ⟨aside_silent.refl host, rfl, rfl, fun _ => rfl⟩
  | invokeWritten service data arguments =>
      rw [invoked?] at hinvoked
      cases hread : Reference.ofWireValue data with
      | error failure =>
          rw [hread] at hinvoked
          cases hinvoked
      | ok reference =>
          rw [hread] at hinvoked
          cases hinvoked
          refine ⟨aside_silent.refl host, ?_, by rw [opened?, hread]; rfl, ?_⟩
          · rw [after, Service.runWritten, hread]
            rfl
          · intro id
            rw [ending, hread]
  | respond service request =>
      rw [invoked?] at hinvoked
      obtain ⟨order, horder, hinvoked⟩ := Option.bind_eq_some_iff.mp hinvoked
      cases hread : Reference.ofWireForm order.reference with
      | error failure =>
          rw [hread] at hinvoked
          cases hinvoked
      | ok reference =>
          rw [hread] at hinvoked
          cases hinvoked
          refine ⟨⟨rfl, rfl⟩, ?_, by rw [opened?, horder, Option.bind_some, hread]; rfl, ?_⟩
          · exact Endpoint.host_of_order horder hread service behaviour host
          · intro id
            rw [ending, horder]
            simp only
            rw [hread]
            exact Ending.records_answered _ _ _
  | _ => cases hinvoked

end Transaction

end SealedCall
