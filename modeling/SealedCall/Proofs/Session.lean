import SealedCall.Endpoint
import SealedCall.Proofs.Invocation
import SealedCall.Proofs.RosterGrowth

/-! # Sessions

A service is used by activities that are started one after the other and then take turns in any
order, each working up to its next pause. An activity is orderly when it touches the roster by
enrolment alone. Everything that can be done with a service is, as long as the implementations and
whatever else the service calls are, and so over a whole session the roster only grows.
-/

namespace SealedCall

open Operation

namespace Activity

variable {α β : Type}

/-- Whether an activity touches the roster by enrolment alone, wherever it pauses. -/
def Orderly (activity : Activity α) : Prop := ∀ host, activity.Keeps Grown host

/-- An activity without its outcome. -/
def silent (activity : Activity α) : Activity Unit := activity.andThen fun _ => .done (.ok ())

theorem orderly_done (outcome : Except Failure α) : Orderly (.done outcome) := fun _ => True.intro

theorem orderly_ofOperation {operation : Operation α} (hoperation : Respects Grown operation) :
    Orderly (ofOperation operation) :=
  fun host => Process.keeps_ofStep (hoperation host)

theorem orderly_ofOperation_same {operation : Operation α}
    (hoperation : Respects SameRoster operation) : Orderly (ofOperation operation) :=
  orderly_ofOperation (hoperation.mono grown_of_sameRoster)

theorem orderly_andThen {activity : Activity α} {next : Except Failure α → Activity β}
    (hactivity : activity.Orderly) (hnext : ∀ outcome, (next outcome).Orderly) :
    Orderly (activity.andThen next) :=
  fun host => Process.keeps_andThen (hactivity host) hnext

theorem orderly_bind {activity : Activity α} {next : α → Activity β}
    (hactivity : activity.Orderly) (hnext : ∀ value, (next value).Orderly) :
    Orderly (activity.bind next) :=
  fun host => Process.keeps_bind (hactivity host) hnext

theorem orderly_silent {activity : Activity α} (hactivity : activity.Orderly) :
    activity.silent.Orderly :=
  orderly_andThen hactivity fun _ => orderly_done _

end Activity

open Activity

/-- Whether all implementations touch the roster by enrolment alone. -/
def Behaviour.Orderly (behaviour : Behaviour) : Prop :=
  ∀ implementation arguments, Activity.Orderly (behaviour implementation arguments)

/-- What can be done with a service. What it has no part in may change everything but the roster. -/
inductive Deed
  | enrol (id : Value) (implementation : Implementation) (name : Value)
  | declare (id name : Value) (implementation : Implementation)
  | issue (id : Value) (data : List Datum)
  | bind (handle : Handle) (data : List Datum)
  | evaluate (deferred : DeferredBind) (hvalues : Respects Grown deferred.values)
  | sealWith (reference : Reference) (key : Value)
  | recover (reference : Reference) (key : Value)
  | invoke (reference : Reference) (arguments : List Datum)
  | invokeWritten (data : Value) (arguments : List Datum)
  | respond (request : Endpoint.Request)
  | assign (name : Text) (datum : Datum)
  | append (datum item : Datum)
  | put (datum : Datum) (key : Value) (item : Datum)
  | increase (name : Text) (amount : Datum)
  | elsewhere (change : Host → Host) (hroster : ∀ host, (change host).roster = host.roster)

/-- What is done on the host. -/
def Deed.activity (service : Service) (behaviour : Behaviour) : Deed → Activity Unit
  | .enrol id implementation name => (ofOperation (Enrolment.enrol id implementation name)).silent
  | .declare id name implementation =>
    (ofOperation (Enrolment.declare id name implementation)).silent
  | .issue id data => (ofOperation (service.issue id data)).silent
  | .bind handle data => (ofOperation (handle.bind data)).silent
  | .evaluate deferred _ => (ofOperation deferred.evaluate).silent
  | .sealWith reference key => (ofOperation (reference.sealWith key)).silent
  | .recover reference key => (ofOperation (reference.recover key)).silent
  | .invoke reference arguments => (service.run behaviour reference arguments).silent
  | .invokeWritten data arguments => (service.runWritten behaviour data arguments).silent
  | .respond request => (Endpoint.respond service behaviour request).silent
  | .assign name datum => (ofOperation (Variables.assign name datum)).silent
  | .append datum item => ofOperation (Variables.append datum item)
  | .put datum key item => ofOperation (Variables.put datum key item)
  | .increase name amount => (ofOperation (Variables.increase name amount)).silent
  | .elsewhere change _ => ofOperation (modify change)

/-! ## Orderly activities -/

variable {service : Service} {behaviour : Behaviour}

theorem grown_evaluate {deferred : DeferredBind} (hvalues : Respects Grown deferred.values) :
    Respects Grown deferred.evaluate := by
  unfold DeferredBind.evaluate
  apply respects_bind grown_accumulates hvalues
  intro datum
  apply respects_bind grown_accumulates ((sameRoster_spread datum).mono grown_of_sameRoster)
  intro data
  apply respects_bind grown_accumulates ((sameRoster_freeze data).mono grown_of_sameRoster)
  intro snapshot
  simp only
  split
  · exact (sameRoster_sealWith _ _).mono grown_of_sameRoster
  · exact respects_pure grown_accumulates _

theorem orderly_invocation (hbehaviour : behaviour.Orderly) (reference : Reference)
    (arguments : List Datum) (key : Value) :
    Orderly (Invocation.run behaviour reference arguments key) :=
  Invocation.keeps_run sameRoster_basic.toQuiet (fun _ _ => rfl) grown_of_sameRoster hbehaviour
    reference arguments key

theorem orderly_run (hbehaviour : behaviour.Orderly) (reference : Reference)
    (arguments : List Datum) : Orderly (service.run behaviour reference arguments) :=
  orderly_invocation hbehaviour reference arguments service.keyValue

theorem orderly_runWritten (hbehaviour : behaviour.Orderly) (data : Value)
    (arguments : List Datum) : Orderly (service.runWritten behaviour data arguments) := by
  unfold Service.runWritten
  split
  · exact orderly_run hbehaviour _ arguments
  · exact orderly_done _

theorem orderly_fulfil (hbehaviour : behaviour.Orderly) (id : Text) (order : Endpoint.Order) :
    Orderly (Endpoint.fulfil service behaviour id order) := by
  unfold Endpoint.fulfil
  split
  · have hplace : Orderly (ofOperation (order.arguments.mapM Operation.place)) :=
      orderly_ofOperation_same (respects_mapM sameRoster_accumulates sameRoster_place _)
    apply orderly_andThen
    · apply orderly_bind
      · split
        · exact orderly_bind hplace fun arguments => orderly_run hbehaviour _ arguments
        · exact orderly_done _
      · intro result
        exact orderly_ofOperation_same (respects_view sameRoster_accumulates result)
    · intro outcome
      cases outcome with
      | ok value => exact orderly_done _
      | error failure =>
          simp only
          split
          · exact orderly_done _
          · exact orderly_done _
  · exact orderly_done _

theorem orderly_respond (hbehaviour : behaviour.Orderly) (request : Endpoint.Request) :
    Orderly (Endpoint.respond service behaviour request) := by
  unfold Endpoint.respond
  split
  · split
    · exact fun _ => True.intro
    · exact orderly_done _
  · split
    · unfold Endpoint.runAction
      split
      · exact orderly_done _
      · exact orderly_done _
      · exact orderly_done _
      · exact orderly_done _
      · split
        · exact orderly_fulfil hbehaviour _ _
        · exact orderly_done _
    · exact orderly_done _
  · exact orderly_done _

/-- Whatever is done with a service is orderly where its implementations are. -/
theorem Deed.orderly_activity (hbehaviour : behaviour.Orderly) (deed : Deed) :
    (deed.activity service behaviour).Orderly := by
  cases deed with
  | enrol id implementation name =>
      exact orderly_silent (orderly_ofOperation (grown_enrol id implementation name))
  | declare id name implementation =>
      exact orderly_silent (orderly_ofOperation (grown_declare id name implementation))
  | issue id data => exact orderly_silent (orderly_ofOperation_same (sameRoster_issue _ id data))
  | bind handle data =>
      exact orderly_silent (orderly_ofOperation_same (sameRoster_bind handle data))
  | evaluate deferred hvalues =>
      exact orderly_silent (orderly_ofOperation (grown_evaluate hvalues))
  | sealWith reference key =>
      exact orderly_silent (orderly_ofOperation_same (sameRoster_sealWith reference key))
  | recover reference key =>
      exact orderly_silent (orderly_ofOperation_same (sameRoster_recover reference key))
  | invoke reference arguments => exact orderly_silent (orderly_run hbehaviour reference arguments)
  | invokeWritten data arguments =>
      exact orderly_silent (orderly_runWritten hbehaviour data arguments)
  | respond request => exact orderly_silent (orderly_respond hbehaviour request)
  | assign name datum =>
      exact orderly_silent (orderly_ofOperation_same (sameRoster_assign name datum))
  | append datum item => exact orderly_ofOperation_same (sameRoster_append datum item)
  | put datum key item => exact orderly_ofOperation_same (sameRoster_put datum key item)
  | increase name amount =>
      exact orderly_silent (orderly_ofOperation_same (sameRoster_increase name amount))
  | elsewhere change hroster => exact orderly_ofOperation_same (sameRoster_modify hroster)

/-! ## Sessions -/

/-- A host and what is left of the activities that were started on it. -/
structure Session where
  host : Host
  started : List (Activity Unit)

/-- What happens next: something new is started, or one of the activities goes on. -/
inductive Move
  | start (deed : Deed)
  | turn (place : Nat)

namespace Session

/-- The session after a move. Where no activity has the place, nothing happens. -/
def step (service : Service) (behaviour : Behaviour) (session : Session) : Move → Session
  | .start deed => { session with started := session.started ++ [deed.activity service behaviour] }
  | .turn place =>
    match session.started[place]? with
    | some activity =>
      let (left, host) := activity.advance session.host
      ⟨host, session.started.set place left⟩
    | none => session

/-- The session after several moves. -/
def after (service : Service) (behaviour : Behaviour) (session : Session) : List Move → Session
  | [] => session
  | move :: rest => (session.step service behaviour move).after service behaviour rest

/-- Whether everything that is still under way is orderly. -/
def Orderly (session : Session) : Prop := ∀ activity ∈ session.started, activity.Orderly

/-- A move keeps a session orderly, and the roster only grows by it. -/
theorem step_spec (hbehaviour : behaviour.Orderly) {session : Session}
    (hsession : session.Orderly) (move : Move) :
    (session.step service behaviour move).Orderly ∧
      Grown session.host (session.step service behaviour move).host := by
  cases move with
  | start deed =>
      refine ⟨fun activity hmem => ?_, .same _⟩
      rcases List.mem_append.mp hmem with hmem | hmem
      · exact hsession activity hmem
      · rw [List.mem_singleton.mp hmem]
        exact deed.orderly_activity hbehaviour
  | turn place =>
      rw [step]
      split
      · next activity hactivity =>
          have horderly := hsession activity (List.mem_of_getElem? hactivity)
          obtain ⟨hgrown, hleft⟩ := Process.keeps_advance grown_accumulates
            (horderly session.host)
          -- what is left may go on from any host, since others change it in between
          refine ⟨fun other hmem => ?_, hgrown⟩
          rcases List.mem_or_eq_of_mem_set hmem with hmem | rfl
          · exact hsession other hmem
          · exact hleft
      · exact ⟨hsession, .same _⟩

/-- Over any moves a session stays orderly, and the roster only grows. -/
theorem after_spec (hbehaviour : behaviour.Orderly) {session : Session}
    (hsession : session.Orderly) (moves : List Move) :
    (session.after service behaviour moves).Orderly ∧
      Grown session.host (session.after service behaviour moves).host := by
  induction moves generalizing session with
  | nil => exact ⟨hsession, .same _⟩
  | cons move rest ih =>
      obtain ⟨hnext, hgrown⟩ := step_spec hbehaviour hsession move
      obtain ⟨hlater, hmore⟩ := ih hnext
      exact ⟨hlater, grown_accumulates.trans hgrown hmore⟩

end Session

end SealedCall
