import SealedCall.Invocation
import SealedCall.Proofs.Operation
import SealedCall.Proofs.Process
import SealedCall.Proofs.RosterKept

/-! # Outcomes of invocations

Whether an invocation applies an implementation, and which one to which arguments, is settled before
anything is applied. What turns a reference away is therefore the same for every behaviour of the
implementations, and what is applied is applied once: the whole run is one function of that single
application.
-/

namespace SealedCall.Invocation

/-- What the outcome of an implementation becomes as the outcome of the invocation. -/
def wrapped (id : Value) : Except Failure Datum → Except Failure Datum
  | .ok result => .ok result
  | .error failure =>
    if failure.isAbort then .error failure else .error (Failure.execution id failure).checked

/-- What an implementation returns comes out as it is, and so does what aborts. Whatever else it
raises comes out as the failure of the action, where there are words for it. -/
theorem wrapped_tells (t : Text) (outcome : Except Failure Datum) :
    (∀ result, outcome = .ok result → wrapped (.text t) outcome = .ok result) ∧
    (∀ failure, outcome = .error failure → failure.isAbort = true →
      wrapped (.text t) outcome = .error failure) ∧
    ∀ failure, outcome = .error failure → failure.isAbort = false → failure.isShowable = true →
      wrapped (.text t) outcome = .error (.execution (.text t) failure) := by
  refine ⟨?_, ?_, ?_⟩
  · rintro result rfl
    rfl
  · rintro failure rfl habort
    rw [wrapped, if_pos habort]
  · rintro failure rfl habort hshowable
    have hchecked : (Failure.execution (.text t) failure).isShowable = true := by
      rw [Failure.isShowable, hshowable]
      rfl
    rw [wrapped, habort, if_neg Bool.false_ne_true, Failure.checked, if_pos hchecked]

/-- The host when the span of an invocation has ended. -/
def spanEnded {α : Type} (id : Value) (outcome : Except Failure α) (host : Host) : Host :=
  { host with spans := host.spans ++ [⟨id.tag, rejections id.tag outcome⟩] }

/-- The host when an implementation has ended and what it raised is in the log. -/
def noted (id : Value) (outcome : Except Failure Datum) (host : Host) : Host :=
  match outcome with
  | .ok _ => host
  | .error failure =>
    if failure.isAbort then host
    else ((Operation.record .error .invocation
      (Text.of "Action " ++ id.plain ++ Text.of " raised")).perform host).2

/-- What is left to do when an implementation has ended. -/
def conclude (id : Value) (ended : Except Failure Datum × Host) : Except Failure Datum × Host :=
  (wrapped id ended.1, spanEnded id (wrapped id ended.1) (noted id ended.1 ended.2))

/-- Whether an invocation fails in the same way whatever the implementations do. -/
def TurnsAway (reference : Reference) (arguments : List Datum) (key : Value) (host : Host)
    (failure : Failure) : Prop :=
  ∃ later, ∀ behaviour, (run behaviour reference arguments key).run host = (.error failure, later)

/-- Whether an invocation comes down to one application of an implementation, from some host on,
after which it only concludes. -/
def Applies (reference : Reference) (arguments : List Datum) (key : Value) (host : Host)
    (implementation : Implementation) (values : List Datum) (before : Host) : Prop :=
  ∀ behaviour, (run behaviour reference arguments key).run host =
    conclude reference.id ((behaviour implementation values).run before)

theorem run_spanned {α : Type} (id : Value) (activity : Activity α) (host : Host) :
    (spanned id activity).run host =
      ((activity.run host).1, spanEnded id (activity.run host).1 (activity.run host).2) := by
  rw [spanned, Process.run_andThen]
  rfl

theorem run_apply (behaviour : Behaviour) (id : Value) (implementation : Implementation)
    (values : List Datum) (host : Host) :
    (apply behaviour id implementation values).run host =
      (wrapped id ((behaviour implementation values).run host).1,
        noted id ((behaviour implementation values).run host).1
          ((behaviour implementation values).run host).2) := by
  rw [apply, Process.run_andThen]
  obtain ⟨outcome, after⟩ := (behaviour implementation values).run host
  cases outcome with
  | ok result => rfl
  | error failure =>
      simp only [wrapped, noted]
      split
      · rfl
      · rfl

theorem perform_prepare (reference : Reference) (key : Value) (host : Host) :
    (prepare reference key).perform host =
      match (reference.recover key).perform host with
      | (.ok recovered, after) =>
        ((after.roster.implementationOf reference.id).map fun implementation =>
          (recovered, implementation), after)
      | (.error failure, after) => (.error failure, after) := by
  rw [prepare, Operation.perform_bind]
  obtain ⟨outcome, after⟩ := (reference.recover key).perform host
  cases outcome with
  | error failure => rfl
  | ok recovered =>
      simp only
      rw [Operation.perform_bind, Operation.perform_get]
      simp only
      rw [Operation.perform_bind, Operation.perform_ofExcept]
      cases after.roster.implementationOf reference.id with
      | error failure => rfl
      | ok implementation => rfl

/-! ## What an invocation changes -/

section

open Operation

variable {relates allowed : Host → Host → Prop}

theorem respects_prepare (hquiet : Quiet relates) (reference : Reference) (key : Value) :
    Respects relates (prepare reference key) := by
  unfold prepare
  apply respects_bind hquiet.toAccumulates (respects_recover hquiet reference key)
  intro recovered
  apply respects_bind hquiet.toAccumulates (respects_get hquiet.toAccumulates)
  intro host
  apply respects_bind hquiet.toAccumulates (respects_ofExcept hquiet.toAccumulates _)
  intro implementation
  exact respects_pure hquiet.toAccumulates _

theorem respects_raisedBy (hquiet : Quiet relates) (id : Value) (cause : Failure) :
    Respects relates (raisedBy id cause) := by
  unfold raisedBy
  apply respects_bind hquiet.toAccumulates (hquiet.record _ _ _)
  intro _
  exact respects_fail hquiet.toAccumulates _

/-- Apart from what implementations do, an invocation only places values, writes to the log and ends
its span. So it keeps to whatever the implementations keep to, if these three are within it. -/
theorem keeps_run (hquiet : Quiet relates)
    (hspans : ∀ host spans, relates host { host with spans := spans })
    (himplies : ∀ host later, relates host later → allowed host later) {behaviour : Behaviour}
    (hbehaviour : ∀ implementation arguments host,
      (behaviour implementation arguments).Keeps allowed host)
    (reference : Reference) (arguments : List Datum) (key : Value) (host : Host) :
    (run behaviour reference arguments key).Keeps allowed host := by
  unfold run spanned
  apply Process.keeps_andThen
  · apply Process.keeps_bind
    · exact Process.keeps_ofStep (himplies _ _ (respects_prepare hquiet reference key host))
    · rintro ⟨recovered, implementation⟩ before
      unfold apply
      apply Process.keeps_andThen (hbehaviour implementation _ before)
      intro outcome after
      cases outcome with
      | ok result => exact True.intro
      | error failure =>
          simp only
          split
          · exact True.intro
          · exact Process.keeps_ofStep
              (himplies _ _ (respects_raisedBy hquiet reference.id failure after))
  · intro outcome after
    exact ⟨himplies _ _ (hspans after _), True.intro⟩

end

/-! ## Whether an implementation is applied -/

variable {reference : Reference} {arguments : List Datum} {key : Value} {host after : Host}
  {recovered : List Datum}

theorem run_of_prepare (behaviour : Behaviour) :
    (run behaviour reference arguments key).run host =
      match (prepare reference key).perform host with
      | (.ok (recovered, implementation), after) =>
        conclude reference.id ((behaviour implementation (recovered ++ arguments)).run after)
      | (.error failure, after) =>
        (.error failure, spanEnded reference.id (.error failure : Except Failure Datum) after) := by
  rw [run, run_spanned, Process.run_bind, Activity.ofOperation, Process.run_ofStep]
  obtain ⟨outcome, after⟩ := (prepare reference key).perform host
  cases outcome with
  | error failure => rfl
  | ok prepared =>
      obtain ⟨recovered, implementation⟩ := prepared
      simp only
      rw [run_apply]
      rfl

/-- A reference that is not recovered is turned away with that failure. -/
theorem turnsAway_of_recover {failure : Failure}
    (hrecover : (reference.recover key).perform host = (.error failure, after)) :
    TurnsAway reference arguments key host failure := by
  refine ⟨spanEnded reference.id (.error failure : Except Failure Datum) after,
    fun behaviour => ?_⟩
  rw [run_of_prepare, perform_prepare, hrecover]

/-- A recovered reference is turned away when nothing can be looked up under its id. -/
theorem turnsAway_of_lookup {failure : Failure}
    (hrecover : (reference.recover key).perform host = (.ok recovered, after))
    (hlookup : after.roster.implementationOf reference.id = .error failure) :
    TurnsAway reference arguments key host failure := by
  refine ⟨spanEnded reference.id (.error failure : Except Failure Datum) after,
    fun behaviour => ?_⟩
  rw [run_of_prepare, perform_prepare, hrecover]
  simp only
  rw [hlookup]
  rfl

/-- A recovered reference whose implementation is found leads over to that implementation without a
pause. -/
theorem advance_of_lookup {implementation : Implementation}
    (hrecover : (reference.recover key).perform host = (.ok recovered, after))
    (hlookup : after.roster.implementationOf reference.id = .ok implementation)
    (behaviour : Behaviour) (arguments : List Datum) :
    (run behaviour reference arguments key).advance host =
      (spanned reference.id
        (apply behaviour reference.id implementation (recovered ++ arguments))).advance after := by
  have hprepare : (prepare reference key).perform host =
      (.ok (recovered, implementation), after) := by
    rw [perform_prepare, hrecover]
    simp only
    rw [hlookup]
    rfl
  exact Process.advance_bind_ofStep hprepare _ _

/-- It applies that implementation to the recovered values followed by the arguments. -/
theorem applies_of_lookup {implementation : Implementation}
    (hrecover : (reference.recover key).perform host = (.ok recovered, after))
    (hlookup : after.roster.implementationOf reference.id = .ok implementation) :
    Applies reference arguments key host implementation (recovered ++ arguments) after := by
  intro behaviour
  rw [Process.run_of_advance (advance_of_lookup hrecover hlookup behaviour arguments), run_spanned,
    run_apply]
  rfl

/-- Every invocation is turned away or applies one implementation. -/
theorem turnsAway_or_applies (reference : Reference) (arguments : List Datum) (key : Value)
    (host : Host) :
    (∃ failure, TurnsAway reference arguments key host failure) ∨
      ∃ implementation values before,
        Applies reference arguments key host implementation values before := by
  cases hrecover : (reference.recover key).perform host with
  | mk outcome after =>
      cases outcome with
      | error failure => exact .inl ⟨failure, turnsAway_of_recover hrecover⟩
      | ok recovered =>
          cases hlookup : after.roster.implementationOf reference.id with
          | error failure => exact .inl ⟨failure, turnsAway_of_lookup hrecover hlookup⟩
          | ok implementation =>
              exact .inr ⟨implementation, _, after, applies_of_lookup hrecover hlookup⟩

/-- The failures of the mechanism itself that come before anything is applied. -/
def isForestalling : Failure → Bool
  | .integrity | .malformed _ | .unknownAction _ | .keyMaterial _ => true
  | _ => false

/-- What an implementation raises never comes out as one of those failures. -/
theorem isForestalling_of_wrapped {id : Value} {outcome : Except Failure Datum} {failure : Failure}
    (hwrapped : wrapped id outcome = .error failure) : isForestalling failure = false := by
  cases outcome with
  | ok result => cases hwrapped
  | error raised =>
      rw [wrapped] at hwrapped
      split at hwrapped
      · next habort =>
          cases hwrapped
          -- only what implementations raise themselves aborts
          cases failure with
          | raised kind argument => rfl
          | _ => cases habort
      · cases hwrapped
        rw [Failure.checked]
        split
        · rfl
        · rfl

/-- The outcome of an invocation tells whether an implementation was applied. What recovering or
looking up fails with comes out as it is, and nothing is applied; otherwise the implementation under
the id is applied once, to the recovered values followed by the arguments, and what it raises comes
out wrapped, unless it aborts. -/
theorem outcome_tells_application (reference : Reference) (arguments : List Datum) (key : Value)
    (host : Host) :
    (∀ failure after, (reference.recover key).perform host = (.error failure, after) →
      TurnsAway reference arguments key host failure) ∧
    (∀ recovered after, (reference.recover key).perform host = (.ok recovered, after) →
      (∀ failure, host.roster.implementationOf reference.id = .error failure →
        TurnsAway reference arguments key host failure ∧
          (reference.id.unhashablePart? = none → reference.id.isShowable = true →
            failure = .unknownAction reference.id) ∧
          (∀ typeName, reference.id.unhashablePart? = some typeName →
            failure = .misuse (.unhashable typeName))) ∧
      (∀ implementation, host.roster.implementationOf reference.id = .ok implementation →
        Applies reference arguments key host implementation (recovered ++ arguments) after ∧
          ∀ behaviour outcome later,
            (behaviour implementation (recovered ++ arguments)).run after = (outcome, later) →
              (∀ result, outcome = .ok result →
                ((run behaviour reference arguments key).run host).1 = .ok result) ∧
              (∀ failure, outcome = .error failure → failure.isAbort = true →
                ((run behaviour reference arguments key).run host).1 = .error failure) ∧
              (∀ failure, outcome = .error failure → failure.isAbort = false →
                failure.isShowable = true →
                  ((run behaviour reference arguments key).run host).1 =
                    .error (.execution reference.id failure)))) ∧
    (∀ behaviour failure, ((run behaviour reference arguments key).run host).1 = .error failure →
      isForestalling failure = true → TurnsAway reference arguments key host failure) := by
  refine ⟨fun failure after hrecover => turnsAway_of_recover hrecover, ?_, ?_⟩
  · intro recovered after hrecover
    -- recovering does not touch the roster, so the lookup might as well come first
    have hroster : after.roster = host.roster := by
      have hsame := sameRoster_recover reference key host
      rw [hrecover] at hsame
      exact hsame
    constructor
    · intro failure hlookup
      have hreason := Roster.implementationOf_eq_error hlookup
      rw [← hroster] at hlookup
      exact ⟨turnsAway_of_lookup hrecover hlookup, hreason⟩
    · intro implementation hlookup
      obtain ⟨t, -, hid, -, -⟩ := Roster.implementationOf_eq_ok hlookup
      rw [← hroster] at hlookup
      have happlies : Applies reference arguments key host implementation
          (recovered ++ arguments) after := applies_of_lookup hrecover hlookup
      refine ⟨happlies, fun behaviour outcome later hrun => ?_⟩
      have houtcome : ((run behaviour reference arguments key).run host).1 =
          wrapped reference.id outcome := by
        rw [happlies behaviour, hrun]
        rfl
      rw [houtcome, hid]
      exact wrapped_tells t outcome
  · intro behaviour failure hrun hforestalling
    rcases turnsAway_or_applies reference arguments key host with
      ⟨reason, hturned⟩ | ⟨implementation, values, before, happlies⟩
    · obtain ⟨later, hlater⟩ := hturned
      rw [hlater behaviour] at hrun
      cases hrun
      exact ⟨later, hlater⟩
    · rw [happlies behaviour] at hrun
      exact absurd (isForestalling_of_wrapped hrun) (by rw [hforestalling]; decide)

/-- A list is no id, and an invocation under one fails because it cannot be looked up: an id that
is not registered does not always come out as an unknown action. -/
theorem unregistered_not_always_unknown :
    ¬ ∀ (reference : Reference) (key : Value) (host : Host) (recovered : List Datum) (after : Host),
      (reference.recover key).perform host = (.ok recovered, after) →
        (∀ entry ∈ host.roster.actions, Value.text entry.id ≠ reference.id) →
          ∀ behaviour arguments, ((run behaviour reference arguments key).run host).1 =
            .error (.unknownAction reference.id) := by
  intro hclaim
  have hunknown := hclaim
    (Reference.ofSnapshot (.list [Value.ofString "a"]) (.tuple [.fixed (.int 1)])) .null
    Host.untouched [.fixed (.int 1)] Host.untouched rfl (fun _ hmem => nomatch hmem)
    (fun _ _ => .done (.ok (.fixed .null))) []
  have hunhashable : Except.error (Failure.misuse (.unhashable "list")) =
      Except.error (Failure.unknownAction (.list [Value.ofString "a"])) := hunknown
  cases hunhashable

end SealedCall.Invocation
