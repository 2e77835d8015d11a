import SealedCall.Proofs.Concurrency.Settlement
import SealedCall.Proofs.Isolation.History

/-! # Settlements of invocations

What a reference gives back, and which implementation there is for it, is the same on every host on
which what it holds has not been disturbed. So an invocation comes to a settlement when what the
implementation does comes to one: it wraps what the implementation raises, and adds a span of its
own.
-/

namespace SealedCall

open Memory Operation

variable {region own shared : Set Nat} {start host later : Host}

/-! ## What is recovered -/

/-- What cannot be frozen nests too deep. -/
theorem freeze_eq_error {data : List Datum} {failure : Failure}
    (hfreeze : (freeze data).perform host = (.error failure, later)) : failure = .tooDeep := by
  induction data generalizing host with
  | nil => cases hfreeze
  | cons datum rest ih =>
      rw [freeze, perform_bind, perform_view] at hfreeze
      cases hview : host.memory.view datum with
      | none =>
          rw [hview] at hfreeze
          cases hfreeze
          rfl
      | some value =>
          rw [hview] at hfreeze
          simp only at hfreeze
          rw [perform_bind, perform_place] at hfreeze
          simp only at hfreeze
          rw [perform_bind] at hfreeze
          split at hfreeze
          · cases hfreeze
          · next hrest =>
              cases hfreeze
              exact ih hrest

theorem perform_spread (datum : Datum) (host : Host) :
    (spread datum).perform host =
      ((host.memory.items? datum).elim
        (.error (.misuse (.notUnpackable (host.memory.typeName datum)))) .ok, host) := by
  rw [spread, perform_bind, perform_get]
  simp only
  cases host.memory.items? datum with
  | none => rfl
  | some items => rfl

/-- The copies of values that are placed on a host. -/
def Host.copies (host : Host) (values : List Value) : List Datum := (host.memory.placeAll values).2

/-- The host on which copies of values have been placed. -/
def Host.holding (host : Host) (values : List Value) : Host :=
  { host with memory := (host.memory.placeAll values).1 }

/-- Whether an operation comes to the same on every host on which a region is undisturbed: it fails
in one way, or it places copies of the same values. -/
inductive Operation.Restores (region : Set Nat) (start : Host)
    (operation : Operation (List Datum)) : Prop
  | fails (failure : Failure) (hfails : ∀ host, Undisturbed region start host →
      (operation.perform host).1 = .error failure)
  | places (values : List Value) (hplaces : ∀ host, Undisturbed region start host →
      operation.perform host = (.ok (host.copies values), host.holding values))

/-- What is performed alike restores alike. -/
theorem Operation.Restores.of_perform_eq {operation other : Operation (List Datum)}
    (hother : Restores region start other)
    (hperform : ∀ host, Undisturbed region start host →
      operation.perform host = other.perform host) : Restores region start operation := by
  cases hother with
  | fails failure hfails =>
      refine .fails failure fun host hundisturbed => ?_
      rw [hperform host hundisturbed]
      exact hfails host hundisturbed
  | places values hplaces =>
      refine .places values fun host hundisturbed => ?_
      rw [hperform host hundisturbed]
      exact hplaces host hundisturbed

/-- Data in a closed region are frozen alike. -/
theorem restores_freeze (hclosed : start.memory.Closed region) {data : List Datum}
    (hdata : Datum.AllInside region data) : Restores region start (freeze data) := by
  cases hview : start.memory.viewAll data with
  | some values =>
      refine .places values fun host hundisturbed => perform_freeze ?_
      rw [viewAll_of_agree hclosed hundisturbed.agree hdata, hview]
  | none =>
      refine .fails .tooDeep fun host hundisturbed => ?_
      cases hfreeze : (freeze data).perform host with
      | mk outcome later =>
          cases outcome with
          | error failure => rw [freeze_eq_error hfreeze]
          | ok copies =>
              have hthere := hclosed.of_agree hundisturbed.agree hundisturbed.grown
              obtain ⟨values, hvalues⟩ := viewAll_of_freeze hthere hdata hfreeze
              rw [viewAll_of_agree hclosed hundisturbed.agree hdata, hview] at hvalues
              cases hvalues

/-- What goes through a datum before it freezes what it finds finds the same everywhere. -/
theorem restores_spread (hclosed : start.memory.Closed region) {datum : Datum}
    (hdatum : datum.Inside region) : Restores region start (spread datum >>= freeze) := by
  cases hitems : start.memory.items? datum with
  | none =>
      refine .fails (.misuse (.notUnpackable (start.memory.typeName datum))) ?_
      intro host hundisturbed
      rw [perform_bind, perform_spread, items?_of_agree hundisturbed.agree hdatum,
        typeName_of_agree hundisturbed.agree hdatum, hitems]
      rfl
  | some items =>
      have hinside := inside_of_items? hclosed hdatum hitems
      refine (restores_freeze hclosed hinside).of_perform_eq fun host hundisturbed => ?_
      rw [perform_bind, perform_spread, items?_of_agree hundisturbed.agree hdatum, hitems]
      rfl

/-- What opening an envelope comes to does not depend on the host. -/
theorem Envelope.outcome_openWith (envelope : Envelope) (key : Key) (host later : Host) :
    ((envelope.openWith key).perform later).1 = ((envelope.openWith key).perform host).1 := by
  rw [perform_openWith, perform_openWith]
  split
  · cases idOctets envelope.id with
    | error failure => rfl
    | ok associated =>
        simp only
        cases Aead.decrypt key.octets envelope.nonce associated envelope.ciphertext with
        | ok plaintext => rfl
        | error refusal => cases refusal <;> rfl
  · rfl

theorem Envelope.host_of_openWith {envelope : Envelope} {key : Key} {values : Snapshot}
    (hopen : (envelope.openWith key).perform host = (.ok values, later)) : later = host := by
  rw [perform_openWith] at hopen
  split at hopen
  · split at hopen
    · cases hopen
    · split at hopen
      · exact (Prod.mk.inj hopen).2.symm
      · cases hopen
      · cases hopen
  · cases hopen

/-- An envelope opens alike on all hosts. -/
theorem restores_openWith (envelope : Envelope) (key : Key) :
    Restores region start (envelope.openWith key >>= fun values => values.mapM place) := by
  cases hopened : ((envelope.openWith key).perform start).1 with
  | error failure =>
      refine .fails failure fun host _ => ?_
      exact outcome_bind_of_error ((envelope.outcome_openWith key start host).trans hopened)
  | ok values =>
      refine .places values fun host _ => ?_
      have hopen := (envelope.outcome_openWith key start host).trans hopened
      rw [perform_bind]
      generalize hperform : (envelope.openWith key).perform host = result at hopen ⊢
      obtain ⟨outcome, after⟩ := result
      cases hopen
      rw [Envelope.host_of_openWith hperform]
      exact perform_placeAll values host

/-- A reference gives back the same on every host on which what it holds is undisturbed. -/
theorem restores_recover (hclosed : start.memory.Closed region) {reference : Reference}
    (hsnapshot : reference.snapshot.Inside region) (key : Key) :
    Restores region start (reference.recover (.bytes key.octets)) := by
  cases hsealed : reference.envelope with
  | some envelope =>
      rw [Reference.recover_eq_openWith hsealed (Key.ofValue_bytes key)]
      exact restores_openWith _ key
  | none =>
      have hinside : Datum.Inside region
          (if start.memory.isTruthy reference.snapshot then reference.snapshot else .tuple []) := by
        split
        · exact hsnapshot
        · exact .tuple (List.forall_mem_nil _)
      refine (restores_spread hclosed hinside).of_perform_eq fun host hundisturbed => ?_
      rw [Reference.recover, hsealed]
      simp only
      rw [perform_bind, Reference.heldSnapshot, perform_bind, perform_get,
        ← isTruthy_of_agree hundisturbed.agree hsnapshot]
      rfl

/-! ## What an invocation begins with -/

/-- Whether a host has the objects of another one and more, and its roster and its spans. -/
structure AddsOnly (host later : Host) : Prop where
  adds : host.memory.Adds later.memory
  roster : later.roster = host.roster
  spans : later.spans = host.spans

theorem addsOnly_quiet : Quiet AddsOnly where
  refl host := ⟨Adds.refl host.memory, rfl, rfl⟩
  trans hfirst hsecond := ⟨hfirst.adds.trans hsecond.adds, hsecond.roster.trans hfirst.roster,
    hsecond.spans.trans hfirst.spans⟩
  place value host := ⟨(adds_place value host.memory).1, rfl, rfl⟩
  record _ _ _ host := ⟨Adds.refl host.memory, rfl, rfl⟩

theorem AddsOnly.changes (hadds : AddsOnly host later) (own : Set Nat) :
    Changes own (own ∪ host.memory.newPlaces later.memory) host later where
  widens := Set.subset_union_left
  fresh _ hplace := hplace
  grown := hadds.adds.grown
  spares _ _ hlt := hadds.adds.agree hlt
  roster := hadds.roster

namespace Activity

variable {α : Type} {operation : Operation α} {next : α → Activity Datum}

/-- An operation that adds objects alone and fails adds no spans. -/
theorem settles_bind_of_error (hoperation : Respects AddsOnly operation) {failure : Failure}
    (hfails : (operation.perform host).1 = .error failure) :
    Settles shared ((ofOperation operation).bind next) own host ⟨.error failure, []⟩ := by
  have hadds := hoperation host
  generalize hperform : operation.perform host = result at hfails hadds
  obtain ⟨outcome, after⟩ := result
  cases hfails
  simp only [ofOperation, Process.ofStep, Process.bind, Process.andThen, Settles, hperform]
  refine ⟨_, [], [], hadds.changes own, ?_, rfl, rfl, comes_error _ _ failure⟩
  rw [hadds.spans, List.append_nil]

/-- An operation that adds objects alone leaves the rest to what follows on it. -/
theorem settles_bind_of_ok (hoperation : Respects AddsOnly operation) {value : α}
    {settlement : Settlement} (hperform : operation.perform host = (.ok value, later))
    (hnext : Settles shared (next value) (own ∪ host.memory.newPlaces later.memory) later
      settlement) :
    Settles shared ((ofOperation operation).bind next) own host settlement := by
  have hadds := hoperation host
  rw [hperform] at hadds
  simp only [ofOperation, Process.ofStep, Process.bind, Process.andThen, Settles, hperform]
  refine ⟨_, [], settlement.spans, hadds.changes own, ?_, rfl, hnext⟩
  rw [hadds.spans, List.append_nil]

end Activity

namespace Invocation

open Activity

variable {behaviour : Behaviour} {reference : Reference} {arguments : List Datum} {key : Value}
  {implementation : Implementation}

/-- Whether an invocation that has a turn fails in it, whatever the implementations do. -/
def TurnsAwayNow (reference : Reference) (arguments : List Datum) (key : Value) (host : Host)
    (failure : Failure) : Prop :=
  ∃ later, ∀ behaviour,
    (run behaviour reference arguments key).advance host = (.done (.error failure), later)

/-- Whether an invocation that has a turn goes over, without a pause, to one application of an
implementation from some host on, after which it only concludes. -/
def AppliesNow (reference : Reference) (arguments : List Datum) (key : Value) (host : Host)
    (implementation : Implementation) (values : List Datum) (before : Host) : Prop :=
  ∀ behaviour, (run behaviour reference arguments key).advance host =
    (spanned reference.id (apply behaviour reference.id implementation values)).advance before

theorem turnsAwayNow_of_prepare {failure : Failure}
    (hprepare : ((prepare reference key).perform host).1 = .error failure) :
    TurnsAwayNow reference arguments key host failure := by
  generalize hperform : (prepare reference key).perform host = result at hprepare
  obtain ⟨outcome, after⟩ := result
  cases hprepare
  refine ⟨spanEnded reference.id (.error failure : Except Failure Datum) after,
    fun behaviour => ?_⟩
  simp only [run, spanned, ofOperation, Process.ofStep, Process.bind, Process.andThen,
    Process.advance, hperform, spanEnded]

/-! ## What an invocation comes to -/

/-- The span that an invocation leaves: under its id, with one event where it was turned away for
one of the three reasons, and without any otherwise. -/
def spanOf (id : Value) : Except Failure (Option Value) → Span
  | .error .integrity => ⟨id.tag, [(id.tag, .integrity)]⟩
  | .error (.malformed _) => ⟨id.tag, [(id.tag, .malformed)]⟩
  | .error (.unknownAction _) => ⟨id.tag, [(id.tag, .unknownAction)]⟩
  | _ => ⟨id.tag, []⟩

theorem spanOf_report (id : Value) (memory : Memory) (outcome : Except Failure Datum) :
    spanOf id (report memory outcome) = ⟨id.tag, rejections id.tag outcome⟩ := by
  cases outcome with
  | ok datum => rfl
  | error failure => cases failure <;> rfl

/-- What the outcome of an implementation becomes in the report of the invocation. -/
def raised (id : Value) (failure : Failure) : Failure :=
  if failure.isAbort then failure else (Failure.execution id failure).checked

/-- An invocation adds its span when all else is settled. -/
theorem settles_spanned {activity : Activity Datum} (id : Value) (settlement : Settlement)
    (hsettles : activity.Settles shared own host settlement) :
    (spanned id activity).Settles shared own host
      ⟨settlement.outcome, settlement.spans ++ [spanOf id settlement.outcome]⟩ := by
  refine settles_andThen ⟨settlement.outcome, [spanOf id settlement.outcome]⟩ hsettles ?_
  intro outcome wider later hcomes
  have hspan : spanOf id settlement.outcome = ⟨id.tag, rejections id.tag outcome⟩ := by
    rw [← hcomes.1, spanOf_report]
  refine ⟨wider, [⟨id.tag, rejections id.tag outcome⟩], [], .of_memory_eq wider rfl rfl, rfl, ?_,
    rfl, ?_⟩
  · rw [hspan, List.append_nil]
  · exact hcomes.of_undisturbed ⟨Nat.le_refl _, fun _ _ => rfl, rfl⟩

/-- What an implementation raises is wrapped, which adds no span. -/
theorem settles_apply {values : List Datum} {answer : Settlement} (id : Value)
    (hsettles : (behaviour implementation values).Settles shared own host answer) :
    (apply behaviour id implementation values).Settles shared own host
      ⟨answer.outcome.mapError (raised id), answer.spans⟩ := by
  rw [← List.append_nil answer.spans, apply]
  refine settles_andThen ⟨answer.outcome.mapError (raised id), []⟩ hsettles ?_
  intro outcome wider later hcomes
  cases outcome with
  | ok datum =>
      have hreported : answer.outcome.mapError (raised id) = answer.outcome := by
        rw [← hcomes.1]
        rfl
      refine ⟨rfl, ?_⟩
      rw [hreported]
      exact hcomes
  | error failure =>
      have hreported : answer.outcome.mapError (raised id) = .error (raised id failure) := by
        rw [← hcomes.1]
        rfl
      rw [hreported, raised]
      simp only
      split
      · exact ⟨rfl, comes_error _ _ failure⟩
      · exact ⟨wider, [], [], .of_memory_eq wider rfl rfl, (List.append_nil _).symm, rfl, rfl,
          comes_error _ _ _⟩

theorem settles_run_of_error {failure : Failure}
    (hprepare : ((prepare reference key).perform host).1 = .error failure) :
    (run behaviour reference arguments key).Settles shared own host
      ⟨.error failure, [spanOf reference.id (.error failure)]⟩ :=
  settles_spanned reference.id ⟨.error failure, []⟩
    (settles_bind_of_error (respects_prepare addsOnly_quiet reference key) hprepare)

theorem settles_run_of_ok {recovered : List Datum} {answer : Settlement}
    (hprepare : (prepare reference key).perform host = (.ok (recovered, implementation), later))
    (hanswer : (behaviour implementation (recovered ++ arguments)).Settles shared
      (own ∪ host.memory.newPlaces later.memory) later answer) :
    (run behaviour reference arguments key).Settles shared own host
      ⟨answer.outcome.mapError (raised reference.id),
        answer.spans ++ [spanOf reference.id (answer.outcome.mapError (raised reference.id))]⟩ := by
  refine settles_spanned reference.id
    ⟨answer.outcome.mapError (raised reference.id), answer.spans⟩ ?_
  refine settles_bind_of_ok (respects_prepare addsOnly_quiet reference key) hprepare ?_
  exact settles_apply reference.id hanswer

end Invocation

namespace Service

open Activity Invocation

variable {service : Service} {behaviour : Behaviour} {reference : Reference}
  {arguments : List Datum}

/-- Whether what the implementation under an id does with what a reference gives back and with the
caller's arguments depends on nothing else: it comes to one settlement on all hosts on which the
places that the invocation has of its own, and those that it shares, are undisturbed. The copies
that are made for it are its own as well. -/
def Independent (service : Service) (behaviour : Behaviour) (start : Host) (own shared : Set Nat)
    (reference : Reference) (arguments : List Datum) : Prop :=
  ∃ answer, ∀ host recovered before implementation, Undisturbed (own ∪ shared) start host →
    (reference.recover service.keyValue).perform host = (.ok recovered, before) →
      start.roster.implementationOf reference.id = .ok implementation →
        (behaviour implementation (recovered ++ arguments)).Settles shared
          (own ∪ host.memory.newPlaces before.memory) before answer

/-- What becomes of an invocation that has its first turn on one of several hosts, and what it comes
to. Either it is turned away with one failure whatever the implementations do, and leaves a span
with its id and with the rejection, if the failure is one. Or it applies the implementation under
its id, to the values that it recovers, which are copies of the same ones on every host, followed by
the caller's arguments, and leaves one such span behind those that the implementation adds
itself. -/
inductive Fate (service : Service) (behaviour : Behaviour) (roster : Roster) (hosts : Host → Prop)
    (reference : Reference) (arguments : List Datum) (settlement : Settlement) : Prop
  | turnedAway (failure : Failure) (houtcome : settlement.outcome = .error failure)
      (hspans : settlement.spans = [spanOf reference.id settlement.outcome])
      (hturn : ∀ host, hosts host →
        TurnsAwayNow reference arguments service.keyValue host failure)
  | applied (implementation : Implementation) (values : List Value) (nested : List Span)
      (hlookup : roster.implementationOf reference.id = .ok implementation)
      (hrecovers : ∀ host, hosts host → (reference.recover service.keyValue).perform host =
        (.ok (host.copies values), host.holding values))
      (hspans : settlement.spans = nested ++ [spanOf reference.id settlement.outcome])
      (hnested : ∀ host, hosts host →
        ((behaviour implementation (host.copies values ++ arguments)).run
          (host.holding values)).2.spans = host.spans ++ nested)
      (hturn : ∀ host, hosts host → AppliesNow reference arguments service.keyValue host
        implementation (host.copies values ++ arguments) (host.holding values))

theorem Fate.mono {roster : Roster} {hosts fewer : Host → Prop} {settlement : Settlement}
    (hfate : service.Fate behaviour roster hosts reference arguments settlement)
    (hfewer : ∀ host, fewer host → hosts host) :
    service.Fate behaviour roster fewer reference arguments settlement := by
  cases hfate with
  | turnedAway failure houtcome hspans hturn =>
      exact .turnedAway failure houtcome hspans fun host hhost => hturn host (hfewer host hhost)
  | applied implementation values nested hlookup hrecovers hspans hnested hturn =>
      exact .applied implementation values nested hlookup
        (fun host hhost => hrecovers host (hfewer host hhost)) hspans
        (fun host hhost => hnested host (hfewer host hhost))
        fun host hhost => hturn host (hfewer host hhost)

/-- Whether an invocation has one fate, and comes to one settlement, on all hosts on which its
places are undisturbed. -/
def IsSettled (service : Service) (behaviour : Behaviour) (start : Host) (own shared : Set Nat)
    (reference : Reference) (arguments : List Datum) : Prop :=
  ∃ settlement,
    service.Fate behaviour start.roster (Undisturbed (own ∪ shared) start) reference arguments
      settlement ∧
    ∀ host, Undisturbed (own ∪ shared) start host →
      (service.run behaviour reference arguments).Settles shared own host settlement

/-- Where the failure is the same on all hosts, nothing depends on the implementations. -/
theorem isSettled_of_failure (failure : Failure)
    (hprepare : ∀ host, Undisturbed (own ∪ shared) start host →
      ((prepare reference service.keyValue).perform host).1 = .error failure) :
    service.IsSettled behaviour start own shared reference arguments := by
  refine ⟨⟨.error failure, [spanOf reference.id (.error failure)]⟩, ?_, ?_⟩
  · exact .turnedAway failure rfl rfl fun host hhost =>
      turnsAwayNow_of_prepare (hprepare host hhost)
  · exact fun host hhost => settles_run_of_error (hprepare host hhost)

/-- An invocation that depends on nothing but its own places and those that it shares is settled. -/
theorem isSettled_of_independent (hclosed : start.memory.Closed (own ∪ shared))
    (hsnapshot : reference.snapshot.Inside (own ∪ shared))
    (hindependent : service.Independent behaviour start own shared reference arguments) :
    service.IsSettled behaviour start own shared reference arguments := by
  cases restores_recover hclosed hsnapshot service.key with
  | fails failure hfails =>
      exact isSettled_of_failure failure fun host hhost =>
        outcome_bind_of_error (hfails host hhost)
  | places values hplaces =>
      have hprepare : ∀ host, Undisturbed (own ∪ shared) start host →
          (prepare reference service.keyValue).perform host =
            ((start.roster.implementationOf reference.id).map fun implementation =>
              (host.copies values, implementation), host.holding values) := by
        intro host hhost
        have hrecover : (reference.recover service.keyValue).perform host =
            (.ok (host.copies values), host.holding values) := hplaces host hhost
        rw [perform_prepare, hrecover]
        simp only
        rw [Host.holding, hhost.roster]
      cases hlookup : start.roster.implementationOf reference.id with
      | error failure =>
          refine isSettled_of_failure failure fun host hhost => ?_
          rw [hprepare host hhost, hlookup]
          rfl
      | ok implementation =>
          rw [hlookup] at hprepare
          obtain ⟨answer, hanswer⟩ := hindependent
          have happlied : ∀ host, Undisturbed (own ∪ shared) start host →
              (behaviour implementation (host.copies values ++ arguments)).Settles shared
                (own ∪ host.memory.newPlaces (host.holding values).memory)
                  (host.holding values) answer :=
            fun host hhost => hanswer host _ _ implementation hhost (hplaces host hhost) hlookup
          refine ⟨_, .applied implementation values answer.spans hlookup hplaces rfl ?_ ?_,
            fun host hhost => settles_run_of_ok (hprepare host hhost) (happlied host hhost)⟩
          · exact fun host hhost => (settles_run (happlied host hhost)).2
          · intro host hhost applied
            refine advance_of_lookup (hplaces host hhost) ?_ applied arguments
            rw [Host.holding, hhost.roster]
            exact hlookup

end Service

end SealedCall
