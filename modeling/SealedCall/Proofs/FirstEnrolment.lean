import SealedCall.Proofs.Delivery

/-! # First enrolments

Whatever is done with a roster, the first call that enrols an implementation under an id decides
what is held there for good. The calls that are made while invocations work are those of the
implementations, and nothing is asked of them but that they touch the roster by enrolment alone; so
what is said here holds of any calls that explain what has become of the roster.
-/

namespace SealedCall

open Operation

/-- A call that enrols an implementation under an id, and how it ended. -/
structure EnrolmentCall where
  id : Value
  implementation : Implementation
  name : Value
  outcome : Except Failure RosterEntry

namespace EnrolmentCall

/-- The call that is made on a host. -/
def on (host : Host) (id : Value) (implementation : Implementation) (name : Value) :
    EnrolmentCall :=
  ⟨id, implementation, name, ((Enrolment.enrol id implementation name).perform host).1⟩

/-- Whether a call under an id came back with an entry. -/
def Grants (call : EnrolmentCall) (t : Text) (entry : RosterEntry) : Prop :=
  call.id = .text t ∧ call.outcome = .ok entry

end EnrolmentCall

/-- Whether an entry came back from the first call under an id that did not fail, and holds the
implementation and the name of that call. -/
def FirstGranted (calls : List EnrolmentCall) (t : Text) (entry : RosterEntry) : Prop :=
  ∃ earlier call rest, calls = earlier ++ call :: rest ∧
    (∀ other ∈ earlier, ∀ held, ¬ other.Grants t held) ∧ call.Grants t entry ∧
      entry.implementation = call.implementation ∧
        Roster.nameFor call.implementation call.name = .ok entry.name

theorem firstGranted_nil {t : Text} {entry : RosterEntry} : ¬ FirstGranted [] t entry := by
  rintro ⟨earlier, call, rest, hcalls, -⟩
  cases earlier with
  | nil => cases hcalls
  | cons other earlier => cases hcalls

theorem firstGranted_head {call : EnrolmentCall} {t : Text} {entry : RosterEntry}
    (calls : List EnrolmentCall) (hgrants : call.Grants t entry)
    (himplementation : entry.implementation = call.implementation)
    (hname : Roster.nameFor call.implementation call.name = .ok entry.name) :
    FirstGranted (call :: calls) t entry :=
  ⟨[], call, calls, rfl, List.forall_mem_nil _, hgrants, himplementation, hname⟩

theorem firstGranted_tail_iff {call : EnrolmentCall} {calls : List EnrolmentCall} {t : Text}
    {entry : RosterEntry} (hcall : ∀ held, ¬ call.Grants t held) :
    FirstGranted (call :: calls) t entry ↔ FirstGranted calls t entry := by
  constructor
  · rintro ⟨earlier, first, rest, hcalls, hearlier, hgrants, hcreated⟩
    cases earlier with
    | nil =>
        cases hcalls
        exact absurd hgrants (hcall entry)
    | cons other earlier =>
        cases hcalls
        exact ⟨earlier, first, rest, rfl, (List.forall_mem_cons.mp hearlier).2, hgrants, hcreated⟩
  · rintro ⟨earlier, first, rest, rfl, hearlier, hfirst⟩
    exact ⟨call :: earlier, first, rest, rfl, List.forall_mem_cons.mpr ⟨hcall, hearlier⟩, hfirst⟩

/-! ## One call -/

namespace Roster

variable {roster : Roster}

/-- What is admitted is what is held already, or a new entry where nothing is held. -/
theorem admission_eq_ok {id : Value} {implementation : Implementation} {name : Value}
    {admission : Admission}
    (hadmission : roster.admission id implementation name = .ok admission) :
    ∃ t, id = .text t ∧ ((∃ held, admission = .known held ∧ roster.find? t = some held) ∨
      roster.find? t = none ∧ ∃ fullName, nameFor implementation name = .ok fullName ∧
        admission = .added ⟨t, implementation, fullName⟩) := by
  rw [Roster.admission.eq_def] at hadmission
  split at hadmission
  · cases hadmission
  · next t hnonempty =>
      refine ⟨t, rfl, ?_⟩
      split at hadmission
      · split at hadmission
        · next held hheld =>
            split at hadmission
            · cases hadmission
              exact .inl ⟨held, rfl, hheld⟩
            · cases hadmission
        · next hnew =>
            cases hname : nameFor implementation name with
            | error failure =>
                rw [hname] at hadmission
                cases hadmission
            | ok fullName =>
                rw [hname] at hadmission
                cases hadmission
                exact .inr ⟨hnew, fullName, rfl, rfl⟩
      · cases hadmission
  · cases hadmission

theorem find?_after_added {new : RosterEntry} {t : Text} (hnew : roster.find? t = none) :
    (roster.after (.added new)).find? t = if new.id = t then some new else none := by
  rw [find?] at hnew
  rw [after, find?, List.find?_append, hnew, Option.none_or, List.find?_singleton]
  simp

end Roster

/-- A call answers with what is held under the id, or adds an entry where nothing is held, or fails
and leaves the roster as it was. -/
theorem enrol_cases (host : Host) (id : Value) (implementation : Implementation) (name : Value) :
    (∃ t held, id = .text t ∧ host.roster.find? t = some held ∧
      (EnrolmentCall.on host id implementation name).outcome = .ok held ∧
        ((Enrolment.enrol id implementation name).perform host).2.roster = host.roster) ∨
    (∃ t fullName, id = .text t ∧ host.roster.find? t = none ∧
      Roster.nameFor implementation name = .ok fullName ∧
        (EnrolmentCall.on host id implementation name).outcome =
          .ok ⟨t, implementation, fullName⟩ ∧
        ((Enrolment.enrol id implementation name).perform host).2.roster =
          host.roster.after (.added ⟨t, implementation, fullName⟩)) ∨
    ∃ failure, (EnrolmentCall.on host id implementation name).outcome = .error failure ∧
      ((Enrolment.enrol id implementation name).perform host).2.roster = host.roster := by
  obtain ⟨log, henrol⟩ := perform_enrol id implementation name host
  rw [EnrolmentCall.on, henrol]
  cases hadmission : host.roster.admission id implementation name with
  | error failure => exact .inr (.inr ⟨failure, rfl, rfl⟩)
  | ok admission =>
      obtain ⟨t, hid, ⟨held, rfl, hheld⟩ | ⟨hnew, fullName, hname, rfl⟩⟩ :=
        Roster.admission_eq_ok hadmission
      · exact .inl ⟨t, held, hid, hheld, rfl, rfl⟩
      · exact .inr (.inl ⟨t, fullName, hid, hnew, hname, rfl, rfl⟩)

section

variable {host : Host} {id : Value} {implementation : Implementation} {name : Value} {t : Text}
  {entry : RosterEntry}

/-- What a call comes back with is held under its id from then on. -/
theorem find?_of_grants (hgrants : (EnrolmentCall.on host id implementation name).Grants t entry) :
    ((Enrolment.enrol id implementation name).perform host).2.roster.find? t = some entry := by
  obtain ⟨hid, houtcome⟩ := hgrants
  rcases enrol_cases host id implementation name with ⟨s, held, hs, hheld, hok, hroster⟩ |
    ⟨s, fullName, hs, hnew, -, hok, hroster⟩ | ⟨failure, hfailed, -⟩
  · cases hs.symm.trans hid
    cases hok.symm.trans houtcome
    rw [hroster, hheld]
  · cases hs.symm.trans hid
    cases hok.symm.trans houtcome
    rw [hroster, Roster.find?_after_added hnew, if_pos rfl]
  · cases hfailed.symm.trans houtcome

/-- A call on an id under which nothing is held comes back with what it was made with. -/
theorem created_of_grants (hnew : host.roster.find? t = none)
    (hgrants : (EnrolmentCall.on host id implementation name).Grants t entry) :
    entry.implementation = implementation ∧
      Roster.nameFor implementation name = .ok entry.name := by
  obtain ⟨hid, houtcome⟩ := hgrants
  rcases enrol_cases host id implementation name with ⟨s, held, hs, hheld, -, -⟩ |
    ⟨s, fullName, hs, -, hname, hok, -⟩ | ⟨failure, hfailed, -⟩
  · cases hs.symm.trans hid
    cases hnew.symm.trans hheld
  · cases hok.symm.trans houtcome
    exact ⟨rfl, hname⟩
  · cases hfailed.symm.trans houtcome

/-- Nothing comes to be held under an id but what a call under that id came back with. -/
theorem grants_of_find? (hnew : host.roster.find? t = none)
    (hheld : ((Enrolment.enrol id implementation name).perform host).2.roster.find? t =
      some entry) : (EnrolmentCall.on host id implementation name).Grants t entry := by
  rcases enrol_cases host id implementation name with ⟨s, held, -, -, -, hroster⟩ |
    ⟨s, fullName, hs, hfree, -, hok, hroster⟩ | ⟨failure, -, hroster⟩
  · rw [hroster, hnew] at hheld
    cases hheld
  · by_cases hsame : s = t
    · subst hsame
      rw [hroster, Roster.find?_after_added hnew, if_pos rfl] at hheld
      cases hheld
      exact ⟨hs, hok⟩
    · rw [hroster, Roster.find?_after_added hnew, if_neg hsame] at hheld
      cases hheld
  · rw [hroster, hnew] at hheld
    cases hheld

end

/-! ## Many calls -/

/-- Whether calls, made one after the other, lead from one roster to another. -/
inductive Roster.Led : Roster → List EnrolmentCall → Roster → Prop
  | idle (roster : Roster) : Led roster [] roster
  | call {host : Host} {id : Value} {implementation : Implementation} {name : Value}
      {calls : List EnrolmentCall} {later : Roster}
      (hrest : Led ((Enrolment.enrol id implementation name).perform host).2.roster calls later) :
      Led host.roster (.on host id implementation name :: calls) later

namespace Roster.Led

variable {start between later : Roster} {calls more : List EnrolmentCall} {t : Text}
  {entry : RosterEntry}

theorem trans (hfirst : start.Led calls between) (hsecond : between.Led more later) :
    start.Led (calls ++ more) later := by
  induction hfirst with
  | idle roster => exact hsecond
  | call hrest ih => exact .call (ih hsecond)

/-- Where a roster has grown, there are calls that explain it. -/
theorem of_grows (hgrows : start.Grows later) : ∃ calls, start.Led calls later := by
  induction hgrows with
  | same roster => exact ⟨[], .idle roster⟩
  | @enrolled roster later id implementation name admission hadmission _ ih =>
      obtain ⟨calls, hcalls⟩ := ih
      have hroster : ((Enrolment.enrol id implementation name).perform
          { Host.untouched with roster := roster }).2.roster = roster.after admission := by
        obtain ⟨log, henrol⟩ := perform_enrol id implementation name
          { Host.untouched with roster := roster }
        rw [henrol, hadmission]
      rw [← hroster] at hcalls
      exact ⟨_, .call hcalls⟩

/-- Calls leave alone what is held. -/
theorem find?_of_held (hled : start.Led calls later) (hheld : start.find? t = some entry) :
    later.find? t = some entry := by
  induction hled with
  | idle roster => exact hheld
  | @call host id implementation name _ _ _ ih =>
      exact ih ((grown_enrol id implementation name host).find? hheld)

/-- Whatever a call came back with stays held under its id. -/
theorem find?_of_mem (hled : start.Led calls later) {call : EnrolmentCall} (hmem : call ∈ calls)
    (hgrants : call.Grants t entry) : later.find? t = some entry := by
  induction hled with
  | idle roster => exact absurd hmem List.not_mem_nil
  | call hrest ih =>
      rcases List.mem_cons.mp hmem with rfl | hmem
      · exact hrest.find?_of_held (find?_of_grants hgrants)
      · exact ih hmem

/-- What is held after calls was held before, or nothing was and it is what the first call that did
not fail came back with. -/
theorem find?_iff (hled : start.Led calls later) :
    later.find? t = some entry ↔
      start.find? t = some entry ∨ start.find? t = none ∧ FirstGranted calls t entry := by
  induction hled with
  | idle roster => simp [firstGranted_nil]
  | @call host id implementation name calls later hrest ih =>
      cases hheld : host.roster.find? t with
      | some held =>
          have hlater : later.find? t = some held :=
            hrest.find?_of_held ((grown_enrol id implementation name host).find? hheld)
          simp [hlater]
      | none =>
          simp only [reduceCtorEq, true_and, false_or]
          cases hnext :
              ((Enrolment.enrol id implementation name).perform host).2.roster.find? t with
          | some granted =>
              have hgrants := grants_of_find? hheld hnext
              obtain ⟨himplementation, hname⟩ := created_of_grants hheld hgrants
              rw [hrest.find?_of_held hnext]
              constructor
              · rintro ⟨⟩
                exact firstGranted_head calls hgrants himplementation hname
              · rintro ⟨earlier, first, rest, hcalls, hearlier, hfirst, -⟩
                cases earlier with
                | nil =>
                    cases hcalls
                    rw [Except.ok.inj (hgrants.2.symm.trans hfirst.2)]
                | cons other earlier =>
                    cases hcalls
                    exact absurd hgrants ((List.forall_mem_cons.mp hearlier).1 granted)
          | none =>
              have hrefused : ∀ held,
                  ¬ (EnrolmentCall.on host id implementation name).Grants t held := by
                intro held hgrants
                rw [find?_of_grants hgrants] at hnext
                cases hnext
              rw [firstGranted_tail_iff hrefused, ih, hnext]
              simp

end Roster.Led

/-! ## Everything that is done with a roster -/

/-- The ways to ask a roster for what it holds. -/
inductive RosterQuery
  | entry (id : Value)
  | implementation (id : Value)
  | handle (id : Value)
  | contains (id : Value)
  | ids
  | names

/-- What is asked on the host, without the answer. -/
def RosterQuery.operation : RosterQuery → Operation Unit
  | .entry id => do let _ ← Operation.ofExcept ((← get).roster.entry id)
  | .implementation id => do let _ ← Operation.ofExcept ((← get).roster.implementationOf id)
  | .handle id => do let _ ← Handle.ofRegistered id
  | .contains id => do let _ ← Operation.ofExcept ((← get).roster.contains id)
  | .ids => do let _ := (← get).roster.ids
  | .names => do let _ := (← get).roster.namesById

theorem perform_query (query : RosterQuery) (host : Host) :
    (query.operation.perform host).2 = host := by
  have hanswer : ∀ {α : Type} (answer : Roster → Except Failure α),
      ((do let _ ← Operation.ofExcept (answer (← get).roster) : Operation Unit).perform host).2 =
        host := by
    intro α answer
    rw [perform_bind, perform_get]
    simp only
    rw [perform_bind, perform_ofExcept]
    cases answer host.roster with
    | error failure => rfl
    | ok found => rfl
  cases query with
  | entry id => exact hanswer fun roster => roster.entry id
  | implementation id => exact hanswer fun roster => roster.implementationOf id
  | handle id =>
      rw [RosterQuery.operation, Handle.ofRegistered, perform_bind, perform_bind, perform_get]
      simp only
      cases host.roster.entry id with
      | error failure => rfl
      | ok found => rfl
  | contains id => exact hanswer fun roster => roster.contains id
  | ids => rfl
  | names => rfl

/-- What is done with a roster. An invocation is started, and then goes on from pause to pause. -/
inductive RosterUse
  | enrol (id : Value) (implementation : Implementation) (name : Value)
  | declare (id name : Value) (implementation : Implementation)
  | ask (query : RosterQuery)
  | invoke (reference : Reference) (arguments : List Datum) (key : Value)
  | resume (place : Nat)

/-- The call that declaring an action comes to, where it gets that far. -/
def Enrolment.callsOf (host : Host) (id name : Value) (implementation : Implementation) :
    List EnrolmentCall :=
  match Roster.nameFor implementation name with
  | .error _ => []
  | .ok fullName =>
    if id.isTruthy then [.on host id implementation fullName]
    else match implementation.derivedId host.roster.salt with
      | .ok derived => [.on host (.text derived) implementation fullName]
      | .error _ => []

theorem led_enrol (host : Host) (id : Value) (implementation : Implementation) (name : Value) :
    host.roster.Led [.on host id implementation name]
      ((Enrolment.enrol id implementation name).perform host).2.roster :=
  .call (.idle _)

theorem led_declare (host : Host) (id name : Value) (implementation : Implementation) :
    host.roster.Led (Enrolment.callsOf host id name implementation)
      ((Enrolment.declare id name implementation).perform host).2.roster := by
  have hrest : ∀ chosen fullName, host.roster.Led [.on host chosen implementation fullName]
      ((do
        let _ ← Enrolment.enrol chosen implementation fullName
        Operation.ofExcept (implementation.marked chosen)).perform host).2.roster := by
    intro chosen fullName
    have hled := led_enrol host chosen implementation fullName
    rw [perform_bind]
    -- marking the implementation comes last and leaves the roster alone
    cases henrol : (Enrolment.enrol chosen implementation fullName).perform host with
    | mk outcome after =>
        rw [henrol] at hled
        cases outcome with
        | error failure => exact hled
        | ok entry =>
            simp only
            rw [perform_ofExcept]
            exact hled
  rw [Enrolment.declare, Enrolment.callsOf, perform_bind, perform_ofExcept]
  cases Roster.nameFor implementation name with
  | error failure => exact .idle _
  | ok fullName =>
      simp only
      rw [perform_bind, perform_get]
      simp only
      by_cases hid : id.isTruthy
      · rw [if_pos hid, if_pos hid]
        exact hrest id fullName
      · rw [if_neg hid, if_neg hid]
        cases implementation.derivedId host.roster.salt with
        | error failure => exact .idle _
        | ok derived => exact hrest (.text derived) fullName

/-- A host with the invocations that were started on it. -/
structure RosterScene where
  host : Host
  invocations : List (Activity Datum)

namespace RosterScene

/-- The scene when something is done. Where no invocation has the place, nothing is. -/
def step (behaviour : Behaviour) (scene : RosterScene) : RosterUse → RosterScene
  | .enrol id implementation name =>
    { scene with host := ((Enrolment.enrol id implementation name).perform scene.host).2 }
  | .declare id name implementation =>
    { scene with host := ((Enrolment.declare id name implementation).perform scene.host).2 }
  | .ask query => { scene with host := (query.operation.perform scene.host).2 }
  | .invoke reference arguments key =>
    { scene with
      invocations := scene.invocations ++ [Invocation.run behaviour reference arguments key] }
  | .resume place =>
    match scene.invocations[place]? with
    | some invocation =>
      let (left, host) := invocation.advance scene.host
      ⟨host, scene.invocations.set place left⟩
    | none => scene

/-- The scene when several things are done, one after the other. -/
def after (behaviour : Behaviour) (scene : RosterScene) : List RosterUse → RosterScene
  | [] => scene
  | use :: rest => (scene.step behaviour use).after behaviour rest

/-- Whether these are the calls that are made when something is done. While an invocation works they
are whatever calls explain what becomes of the roster. -/
def Calls (behaviour : Behaviour) (scene : RosterScene) (use : RosterUse)
    (calls : List EnrolmentCall) : Prop :=
  match use with
  | .enrol id implementation name => calls = [.on scene.host id implementation name]
  | .declare id name implementation =>
    calls = Enrolment.callsOf scene.host id name implementation
  | .ask _ | .invoke _ _ _ => calls = []
  | .resume _ => scene.host.roster.Led calls (scene.step behaviour use).host.roster

/-- Whether these are the calls that are made when several things are done. -/
def AllCalls (behaviour : Behaviour) (scene : RosterScene) :
    List RosterUse → List EnrolmentCall → Prop
  | [], calls => calls = []
  | use :: rest, calls => ∃ now later, calls = now ++ later ∧ scene.Calls behaviour use now ∧
      (scene.step behaviour use).AllCalls behaviour rest later

/-- Whether every invocation touches the roster by enrolment alone. -/
def Orderly (scene : RosterScene) : Prop := ∀ invocation ∈ scene.invocations, invocation.Orderly

variable {behaviour : Behaviour} {scene : RosterScene}

/-- The calls that are made lead to the roster that is there afterwards. -/
theorem led_of_calls {use : RosterUse} {calls : List EnrolmentCall}
    (hcalls : scene.Calls behaviour use calls) :
    scene.host.roster.Led calls (scene.step behaviour use).host.roster := by
  cases use with
  | enrol id implementation name =>
      rw [hcalls]
      exact led_enrol scene.host id implementation name
  | declare id name implementation =>
      rw [hcalls]
      exact led_declare scene.host id name implementation
  | ask query =>
      rw [hcalls, step, perform_query]
      exact .idle _
  | invoke reference arguments key =>
      rw [hcalls]
      exact .idle _
  | resume place => exact hcalls

theorem led_of_allCalls {uses : List RosterUse} {calls : List EnrolmentCall}
    (hcalls : scene.AllCalls behaviour uses calls) :
    scene.host.roster.Led calls (scene.after behaviour uses).host.roster := by
  induction uses generalizing scene calls with
  | nil =>
      rw [hcalls]
      exact .idle _
  | cons use rest ih =>
      obtain ⟨now, later, rfl, hnow, hlater⟩ := hcalls
      exact (led_of_calls hnow).trans (ih hlater)

/-- Whatever is done makes some calls, and leaves a scene of the same kind. -/
theorem step_spec (hbehaviour : behaviour.Orderly) (hscene : scene.Orderly) (use : RosterUse) :
    (∃ calls, scene.Calls behaviour use calls) ∧ (scene.step behaviour use).Orderly := by
  cases use with
  | enrol id implementation name => exact ⟨⟨_, rfl⟩, hscene⟩
  | declare id name implementation => exact ⟨⟨_, rfl⟩, hscene⟩
  | ask query => exact ⟨⟨_, rfl⟩, hscene⟩
  | invoke reference arguments key =>
      refine ⟨⟨_, rfl⟩, fun invocation hmem => ?_⟩
      rcases List.mem_append.mp hmem with hmem | hmem
      · exact hscene invocation hmem
      · rw [List.mem_singleton.mp hmem]
        exact orderly_invocation hbehaviour reference arguments key
  | resume place =>
      suffices hstep : scene.host.roster.Grows (scene.step behaviour (.resume place)).host.roster ∧
          (scene.step behaviour (.resume place)).Orderly from
        ⟨Roster.Led.of_grows hstep.1, hstep.2⟩
      rw [step]
      split
      · next invocation hinvocation =>
          have horderly := hscene invocation (List.mem_of_getElem? hinvocation)
          obtain ⟨hgrown, hleft⟩ := Process.keeps_advance grown_accumulates
            (horderly scene.host)
          refine ⟨hgrown, fun other hmem => ?_⟩
          rcases List.mem_or_eq_of_mem_set hmem with hmem | rfl
          · exact hscene other hmem
          · exact hleft
      · exact ⟨.same _, hscene⟩

theorem exists_allCalls (hbehaviour : behaviour.Orderly) (hscene : scene.Orderly)
    (uses : List RosterUse) : ∃ calls, scene.AllCalls behaviour uses calls := by
  induction uses generalizing scene with
  | nil => exact ⟨[], rfl⟩
  | cons use rest ih =>
      obtain ⟨⟨now, hnow⟩, hnext⟩ := step_spec hbehaviour hscene use
      obtain ⟨later, hlater⟩ := ih hnext
      exact ⟨now ++ later, now, later, rfl, hnow, hlater⟩

/-- What comes of enrolling under an id that is taken. -/
theorem perform_enrol_of_taken {host : Host} {t : Text} {held : RosterEntry} (ht : t ≠ [])
    (hheld : host.roster.find? t = some held) (implementation : Implementation) (name : Value) :
    ∃ log, (Enrolment.enrol (.text t) implementation name).perform host =
      (if implementation.isCallable then
        if held.implementation.equal implementation then .ok held
        else .error (.duplicateAction (.text t))
      else .error (.misuse (.notCallable t)), { host with log := log }) := by
  obtain ⟨log, henrol⟩ := perform_enrol (.text t) implementation name host
  refine ⟨log, ?_⟩
  rw [henrol, Roster.admission.eq_2 _ _ _ _ ht, hheld]
  by_cases hcallable : implementation.isCallable
  · rw [if_pos hcallable, if_pos hcallable]
    by_cases hequal : held.implementation.equal implementation
    · simp only [hequal, if_true]
      rfl
    · simp only [hequal, Bool.false_eq_true, if_false]
  · rw [if_neg hcallable, if_neg hcallable]

/-- The first enrolment wins for good. Whatever is done with a roster, by its users and by the
implementations that are invoked, what is held under an id afterwards is what was held before, or,
where nothing was, what came back from the first call under the id that did not fail, with the
implementation and the name of that call; and whatever any call came back with is what is held. On
an id that is taken a call answers with what is held when the implementations are equal, and refuses
a different one as a duplicate and one that cannot be called as such. No call that fails changes the
roster, and no query changes anything. -/
theorem first_enrolment_stays (hbehaviour : behaviour.Orderly) (host : Host)
    (uses : List RosterUse) :
    (∃ calls, (RosterScene.mk host []).AllCalls behaviour uses calls) ∧
    (∀ calls, (RosterScene.mk host []).AllCalls behaviour uses calls → ∀ t entry,
      (((RosterScene.mk host []).after behaviour uses).host.roster.find? t = some entry ↔
        host.roster.find? t = some entry ∨
          host.roster.find? t = none ∧ FirstGranted calls t entry) ∧
      ∀ call ∈ calls, call.Grants t entry →
        ((RosterScene.mk host []).after behaviour uses).host.roster.find? t = some entry) ∧
    (∀ later, later = ((RosterScene.mk host []).after behaviour uses).host →
      (∀ t held implementation name, t ≠ [] → later.roster.find? t = some held →
        ∃ log, (Enrolment.enrol (.text t) implementation name).perform later =
          (if implementation.isCallable then
            if held.implementation.equal implementation then .ok held
            else .error (.duplicateAction (.text t))
          else .error (.misuse (.notCallable t)), { later with log := log })) ∧
      (∀ id implementation name failure refused,
        (Enrolment.enrol id implementation name).perform later = (.error failure, refused) →
          refused.roster = later.roster) ∧
      ∀ query, (RosterQuery.operation query).perform later =
        (((RosterQuery.operation query).perform later).1, later)) := by
  have hstart : Orderly ⟨host, []⟩ := by rintro _ ⟨⟩
  refine ⟨exists_allCalls hbehaviour hstart uses, ?_, ?_⟩
  · intro calls hcalls t entry
    have hled := led_of_allCalls hcalls
    exact ⟨hled.find?_iff, fun call hmem hgrants => hled.find?_of_mem hmem hgrants⟩
  · intro later hlater
    refine ⟨?_, ?_, ?_⟩
    · intro t held implementation name ht hheld
      exact perform_enrol_of_taken ht hheld implementation name
    · intro id implementation name failure refused hrefused
      obtain ⟨log, henrol⟩ := perform_enrol id implementation name later
      rw [hrefused] at henrol
      split at henrol
      · cases henrol
      · cases henrol
        rfl
    · intro query
      exact Prod.ext rfl (perform_query query later)

/-- Enrolling something that cannot be called under an id that is taken is not refused as a
duplicate. -/
theorem taken_not_always_duplicate :
    ¬ ∀ (host : Host) (t : Text) (held : RosterEntry) (implementation : Implementation)
      (name : Value), t ≠ [] → host.roster.find? t = some held →
        ((Enrolment.enrol (.text t) implementation name).perform host).1 =
          if held.implementation.equal implementation then .ok held
          else .error (.duplicateAction (.text t)) := by
  intro hclaim
  have hduplicate := hclaim Session.sample.host (Text.of "pay") _
    { Implementation.sample with serial := 2, kin := 2, isCallable := false } .null (by decide) rfl
  have huncallable : Except.error (Failure.misuse (.notCallable (Text.of "pay"))) =
      (Except.error (Failure.duplicateAction (.text (Text.of "pay"))) :
        Except Failure RosterEntry) := hduplicate
  cases huncallable

/-- Implementations that come back after a pause, when they have enrolled one more. -/
def enrolling : Behaviour := fun _ _ =>
  .pause (Activity.ofOperation do
    let _ ← Enrolment.enrol (Value.ofString "refund") .sample .null
    pure (.fixed .null))

theorem orderly_enrolling : Behaviour.Orderly enrolling := by
  intro implementation arguments host state
  refine Activity.orderly_ofOperation ?_ state
  apply respects_bind grown_accumulates (grown_enrol _ _ _)
  intro entry
  exact respects_pure grown_accumulates _

/-- Another implementation that stands where the first one does. -/
def rival : Implementation := { Implementation.sample with serial := 2, kin := 2 }

/-- An invocation enrols a second action, and then a rival is offered under its id. -/
def sampleUses : List RosterUse :=
  [.invoke (.ofSnapshot (Value.ofString "pay") (.tuple [])) [] .null, .resume 0, .resume 0,
    .ask (.entry (Value.ofString "ship")), .enrol (Value.ofString "refund") rival .null]

theorem first_enrolment_stays_sample :
    ∃ calls held, (RosterScene.mk Session.sample.host []).AllCalls enrolling sampleUses calls ∧
      FirstGranted calls (Text.of "refund") held ∧ held.implementation = .sample ∧
      ((RosterScene.mk Session.sample.host []).after enrolling sampleUses).host.roster.find?
        (Text.of "refund") = some held ∧
      ((Enrolment.enrol (Value.ofString "refund") rival .null).perform
        ((RosterScene.mk Session.sample.host []).after enrolling sampleUses).host).1 =
          .error (.duplicateAction (Value.ofString "refund")) := by
  obtain ⟨⟨calls, hcalls⟩, hheld, hlater⟩ :=
    first_enrolment_stays orderly_enrolling Session.sample.host sampleUses
  have hfound : ((RosterScene.mk Session.sample.host []).after enrolling
      sampleUses).host.roster.find? (Text.of "refund") =
        some ⟨Text.of "refund", .sample, .text (Text.of "shop:pay")⟩ := rfl
  have hnew : Session.sample.host.roster.find? (Text.of "refund") = none := rfl
  obtain ⟨log, hrefused⟩ := (hlater _ rfl).1 _ _ rival .null (by decide) hfound
  rcases (hheld calls hcalls _ _).1.mp hfound with hearlier | ⟨-, hfirst⟩
  · cases hnew.symm.trans hearlier
  · exact ⟨calls, _, hcalls, hfirst, rfl, hfound, congrArg Prod.fst hrefused⟩

end RosterScene

end SealedCall
