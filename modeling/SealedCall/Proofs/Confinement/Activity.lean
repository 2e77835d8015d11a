import SealedCall.Proofs.Confinement.Operation
import SealedCall.Proofs.Session

/-! # Confined activities

An activity that shares a region of memory with others is confined to it when each of its steps is.
While it is paused, the others may widen the region and change whatever is inside of it, so what is
left of the activity has to be confined to every wider region, on every host that shares it.
-/

namespace SealedCall

open Memory Operation

namespace Activity

variable {α : Type} {region wider : Set Nat} {host : Host}

/-- Whether all steps of an activity stay inside of a shared region, and its result as well. -/
def Confined : Activity Datum → Set Nat → Host → Prop
  | .done (.ok datum), region, _ => datum.Inside region
  | .done (.error _), _, _ => True
  | .inspect next, region, host => Confined (next host) region host
  | .update after next, region, host =>
    ∃ wider, host.memory.Leads region after.memory wider ∧ Confined next wider after
  | .pause next, region, _ =>
    ∀ wider (later : Host), region ⊆ wider → later.memory.Shares wider →
      Confined next wider later

/-- Whether an activity is confined to a region whenever it is given a turn. -/
def Waits (activity : Activity Datum) (region : Set Nat) : Prop :=
  ∀ wider later, region ⊆ wider → later.memory.Shares wider → activity.Confined wider later

/-- Whether an activity is confined to every region that some data are in. -/
def ConfinedOn (data : List Datum) (activity : Activity Datum) : Prop :=
  ∀ region host, host.memory.Shares region → Datum.AllInside region data →
    activity.Confined region host

theorem Waits.mono {activity : Activity Datum} (hwaits : activity.Waits region)
    (hwider : region ⊆ wider) : activity.Waits wider :=
  fun widest later hwidest hshares => hwaits widest later (hwider.trans hwidest) hshares

theorem ConfinedOn.waits {data : List Datum} {activity : Activity Datum}
    (hactivity : activity.ConfinedOn data) (hdata : Datum.AllInside region data) :
    activity.Waits region :=
  fun wider later hwider hshares => hactivity wider later hshares (hdata.mono hwider)

theorem confined_ofOperation {operation : Operation Datum}
    (hoperation : operation.Works Datum.Inside region host) :
    Confined (ofOperation operation) region host := by
  obtain ⟨wider, hleads, hhanded⟩ := hoperation
  have hstep : ofOperation operation = .inspect fun host =>
      .update (operation.perform host).2 (.done (operation.perform host).1) := rfl
  rw [hstep]
  refine ⟨wider, hleads, ?_⟩
  generalize operation.perform host = result at hhanded ⊢
  obtain ⟨outcome, after⟩ := result
  cases outcome with
  | error failure => exact True.intro
  | ok datum => exact hhanded datum rfl

/-- An operation leads over to an activity that is confined to the region after it. -/
theorem confined_bind {handed : Set Nat → α → Prop} {operation : Operation α}
    {next : α → Activity Datum} (hoperation : operation.Works handed region host)
    (hnext : ∀ value wider later, later.memory.Shares wider → region ⊆ wider →
      handed wider value → (next value).Confined wider later) :
    Confined ((ofOperation operation).bind next) region host := by
  obtain ⟨wider, hleads, hhanded⟩ := hoperation
  have hstep : (ofOperation operation).bind next = .inspect fun host =>
      .update (operation.perform host).2
        ((Process.done (operation.perform host).1).bind next) := rfl
  rw [hstep]
  refine ⟨wider, hleads, ?_⟩
  generalize operation.perform host = result at hleads hhanded ⊢
  obtain ⟨outcome, after⟩ := result
  cases outcome with
  | error failure => exact True.intro
  | ok value => exact hnext value wider after hleads.shares hleads.widens (hhanded value rfl)

/-- What follows on a confined activity goes on in the region that is shared by then. -/
theorem confined_andThen {activity : Activity Datum} {next : Except Failure Datum → Activity Datum}
    (hshares : host.memory.Shares region) (hactivity : activity.Confined region host)
    (hnext : ∀ outcome wider later, later.memory.Shares wider → region ⊆ wider →
      (∀ datum, outcome = .ok datum → datum.Inside wider) → (next outcome).Confined wider later) :
    Confined (activity.andThen next) region host := by
  induction activity generalizing region host with
  | done outcome =>
      refine hnext outcome region host hshares (Set.Subset.refl region) ?_
      rintro datum rfl
      exact hactivity
  | inspect more ih => exact ih host hshares hactivity hnext
  | update after more ih =>
      obtain ⟨wider, hleads, hmore⟩ := hactivity
      refine ⟨wider, hleads, ih hleads.shares hmore ?_⟩
      exact fun outcome widest later hlater hwidest => hnext outcome widest later hlater
        (hleads.widens.trans hwidest)
  | pause more ih =>
      intro wider later hwider hlater
      refine ih hlater (hactivity wider later hwider hlater) ?_
      exact fun outcome widest last hlast hwidest => hnext outcome widest last hlast
        (hwider.trans hwidest)

/-- A turn of a confined activity leads to a wider region, to which what is left is confined. -/
theorem leads_advance {activity : Activity Datum} (hshares : host.memory.Shares region)
    (hactivity : activity.Confined region host) :
    ∃ wider, host.memory.Leads region (activity.advance host).2.memory wider ∧
      Waits (activity.advance host).1 wider := by
  induction activity generalizing region host with
  | done outcome =>
      refine ⟨region, Leads.refl hshares, fun wider later hwider _ => ?_⟩
      cases outcome with
      | error failure => exact True.intro
      | ok datum => exact Datum.Inside.mono hactivity hwider
  | inspect more ih => exact ih host hshares hactivity
  | update after more ih =>
      obtain ⟨wider, hleads, hmore⟩ := hactivity
      obtain ⟨widest, hlater, hwaits⟩ := ih hleads.shares hmore
      exact ⟨widest, hleads.trans hlater, hwaits⟩
  | pause more _ => exact ⟨region, Leads.refl hshares, hactivity⟩

end Activity

open Activity

/-- Whether all implementations are confined to what they are called with and the variables. -/
def Behaviour.Confined (behaviour : Behaviour) : Prop :=
  ∀ implementation arguments, (behaviour implementation arguments).ConfinedOn arguments

/-! ## Invocations -/

section

variable {region : Set Nat} {host : Host} {behaviour : Behaviour}

theorem works_prepare (hshares : host.memory.Shares region) (reference : Reference)
    (key : Value) :
    (Invocation.prepare reference key).Works
      (fun region prepared => Datum.AllInside region prepared.1) region host := by
  unfold Invocation.prepare
  refine works_bind (works_of_fresh widens_allInside (fresh_recover reference key) hshares) ?_
  intro recovered later wider hshares _ hrecovered
  apply works_get
  have hlookup : Works NoPlaces
      (Operation.ofExcept (later.roster.implementationOf reference.id)) wider later := by
    rw [Works, perform_ofExcept]
    exact ⟨wider, Leads.refl hshares, fun _ _ => True.intro⟩
  refine works_bind hlookup fun implementation last widest hshares hwidest _ => ?_
  exact works_pure hshares (hrecovered.mono hwidest)

theorem works_raisedBy (hshares : host.memory.Shares region) (id : Value) (cause : Failure) :
    (Invocation.raisedBy id cause).Works Datum.Inside region host :=
  ⟨region, Leads.refl hshares, nofun⟩

theorem confined_apply (hbehaviour : behaviour.Confined) (hshares : host.memory.Shares region)
    (id : Value) (implementation : Implementation) {arguments : List Datum}
    (harguments : Datum.AllInside region arguments) :
    (Invocation.apply behaviour id implementation arguments).Confined region host := by
  unfold Invocation.apply
  refine confined_andThen hshares
    (hbehaviour implementation arguments region host hshares harguments) ?_
  intro outcome wider later hshares _ hinside
  cases outcome with
  | ok result => exact hinside result rfl
  | error failure =>
      simp only
      split
      · exact True.intro
      · exact confined_ofOperation (works_raisedBy hshares id failure)

/-- Invoking a reference hands out copies alone, so it is as confined as the implementations. -/
theorem confinedOn_run (hbehaviour : behaviour.Confined) (service : Service)
    (reference : Reference) (arguments : List Datum) :
    (service.run behaviour reference arguments).ConfinedOn arguments := by
  intro region host hshares harguments
  unfold Service.run Invocation.run Invocation.spanned
  refine confined_andThen hshares ?_ ?_
  · refine confined_bind (works_prepare hshares reference service.keyValue) ?_
    intro prepared wider later hshares hwider hprepared
    refine confined_apply hbehaviour hshares reference.id prepared.2 fun datum hmem => ?_
    rcases List.mem_append.mp hmem with hmem | hmem
    · exact hprepared datum hmem
    · exact (harguments datum hmem).mono hwider
  · intro outcome wider later hshares _ hinside
    refine ⟨wider, Leads.refl hshares, ?_⟩
    cases outcome with
    | ok datum => exact hinside datum rfl
    | error failure => exact True.intro

theorem confinedOn_runWritten (hbehaviour : behaviour.Confined) (service : Service) (data : Value)
    (arguments : List Datum) :
    (service.runWritten behaviour data arguments).ConfinedOn arguments := by
  unfold Service.runWritten
  split
  · exact confinedOn_run hbehaviour service _ arguments
  · exact fun _ _ _ _ => True.intro

end

end SealedCall
