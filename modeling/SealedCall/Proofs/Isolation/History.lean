import SealedCall.Proofs.Isolation.Scene

/-! # Histories of captures

Whatever a program reaches stays inside one region of memory, which every step widens by new places
at most. The copies in an open reference lie in a region apart from it, and a sealed reference is
not in memory at all. So at any point of a history each reference gives back what was captured when
it was made, whatever has happened to the data since then.
-/

namespace SealedCall

open Memory Operation Relation

/-! ## Captures -/

/-- Only data that can be viewed are frozen. -/
theorem viewAll_of_freeze {region : Set Nat} {data copies : List Datum} {host later : Host}
    (hclosed : host.memory.Closed region) (hdata : Datum.AllInside region data)
    (hfreeze : (freeze data).perform host = (.ok copies, later)) :
    ∃ values, host.memory.viewAll data = some values := by
  induction data generalizing host copies later with
  | nil => exact ⟨[], rfl⟩
  | cons datum rest ih =>
      obtain ⟨-, hrest⟩ := List.forall_mem_cons.mp hdata
      rw [freeze] at hfreeze
      obtain ⟨first, _, hview, hfreeze⟩ := perform_bind_eq_ok hfreeze
      rw [perform_view] at hview
      split at hview
      · next value hfirst =>
          cases hview
          obtain ⟨copy, _, hplace, hfreeze⟩ := perform_bind_eq_ok hfreeze
          cases hplace
          obtain ⟨more, _, hmore, -⟩ := perform_bind_eq_ok hfreeze
          -- the rest is viewed behind the copy, where it views as before
          have hadds := (adds_place first host.memory).1
          have hagree : ∀ place ∈ region,
              (host.memory.place first).1.objects[place]? = host.memory.objects[place]? :=
            fun place hplace => hadds.agree (hclosed.allocated place hplace)
          obtain ⟨values, hvalues⟩ := ih (hclosed.of_agree hagree hadds.grown) hrest hmore
          rw [viewAll_of_agree hclosed hagree hrest] at hvalues
          refine ⟨first :: values, mapM_eq_some_iff.mpr (.cons hfirst ?_)⟩
          exact mapM_eq_some_iff.mp hvalues
      · cases hview

/-- Freezing what is in a closed region takes the values that it views as, and places copies. -/
theorem freeze_eq_ok {region : Set Nat} {data copies : List Datum} {host later : Host}
    (hclosed : host.memory.Closed region) (hdata : Datum.AllInside region data)
    (hfreeze : (freeze data).perform host = (.ok copies, later)) :
    ∃ values, host.memory.viewAll data = some values ∧
      copies = (host.memory.placeAll values).2 ∧
        later.memory = (host.memory.placeAll values).1 := by
  obtain ⟨values, hvalues⟩ := viewAll_of_freeze hclosed hdata hfreeze
  rw [perform_freeze hvalues] at hfreeze
  cases hfreeze
  exact ⟨values, hvalues, rfl, rfl⟩

namespace Issue

/-- Whether a reference gives back, on a host, the values that were captured for it: an open one
these values themselves, unless they hold objects without content or nest too deep, and a sealed one
what their encoding decodes to. -/
def Restores (issue : Issue) (host : Host) : Prop :=
  issue.reference.id = issue.id ∧
    ∃ values, issue.moment.memory.viewAll issue.data = some values ∧
      match issue.key with
      | none => (∀ value ∈ values, value.Placeable nestingLimit) →
          ∀ keyValue, issue.reference.Recovers keyValue host values
      | some key => ∃ octets restored, Snapshot.encode values = .ok octets ∧
          Snapshot.decode octets = .ok restored ∧
            issue.reference.Recovers (.bytes key.octets) host restored

/-- How a reference keeps what was captured: as copies in a region of their own apart from the
shared one, or enciphered. -/
inductive Kept (memory : Memory) (region : Set Nat) : Issue → Prop
  | apart {id : Value} {data copies : List Datum} {moment : Host} {values : Snapshot}
      {kept : Set Nat} (hview : moment.memory.viewAll data = some values)
      (hclosed : memory.Closed kept) (hdisjoint : Disjoint kept region)
      (hcopies : Datum.AllInside kept copies)
      (hsame : (∀ value ∈ values, value.Placeable nestingLimit) →
        memory.viewAll copies = some values) :
      Kept memory region ⟨.ofSnapshot id (.tuple copies), id, none, data, moment⟩
  | enciphered {reference : Reference} {key : Key} {data : List Datum} {moment : Host}
      {values restored : Snapshot} {octets : Octets}
      (hview : moment.memory.viewAll data = some values)
      (hencode : Snapshot.encode values = .ok octets)
      (hdecode : Snapshot.decode octets = .ok restored)
      (hrecovers : ∀ anywhere, reference.Recovers (.bytes key.octets) anywhere restored) :
      Kept memory region ⟨reference, reference.id, some key, data, moment⟩

variable {issue : Issue} {memory later : Memory} {region wider : Set Nat}

/-- What happens inside the shared region does not touch what is kept. -/
theorem Kept.of_leads (hkept : issue.Kept memory region)
    (hleads : memory.Leads region later wider) : issue.Kept later wider := by
  cases hkept with
  | apart hview hclosed hdisjoint hcopies hsame =>
      obtain ⟨hagree, happart⟩ := hleads.agree hclosed hdisjoint
      refine .apart hview (hclosed.of_agree hagree hleads.grown) happart hcopies ?_
      intro hplaceable
      rw [viewAll_of_agree hclosed hagree hcopies]
      exact hsame hplaceable
  | enciphered hview hencode hdecode hrecovers =>
      exact .enciphered hview hencode hdecode hrecovers

theorem Kept.restores {host : Host} (hkept : issue.Kept host.memory region) :
    issue.Restores host := by
  cases hkept with
  | apart hview _ _ _ hsame =>
      refine ⟨rfl, _, hview, fun hplaceable => ?_⟩
      exact Reference.recovers_ofSnapshot (hsame hplaceable) hplaceable
  | enciphered hview hencode hdecode hrecovers =>
      exact ⟨rfl, _, hview, _, _, hencode, hdecode, hrecovers host⟩

section

variable {moment host last : Host} {data copies : List Datum} {id : Value}

/-- An open reference keeps the copies that were made for it. -/
theorem kept_of_freeze (hshares : moment.memory.Shares region) (hdata : Datum.AllInside region data)
    (hfreeze : (freeze data).perform moment = (.ok copies, host)) :
    Kept host.memory region ⟨.ofSnapshot id (.tuple copies), id, none, data, moment⟩ := by
  obtain ⟨values, hview, rfl, hmemory⟩ := freeze_eq_ok hshares.toClosed hdata hfreeze
  rw [hmemory]
  obtain ⟨hadds, hcopies⟩ := adds_placeAll values moment.memory
  refine .apart hview hadds.closed ?_ hcopies fun hplaceable => viewAll_placeAll hplaceable _
  exact Set.disjoint_left.mpr fun place hnew hmem =>
    Nat.not_lt.mpr hnew.1 (hshares.allocated place hmem)

/-- A reference that is sealed right behind the capture keeps it in its ciphertext. -/
theorem kept_of_sealWith {key : Key} {reference : Reference} (hclosed : moment.memory.Closed region)
    (hdata : Datum.AllInside region data)
    (hfreeze : (freeze data).perform moment = (.ok copies, host))
    (hseal : ((Reference.ofSnapshot id (.tuple copies)).sealWith (.bytes key.octets)).perform host =
      (.ok reference, last)) :
    Kept memory wider ⟨reference, id, some key, data, moment⟩ := by
  obtain ⟨values, hview, rfl, hmemory⟩ := freeze_eq_ok hclosed hdata hfreeze
  obtain ⟨rfl, octets, restored, hencode, hdecode, hrecovers⟩ :=
    Reference.recovers_of_sealWith_placed hmemory hseal
  exact .enciphered hview hencode hdecode hrecovers

end

end Issue

/-! ## What each way of capturing leaves behind -/

section

variable {region : Set Nat} {host later : Host} {data : List Datum} {reference : Reference}

theorem kept_of_bind {handle : Handle} (hshares : host.memory.Shares region)
    (hdata : Datum.AllInside region data)
    (hbind : (handle.bind data).perform host = (.ok reference, later)) :
    Issue.Kept later.memory region ⟨reference, handle.id, none, data, host⟩ := by
  obtain ⟨copies, _, hfreeze, hbound⟩ := perform_bind_eq_ok hbind
  cases hbound
  exact Issue.kept_of_freeze hshares hdata hfreeze

theorem kept_of_issue {service : Service} {id : Value} (hshares : host.memory.Shares region)
    (hdata : Datum.AllInside region data)
    (hissue : (service.issue id data).perform host = (.ok reference, later)) :
    Issue.Kept later.memory region ⟨reference, id, some service.key, data, host⟩ := by
  obtain ⟨handle, _, hhandle, hbinds⟩ := perform_bind_eq_ok hissue
  obtain ⟨rfl, rfl⟩ := Handle.ofRegistered_eq_ok hhandle
  obtain ⟨opened, _, hbind, hseal⟩ := perform_bind_eq_ok hbinds
  obtain ⟨copies, _, hfreeze, hbound⟩ := perform_bind_eq_ok hbind
  cases hbound
  exact Issue.kept_of_sealWith hshares.toClosed hdata hfreeze hseal

theorem kept_of_captureOf {deferred : DeferredBind} {datum : Datum}
    (hshares : host.memory.Shares region) (hdatum : datum.Inside region)
    (hperform : (deferred.captureOf datum).perform host = (.ok reference, later)) :
    Issue.Kept later.memory region
      ⟨reference, deferred.id, deferred.key, (host.memory.items? datum).getD [], host⟩ := by
  obtain ⟨items, _, hspread, hcapture⟩ := perform_bind_eq_ok hperform
  obtain ⟨copies, _, hfreeze, hmake⟩ := perform_bind_eq_ok hcapture
  rw [spread, perform_bind, perform_get] at hspread
  simp only at hspread
  split at hspread
  · next data hitems =>
      cases hspread
      have hdata := inside_of_items? hshares.toClosed hdatum hitems
      rw [hitems, Option.getD_some]
      simp only at hmake
      split at hmake
      · next key hkey =>
          rw [hkey]
          exact Issue.kept_of_sealWith hshares.toClosed hdata hfreeze hmake
      · next hkey =>
          rw [hkey]
          cases hmake
          exact Issue.kept_of_freeze hshares hdata hfreeze
  · cases hspread

end

theorem addsMemory_captureOf (deferred : DeferredBind) (datum : Datum) :
    Respects AddsMemory (deferred.captureOf datum) := by
  unfold DeferredBind.captureOf
  apply respects_bind addsMemory_basic.toAccumulates
    (respects_spread addsMemory_basic.toPlacing datum)
  intro data
  apply respects_bind addsMemory_basic.toAccumulates
    (respects_freeze addsMemory_basic.toPlacing data)
  intro snapshot
  simp only
  split
  · exact respects_sealWith addsMemory_basic.toSilent _ _
  · exact respects_pure addsMemory_basic.toAccumulates _

namespace Scene

/-! ## Isolation -/

variable {service : Service} {behaviour : Behaviour} {scene : Scene} {region wider : Set Nat}

/-- Whether all that a program reaches is inside a region, and everything that was captured is kept
apart from it. -/
structure Isolated (scene : Scene) (region : Set Nat) : Prop where
  shares : scene.host.memory.Shares region
  held : Datum.AllInside region scene.held
  declared : ∀ deferral ∈ scene.declared, Datum.AllInside region deferral.captured ∧
    deferral.deferred.values.ConfinedOn deferral.captured
  issues : ∀ issue ∈ scene.issues, issue.Kept scene.host.memory region
  underway : ∀ activity ∈ scene.underway, activity.Waits region

namespace Isolated

/-- A program reaches nothing outside of the region. -/
theorem inside (hisolated : scene.Isolated region) {datum : Datum}
    (hreaches : scene.Reaches datum) : datum.Inside region := by
  induction hreaches with
  | fixed value => exact .fixed value
  | held hmem => exact hisolated.held _ hmem
  | bound hmem => exact hisolated.shares.bindings _ hmem
  | tuple _ ih => exact .tuple ih
  | component _ hmem ih => exact ih.items _ hmem
  | item _ hobject hmem ih => exact hisolated.shares.inside _ ih.place _ hobject _ hmem
  | value _ hobject hmem ih => exact hisolated.shares.inside _ ih.place _ hobject _ hmem

theorem allInside (hisolated : scene.Isolated region) {data : List Datum}
    (hreaches : ∀ datum ∈ data, scene.Reaches datum) : Datum.AllInside region data :=
  fun datum hmem => hisolated.inside (hreaches datum hmem)

/-- A scene stays isolated through any work on memory that begins inside the region. -/
theorem of_leads (hisolated : scene.Isolated region) {host : Host}
    (hleads : scene.host.memory.Leads region host.memory wider) :
    Isolated { scene with host := host } wider where
  shares := hleads.shares
  held := hisolated.held.mono hleads.widens
  declared deferral hmem :=
    (hisolated.declared deferral hmem).imp_left fun hdata => hdata.mono hleads.widens
  issues issue hmem := (hisolated.issues issue hmem).of_leads hleads
  underway activity hmem := (hisolated.underway activity hmem).mono hleads.widens

theorem with_held (hisolated : scene.Isolated region) {data : List Datum}
    (hdata : Datum.AllInside region data) :
    Isolated { scene with held := scene.held ++ data } region :=
  { hisolated with held := List.forall_mem_append.mpr ⟨hisolated.held, hdata⟩ }

theorem with_deferral (hisolated : scene.Isolated region) {deferral : Deferral}
    (hcaptured : Datum.AllInside region deferral.captured)
    (hvalues : deferral.deferred.values.ConfinedOn deferral.captured) :
    Isolated { scene with declared := scene.declared ++ [deferral] } region :=
  { hisolated with
    declared := List.forall_mem_append.mpr
      ⟨hisolated.declared, List.forall_mem_singleton.mpr ⟨hcaptured, hvalues⟩⟩ }

theorem with_issue (hisolated : scene.Isolated region) {issue : Issue}
    (hkept : issue.Kept scene.host.memory region) :
    Isolated { scene with issues := scene.issues ++ [issue] } region :=
  { hisolated with
    issues := List.forall_mem_append.mpr
      ⟨hisolated.issues, List.forall_mem_singleton.mpr hkept⟩ }

theorem with_activity (hisolated : scene.Isolated region) {activity : Activity Datum}
    (hwaits : activity.Waits region) :
    Isolated { scene with underway := scene.underway ++ [activity] } region :=
  { hisolated with
    underway := List.forall_mem_append.mpr
      ⟨hisolated.underway, List.forall_mem_singleton.mpr hwaits⟩ }

/-! ## Steps -/

/-- What is handed out belongs to the wider region. -/
theorem took (hisolated : scene.Isolated region) {operation : Operation (List Datum)}
    (hworks : operation.Works Datum.AllInside region scene.host) :
    ∃ wider, (scene.took (operation.perform scene.host)).Isolated wider := by
  obtain ⟨wider, hleads, hhanded⟩ := hworks
  generalize operation.perform scene.host = result at hleads hhanded ⊢
  obtain ⟨outcome, later⟩ := result
  have hmoved := hisolated.of_leads hleads
  cases outcome with
  | ok data => exact ⟨wider, hmoved.with_held (hhanded data rfl)⟩
  | error failure => exact ⟨wider, hmoved⟩

/-- An operation that only adds objects leaves them to the reference that it makes. -/
theorem issued (hisolated : scene.Isolated region) {operation : Operation Reference}
    {issue : Reference → Issue} (hadds : Respects AddsMemory operation)
    (hkept : ∀ reference later, operation.perform scene.host = (.ok reference, later) →
      (issue reference).Kept later.memory region) :
    ∃ wider, (scene.issued issue (operation.perform scene.host)).Isolated wider := by
  have hleads := ((hadds scene.host).leads hisolated.shares).1
  generalize operation.perform scene.host = result at hleads hkept ⊢
  obtain ⟨outcome, later⟩ := result
  have hmoved := hisolated.of_leads hleads
  cases outcome with
  | ok reference => exact ⟨region, hmoved.with_issue (hkept reference later rfl)⟩
  | error failure => exact ⟨region, hmoved⟩

/-- A call of a deferred bind reads first, as any other work does, and captures then. -/
theorem evaluated (hisolated : scene.Isolated region) {deferral : Deferral}
    (hmem : deferral ∈ scene.declared) :
    ∃ wider, (scene.issued (fun reference => ⟨reference, deferral.deferred.id,
      deferral.deferred.key, (deferral.deferred.reads scene.host).1,
      (deferral.deferred.reads scene.host).2⟩)
      (deferral.deferred.evaluate.perform scene.host)).Isolated wider := by
  obtain ⟨hcaptured, hvalues⟩ := hisolated.declared deferral hmem
  obtain ⟨wider, hleads, hdatum⟩ := hvalues region scene.host hisolated.shares hcaptured
  rw [DeferredBind.evaluate_eq, perform_bind, DeferredBind.reads]
  generalize deferral.deferred.values.perform scene.host = result at hleads hdatum ⊢
  obtain ⟨outcome, moment⟩ := result
  have hmoved := hisolated.of_leads hleads
  cases outcome with
  | error failure => exact ⟨wider, hmoved⟩
  | ok datum =>
      exact hmoved.issued (addsMemory_captureOf deferral.deferred datum)
        fun reference later hperform => kept_of_captureOf hleads.shares (hdatum datum rfl) hperform

/-- A turn of an activity leads to a wider region that its result belongs to. -/
theorem turned (hisolated : scene.Isolated region) {place : Nat} {activity : Activity Datum}
    (hactivity : scene.underway[place]? = some activity) :
    ∃ wider, (scene.turned place activity).Isolated wider := by
  have hwaits := hisolated.underway activity (List.mem_of_getElem? hactivity)
  obtain ⟨wider, hleads, hleft⟩ := Activity.leads_advance hisolated.shares
    (hwaits region scene.host (Set.Subset.refl region) hisolated.shares)
  have hmoved := hisolated.of_leads hleads
  rw [Scene.turned]
  generalize activity.advance scene.host = result at hleads hleft hmoved ⊢
  obtain ⟨left, later⟩ := result
  refine ⟨wider, hmoved.shares, ?_, hmoved.declared, hmoved.issues, ?_⟩
  · refine List.forall_mem_append.mpr ⟨hmoved.held, ?_⟩
    split
    · next datum hdone =>
        cases hdone
        exact List.forall_mem_singleton.mpr
          (hleft wider later (Set.Subset.refl wider) hleads.shares)
    · exact List.forall_mem_nil _
  · intro other hmem
    rcases List.mem_or_eq_of_mem_set hmem with hmem | rfl
    · exact hmoved.underway other hmem
    · exact hleft

end Isolated

/-- Every step keeps a scene isolated. -/
theorem isolated_step {next : Scene} (hbehaviour : behaviour.Confined)
    (hisolated : scene.Isolated region) (hstep : Step service behaviour scene next) :
    ∃ wider, next.Isolated wider := by
  have hshares := hisolated.shares
  cases hstep with
  | handle handling hdata =>
      refine hisolated.took ?_
      have hworks := handling.confinedOn region scene.host hshares (hisolated.allInside hdata)
      refine works_bind hworks fun datum later wider hshares _ hdatum => ?_
      exact works_pure hshares (List.forall_mem_singleton.mpr hdatum)
  | bind handle hdata =>
      exact hisolated.issued (respects_bindData addsMemory_basic.toPlacing handle _)
        fun reference later hbind => kept_of_bind hshares (hisolated.allInside hdata) hbind
  | issue id hdata =>
      exact hisolated.issued (respects_issue addsMemory_basic.toSilent service id _)
        fun reference later hissue => kept_of_issue hshares (hisolated.allInside hdata) hissue
  | declare deferred hcaptured hvalues =>
      exact ⟨region, hisolated.with_deferral (hisolated.allInside hcaptured) hvalues⟩
  | evaluate hmem => exact hisolated.evaluated hmem
  | @recover issue hmem keyValue =>
      have hfresh := fresh_recover issue.reference keyValue
      exact hisolated.took (works_of_fresh widens_allInside hfresh hshares)
  | @invoke issue hmem arguments harguments =>
      have hconfined := confinedOn_run hbehaviour service issue.reference arguments
      exact ⟨region, hisolated.with_activity (hconfined.waits (hisolated.allInside harguments))⟩
  | @invokeWritten data arguments harguments =>
      have hconfined := confinedOn_runWritten hbehaviour service data arguments
      exact ⟨region, hisolated.with_activity (hconfined.waits (hisolated.allInside harguments))⟩
  | start hdata hactivity =>
      exact ⟨region, hisolated.with_activity (hactivity.waits (hisolated.allInside hdata))⟩
  | turn hactivity => exact hisolated.turned hactivity
  | @elsewhere host hmemory =>
      refine ⟨region, hisolated.of_leads ?_⟩
      rw [hmemory]
      exact Leads.refl hshares

theorem isolated_history {start : Host} (hbehaviour : behaviour.Confined)
    (hstart : start.memory.Shares region)
    (hhistory : ReflTransGen (Step service behaviour) (initial start) scene) :
    ∃ wider, scene.Isolated wider := by
  -- on the history, step by step; the region goes along with it
  induction hhistory with
  | refl => exact ⟨region, hstart, nofun, nofun, nofun, nofun⟩
  | tail _ hstep ih =>
      obtain ⟨wider, hisolated⟩ := ih
      exact isolated_step hbehaviour hisolated hstep

/-- Declaring a bind for a registered action only puts its parts together. -/
theorem deferred_of_declared {id : Value} {values : Operation Datum} {key : Option Key}
    {host later : Host} {deferred : DeferredBind}
    (hdeclare : Operation.perform (do return (⟨(← Handle.ofRegistered id).id, values, key⟩ :
      DeferredBind)) host = (.ok deferred, later)) :
    deferred = ⟨id, values, key⟩ ∧ later = host := by
  obtain ⟨handle, _, hhandle, hdeferred⟩ := perform_bind_eq_ok hdeclare
  obtain ⟨rfl, rfl⟩ := Handle.ofRegistered_eq_ok hhandle
  cases hdeferred
  exact ⟨rfl, rfl⟩

/-- At any point of a history each reference restores what was captured for it, as it stood when the
reference was made. Where a bind was declared makes no difference: declaring leaves the host as it
is, and what is declared is the same on every host. -/
theorem history_isolates {start : Host} (hbehaviour : behaviour.Confined)
    (hstart : start.memory.Shares region)
    (hhistory : ReflTransGen (Step service behaviour) (initial start) scene) :
    (∀ issue ∈ scene.issues, issue.Restores scene.host) ∧
      (∀ id values host deferred later,
        (service.defer id values).perform host = (.ok deferred, later) →
          deferred = ⟨id, values, some service.key⟩ ∧ later = host) ∧
      (∀ id values host deferred later,
        (DeferredBind.ofRegistered id values).perform host = (.ok deferred, later) →
          deferred = ⟨id, values, none⟩ ∧ later = host) := by
  refine ⟨fun issue hmem => ?_, ?_, ?_⟩
  · obtain ⟨wider, hisolated⟩ := isolated_history hbehaviour hstart hhistory
    exact (hisolated.issues issue hmem).restores
  · exact fun id values host deferred later hdeclare => deferred_of_declared hdeclare
  · exact fun id values host deferred later hdeclare => deferred_of_declared hdeclare

end Scene

/-! ## A history with a change to an argument -/

/-- Implementations that all put a mark into the list that they are given first. -/
def Behaviour.marking : Behaviour :=
  fun _ arguments => Activity.ofOperation (StockAction.markFirst arguments)

theorem Operation.works_markFirst {region : Set Nat} {host : Host} {arguments : List Datum}
    (hshares : host.memory.Shares region) (harguments : Datum.AllInside region arguments) :
    Works Datum.Inside (StockAction.markFirst arguments) region host := by
  cases arguments with
  | nil => exact works_fail hshares _
  | cons first rest =>
      have hfirst := harguments first List.mem_cons_self
      unfold StockAction.markFirst
      apply works_get
      simp only
      split
      · next place items hobject =>
          have hitems : Object.Inside region (.list items) :=
            inside_of_object? hshares.toClosed hfirst hobject
          have hmarked : Object.Inside region
              (.list (items ++ [.fixed (Value.ofString "x")])) :=
            List.forall_mem_append.mpr ⟨hitems, List.forall_mem_singleton.mpr (.fixed _)⟩
          have hchange : Works NoPlaces (Variables.change place
              (.list (items ++ [.fixed (Value.ofString "x")]))) region host :=
            works_change hshares hfirst.place hmarked
          refine works_bind hchange fun _ later wider hshares hwider _ => ?_
          exact works_listOf hshares (Datum.AllInside.mono hmarked hwider)
      · exact works_fail hshares _
      · exact works_fail hshares _

theorem Behaviour.confined_marking : Behaviour.marking.Confined :=
  fun _ _ _ _ hshares harguments =>
    Activity.confined_ofOperation (works_markFirst hshares harguments)

namespace Scene

/-- A list is bound and gets another item then, and the action puts a mark into the list that it is
called with. -/
theorem history_isolates_sample : ∃ (scene : Scene) (reference : Reference),
    ReflTransGen (Step Service.sample .marking) (initial Session.sample.host) scene ∧
      scene.host.memory.view (.object 0) =
        some (.list [Value.ofString "a", Value.ofString "b"]) ∧
      scene.underway = [.done (.ok (.object 3))] ∧
      scene.host.memory.view (.object 3) =
        some (.list [Value.ofString "a", Value.ofString "x"]) ∧
      ∀ keyValue, reference.Recovers keyValue scene.host [.list [Value.ofString "a"]] := by
  have hstart : Session.sample.host.memory.Shares ∅ := ⟨⟨nofun, nofun⟩, nofun⟩
  have hcreated : ReflTransGen (Step Service.sample .marking) (initial Session.sample.host) _ :=
    .single (.handle (.create (.list [Value.ofString "a"])) nofun)
  have hbound := hcreated.tail (.bind ⟨Value.ofString "pay"⟩
    (List.forall_mem_singleton.mpr (.held (List.mem_singleton.mpr rfl))))
  have happended := hbound.tail (.handle (.append (.object 0) (.fixed (Value.ofString "b")))
    (List.forall_mem_cons.mpr ⟨.held (List.mem_singleton.mpr rfl),
      List.forall_mem_singleton.mpr (.fixed _)⟩))
  have hinvoked := happended.tail (.invoke (List.mem_singleton.mpr rfl) (List.forall_mem_nil _))
  have hturned := hinvoked.tail (.turn List.getElem?_cons_zero)
  obtain ⟨hissues, -, -⟩ := history_isolates Behaviour.confined_marking hstart hturned
  obtain ⟨-, values, hview, hrestores⟩ := hissues _ (List.mem_singleton.mpr rfl)
  cases hview
  refine ⟨_, _, hturned, rfl, rfl, rfl, hrestores ?_⟩
  exact List.forall_mem_singleton.mpr (.list (List.forall_mem_singleton.mpr (.plain rfl)))

end Scene

end SealedCall
