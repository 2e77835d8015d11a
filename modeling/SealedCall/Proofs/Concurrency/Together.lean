import SealedCall.Proofs.Concurrency.Invocation
import SealedCall.Proofs.Concurrency.Schedule

/-! # Invocations together

Invocations that are started together, each with places of its own, and whose implementations depend
on nothing else, end as each of them would alone, in whatever order they have their turns. The
places of their own stay apart as they go along, so that no turn disturbs what another one has seen.
-/

namespace SealedCall

open Memory Scheduling

variable {shared : Set Nat} {together later last : Shared Host Failure Datum}
  {own wider widest : Nat → Set Nat} {settlements rests left least : List Settlement}

/-! ## Turns -/

/-- What one of several has added is missing from what all have to add. -/
theorem perm_flatMap_set {place : Nat} {settlement rest : Settlement} {added : List Span}
    (hsettlement : rests[place]? = some settlement)
    (hspans : settlement.spans = added ++ rest.spans) :
    (rests.flatMap (·.spans)).Perm (added ++ (rests.set place rest).flatMap (·.spans)) := by
  induction rests generalizing place with
  | nil => cases hsettlement
  | cons first others ih =>
      cases place with
      | zero =>
          cases hsettlement
          rw [List.set_cons_zero, List.flatMap_cons, List.flatMap_cons, hspans, List.append_assoc]
      | succ place =>
          rw [List.set_cons_succ, List.flatMap_cons, List.flatMap_cons]
          exact ((ih hsettlement).append_left _).trans (List.perm_append_comm_assoc _ _ _)

theorem map_outcome_set {place : Nat} {settlement : Settlement}
    (hsettlement : rests[place]? = some settlement) (spans : List Span) :
    (rests.set place ⟨settlement.outcome, spans⟩).map (·.outcome) = rests.map (·.outcome) := by
  refine List.ext_getElem? fun other => ?_
  rw [List.getElem?_map, List.getElem?_map]
  by_cases heq : place = other
  · subst heq
    rw [List.getElem?_set_self (List.getElem?_eq_some_iff.mp hsettlement).1, hsettlement]
    rfl
  · rw [List.getElem?_set_ne heq]

/-- Whether activities that share a host have places of their own, and each of them has something to
settle, which it comes to as long as its places are undisturbed. -/
structure Underway (shared : Set Nat) (together : Shared Host Failure Datum) (own : Nat → Set Nat)
    (rests : List Settlement) : Prop where
  waits : ∀ place activity, together.processes[place]? = some activity →
    ∃ rest, rests[place]? = some rest ∧
      ∀ host, Undisturbed (own place ∪ shared) together.state host →
        Activity.Settles shared activity (own place) host rest
  allocated : ∀ place, ∀ object ∈ own place ∪ shared, object < together.state.memory.objects.size
  apart : ∀ place other, place ≠ other → Disjoint (own place ∪ shared) (own other)

/-- Whether several activities have gone on from what they had to settle to what is left of it, with
the spans added that are not left, and the same outcomes to come to. -/
structure Passes (together : Shared Host Failure Datum) (rests : List Settlement)
    (later : Shared Host Failure Datum) (left : List Settlement) : Prop where
  outcomes : left.map (·.outcome) = rests.map (·.outcome)
  spans : ∃ added, later.state.spans = together.state.spans ++ added ∧
    (rests.flatMap (·.spans)).Perm (added ++ left.flatMap (·.spans))

namespace Passes

theorem refl (together : Shared Host Failure Datum) (rests : List Settlement) :
    Passes together rests together rests :=
  ⟨rfl, [], (List.append_nil _).symm, .refl _⟩

theorem trans (hfirst : Passes together rests later left)
    (hsecond : Passes later left last least) : Passes together rests last least := by
  obtain ⟨added, hadded, hperm⟩ := hfirst.spans
  obtain ⟨more, hmore, hleft⟩ := hsecond.spans
  refine ⟨hsecond.outcomes.trans hfirst.outcomes, added ++ more, ?_, ?_⟩
  · rw [hmore, hadded, List.append_assoc]
  · rw [List.append_assoc]
    exact hperm.trans (hleft.append_left added)

end Passes

namespace Underway

section

variable {place : Nat} {grown : Set Nat} {host : Host}
  (hunderway : Underway shared together own rests)
  (hchanges : Changes (own place) grown together.state host)
include hunderway hchanges

/-- What changes the places of one activity leaves those of the others. -/
theorem undisturbed_other {other : Nat} (hne : other ≠ place) :
    Undisturbed (own other ∪ shared) together.state host :=
  hchanges.undisturbed (hunderway.allocated other) (hunderway.apart other place hne)

theorem waits_other {other : Nat} (hne : other ≠ place) {activity : Activity Datum}
    (hactivity : together.processes[other]? = some activity) (left : Settlement) :
    ∃ rest, (rests.set place left)[other]? = some rest ∧
      ∀ later, Undisturbed (Function.update own place grown other ∪ shared) host later →
        Activity.Settles shared activity (Function.update own place grown other) later rest := by
  obtain ⟨rest, hrest, hwaits⟩ := hunderway.waits other activity hactivity
  refine ⟨rest, (List.getElem?_set_ne hne.symm).trans hrest, ?_⟩
  rw [Function.update_of_ne hne]
  exact fun later hundisturbed =>
    hwaits later ((hunderway.undisturbed_other hchanges hne).trans hundisturbed)

theorem allocated_update (other : Nat) :
    ∀ object ∈ Function.update own place grown other ∪ shared,
      object < host.memory.objects.size := by
  intro object hmem
  by_cases heq : other = place
  · subst heq
    rw [Function.update_self] at hmem
    rcases hmem with hgrown | hshared
    · exact hchanges.allocated
        (fun object hown => hunderway.allocated other object (.inl hown)) object hgrown
    · exact (hunderway.allocated other object (.inr hshared)).trans_le hchanges.grown
  · rw [Function.update_of_ne heq] at hmem
    exact (hunderway.allocated other object hmem).trans_le hchanges.grown

/-- The places that one activity has more are new, so they are apart from all others. -/
theorem apart_update {first second : Nat} (hne : first ≠ second) :
    Disjoint (Function.update own place grown first ∪ shared)
      (Function.update own place grown second) := by
  by_cases hsecond : second = place
  · subst hsecond
    rw [Function.update_self, Function.update_of_ne hne]
    exact hchanges.disjoint (hunderway.allocated first) (hunderway.apart first second hne)
  · rw [Function.update_of_ne hsecond]
    by_cases hfirst : first = place
    · subst hfirst
      obtain ⟨hown, hshared⟩ := Set.disjoint_union_left.mp (hunderway.apart first second hne)
      rw [Function.update_self]
      refine Set.disjoint_union_left.mpr ⟨(hchanges.disjoint ?_ hown.symm).symm, hshared⟩
      exact fun object hmem => hunderway.allocated second object (.inl hmem)
    · rw [Function.update_of_ne hfirst]
      exact hunderway.apart first second hne

end

/-- A turn of one activity widens its own places and disturbs none of the others. -/
theorem resume (hunderway : Underway shared together own rests) (place : Nat) :
    ∃ wider left, Underway shared (together.resume place) wider left ∧
      Passes together rests (together.resume place) left ∧
      ∀ other, other ≠ place → wider other = own other ∧
        Undisturbed (own other ∪ shared) together.state (together.resume place).state := by
  cases hprocess : together.processes[place]? with
  | none =>
      have hsame : together.resume place = together := by rw [Shared.resume, hprocess]
      rw [hsame]
      exact ⟨own, rests, hunderway, .refl _ _, fun other _ => ⟨rfl, .refl _ _⟩⟩
  | some activity =>
      obtain ⟨rest, hrest, hsettles⟩ := hunderway.waits place activity hprocess
      obtain ⟨grown, spans, less, hchanges, hadded, hspans, hleft⟩ :=
        Activity.settles_advance (hsettles together.state (.refl _ _))
      rw [Shared.resume_of_process hprocess]
      refine ⟨Function.update own place grown, rests.set place ⟨rest.outcome, less⟩,
        ⟨?_, hunderway.allocated_update hchanges, fun _ _ => hunderway.apart_update hchanges⟩,
        ⟨map_outcome_set hrest less, spans, hadded, perm_flatMap_set hrest hspans⟩,
        fun other hne =>
          ⟨Function.update_of_ne hne _ _, hunderway.undisturbed_other hchanges hne⟩⟩
      intro other process hother
      by_cases heq : other = place
      · subst heq
        rw [List.getElem?_set_self (List.getElem?_eq_some_iff.mp hprocess).1] at hother
        cases hother
        refine ⟨_, List.getElem?_set_self (List.getElem?_eq_some_iff.mp hrest).1, ?_⟩
        rw [Function.update_self]
        exact hleft
      · rw [List.getElem?_set_ne (Ne.symm heq)] at hother
        exact hunderway.waits_other hchanges heq hother _

/-- So it is over turns in any order, and what has had no turn is undisturbed. -/
theorem after (hunderway : Underway shared together own rests) (schedule : List Nat) :
    ∃ wider left, Underway shared (together.after schedule) wider left ∧
      Passes together rests (together.after schedule) left ∧
      ∀ other, other ∉ schedule →
        Undisturbed (own other ∪ shared) together.state (together.after schedule).state := by
  -- on the order, from its front; the places that activities have of their own go along
  induction schedule generalizing together own rests with
  | nil => exact ⟨own, rests, hunderway, .refl _ _, fun _ _ => .refl _ _⟩
  | cons place schedule ih =>
      obtain ⟨wider, left, hresumed, hpasses, hothers⟩ := hunderway.resume place
      obtain ⟨widest, least, hlater, hmore, hwaiting⟩ := ih hresumed
      refine ⟨widest, least, hlater, hpasses.trans hmore, fun other hother => ?_⟩
      obtain ⟨hsame, hundisturbed⟩ := hothers other (List.ne_of_not_mem_cons hother)
      have hrest := hwaiting other (List.not_mem_of_not_mem_cons hother)
      rw [hsame] at hrest
      exact hundisturbed.trans hrest

end Underway

/-! ## Invocations that are started together -/

/-- Whether invocations have places of their own apart from each other, beside some that they share,
and refer to nothing else. What an open reference holds may be shared, and so may arguments. -/
structure Apart (orders : List (Reference × List Datum)) (start : Host) (own : Nat → Set Nat)
    (shared : Set Nat) : Prop where
  closed : ∀ place, start.memory.Closed (own place ∪ shared)
  apart : ∀ place other, place ≠ other → Disjoint (own place ∪ shared) (own other)
  snapshot : ∀ place (order : Reference × List Datum), orders[place]? = some order →
    order.1.snapshot.Inside (own place ∪ shared)

namespace Service

variable {service : Service} {behaviour : Behaviour} {orders : List (Reference × List Datum)}
  {start : Host} {order : Reference × List Datum}

/-- Invocations at the moment when they are started together. -/
def started (service : Service) (behaviour : Behaviour) (orders : List (Reference × List Datum))
    (start : Host) : Shared Host Failure Datum :=
  ⟨orders.map fun order => service.run behaviour order.1 order.2, start⟩

/-- What an invocation comes to that has the host to itself: what is reported of it, and the spans
that it adds. -/
def alone (service : Service) (behaviour : Behaviour) (start : Host)
    (order : Reference × List Datum) : Settlement :=
  ⟨report ((service.run behaviour order.1 order.2).run start).2.memory
      ((service.run behaviour order.1 order.2).run start).1,
    ((service.run behaviour order.1 order.2).run start).2.spans.drop start.spans.length⟩

/-- Whether an invocation that was started with others can find a host when it has its first
turn. -/
def MayFind (together : Shared Host Failure Datum) (place : Nat) (host : Host) : Prop :=
  ∃ schedule, place ∉ schedule ∧ (together.after schedule).state = host

/-- An invocation that has the host to itself comes to its settlement, so this is the only one. -/
theorem alone_eq {places : Set Nat} {settlement : Settlement}
    (hsettles : Activity.Settles shared (service.run behaviour order.1 order.2) places start
      settlement) :
    service.alone behaviour start order = settlement ∧
      ((service.run behaviour order.1 order.2).run start).2.spans =
        start.spans ++ settlement.spans := by
  obtain ⟨hreport, hspans⟩ := Activity.settles_run hsettles
  refine ⟨?_, hspans⟩
  rw [alone, hreport, hspans, List.drop_left]

/-- Each invocation has its fate, whatever others do in the meantime, and settles for what it comes
to alone. -/
theorem settles_alone (hapart : Apart orders start own shared)
    (hindependent : ∀ place (order : Reference × List Datum), orders[place]? = some order →
      service.Independent behaviour start (own place) shared order.1 order.2)
    {place : Nat} (horder : orders[place]? = some order) :
    service.Fate behaviour start.roster (Undisturbed (own place ∪ shared) start) order.1 order.2
      (service.alone behaviour start order) ∧
    (∀ host, Undisturbed (own place ∪ shared) start host →
      Activity.Settles shared (service.run behaviour order.1 order.2) (own place) host
        (service.alone behaviour start order)) ∧
    ((service.run behaviour order.1 order.2).run start).2.spans =
      start.spans ++ (service.alone behaviour start order).spans := by
  obtain ⟨settlement, hfate, hsettles⟩ := isSettled_of_independent (hapart.closed place)
    (hapart.snapshot place order horder) (hindependent place order horder)
  obtain ⟨hsame, hspans⟩ := alone_eq (hsettles start (.refl _ start))
  rw [hsame]
  exact ⟨hfate, hsettles, hspans⟩

theorem underway_started (hapart : Apart orders start own shared)
    (hindependent : ∀ place (order : Reference × List Datum), orders[place]? = some order →
      service.Independent behaviour start (own place) shared order.1 order.2) :
    Underway shared (service.started behaviour orders start) own
      (orders.map (service.alone behaviour start)) where
  waits place activity hactivity := by
    rw [started, List.getElem?_map] at hactivity
    obtain ⟨order, horder, rfl⟩ := Option.map_eq_some_iff.mp hactivity
    refine ⟨service.alone behaviour start order, ?_, ?_⟩
    · rw [List.getElem?_map, horder]
      rfl
    · exact (settles_alone hapart hindependent horder).2.1
  allocated place := (hapart.closed place).allocated
  apart := hapart.apart

/-- What a cancellation said does not count, whether the outcome is viewed before or after. -/
theorem report_reported (memory : Memory) (outcome : Except Failure Datum) :
    report memory (reported outcome) = reported (report memory outcome) := by
  cases outcome with
  | ok datum => rfl
  | error failure =>
      cases failure with
      | raised kind argument =>
          by_cases hkind : kind = "CancelledError"
          · subst hkind
            rfl
          · simp [reported, hkind, report, Except.map]
      | _ => rfl

section

variable (hapart : Apart orders start own shared)
  (hindependent : ∀ place (order : Reference × List Datum), orders[place]? = some order →
    service.Independent behaviour start (own place) shared order.1 order.2)
include hapart hindependent

/-- Whatever order turns are taken in, what has ended by then has ended as it does alone. -/
theorem report_after (schedule : List Nat) {place : Nat} (horder : orders[place]? = some order)
    {outcome : Except Failure Datum}
    (hdone : ((service.started behaviour orders start).after schedule).processes[place]? =
      some (.done outcome)) :
    report ((service.started behaviour orders start).after schedule).state.memory outcome =
      (service.alone behaviour start order).outcome := by
  obtain ⟨wider, left, hunderway, hpasses, -⟩ :=
    (underway_started hapart hindependent).after schedule
  obtain ⟨rest, hrest, hsettles⟩ := hunderway.waits place _ hdone
  have houtcome := congrArg (fun outcomes => outcomes[place]?) hpasses.outcomes
  simp only [List.getElem?_map, hrest, horder, Option.map_some] at houtcome
  rw [← Option.some.inj houtcome]
  exact (hsettles _ (.refl _ _)).2.1

/-- When all have ended, the spans added are those that each of them adds alone. -/
theorem spans_after (schedule : List Nat)
    (hdone : ((service.started behaviour orders start).after schedule).AllDone) :
    ∃ added, ((service.started behaviour orders start).after schedule).state.spans =
        start.spans ++ added ∧
      added.Perm (orders.flatMap fun order => (service.alone behaviour start order).spans) := by
  obtain ⟨wider, left, hunderway, hpasses, -⟩ :=
    (underway_started hapart hindependent).after schedule
  obtain ⟨added, hadded, hperm⟩ := hpasses.spans
  have hlength : ((service.started behaviour orders start).after schedule).processes.length =
      left.length := by
    have hcount := congrArg List.length hpasses.outcomes
    rw [List.length_map, List.length_map, List.length_map] at hcount
    rw [Shared.length_after, started, List.length_map, hcount]
  -- what has ended has no spans left to add
  have hleft : left.flatMap (·.spans) = [] := by
    refine List.flatMap_eq_nil_iff.mpr fun rest hmem => ?_
    obtain ⟨place, hplace, rfl⟩ := List.getElem_of_mem hmem
    have hactivity := List.getElem?_eq_getElem (hlength ▸ hplace)
    obtain ⟨outcome, hended⟩ := hdone _ (List.mem_of_getElem? hactivity)
    obtain ⟨rest, hrest, hsettles⟩ := hunderway.waits place _ hactivity
    rw [List.getElem?_eq_getElem hplace] at hrest
    cases hrest
    have hsettled := hsettles _ (.refl _ _)
    rw [hended] at hsettled
    exact hsettled.1
  rw [hleft, List.append_nil, List.flatMap_map] at hperm
  exact ⟨added, hadded, hperm.symm⟩

/-- What is reported of invocations together is, in their order, what each of them comes to
alone. -/
theorem report_runTogether :
    (service.runTogether behaviour orders start).1.map
        (report (service.runTogether behaviour orders start).2.memory) =
      orders.map fun order => reported (service.alone behaviour start order).outcome := by
  obtain ⟨schedule, hafter⟩ := exists_schedule_gather
    (service.started behaviour orders start).processes start
  have hlength := Shared.length_after (service.started behaviour orders start) schedule
  have htogether : service.runTogether behaviour orders start =
      ((gather (service.started behaviour orders start).processes start).1.map reported,
        (gather (service.started behaviour orders start).processes start).2) := rfl
  rw [htogether]
  generalize gather (service.started behaviour orders start).processes start = gathered
    at hafter ⊢
  obtain ⟨outcomes, later⟩ := gathered
  have hsame : (service.started behaviour orders start).after schedule =
      ⟨outcomes.map .done, later⟩ := hafter
  rw [hsame, started, List.length_map, List.length_map] at hlength
  rw [List.map_map]
  refine List.ext_getElem (by rw [List.length_map, List.length_map, hlength]) ?_
  intro place hplace hbound
  rw [List.length_map] at hplace hbound
  rw [List.getElem_map, List.getElem_map, Function.comp_apply, report_reported]
  have hdone : ((service.started behaviour orders start).after schedule).processes[place]? =
      some (.done outcomes[place]) := by
    rw [hsame, List.getElem?_map, List.getElem?_eq_getElem hplace]
    rfl
  have hreport := report_after hapart hindependent schedule (List.getElem?_eq_getElem hbound) hdone
  rw [hsame] at hreport
  rw [hreport]

end

end Service

/-! ## A list that is made before a pause and changed after it -/

/-- Implementations that all put what they are given into a new list, pause, and then put a mark
behind it. -/
def Behaviour.collecting : Behaviour := fun _ arguments =>
  .inspect fun host => .update { host with memory := (host.memory.make (.list arguments)).1 } <|
    .pause <| .inspect fun later => .update { later with
        memory := later.memory.replace host.memory.objects.size
          (.list (arguments ++ [.fixed (Value.ofString "x")])) } <|
      .done (.ok (.object host.memory.objects.size))

theorem inside_fixed (region : Set Nat) (values : List Value) :
    Object.Inside region (.list (values.map .fixed)) := by
  intro item hmem
  obtain ⟨value, -, rfl⟩ := List.mem_map.mp hmem
  exact .fixed value

/-- A list of fixed values that is one's own comes to these values. -/
theorem comes_fixed {region : Set Nat} {host : Host} {place : Nat} {values : List Value}
    (hplace : place ∈ region)
    (hobject : host.memory.objects[place]? = some (.list (values.map .fixed))) :
    Comes region host (.ok (.object place)) (.ok (some (Value.list values).unmarked)) := by
  have hview : host.memory.view (.object place) = some (.list values) := by
    have hitems : (values.map Datum.fixed).mapM
        (fun item => host.memory.viewWithin (nestingLimit - 1) item) = some values := by
      rw [mapM_eq_some_iff, List.forall₂_map_left_iff]
      exact List.forall₂_same.mpr fun value _ => rfl
    have hlevels : host.memory.view (.object place) =
        host.memory.viewWithin (nestingLimit - 1 + 1) (.object place) := rfl
    rw [hlevels, viewWithin, hobject]
    simp only
    rw [hitems, Option.map_some]
  refine ⟨?_, ?_⟩
  · rw [report, Except.map, hview, Option.map_some]
  · rintro _ ⟨⟩
    refine ⟨{place}, Set.singleton_subset_iff.mpr hplace, ⟨?_, ?_⟩, .object rfl⟩
    · rintro _ rfl
      exact (Array.getElem?_eq_some_iff.mp hobject).1
    · rintro _ rfl object hheld
      rw [hobject] at hheld
      cases hheld
      exact inside_fixed _ values

/-- What is given fixed values comes to these values with a mark behind them, whatever happens to
other places during the pause. -/
theorem settles_collecting (implementation : Implementation) (values : List Value) (own : Set Nat)
    (host : Host) :
    Activity.Settles ∅ (Behaviour.collecting implementation (values.map .fixed)) own host
      ⟨.ok (some (Value.list (values ++ [Value.ofString "x"])).unmarked), []⟩ := by
  have hmake := ((Adds.refl host.memory).make (inside_fixed _ values)).1
  have hadds : AddsOnly host
      { host with memory := (host.memory.make (.list (values.map .fixed))).1 } :=
    ⟨hmake, rfl, rfl⟩
  have hsize : (host.memory.make (.list (values.map .fixed))).1.objects.size =
      host.memory.objects.size + 1 := Array.size_push _
  refine ⟨_, [], [], hadds.changes own, (List.append_nil _).symm, rfl, fun later hpaused => ?_⟩
  have hown : host.memory.objects.size ∈
      own ∪ host.memory.newPlaces (host.memory.make (.list (values.map .fixed))).1 :=
    .inr ⟨Nat.le_refl _, hsize ▸ Nat.lt_succ_self _⟩
  have hmade : host.memory.objects.size < later.memory.objects.size :=
    Nat.lt_of_lt_of_le (hsize ▸ Nat.lt_succ_self _) hpaused.grown
  refine ⟨_, [], [], .replace hown _, (List.append_nil _).symm, rfl, rfl, ?_⟩
  refine comes_fixed (.inl hown) ?_
  rw [List.map_append]
  exact Array.getElem?_setIfInBounds_self_of_lt hmade

namespace Service

/-- An open reference is invoked twice, and once an id under which there is nothing. -/
def sampleOrders : List (Reference × List Datum) :=
  [(⟨Value.ofString "pay", .tuple [.fixed (Value.ofString "a")], none⟩, []),
    (⟨Value.ofString "gone", .tuple [], none⟩, []),
    (⟨Value.ofString "pay", .tuple [.fixed (Value.ofString "a")], none⟩,
      [.fixed (Value.ofString "b")])]

end Service

end SealedCall
