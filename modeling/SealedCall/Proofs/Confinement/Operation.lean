import SealedCall.Catalogue
import SealedCall.Proofs.Delivery
import SealedCall.Proofs.Memory.Regions

/-! # Confined operations

An operation on a host that shares a region of memory works inside of it when it changes no object
outside, and hands out nothing that is outside. Copies are made among new places, so handing them
out only widens the region. What a program does with the data it holds is confined in this way, and
so are its variables.
-/

namespace SealedCall

open Memory

/-- Whether all of several data hold places of a region alone. -/
def Datum.AllInside (region : Set Nat) (data : List Datum) : Prop :=
  ∀ datum ∈ data, datum.Inside region

theorem Datum.AllInside.mono {region wider : Set Nat} {data : List Datum}
    (hdata : AllInside region data) (hwider : region ⊆ wider) : AllInside wider data :=
  fun datum hmem => (hdata datum hmem).mono hwider

namespace Operation

variable {α β : Type}

/-- Whether what is handed out may be taken to have to do with any wider region as well. -/
def Widens (handed : Set Nat → α → Prop) : Prop :=
  ∀ places wider value, handed places value → places ⊆ wider → handed wider value

theorem widens_inside : Widens Datum.Inside := fun _ _ _ hdatum => hdatum.mono

theorem widens_allInside : Widens Datum.AllInside := fun _ _ _ hdata => hdata.mono

/-- Whether a host has the objects of another one and more. -/
def AddsMemory (host later : Host) : Prop := host.memory.Adds later.memory

theorem addsMemory_basic : Basic AddsMemory where
  refl host := Adds.refl host.memory
  trans hfirst hsecond := Adds.trans hfirst hsecond
  place value host := (adds_place value host.memory).1
  draw _ host := Adds.refl host.memory
  record _ _ _ host := Adds.refl host.memory

/-- Whether an operation adds objects alone, and what it hands out has to do with these. -/
def Fresh (handed : Set Nat → α → Prop) (operation : Operation α) : Prop :=
  ∀ host, AddsMemory host (operation.perform host).2 ∧
    ∀ value, (operation.perform host).1 = .ok value →
      handed (host.memory.newPlaces (operation.perform host).2.memory) value

/-- Whether an operation, on a host that shares a region, works inside of it, and what it hands out
has to do with the region that is shared then. -/
def Works (handed : Set Nat → α → Prop) (operation : Operation α) (region : Set Nat)
    (host : Host) : Prop :=
  ∃ wider, host.memory.Leads region (operation.perform host).2.memory wider ∧
    ∀ value, (operation.perform host).1 = .ok value → handed wider value

/-- Whether an operation works inside every shared region that some data are in, and hands out a
datum inside of it. -/
def ConfinedOn (data : List Datum) (operation : Operation Datum) : Prop :=
  ∀ region host, host.memory.Shares region → Datum.AllInside region data →
    operation.Works Datum.Inside region host

section

variable {handed : Set Nat → α → Prop} {region : Set Nat} {host : Host}

theorem works_pure (hshares : host.memory.Shares region) {value : α}
    (hvalue : handed region value) : Works handed (pure value : Operation α) region host := by
  refine ⟨region, Leads.refl hshares, ?_⟩
  rintro _ ⟨⟩
  exact hvalue

theorem works_fail (hshares : host.memory.Shares region) (failure : Failure) :
    Works handed (fail failure : Operation α) region host :=
  ⟨region, Leads.refl hshares, nofun⟩

theorem works_modify {handed : Set Nat → Unit → Prop} {change : Host → Host}
    (hleads : host.memory.Leads region (change host).memory region)
    (hunit : handed region ()) : Works handed (modify change : Operation Unit) region host :=
  ⟨region, hleads, fun _ _ => hunit⟩

theorem works_bind {handedLast : Set Nat → β → Prop} {operation : Operation α}
    {next : α → Operation β} (hoperation : Works handed operation region host)
    (hnext : ∀ value later wider, later.memory.Shares wider → region ⊆ wider →
      handed wider value → Works handedLast (next value) wider later) :
    Works handedLast (operation >>= next) region host := by
  obtain ⟨wider, hleads, hhanded⟩ := hoperation
  rw [Works, perform_bind]
  generalize operation.perform host = result at hleads hhanded
  obtain ⟨outcome, between⟩ := result
  cases outcome with
  | error failure => exact ⟨wider, hleads, nofun⟩
  | ok value =>
      obtain ⟨widest, hmore, hlast⟩ :=
        hnext value between wider hleads.shares hleads.widens (hhanded value rfl)
      exact ⟨widest, hleads.trans hmore, hlast⟩

/-- Looking at the host changes nothing. -/
theorem works_get {next : Host → Operation α} (hnext : Works handed (next host) region host) :
    Works handed (get >>= next) region host := hnext

/-- What is added can be handed out when that only takes a wider region. -/
theorem works_of_fresh {operation : Operation α}
    (hwidens : Widens handed)
    (hfresh : Fresh handed operation) (hshares : host.memory.Shares region) :
    Works handed operation region host := by
  obtain ⟨hadds, hhanded⟩ := hfresh host
  exact ⟨_, (hadds.leads hshares).2, fun value hvalue =>
    hwidens _ _ value (hhanded value hvalue) Set.subset_union_right⟩

end

/-! ## Copies -/

theorem fresh_place (value : Value) : Fresh Datum.Inside (place value) := by
  intro host
  obtain ⟨hadds, hdatum⟩ := adds_place value host.memory
  refine ⟨hadds, ?_⟩
  rintro _ ⟨⟩
  exact hdatum

theorem fresh_placeAll (values : List Value) : Fresh Datum.AllInside (values.mapM place) := by
  intro host
  obtain ⟨hadds, hdata⟩ := adds_placeAll values host.memory
  rw [perform_placeAll]
  refine ⟨hadds, ?_⟩
  rintro _ ⟨⟩
  exact hdata

/-- What does not add anything to memory may come first. -/
theorem fresh_bind {handed : Set Nat → β → Prop}
    (hwidens : Widens handed)
    {operation : Operation α} {next : α → Operation β}
    (hoperation : Respects AddsMemory operation) (hnext : ∀ value, Fresh handed (next value)) :
    Fresh handed (operation >>= next) := by
  intro host
  have hfirst := hoperation host
  rw [perform_bind]
  generalize operation.perform host = result at hfirst ⊢
  obtain ⟨outcome, between⟩ := result
  cases outcome with
  | error failure => exact ⟨hfirst, nofun⟩
  | ok value =>
      obtain ⟨hsecond, hhanded⟩ := hnext value between
      refine ⟨Adds.trans hfirst hsecond, fun last hlast => ?_⟩
      exact hwidens _ _ last (hhanded last hlast) (Adds.newPlaces_right hfirst _)

theorem fresh_freeze (data : List Datum) : Fresh Datum.AllInside (freeze data) := by
  induction data with
  | nil => exact fun host => ⟨Adds.refl host.memory, by rintro _ ⟨⟩ _ ⟨⟩⟩
  | cons datum rest ih =>
      rw [freeze]
      refine fresh_bind widens_allInside (respects_view addsMemory_basic.toAccumulates datum) ?_
      intro value host
      obtain ⟨hplaced, hcopy⟩ := adds_place value host.memory
      obtain ⟨hadds, hcopies⟩ := ih { host with memory := (host.memory.place value).1 }
      rw [perform_bind, perform_place]
      simp only
      rw [perform_bind]
      generalize (freeze rest).perform { host with memory := (host.memory.place value).1 } =
        result at hadds hcopies ⊢
      obtain ⟨outcome, later⟩ := result
      cases outcome with
      | error failure =>
          refine ⟨Adds.trans hplaced hadds, ?_⟩
          rintro _ ⟨⟩
      | ok copies =>
          refine ⟨Adds.trans hplaced hadds, ?_⟩
          rintro _ ⟨⟩
          refine List.forall_mem_cons.mpr ⟨?_, ?_⟩
          · exact hcopy.mono (Adds.newPlaces_left _ hadds)
          · exact (hcopies copies rfl).mono (Adds.newPlaces_right hplaced _)

/-- What is recovered is held in places of its own, whatever the reference is. -/
theorem fresh_recover (reference : Reference) (key : Value) :
    Fresh Datum.AllInside (reference.recover key) := by
  unfold Reference.recover
  split
  · refine fresh_bind widens_allInside
      (respects_heldSnapshot addsMemory_basic.toPlacing reference) ?_
    intro held
    exact fresh_bind widens_allInside (respects_spread addsMemory_basic.toPlacing held) fresh_freeze
  · split
    · exact fun host => ⟨Adds.refl host.memory, nofun⟩
    · exact fresh_bind widens_allInside (respects_openUnder addsMemory_basic.toQuiet _ key)
        fresh_placeAll

end Operation

/-! ## Handling data -/

namespace Operation

variable {region : Set Nat} {host : Host}

/-- What is handed out where it holds no places at all. -/
def NoPlaces {α : Type} (_ : Set Nat) (_ : α) : Prop := True

theorem works_view (hshares : host.memory.Shares region) (datum : Datum) :
    Works NoPlaces (view datum) region host := by
  rw [Works, perform_view]
  cases host.memory.view datum with
  | none => exact ⟨region, Leads.refl hshares, fun _ _ => True.intro⟩
  | some value => exact ⟨region, Leads.refl hshares, fun _ _ => True.intro⟩

theorem works_computed (hshares : host.memory.Shares region) (value : Value) :
    Works NoPlaces (computed value) region host :=
  ⟨region, ((adds_number host.memory).leads hshares).1, fun _ _ => True.intro⟩

theorem works_rebound (hshares : host.memory.Shares region) (name : Text) {datum : Datum}
    (hdatum : datum.Inside region) :
    Works Datum.Inside (do
      modify fun host : Host => { host with memory := host.memory.bind name datum }
      pure datum) region host := by
  have hmodify : Works NoPlaces (modify fun host : Host =>
      { host with memory := host.memory.bind name datum }) region host :=
    works_modify (leads_bind hshares name hdatum) True.intro
  refine works_bind hmodify fun _ later wider hshares hwider _ => ?_
  exact works_pure hshares (hdatum.mono hwider)

theorem works_assign (hshares : host.memory.Shares region) (name : Text) (datum : Datum) :
    Works Datum.Inside (Variables.assign name datum) region host := by
  unfold Variables.assign
  refine works_bind (works_view hshares datum) fun value later wider hshares _ _ => ?_
  refine works_bind (works_of_fresh widens_inside (fresh_place value) hshares) ?_
  exact fun copy later wider hshares _ hcopy => works_rebound hshares name hcopy

theorem works_change (hshares : host.memory.Shares region) {place : Nat} (hplace : place ∈ region)
    {object : Object} (hobject : object.Inside region) :
    Works NoPlaces (Variables.change place object) region host :=
  works_modify (leads_replace hshares hplace hobject) True.intro

theorem works_append (hshares : host.memory.Shares region) {datum item : Datum}
    (hdatum : datum.Inside region) (hitem : item.Inside region) :
    Works NoPlaces (Variables.append datum item) region host := by
  unfold Variables.append
  apply works_get
  simp only
  split
  · next place items hobject =>
      have hitems : Object.Inside region (.list items) :=
        inside_of_object? hshares.toClosed hdatum hobject
      refine works_change hshares hdatum.place fun held hmem => ?_
      rcases List.mem_append.mp hmem with hmem | hmem
      · exact hitems held hmem
      · rw [List.mem_singleton.mp hmem]
        exact hitem
  · split
    · exact works_change hshares hdatum.place True.intro
    · exact works_fail hshares _
  · exact works_fail hshares _

theorem exceptBind_eq_ok {ε α β : Type} {first : Except ε α} {next : α → Except ε β} {result : β}
    (hbind : first >>= next = .ok result) :
    ∃ value, first = .ok value ∧ next value = .ok result := by
  cases first with
  | error failure => cases hbind
  | ok value => exact ⟨value, rfl, hbind⟩

theorem inside_of_storedItem {items stored : List Datum} {index : Value} {item : Datum}
    (hstored : Variables.storedItem items index item = .ok stored)
    (hitems : ∀ held ∈ items, held.Inside region) (hitem : item.Inside region) :
    ∀ held ∈ stored, held.Inside region := by
  rw [Variables.storedItem] at hstored
  obtain ⟨offset, -, hstored⟩ := exceptBind_eq_ok hstored
  split at hstored
  · cases hstored
    intro held hmem
    rcases List.mem_or_eq_of_mem_set hmem with hmem | rfl
    · exact hitems held hmem
    · exact hitem
  · cases hstored

theorem inside_of_store {entries : List (Value × Datum)} {key : Value} {item : Datum}
    (hentries : ∀ entry ∈ entries, entry.2.Inside region) (hitem : item.Inside region) :
    ∀ entry ∈ Value.store key item entries, entry.2.Inside region := by
  induction entries with
  | nil =>
      intro entry hmem
      rw [List.mem_singleton.mp hmem]
      exact hitem
  | cons head rest ih =>
      obtain ⟨present, old⟩ := head
      obtain ⟨hold, hrest⟩ := List.forall_mem_cons.mp hentries
      rw [Value.store]
      split
      · exact List.forall_mem_cons.mpr ⟨hitem, hrest⟩
      · exact List.forall_mem_cons.mpr ⟨hold, ih hrest⟩

theorem works_put (hshares : host.memory.Shares region) {datum item : Datum} (key : Value)
    (hdatum : datum.Inside region) (hitem : item.Inside region) :
    Works NoPlaces (Variables.put datum key item) region host := by
  unfold Variables.put
  apply works_get
  simp only
  split
  · next place object houtcome =>
      split at houtcome
      · next place entries hobject =>
          have hentries := inside_of_object? hshares.toClosed hdatum hobject
          split at houtcome
          · cases houtcome
          · cases houtcome
            exact works_change hshares hdatum.place (inside_of_store hentries hitem)
      · next place items hobject =>
          have hitems := inside_of_object? hshares.toClosed hdatum hobject
          obtain ⟨stored, hstored, hobject⟩ := exceptBind_eq_ok houtcome
          cases hobject
          exact works_change hshares hdatum.place (inside_of_storedItem hstored hitems hitem)
      · obtain ⟨stored, -, hobject⟩ := exceptBind_eq_ok houtcome
        cases hobject
        exact works_change hshares hdatum.place True.intro
      · cases houtcome
  · exact works_fail hshares _

/-- What adding comes to is inside the region that both parts are in. -/
theorem inside_of_increased (hshares : host.memory.Shares region) {datum amount : Datum}
    (hdatum : datum.Inside region) (hamount : amount.Inside region) :
    (∀ place object, Variables.increased host.memory datum amount = .ok (.changed place object) →
      place ∈ region ∧ object.Inside region) ∧
    (∀ sum, Variables.increased host.memory datum amount = .ok (.replaced sum) →
      sum.Inside region) := by
  unfold Variables.increased
  split
  · next place items hobject =>
      have hitems := inside_of_object? hshares.toClosed hdatum hobject
      split
      · next more hmore =>
          have hmore := inside_of_items? hshares.toClosed hamount hmore
          refine ⟨?_, nofun⟩
          rintro _ _ ⟨⟩
          refine ⟨hdatum.place, fun held hmem => ?_⟩
          rcases List.mem_append.mp hmem with hmem | hmem
          · exact hitems held hmem
          · exact hmore held hmem
      · exact ⟨nofun, nofun⟩
  · split
    · refine ⟨?_, nofun⟩
      rintro _ _ ⟨⟩
      exact ⟨hdatum.place, True.intro⟩
    · exact ⟨nofun, nofun⟩
  · split
    · refine ⟨nofun, ?_⟩
      rintro _ ⟨⟩
      refine .tuple fun held hmem => ?_
      rcases List.mem_append.mp hmem with hmem | hmem
      · exact hdatum.items held hmem
      · exact hamount.items held hmem
    · exact ⟨nofun, nofun⟩
  · split
    · exact ⟨nofun, by rintro _ ⟨⟩; exact .fixed _⟩
    · exact ⟨nofun, nofun⟩
  · split
    · exact ⟨nofun, by rintro _ ⟨⟩; exact .fixed _⟩
    · exact ⟨nofun, nofun⟩
  · next value _ _ =>
      split
      · next number =>
          cases value.plus "+=" number with
          | error misuse => exact ⟨nofun, nofun⟩
          | ok sum => exact ⟨nofun, by rintro _ ⟨⟩; exact .fixed _⟩
      · exact ⟨nofun, nofun⟩
  · exact ⟨nofun, nofun⟩

theorem works_held (hshares : host.memory.Shares region) (name : Text) :
    Works Datum.Inside (Variables.held name) region host := by
  unfold Variables.held
  apply works_get
  split
  · next datum hheld => exact works_pure hshares (inside_of_held? hshares hheld)
  · exact works_fail hshares _

theorem works_increase (hshares : host.memory.Shares region) (name : Text) {amount : Datum}
    (hamount : amount.Inside region) :
    Works Datum.Inside (Variables.increase name amount) region host := by
  unfold Variables.increase
  refine works_bind (works_held hshares name) fun datum later wider hshares hwider hdatum => ?_
  apply works_get
  obtain ⟨hchanged, hreplaced⟩ := inside_of_increased hshares hdatum (hamount.mono hwider)
  split
  · next place object houtcome =>
      obtain ⟨hplace, hobject⟩ := hchanged place object houtcome
      refine works_bind (works_change hshares hplace hobject) ?_
      intro _ last widest hshares hwidest _
      exact works_pure hshares (hdatum.mono hwidest)
  · next value houtcome =>
      refine works_bind (works_computed hshares value) fun sum last widest hshares _ _ => ?_
      exact works_rebound hshares name (.fixed sum)
  · next sum _ houtcome => exact works_rebound hshares name (hreplaced sum houtcome)
  · exact works_fail hshares _

/-- A list of data that are inside a region already. -/
theorem works_listOf (hshares : host.memory.Shares region) {data : List Datum}
    (hdata : Datum.AllInside region data) :
    Works Datum.Inside (StockAction.listOf data) region host := by
  have hobject : Object.Inside region (.list data) := hdata
  obtain ⟨hleads, hdatum⟩ := leads_make hshares hobject
  refine ⟨_, hleads, ?_⟩
  rintro _ ⟨⟩
  exact hdatum

end Operation

/-- What a program does with the data that it holds: it makes values and lists, binds variables to
copies or to the very data, and changes what the data hold. -/
inductive Handling
  | create (value : Value)
  | collect (data : List Datum)
  | assign (name : Text) (datum : Datum)
  | rebind (name : Text) (datum : Datum)
  | append (datum item : Datum)
  | put (datum : Datum) (key : Value) (item : Datum)
  | increase (name : Text) (amount : Datum)

namespace Handling

open Operation

/-- The data that are handled. -/
def data : Handling → List Datum
  | .create _ => []
  | .collect data => data
  | .assign _ datum | .rebind _ datum | .increase _ datum => [datum]
  | .append datum item | .put datum _ item => [datum, item]

def operation : Handling → Operation Datum
  | .create value => place value
  | .collect data => StockAction.listOf data
  | .assign name datum => Variables.assign name datum
  | .rebind name datum => do
    modify fun host => { host with memory := host.memory.bind name datum }
    pure datum
  | .append datum item => do
    Variables.append datum item
    pure datum
  | .put datum key item => do
    Variables.put datum key item
    pure datum
  | .increase name amount => Variables.increase name amount

/-- Handling data changes nothing but what the data and the variables lead to. -/
theorem confinedOn (handling : Handling) : ConfinedOn handling.data handling.operation := by
  intro region host hshares hdata
  cases handling with
  | create value => exact works_of_fresh widens_inside (fresh_place value) hshares
  | collect data => exact works_listOf hshares hdata
  | assign name datum => exact works_assign hshares name datum
  | rebind name datum => exact works_rebound hshares name (hdata datum List.mem_cons_self)
  | append datum item =>
      obtain ⟨hdatum, hitem⟩ := List.forall_mem_cons.mp hdata
      refine works_bind (works_append hshares hdatum (hitem item List.mem_cons_self)) ?_
      exact fun _ later wider hshares hwider _ => works_pure hshares (hdatum.mono hwider)
  | put datum key item =>
      obtain ⟨hdatum, hitem⟩ := List.forall_mem_cons.mp hdata
      refine works_bind (works_put hshares key hdatum (hitem item List.mem_cons_self)) ?_
      exact fun _ later wider hshares hwider _ => works_pure hshares (hdatum.mono hwider)
  | increase name amount => exact works_increase hshares name (hdata amount List.mem_cons_self)

end Handling

end SealedCall
