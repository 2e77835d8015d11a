import Mathlib.Data.Set.Lattice
import Mathlib.Order.CompletePartialOrder
import SealedCall.Proofs.Memory.Placing

/-! # Regions of memory

A region is a set of places. What stays inside a region cannot be told apart from outside: a datum
whose places are all in a closed region views the same in every memory with the same objects there.
Placing a value makes a region of its own behind everything that was there, and work that starts
inside one region widens it by new places alone and changes nothing outside of it.
-/

namespace SealedCall

/-- Whether a datum holds places of a region alone. -/
inductive Datum.Inside (region : Set Nat) : Datum → Prop
  | fixed (value : Value) : Inside region (.fixed value)
  | tuple {items : List Datum} (hitems : ∀ item ∈ items, Inside region item) :
      Inside region (.tuple items)
  | object {place : Nat} (hplace : place ∈ region) : Inside region (.object place)

/-- Whether an object refers to places of a region alone. -/
def Object.Inside (region : Set Nat) : Object → Prop
  | .list items => ∀ item ∈ items, item.Inside region
  | .dict entries => ∀ entry ∈ entries, entry.2.Inside region
  | .byteArray _ => True

variable {region wider : Set Nat}

theorem Datum.Inside.mono {datum : Datum} (hinside : datum.Inside region)
    (hwider : region ⊆ wider) : datum.Inside wider := by
  induction hinside with
  | fixed value => exact .fixed value
  | tuple _ ih => exact .tuple ih
  | object hplace => exact .object (hwider hplace)

theorem Datum.Inside.items {items : List Datum} (hinside : Inside region (.tuple items)) :
    ∀ item ∈ items, item.Inside region := by
  cases hinside with
  | tuple hitems => exact hitems

theorem Datum.Inside.place {place : Nat} (hinside : Inside region (.object place)) :
    place ∈ region := by
  cases hinside with
  | object hplace => exact hplace

theorem Object.Inside.mono {object : Object} (hinside : object.Inside region)
    (hwider : region ⊆ wider) : object.Inside wider := by
  cases object with
  | list items => exact fun item hmem => (hinside item hmem).mono hwider
  | dict entries => exact fun entry hmem => (hinside entry hmem).mono hwider
  | byteArray octets => exact True.intro

namespace Memory

/-- A region that memory has places for and whose objects refer to nothing outside of it. -/
structure Closed (memory : Memory) (region : Set Nat) : Prop where
  allocated : ∀ place ∈ region, place < memory.objects.size
  inside : ∀ place ∈ region, ∀ object, memory.objects[place]? = some object → object.Inside region

variable {memory between later : Memory}

/-- Data in a closed region views the same wherever the objects of the region are the same. -/
theorem viewWithin_of_agree (hclosed : memory.Closed region)
    (hagree : ∀ place ∈ region, later.objects[place]? = memory.objects[place]?) (levels : Nat)
    {datum : Datum} (hdatum : datum.Inside region) :
    later.viewWithin levels datum = memory.viewWithin levels datum := by
  -- on the levels, as the view itself goes
  induction levels generalizing datum with
  | zero =>
      cases hdatum with
      | fixed value => rfl
      | tuple _ => rfl
      | object hplace => rw [viewWithin, viewWithin, hagree _ hplace]
  | succ levels ih =>
      cases hdatum with
      | fixed value => rfl
      | tuple hitems =>
          rw [viewWithin, viewWithin, mapM_congr fun item hmem => ih (hitems item hmem)]
      | object hplace =>
          rw [viewWithin, viewWithin, hagree _ hplace]
          split
          · next items hobject =>
              have hitems := hclosed.inside _ hplace _ hobject
              rw [mapM_congr fun item hmem => ih (hitems item hmem)]
          · next entries hobject =>
              have hentries := hclosed.inside _ hplace _ hobject
              rw [mapM_congr fun entry hmem => by rw [ih (hentries entry hmem)]]
          · rfl
          · rfl

theorem viewAll_of_agree (hclosed : memory.Closed region)
    (hagree : ∀ place ∈ region, later.objects[place]? = memory.objects[place]?)
    {data : List Datum} (hdata : ∀ datum ∈ data, datum.Inside region) :
    later.viewAll data = memory.viewAll data :=
  mapM_congr fun datum hmem => viewWithin_of_agree hclosed hagree nestingLimit (hdata datum hmem)

/-- A region that stays as it is in a memory with more places stays closed. -/
theorem Closed.of_agree (hclosed : memory.Closed region)
    (hagree : ∀ place ∈ region, later.objects[place]? = memory.objects[place]?)
    (hgrown : memory.objects.size ≤ later.objects.size) : later.Closed region where
  allocated place hplace := Nat.lt_of_lt_of_le (hclosed.allocated place hplace) hgrown
  inside place hplace object hobject :=
    hclosed.inside place hplace object (by rw [← hagree place hplace]; exact hobject)

/-! ## Adding -/

/-- The places that a later memory has more. -/
def newPlaces (memory later : Memory) : Set Nat :=
  Set.Ico memory.objects.size later.objects.size

/-- Whether a later memory has the same objects and more, and the new ones refer to new ones
alone. -/
structure Adds (memory later : Memory) : Prop where
  grown : memory.objects.size ≤ later.objects.size
  extends_ : memory.Extends later
  bindings : later.bindings = memory.bindings
  inside : ∀ place ∈ memory.newPlaces later, ∀ object, later.objects[place]? = some object →
    object.Inside (memory.newPlaces later)

namespace Adds

theorem refl (memory : Memory) : memory.Adds memory where
  grown := Nat.le_refl _
  extends_ := Extends.refl memory
  bindings := rfl
  inside _ hplace := absurd hplace.1 (Nat.not_le.mpr hplace.2)

theorem newPlaces_left (memory : Memory) (hsecond : between.Adds later) :
    memory.newPlaces between ⊆ memory.newPlaces later :=
  fun _ hplace => ⟨hplace.1, Nat.lt_of_lt_of_le hplace.2 hsecond.grown⟩

theorem newPlaces_right (hfirst : memory.Adds between) (later : Memory) :
    between.newPlaces later ⊆ memory.newPlaces later :=
  fun _ hplace => ⟨Nat.le_trans hfirst.grown hplace.1, hplace.2⟩

theorem trans (hfirst : memory.Adds between) (hsecond : between.Adds later) :
    memory.Adds later where
  grown := Nat.le_trans hfirst.grown hsecond.grown
  extends_ := hfirst.extends_.trans hsecond.extends_
  bindings := hsecond.bindings.trans hfirst.bindings
  inside place hplace object hobject := by
    by_cases hnew : between.objects.size ≤ place
    · have hinside := hsecond.inside place ⟨hnew, hplace.2⟩ object hobject
      exact hinside.mono (newPlaces_right hfirst later)
    · have hlt := Nat.not_le.mp hnew
      have hheld := hsecond.extends_ place _ (Array.getElem?_eq_getElem hlt)
      rw [hobject] at hheld
      have hinside := hfirst.inside place ⟨hplace.1, hlt⟩ object
        (by rw [Array.getElem?_eq_getElem hlt, ← hheld])
      exact hinside.mono (newPlaces_left memory hsecond)

/-- What is there before stays as it is. -/
theorem agree (hadds : memory.Adds later) {place : Nat} (hplace : place < memory.objects.size) :
    later.objects[place]? = memory.objects[place]? := by
  rw [Array.getElem?_eq_getElem hplace]
  exact hadds.extends_ place _ (Array.getElem?_eq_getElem hplace)

theorem closed (hadds : memory.Adds later) : later.Closed (memory.newPlaces later) where
  allocated _ hplace := hplace.2
  inside := hadds.inside

end Adds

/-- Giving out a number does not touch the objects. -/
theorem adds_number (memory : Memory) : memory.Adds memory.number.1 where
  grown := Nat.le_refl _
  extends_ _ _ hobject := hobject
  bindings := rfl
  inside _ hplace := absurd hplace.1 (Nat.not_le.mpr hplace.2)

/-- An object that refers to nothing but what was added before is added itself. -/
theorem Adds.make (hadds : memory.Adds between) {object : Object}
    (hobject : object.Inside (memory.newPlaces between)) :
    memory.Adds (between.make object).1 ∧
      (between.make object).2.Inside (memory.newPlaces (between.make object).1) := by
  have hsize : (between.make object).1.objects.size = between.objects.size + 1 :=
    Array.size_push _
  have hmore : memory.newPlaces between ⊆ memory.newPlaces (between.make object).1 :=
    fun place hplace => ⟨hplace.1, by rw [hsize]; exact Nat.lt_succ_of_lt hplace.2⟩
  refine ⟨⟨?_, ?_, hadds.bindings, ?_⟩, .object ⟨hadds.grown, ?_⟩⟩
  · rw [hsize]
    exact Nat.le_succ_of_le hadds.grown
  · exact hadds.extends_.trans (extends_make between object)
  · intro place hplace held hheld
    rcases Nat.lt_or_ge place between.objects.size with hlt | hge
    · have hbefore : between.objects[place]? = some held := by
        rw [← hheld, Array.getElem?_eq_getElem hlt]
        exact (extends_make between object place _ (Array.getElem?_eq_getElem hlt)).symm
      exact (hadds.inside place ⟨hplace.1, hlt⟩ held hbefore).mono hmore
    · have hlast : place = between.objects.size := by
        have hlt := hplace.2
        rw [hsize] at hlt
        omega
      rw [hlast, object_make] at hheld
      cases hheld
      exact hobject.mono hmore
  · rw [hsize]
    exact Nat.lt_succ_self _

/-- Several values are placed among new places alone where each of them is. -/
theorem adds_placeAll_of_forall {items : List Value}
    (hitems : ∀ item ∈ items, ∀ memory : Memory, memory.Adds (memory.place item).1 ∧
      (memory.place item).2.Inside (memory.newPlaces (memory.place item).1))
    (memory : Memory) :
    memory.Adds (memory.placeAll items).1 ∧ ∀ datum ∈ (memory.placeAll items).2,
      datum.Inside (memory.newPlaces (memory.placeAll items).1) := by
  induction items generalizing memory with
  | nil => exact ⟨Adds.refl memory, fun _ hmem => absurd hmem List.not_mem_nil⟩
  | cons item rest ih =>
      obtain ⟨hitem, hrest⟩ := List.forall_mem_cons.mp hitems
      obtain ⟨hfirst, hdatum⟩ := hitem memory
      obtain ⟨hsecond, hdata⟩ := ih hrest (memory.place item).1
      rw [placeAll]
      refine ⟨hfirst.trans hsecond, List.forall_mem_cons.mpr ⟨?_, fun datum hmem => ?_⟩⟩
      · exact hdatum.mono (Adds.newPlaces_left memory hsecond)
      · exact (hdata datum hmem).mono (hfirst.newPlaces_right _)

theorem adds_placeEntries_of_forall {entries : List (Value × Value)}
    (hentries : ∀ entry ∈ entries, ∀ memory : Memory, memory.Adds (memory.place entry.2).1 ∧
      (memory.place entry.2).2.Inside (memory.newPlaces (memory.place entry.2).1))
    (memory : Memory) :
    memory.Adds (memory.placeEntries entries).1 ∧ ∀ entry ∈ (memory.placeEntries entries).2,
      entry.2.Inside (memory.newPlaces (memory.placeEntries entries).1) := by
  induction entries generalizing memory with
  | nil => exact ⟨Adds.refl memory, fun _ hmem => absurd hmem List.not_mem_nil⟩
  | cons entry rest ih =>
      obtain ⟨key, value⟩ := entry
      obtain ⟨hentry, hrest⟩ := List.forall_mem_cons.mp hentries
      obtain ⟨hfirst, hdatum⟩ := hentry memory
      obtain ⟨hsecond, hdata⟩ := ih hrest (memory.place value).1
      rw [placeEntries]
      refine ⟨hfirst.trans hsecond, List.forall_mem_cons.mpr ⟨?_, fun entry hmem => ?_⟩⟩
      · exact hdatum.mono (Adds.newPlaces_left memory hsecond)
      · exact (hdata entry hmem).mono (hfirst.newPlaces_right _)

/-- Placing a value adds objects, and the datum that stands for it holds none but these. -/
theorem adds_place (value : Value) (memory : Memory) :
    memory.Adds (memory.place value).1 ∧
      (memory.place value).2.Inside (memory.newPlaces (memory.place value).1) := by
  induction value using Value.nested_induction generalizing memory with
  | list items ih =>
      obtain ⟨hadds, hdata⟩ := adds_placeAll_of_forall ih memory
      rw [place]
      exact hadds.make hdata
  | tuple items ih =>
      obtain ⟨hadds, hdata⟩ := adds_placeAll_of_forall ih memory
      rw [place]
      exact ⟨hadds, .tuple hdata⟩
  | dict entries ih =>
      obtain ⟨hadds, hdata⟩ :=
        adds_placeEntries_of_forall (fun entry hmem => (ih entry hmem).2) memory
      rw [place]
      exact hadds.make hdata
  | byteArray octets => exact (Adds.refl memory).make True.intro
  | foreign kind =>
      cases kind with
      | object number => exact ⟨adds_number memory, .fixed _⟩
      | _ => exact ⟨Adds.refl memory, .fixed _⟩
  | _ => exact ⟨Adds.refl memory, .fixed _⟩

theorem adds_placeAll (items : List Value) (memory : Memory) :
    memory.Adds (memory.placeAll items).1 ∧ ∀ datum ∈ (memory.placeAll items).2,
      datum.Inside (memory.newPlaces (memory.placeAll items).1) :=
  adds_placeAll_of_forall (fun item _ memory => adds_place item memory) memory

/-! ## Shared regions -/

/-- A closed region that holds everything the variables refer to. -/
structure Shares (memory : Memory) (region : Set Nat) : Prop extends memory.Closed region where
  bindings : ∀ entry ∈ memory.bindings, entry.2.Inside region

/-- Whether a later memory comes of work that began inside a region: the region is wider by new
places at most, it is shared, and no object outside of it has changed. -/
structure Leads (memory : Memory) (region : Set Nat) (later : Memory) (wider : Set Nat) :
    Prop where
  widens : region ⊆ wider
  fresh : ∀ place ∈ wider, place ∈ region ∨ memory.objects.size ≤ place
  grown : memory.objects.size ≤ later.objects.size
  spares : ∀ place, place ∉ region → place < memory.objects.size →
    later.objects[place]? = memory.objects[place]?
  shares : later.Shares wider

namespace Leads

theorem refl (hshares : memory.Shares region) : memory.Leads region memory region where
  widens := Set.Subset.refl region
  fresh _ hplace := .inl hplace
  grown := Nat.le_refl _
  spares _ _ _ := rfl
  shares := hshares

theorem trans {widest : Set Nat} (hfirst : memory.Leads region between wider)
    (hsecond : between.Leads wider later widest) : memory.Leads region later widest where
  widens := hfirst.widens.trans hsecond.widens
  fresh place hplace := by
    rcases hsecond.fresh place hplace with hwider | hnew
    · exact hfirst.fresh place hwider
    · exact .inr (Nat.le_trans hfirst.grown hnew)
  grown := Nat.le_trans hfirst.grown hsecond.grown
  spares place hplace hlt := by
    -- what the first part added to the region was not there before
    have hwider : place ∉ wider := by
      intro hmem
      rcases hfirst.fresh place hmem with hregion | hnew
      · exact hplace hregion
      · exact Nat.not_lt.mpr hnew hlt
    rw [hsecond.spares place hwider (Nat.lt_of_lt_of_le hlt hfirst.grown),
      hfirst.spares place hplace hlt]
  shares := hsecond.shares

/-- A region apart from the shared one stays as it is, and apart. -/
theorem agree {kept : Set Nat} (hleads : memory.Leads region later wider)
    (hkept : memory.Closed kept) (hdisjoint : Disjoint kept region) :
    (∀ place ∈ kept, later.objects[place]? = memory.objects[place]?) ∧ Disjoint kept wider := by
  refine ⟨fun place hplace => ?_, Set.disjoint_left.mpr fun place hplace hmem => ?_⟩
  · exact hleads.spares place (Set.disjoint_left.mp hdisjoint hplace)
      (hkept.allocated place hplace)
  · rcases hleads.fresh place hmem with hregion | hnew
    · exact Set.disjoint_left.mp hdisjoint hplace hregion
    · exact Nat.not_lt.mpr hnew (hkept.allocated place hplace)

end Leads

/-- What was added can be shared or be kept apart. -/
theorem Adds.leads (hadds : memory.Adds later) (hshares : memory.Shares region) :
    memory.Leads region later region ∧
      memory.Leads region later (region ∪ memory.newPlaces later) := by
  have hagree : ∀ place ∈ region, later.objects[place]? = memory.objects[place]? :=
    fun place hplace => hadds.agree (hshares.allocated place hplace)
  have hclosed := hshares.toClosed.of_agree hagree hadds.grown
  have hbindings : ∀ entry ∈ later.bindings, entry.2.Inside region := by
    rw [hadds.bindings]
    exact hshares.bindings
  constructor
  · exact ⟨Set.Subset.refl region, fun _ hplace => .inl hplace, hadds.grown,
      fun _ _ hlt => hadds.agree hlt, ⟨hclosed, hbindings⟩⟩
  · refine ⟨Set.subset_union_left, ?_, hadds.grown, fun _ _ hlt => hadds.agree hlt, ⟨?_, ?_⟩⟩
    · rintro place (hplace | hplace)
      · exact .inl hplace
      · exact .inr hplace.1
    · constructor
      · rintro place (hplace | hplace)
        · exact hclosed.allocated place hplace
        · exact hplace.2
      · rintro place (hplace | hplace) object hobject
        · exact (hclosed.inside place hplace object hobject).mono Set.subset_union_left
        · exact (hadds.inside place hplace object hobject).mono Set.subset_union_right
    · exact fun entry hmem => (hbindings entry hmem).mono Set.subset_union_left

/-! ## Changes inside a shared region -/

theorem leads_replace (hshares : memory.Shares region) {place : Nat} (hplace : place ∈ region)
    {object : Object} (hobject : object.Inside region) :
    memory.Leads region (memory.replace place object) region := by
  have hsize : (memory.replace place object).objects.size = memory.objects.size :=
    Array.size_setIfInBounds
  have hother : ∀ other, other ≠ place →
      (memory.replace place object).objects[other]? = memory.objects[other]? :=
    fun other hne => Array.getElem?_setIfInBounds_ne hne.symm
  refine ⟨Set.Subset.refl region, fun _ hmem => .inl hmem, hsize.ge, ?_, ⟨⟨?_, ?_⟩, ?_⟩⟩
  · exact fun other houtside _ => hother other fun heq => houtside (heq ▸ hplace)
  · exact fun other hmem => by rw [hsize]; exact hshares.allocated other hmem
  · intro other hmem held hheld
    by_cases heq : other = place
    · subst heq
      rw [replace, Array.getElem?_setIfInBounds_self_of_lt (hshares.allocated other hmem)] at hheld
      cases hheld
      exact hobject
    · rw [hother other heq] at hheld
      exact hshares.inside other hmem held hheld
  · exact hshares.bindings

theorem mem_bound {name : Text} {datum : Datum} {bindings : List (Text × Datum)}
    {entry : Text × Datum} (hmem : entry ∈ bound name datum bindings) :
    entry = (name, datum) ∨ entry ∈ bindings := by
  induction bindings with
  | nil => exact .inl (List.mem_singleton.mp hmem)
  | cons head rest ih =>
      obtain ⟨present, old⟩ := head
      rw [bound] at hmem
      split at hmem
      · rcases List.mem_cons.mp hmem with heq | hmem
        · exact .inl heq
        · exact .inr (List.mem_cons_of_mem _ hmem)
      · rcases List.mem_cons.mp hmem with rfl | hmem
        · exact .inr List.mem_cons_self
        · exact (ih hmem).imp_right (List.mem_cons_of_mem _)

theorem leads_bind (hshares : memory.Shares region) (name : Text) {datum : Datum}
    (hdatum : datum.Inside region) : memory.Leads region (memory.bind name datum) region := by
  refine ⟨Set.Subset.refl region, fun _ hmem => .inl hmem, Nat.le_refl _, fun _ _ _ => rfl,
    ⟨⟨hshares.allocated, hshares.inside⟩, fun entry hmem => ?_⟩⟩
  rcases mem_bound hmem with rfl | hmem
  · exact hdatum
  · exact hshares.bindings entry hmem

/-- A new object that refers into a shared region belongs to it from then on. -/
theorem leads_make (hshares : memory.Shares region) {object : Object}
    (hobject : object.Inside region) :
    memory.Leads region (memory.make object).1 (insert memory.objects.size region) ∧
      (memory.make object).2.Inside (insert memory.objects.size region) := by
  have hsize : (memory.make object).1.objects.size = memory.objects.size + 1 := Array.size_push _
  have hwidens : region ⊆ insert memory.objects.size region := Set.subset_insert _ _
  have hsame : ∀ place, place < memory.objects.size →
      (memory.make object).1.objects[place]? = memory.objects[place]? := by
    intro place hlt
    rw [Array.getElem?_eq_getElem hlt]
    exact extends_make memory object place _ (Array.getElem?_eq_getElem hlt)
  refine ⟨⟨hwidens, ?_, ?_, fun place _ hlt => hsame place hlt, ⟨⟨?_, ?_⟩, ?_⟩⟩,
    .object (Set.mem_insert _ _)⟩
  · rintro place (rfl | hmem)
    · exact .inr (Nat.le_refl _)
    · exact .inl hmem
  · rw [hsize]
    exact Nat.le_succ _
  · rintro place (rfl | hmem)
    · rw [hsize]
      exact Nat.lt_succ_self _
    · rw [hsize]
      exact Nat.lt_succ_of_lt (hshares.allocated place hmem)
  · rintro place (rfl | hmem) held hheld
    · rw [object_make] at hheld
      cases hheld
      exact hobject.mono hwidens
    · rw [hsame place (hshares.allocated place hmem)] at hheld
      exact (hshares.inside place hmem held hheld).mono hwidens
  · exact fun entry hmem => (hshares.bindings entry hmem).mono hwidens

/-! ## Looking inside a region -/

/-- What an object in a closed region holds is inside of it. -/
theorem inside_of_object? (hclosed : memory.Closed region) {datum : Datum}
    (hdatum : datum.Inside region) {object : Object}
    (hobject : memory.object? datum = some object) : object.Inside region := by
  cases hdatum with
  | object hplace => exact hclosed.inside _ hplace object hobject
  | _ => cases hobject

/-- Going through a datum in a closed region gives data inside of it. -/
theorem inside_of_items? (hclosed : memory.Closed region) {datum : Datum}
    (hdatum : datum.Inside region) {items : List Datum}
    (hitems : memory.items? datum = some items) : ∀ item ∈ items, item.Inside region := by
  have hfixed : ∀ {α : Type} (f : α → Value) (held : List α),
      ∀ item ∈ held.map fun a => Datum.fixed (f a), item.Inside region := by
    intro α f held item hmem
    obtain ⟨a, -, rfl⟩ := List.mem_map.mp hmem
    exact .fixed _
  cases hdatum with
  | fixed value =>
      obtain ⟨values, -, rfl⟩ := Option.map_eq_some_iff.mp hitems
      exact hfixed id values
  | tuple hinside =>
      cases hitems
      exact hinside
  | @object place hplace =>
      rw [items?] at hitems
      split at hitems
      · next hobject =>
          cases hitems
          exact hclosed.inside place hplace _ hobject
      · cases hitems
        exact hfixed _ _
      · cases hitems
        exact hfixed _ _
      · cases hitems

section

variable (hagree : ∀ place ∈ region, later.objects[place]? = memory.objects[place]?)
  {datum : Datum} (hdatum : datum.Inside region)
include hagree hdatum

theorem isTruthy_of_agree : later.isTruthy datum = memory.isTruthy datum := by
  cases hdatum with
  | object hplace => rw [isTruthy, isTruthy, hagree _ hplace]
  | _ => rfl

theorem items?_of_agree : later.items? datum = memory.items? datum := by
  cases hdatum with
  | object hplace => rw [items?, items?, hagree _ hplace]
  | _ => rfl

theorem typeName_of_agree : later.typeName datum = memory.typeName datum := by
  cases hdatum with
  | object hplace => rw [typeName, typeName, hagree _ hplace]
  | _ => rfl

end

theorem inside_of_held? (hshares : memory.Shares region) {name : Text} {datum : Datum}
    (hheld : memory.held? name = some datum) : datum.Inside region := by
  obtain ⟨entry, hentry, rfl⟩ := Option.map_eq_some_iff.mp hheld
  exact hshares.bindings entry (List.mem_of_find?_eq_some hentry)

end Memory

end SealedCall
