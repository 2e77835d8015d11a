import Mathlib.Data.List.Forall2
import SealedCall.Memory
import SealedCall.Proofs.Value.Nested

/-! # Placed values

A value that is placed gets objects of its own behind those that are already there, so what was
held before keeps its view, and the datum that stands for the value views as that value. Only an
object without content is not copied but made anew; where none shows in a view, what is viewed is
what was placed.
-/

namespace SealedCall

theorem mapM_eq_some_iff {α β : Type} {f : α → Option β} {inputs : List α} {outputs : List β} :
    inputs.mapM f = some outputs ↔ List.Forall₂ (fun a b => f a = some b) inputs outputs := by
  induction inputs generalizing outputs with
  | nil => simp [eq_comm]
  | cons input rest ih =>
      simp only [List.mapM_cons, Option.bind_eq_bind, Option.bind_eq_some_iff,
        List.forall₂_cons_left_iff]
      constructor
      · rintro ⟨first, hfirst, more, hmore, houtputs⟩
        cases houtputs
        exact ⟨first, more, hfirst, ih.mp hmore, rfl⟩
      · rintro ⟨first, more, hfirst, hmore, rfl⟩
        exact ⟨first, hfirst, more, ih.mpr hmore, rfl⟩

theorem exists_of_mapM_eq_some {α β : Type} {f : α → Option β} {inputs : List α} {outputs : List β}
    (hmapped : inputs.mapM f = some outputs) :
    ∀ input ∈ inputs, ∃ output, f input = some output := by
  rw [mapM_eq_some_iff] at hmapped
  induction hmapped with
  | nil => exact List.forall_mem_nil _
  | cons hfirst _ ih => exact List.forall_mem_cons.mpr ⟨⟨_, hfirst⟩, ih⟩

theorem mapM_congr {α β : Type} {f g : α → Option β} {inputs : List α}
    (hsame : ∀ input ∈ inputs, f input = g input) : inputs.mapM f = inputs.mapM g := by
  induction inputs with
  | nil => rfl
  | cons input rest ih =>
      obtain ⟨hinput, hrest⟩ := List.forall_mem_cons.mp hsame
      rw [List.mapM_cons, List.mapM_cons, hinput, ih hrest]

namespace Value

/-- A value that is not made of other values and can be copied. -/
def isPlain : Value → Bool
  | .list _ | .tuple _ | .dict _ | .foreign (.object _) => false
  | _ => true

/-- A value of at most so many levels that has no object without content in it, apart from the keys
of dictionaries. -/
inductive Placeable : Nat → Value → Prop
  | plain {levels : Nat} {v : Value} (hplain : v.isPlain = true) : Placeable levels v
  | list {levels : Nat} {items : List Value} (hitems : ∀ item ∈ items, Placeable levels item) :
      Placeable (levels + 1) (.list items)
  | tuple {levels : Nat} {items : List Value} (hitems : ∀ item ∈ items, Placeable levels item) :
      Placeable (levels + 1) (.tuple items)
  | dict {levels : Nat} {entries : List (Value × Value)}
      (hentries : ∀ entry ∈ entries, Placeable levels entry.2) :
      Placeable (levels + 1) (.dict entries)

theorem Placeable.mono {levels more : Nat} {v : Value} (hplaceable : v.Placeable levels)
    (hlevels : levels ≤ more) : v.Placeable more := by
  induction hplaceable generalizing more with
  | plain hplain => exact .plain hplain
  | list _ ih =>
      cases more with
      | zero => exact absurd hlevels (Nat.not_succ_le_zero _)
      | succ more => exact .list fun item hmem => ih item hmem (Nat.le_of_succ_le_succ hlevels)
  | tuple _ ih =>
      cases more with
      | zero => exact absurd hlevels (Nat.not_succ_le_zero _)
      | succ more => exact .tuple fun item hmem => ih item hmem (Nat.le_of_succ_le_succ hlevels)
  | dict _ ih =>
      cases more with
      | zero => exact absurd hlevels (Nat.not_succ_le_zero _)
      | succ more => exact .dict fun entry hmem => ih entry hmem (Nat.le_of_succ_le_succ hlevels)

end Value

namespace Memory

/-- Whether every object of a memory is the same in another one. -/
def Extends (memory later : Memory) : Prop :=
  ∀ (place : Nat) (object : Object),
    memory.objects[place]? = some object → later.objects[place]? = some object

theorem Extends.refl (memory : Memory) : memory.Extends memory := fun _ _ hobject => hobject

theorem Extends.trans {memory between later : Memory} (hfirst : memory.Extends between)
    (hsecond : between.Extends later) : memory.Extends later :=
  fun place object hobject => hsecond place object (hfirst place object hobject)

theorem extends_make (memory : Memory) (object : Object) :
    memory.Extends (memory.make object).1 := by
  intro place held hheld
  obtain ⟨hlt, -⟩ := Array.getElem?_eq_some_iff.mp hheld
  rw [make]
  simp only
  rw [Array.getElem?_push_lt hlt, ← hheld, Array.getElem?_eq_getElem hlt]

theorem datum_make (memory : Memory) (object : Object) :
    (memory.make object).2 = .object memory.objects.size := rfl

theorem object_make (memory : Memory) (object : Object) :
    (memory.make object).1.objects[memory.objects.size]? = some object :=
  Array.getElem?_push_size

/-- What can be viewed stays as it is when objects are added. -/
theorem viewWithin_of_extends {memory later : Memory} (hextends : memory.Extends later)
    {levels : Nat} {datum : Datum} {value : Value}
    (hview : memory.viewWithin levels datum = some value) :
    later.viewWithin levels datum = some value := by
  -- on the levels, not on the datum: what an object holds is no part of its place
  induction levels generalizing datum value with
  | zero =>
      cases datum with
      | fixed held => exact hview
      | tuple items => cases hview
      | object place =>
          rw [viewWithin] at hview ⊢
          split at hview
          · next hobject => rw [hextends _ _ hobject]; exact hview
          · cases hview
  | succ levels ih =>
      have hall : ∀ {data : List Datum} {values : List Value},
          data.mapM (fun item => memory.viewWithin levels item) = some values →
            data.mapM (fun item => later.viewWithin levels item) = some values := by
        intro data values hvalues
        rw [mapM_eq_some_iff] at hvalues ⊢
        exact hvalues.imp fun _ _ => ih
      cases datum with
      | fixed held => exact hview
      | tuple items =>
          rw [viewWithin] at hview ⊢
          obtain ⟨values, hvalues, hvalue⟩ := Option.map_eq_some_iff.mp hview
          rw [hall hvalues, Option.map_some, hvalue]
      | object place =>
          rw [viewWithin] at hview ⊢
          split at hview
          · next items hobject =>
              obtain ⟨values, hvalues, hvalue⟩ := Option.map_eq_some_iff.mp hview
              rw [hextends _ _ hobject]
              simp only
              rw [hall hvalues, Option.map_some, hvalue]
          · next entries hobject =>
              obtain ⟨values, hvalues, hvalue⟩ := Option.map_eq_some_iff.mp hview
              rw [hextends _ _ hobject]
              simp only
              rw [mapM_eq_some_iff] at hvalues
              refine Option.map_eq_some_iff.mpr ⟨values, ?_, hvalue⟩
              rw [mapM_eq_some_iff]
              refine hvalues.imp fun entry viewed hentry => ?_
              obtain ⟨inner, hinner, hviewed⟩ := Option.map_eq_some_iff.mp hentry
              rw [ih hinner, Option.map_some, hviewed]
          · next octets hobject => rw [hextends _ _ hobject]; exact hview
          · cases hview

theorem viewAll_of_extends {memory later : Memory} (hextends : memory.Extends later)
    {data : List Datum} {values : List Value} (hview : memory.viewAll data = some values) :
    later.viewAll data = some values := by
  rw [viewAll, mapM_eq_some_iff] at hview ⊢
  exact hview.imp fun _ _ => viewWithin_of_extends hextends

/-! ## Placing -/

theorem extends_placeAll_of_forall {items : List Value}
    (hitems : ∀ item ∈ items, ∀ memory : Memory, memory.Extends (memory.place item).1)
    (memory : Memory) : memory.Extends (memory.placeAll items).1 := by
  induction items generalizing memory with
  | nil => exact Extends.refl memory
  | cons item rest ih =>
      obtain ⟨hitem, hrest⟩ := List.forall_mem_cons.mp hitems
      rw [placeAll]
      exact (hitem memory).trans (ih hrest _)

theorem extends_placeEntries_of_forall {entries : List (Value × Value)}
    (hentries : ∀ entry ∈ entries, ∀ memory : Memory, memory.Extends (memory.place entry.2).1)
    (memory : Memory) : memory.Extends (memory.placeEntries entries).1 := by
  induction entries generalizing memory with
  | nil => exact Extends.refl memory
  | cons entry rest ih =>
      obtain ⟨hentry, hrest⟩ := List.forall_mem_cons.mp hentries
      rw [placeEntries]
      exact (hentry memory).trans (ih hrest _)

/-- Placing a value adds objects and leaves those that were there. -/
theorem extends_place (memory : Memory) (value : Value) :
    memory.Extends (memory.place value).1 := by
  induction value using Value.nested_induction generalizing memory with
  | list items ih =>
      rw [place]
      exact (extends_placeAll_of_forall ih memory).trans (extends_make _ _)
  | tuple items ih =>
      rw [place]
      exact extends_placeAll_of_forall ih memory
  | dict entries ih =>
      rw [place]
      exact (extends_placeEntries_of_forall (fun entry hmem => (ih entry hmem).2) memory).trans
        (extends_make _ _)
  | byteArray octets => exact extends_make memory _
  | foreign kind =>
      cases kind with
      | object number => exact fun _ _ hobject => hobject
      | _ => exact Extends.refl memory
  | _ => exact Extends.refl memory

theorem extends_placeAll (memory : Memory) (items : List Value) :
    memory.Extends (memory.placeAll items).1 :=
  extends_placeAll_of_forall (fun item _ memory => extends_place memory item) memory

theorem extends_placeEntries (memory : Memory) (entries : List (Value × Value)) :
    memory.Extends (memory.placeEntries entries).1 :=
  extends_placeEntries_of_forall (fun entry _ memory => extends_place memory entry.2) memory

theorem view_placeAll_of_forall {levels : Nat} {items : List Value}
    (hitems : ∀ item ∈ items, ∀ memory : Memory,
      (memory.place item).1.viewWithin levels (memory.place item).2 = some item)
    (memory : Memory) :
    (memory.placeAll items).2.mapM
      (fun datum => (memory.placeAll items).1.viewWithin levels datum) = some items := by
  induction items generalizing memory with
  | nil => rfl
  | cons item rest ih =>
      obtain ⟨hitem, hrest⟩ := List.forall_mem_cons.mp hitems
      have hviews := ih hrest (memory.place item).1
      rw [placeAll]
      rw [mapM_eq_some_iff] at hviews ⊢
      exact .cons (viewWithin_of_extends (extends_placeAll _ rest) (hitem memory)) hviews

theorem view_placeEntries_of_forall {levels : Nat} {entries : List (Value × Value)}
    (hentries : ∀ entry ∈ entries, ∀ memory : Memory,
      (memory.place entry.2).1.viewWithin levels (memory.place entry.2).2 = some entry.2)
    (memory : Memory) :
    (memory.placeEntries entries).2.mapM (fun entry =>
      ((memory.placeEntries entries).1.viewWithin levels entry.2).map
        fun value => (entry.1, value)) = some entries := by
  induction entries generalizing memory with
  | nil => rfl
  | cons entry rest ih =>
      obtain ⟨key, value⟩ := entry
      obtain ⟨hentry, hrest⟩ := List.forall_mem_cons.mp hentries
      have hviews := ih hrest (memory.place value).1
      rw [placeEntries]
      rw [mapM_eq_some_iff] at hviews ⊢
      refine .cons ?_ hviews
      simp only
      rw [viewWithin_of_extends (extends_placeEntries _ rest) (hentry memory), Option.map_some]

theorem view_place_plain {value : Value} (hplain : value.isPlain = true) (levels : Nat)
    (memory : Memory) :
    (memory.place value).1.viewWithin levels (memory.place value).2 = some value := by
  cases value with
  | byteArray octets =>
      rw [place]
      cases levels with
      | zero => rw [datum_make, viewWithin, object_make]
      | succ levels => rw [datum_make, viewWithin, object_make]
  | foreign kind =>
      cases kind with
      | object number => cases hplain
      | _ => cases levels <;> rfl
  | list items => cases hplain
  | tuple items => cases hplain
  | dict entries => cases hplain
  | _ => cases levels <;> rfl

/-- The datum that placing gives views as the value that was placed. -/
theorem view_place {levels : Nat} {value : Value} (hplaceable : value.Placeable levels)
    (memory : Memory) :
    (memory.place value).1.viewWithin levels (memory.place value).2 = some value := by
  induction hplaceable generalizing memory with
  | plain hplain => exact view_place_plain hplain _ memory
  | @list levels items _ ih =>
      have hviews := view_placeAll_of_forall ih memory
      -- the list itself is made last, and what it refers to views the same behind it
      have hlater : (memory.placeAll items).2.mapM (fun datum =>
          ((memory.placeAll items).1.make (.list (memory.placeAll items).2)).1.viewWithin
            levels datum) = some items := by
        rw [mapM_eq_some_iff] at hviews ⊢
        exact hviews.imp fun _ _ => viewWithin_of_extends (extends_make _ _)
      rw [place, datum_make, viewWithin, object_make]
      simp only
      rw [hlater, Option.map_some]
  | tuple _ ih =>
      rw [place, viewWithin, view_placeAll_of_forall ih memory, Option.map_some]
  | @dict levels entries _ ih =>
      have hviews := view_placeEntries_of_forall ih memory
      have hlater : (memory.placeEntries entries).2.mapM (fun entry =>
          (((memory.placeEntries entries).1.make
            (.dict (memory.placeEntries entries).2)).1.viewWithin levels entry.2).map
              fun value => (entry.1, value)) = some entries := by
        rw [mapM_eq_some_iff] at hviews ⊢
        refine hviews.imp fun entry viewed hentry => ?_
        obtain ⟨inner, hinner, hviewed⟩ := Option.map_eq_some_iff.mp hentry
        rw [viewWithin_of_extends (extends_make _ _) hinner, Option.map_some, hviewed]
      rw [place, datum_make, viewWithin, object_make]
      simp only
      rw [hlater, Option.map_some]

/-- Several values that are placed one after the other view as they were. -/
theorem viewAll_placeAll {values : List Value}
    (hplaceable : ∀ value ∈ values, value.Placeable nestingLimit) (memory : Memory) :
    (memory.placeAll values).1.viewAll (memory.placeAll values).2 = some values :=
  view_placeAll_of_forall (fun value hmem => view_place (hplaceable value hmem)) memory

/-! ## Reading back -/

section

variable {memory : Memory} {levels place : Nat} {viewed : Value}

theorem viewWithin_tuple {items : List Datum}
    (hview : memory.viewWithin levels (.tuple items) = some viewed) :
    ∃ inner values, levels = inner + 1 ∧
      items.mapM (fun item => memory.viewWithin inner item) = some values ∧
        viewed = .tuple values := by
  cases levels with
  | zero => cases hview
  | succ inner =>
      rw [viewWithin] at hview
      obtain ⟨values, hvalues, rfl⟩ := Option.map_eq_some_iff.mp hview
      exact ⟨inner, values, rfl, hvalues, rfl⟩

theorem viewWithin_list {items : List Datum} (hobject : memory.objects[place]? = some (.list items))
    (hview : memory.viewWithin levels (.object place) = some viewed) :
    ∃ inner values, levels = inner + 1 ∧
      items.mapM (fun item => memory.viewWithin inner item) = some values ∧
        viewed = .list values := by
  cases levels with
  | zero =>
      rw [viewWithin, hobject] at hview
      cases hview
  | succ inner =>
      rw [viewWithin, hobject] at hview
      obtain ⟨values, hvalues, rfl⟩ := Option.map_eq_some_iff.mp hview
      exact ⟨inner, values, rfl, hvalues, rfl⟩

theorem viewWithin_dict {entries : List (Value × Datum)}
    (hobject : memory.objects[place]? = some (.dict entries))
    (hview : memory.viewWithin levels (.object place) = some viewed) :
    ∃ inner values, levels = inner + 1 ∧
      entries.mapM (fun entry => (memory.viewWithin inner entry.2).map
        fun value => (entry.1, value)) = some values ∧ viewed = .dict values := by
  cases levels with
  | zero =>
      rw [viewWithin, hobject] at hview
      cases hview
  | succ inner =>
      rw [viewWithin, hobject] at hview
      obtain ⟨values, hvalues, rfl⟩ := Option.map_eq_some_iff.mp hview
      exact ⟨inner, values, rfl, hvalues, rfl⟩

end

theorem eq_of_view_placeAll_of_forall {levels : Nat} {items : List Value}
    (hitems : ∀ item ∈ items, ∀ (memory later : Memory) (viewed : Value),
      (memory.place item).1.Extends later →
        later.viewWithin levels (memory.place item).2 = some viewed →
          viewed.Placeable levels → viewed = item)
    {memory later : Memory} {viewed : List Value}
    (hextends : (memory.placeAll items).1.Extends later)
    (hview : (memory.placeAll items).2.mapM (fun datum => later.viewWithin levels datum) =
      some viewed) (hplaceable : ∀ value ∈ viewed, value.Placeable levels) : viewed = items := by
  induction items generalizing memory viewed with
  | nil =>
      cases hview
      rfl
  | cons item rest ih =>
      obtain ⟨hitem, hrest⟩ := List.forall_mem_cons.mp hitems
      rw [placeAll] at hextends hview
      rw [mapM_eq_some_iff] at hview
      -- the first datum was made before the others, so their objects do not touch its view
      obtain ⟨first, more, hfirst, hmore, rfl⟩ := List.forall₂_cons_left_iff.mp hview
      obtain ⟨hhead, htail⟩ := List.forall_mem_cons.mp hplaceable
      rw [hitem memory later first ((extends_placeAll _ rest).trans hextends) hfirst hhead,
        ih hrest hextends (mapM_eq_some_iff.mpr hmore) htail]

theorem eq_of_view_placeEntries_of_forall {levels : Nat} {entries : List (Value × Value)}
    (hentries : ∀ entry ∈ entries, ∀ (memory later : Memory) (viewed : Value),
      (memory.place entry.2).1.Extends later →
        later.viewWithin levels (memory.place entry.2).2 = some viewed →
          viewed.Placeable levels → viewed = entry.2)
    {memory later : Memory} {viewed : List (Value × Value)}
    (hextends : (memory.placeEntries entries).1.Extends later)
    (hview : (memory.placeEntries entries).2.mapM (fun entry =>
      (later.viewWithin levels entry.2).map fun value => (entry.1, value)) = some viewed)
    (hplaceable : ∀ entry ∈ viewed, entry.2.Placeable levels) : viewed = entries := by
  induction entries generalizing memory viewed with
  | nil =>
      cases hview
      rfl
  | cons entry rest ih =>
      obtain ⟨key, value⟩ := entry
      obtain ⟨hentry, hrest⟩ := List.forall_mem_cons.mp hentries
      rw [placeEntries] at hextends hview
      rw [mapM_eq_some_iff] at hview
      obtain ⟨first, more, hfirst, hmore, rfl⟩ := List.forall₂_cons_left_iff.mp hview
      obtain ⟨inner, hinner, rfl⟩ := Option.map_eq_some_iff.mp hfirst
      obtain ⟨hhead, htail⟩ := List.forall_mem_cons.mp hplaceable
      rw [hentry memory later inner ((extends_placeEntries _ rest).trans hextends) hinner hhead,
        ih hrest hextends (mapM_eq_some_iff.mpr hmore) htail]

/-- Whatever was placed, if it views as a value that has no object without content in it, then as
the value that was placed. -/
theorem eq_of_view_place {levels : Nat} {value viewed : Value} {memory later : Memory}
    (hextends : (memory.place value).1.Extends later)
    (hview : later.viewWithin levels (memory.place value).2 = some viewed)
    (hplaceable : viewed.Placeable levels) : viewed = value := by
  induction value using Value.nested_induction generalizing levels viewed memory later with
  | list items ih =>
      rw [place] at hextends hview
      obtain ⟨levels, inner, rfl, hinner, rfl⟩ :=
        viewWithin_list (hextends _ _ (object_make _ _)) hview
      cases hplaceable with
      | plain hplain => cases hplain
      | list hitems =>
          rw [eq_of_view_placeAll_of_forall
            (fun item hmem _ _ _ hlater hviewed => ih item hmem hlater hviewed)
            ((extends_make _ _).trans hextends) hinner hitems]
  | tuple items ih =>
      rw [place] at hextends hview
      obtain ⟨levels, inner, rfl, hinner, rfl⟩ := viewWithin_tuple hview
      cases hplaceable with
      | plain hplain => cases hplain
      | tuple hitems =>
          rw [eq_of_view_placeAll_of_forall
            (fun item hmem _ _ _ hlater hviewed => ih item hmem hlater hviewed)
            hextends hinner hitems]
  | dict entries ih =>
      rw [place] at hextends hview
      obtain ⟨levels, inner, rfl, hinner, rfl⟩ :=
        viewWithin_dict (hextends _ _ (object_make _ _)) hview
      cases hplaceable with
      | plain hplain => cases hplain
      | dict hentries =>
          rw [eq_of_view_placeEntries_of_forall
            (fun entry hmem _ _ _ hlater hviewed => (ih entry hmem).2 hlater hviewed)
            ((extends_make _ _).trans hextends) hinner hentries]
  | byteArray octets =>
      have hobject := hextends _ _ (object_make _ _)
      rw [place, datum_make] at hview
      cases levels with
      | zero =>
          rw [viewWithin, hobject] at hview
          cases hview
          rfl
      | succ levels =>
          rw [viewWithin, hobject] at hview
          cases hview
          rfl
  | foreign kind =>
      cases kind with
      | object number =>
          -- it was given a new number, so here alone the view is not what was placed
          have hforeign : some (Value.foreign (.object (memory.numbered + 1))) = some viewed := by
            rw [← hview]
            cases levels <;> rfl
          cases hforeign
          cases hplaceable with
          | plain hplain => cases hplain
      | _ => exact (Option.some.inj (by rw [← hview]; cases levels <;> rfl)).symm
  | _ => exact (Option.some.inj (by rw [← hview]; cases levels <;> rfl)).symm

theorem eq_of_view_placeAll {levels : Nat} {values viewed : List Value} {memory later : Memory}
    (hextends : (memory.placeAll values).1.Extends later)
    (hview : (memory.placeAll values).2.mapM (fun datum => later.viewWithin levels datum) =
      some viewed)
    (hplaceable : ∀ value ∈ viewed, value.Placeable levels) : viewed = values :=
  eq_of_view_placeAll_of_forall
    (fun _ _ _ _ _ hlater hviewed hsound => eq_of_view_place hlater hviewed hsound)
    hextends hview hplaceable

theorem view_tuple (memory : Memory) (items : List Datum) :
    memory.view (.tuple items) =
      (items.mapM fun item => memory.viewWithin (nestingLimit - 1) item).map .tuple := rfl

end Memory

end SealedCall
