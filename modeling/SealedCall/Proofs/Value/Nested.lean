import SealedCall.Value.Equality

/-! # Induction on values

A value holds other values inside lists, tuples and dictionaries. What holds of a value whenever it
holds of everything directly inside it holds of every value. The parts of a value at any depth are
those that can be reached through its containers.
-/

namespace SealedCall.Value

@[elab_as_elim]
theorem nested_induction {motive : Value → Prop} (null : motive .null)
    (bool : ∀ b, motive (.bool b)) (int : ∀ n, motive (.int n)) (float : ∀ x, motive (.float x))
    (text : ∀ t, motive (.text t)) (bytes : ∀ octets, motive (.bytes octets))
    (byteArray : ∀ octets, motive (.byteArray octets))
    (list : ∀ items, (∀ item ∈ items, motive item) → motive (.list items))
    (tuple : ∀ items, (∀ item ∈ items, motive item) → motive (.tuple items))
    (dict : ∀ entries, (∀ entry ∈ entries, motive entry.1 ∧ motive entry.2) →
      motive (.dict entries))
    (foreign : ∀ kind, motive (.foreign kind)) (v : Value) : motive v :=
  @Value.rec motive (fun items => ∀ item ∈ items, motive item)
    (fun entries => ∀ entry ∈ entries, motive entry.1 ∧ motive entry.2)
    (fun entry => motive entry.1 ∧ motive entry.2)
    null bool int float text bytes byteArray list tuple dict foreign
    (fun _ hmem => nomatch hmem)
    (fun _ _ hhead htail => List.forall_mem_cons.mpr ⟨hhead, htail⟩)
    (fun _ hmem => nomatch hmem)
    (fun _ _ hhead htail => List.forall_mem_cons.mpr ⟨hhead, htail⟩)
    (fun _ _ hkey hvalue => ⟨hkey, hvalue⟩) v

/-- A value inside another one, at any depth; every value is inside itself. -/
inductive Within (part : Value) : Value → Prop
  | self : Within part part
  | item {items : List Value} {item : Value} (hmem : item ∈ items) (hpart : Within part item) :
      Within part (.list items)
  | component {items : List Value} {item : Value} (hmem : item ∈ items)
      (hpart : Within part item) : Within part (.tuple items)
  | key {entries : List (Value × Value)} {entry : Value × Value} (hmem : entry ∈ entries)
      (hpart : Within part entry.1) : Within part (.dict entries)
  | entry {entries : List (Value × Value)} {entry : Value × Value} (hmem : entry ∈ entries)
      (hpart : Within part entry.2) : Within part (.dict entries)

/-- Whether something holds of a value and of every value inside it. -/
def Everywhere (holds : Value → Prop) (v : Value) : Prop := ∀ part, Within part v → holds part

namespace Everywhere

variable {holds : Value → Prop} {items : List Value} {entries : List (Value × Value)}

theorem here {v : Value} (heverywhere : Everywhere holds v) : holds v := heverywhere v .self

theorem item (heverywhere : Everywhere holds (.list items)) {item : Value} (hmem : item ∈ items) :
    Everywhere holds item :=
  fun part hpart => heverywhere part (.item hmem hpart)

theorem component (heverywhere : Everywhere holds (.tuple items)) {item : Value}
    (hmem : item ∈ items) : Everywhere holds item :=
  fun part hpart => heverywhere part (.component hmem hpart)

theorem key (heverywhere : Everywhere holds (.dict entries)) {entry : Value × Value}
    (hmem : entry ∈ entries) : Everywhere holds entry.1 :=
  fun part hpart => heverywhere part (.key hmem hpart)

theorem entry (heverywhere : Everywhere holds (.dict entries)) {entry : Value × Value}
    (hmem : entry ∈ entries) : Everywhere holds entry.2 :=
  fun part hpart => heverywhere part (.entry hmem hpart)

end Everywhere

/-- Whether something holds of everything directly inside a value. -/
def AllInside (holds : Value → Prop) : Value → Prop
  | .list items | .tuple items => ∀ item ∈ items, holds item
  | .dict entries => ∀ entry ∈ entries, holds entry.1 ∧ holds entry.2
  | .null | .bool _ | .int _ | .float _ | .text _ | .bytes _ | .byteArray _ | .foreign _ => True

theorem everywhere_iff {holds : Value → Prop} {v : Value} :
    Everywhere holds v ↔ holds v ∧ AllInside (Everywhere holds) v := by
  constructor
  · intro heverywhere
    refine ⟨heverywhere.here, ?_⟩
    cases v with
    | list items => exact fun _ hmem => heverywhere.item hmem
    | tuple items => exact fun _ hmem => heverywhere.component hmem
    | dict entries => exact fun _ hmem => ⟨heverywhere.key hmem, heverywhere.entry hmem⟩
    | _ => exact True.intro
  · intro h part hpart
    cases hpart with
    | self => exact h.1
    | item hmem hinner => exact h.2 _ hmem part hinner
    | component hmem hinner => exact h.2 _ hmem part hinner
    | key hmem hinner => exact (h.2 _ hmem).1 part hinner
    | entry hmem hinner => exact (h.2 _ hmem).2 part hinner

theorem everywhere_list {holds : Value → Prop} {items : List Value} :
    Everywhere holds (.list items) ↔
      holds (.list items) ∧ ∀ item ∈ items, Everywhere holds item := everywhere_iff

theorem everywhere_dict {holds : Value → Prop} {entries : List (Value × Value)} :
    Everywhere holds (.dict entries) ↔
      holds (.dict entries) ∧
        ∀ entry ∈ entries, Everywhere holds entry.1 ∧ Everywhere holds entry.2 := everywhere_iff

/-- The text of a key that is one. -/
def keyText : Value → Text
  | .text t => t
  | _ => []

/-- The entries of a dictionary by the texts of their keys. -/
def byText (entries : List (Value × Value)) : List (Text × Value) :=
  entries.map fun entry => (entry.1.keyText, entry.2)

@[simp]
theorem equal_text (s t : Text) : equal (.text s) (.text t) = (s == t) := rfl

/-- Storing under a key that is not there yet puts the entry at the end. -/
theorem store_of_absent {α : Type} (key : Value) (value : α) {stored : List (Value × α)}
    (habsent : ∀ entry ∈ stored, equal entry.1 key = false) :
    store key value stored = stored ++ [(key, value)] := by
  induction stored with
  | nil => rfl
  | cons head rest ih =>
      obtain ⟨hhead, hrest⟩ := List.forall_mem_cons.mp habsent
      rw [store, hhead, if_neg Bool.false_ne_true, ih hrest]
      rfl

/-- Entries under different keys are all kept, in the order in which they are stored. -/
theorem foldl_store_of_differ {entries stored : List (Value × Value)}
    (habsent : ∀ entry ∈ entries, ∀ old ∈ stored, equal old.1 entry.1 = false)
    (hdiffer : entries.Pairwise fun a b => equal a.1 b.1 = false) :
    entries.foldl (fun stored entry => store entry.1 entry.2 stored) stored =
      stored ++ entries := by
  induction entries generalizing stored with
  | nil => exact (List.append_nil stored).symm
  | cons head rest ih =>
      obtain ⟨hhead, hrest⟩ := List.forall_mem_cons.mp habsent
      obtain ⟨hfirst, hlater⟩ := List.pairwise_cons.mp hdiffer
      rw [List.foldl_cons, store_of_absent _ _ hhead, ih _ hlater, List.append_assoc,
        List.singleton_append]
      intro entry hentry old hold
      rcases List.mem_append.mp hold with hold | hold
      · exact hrest entry hentry old hold
      · rw [List.mem_singleton.mp hold]
        exact hfirst entry hentry

theorem dictOf_of_differ {entries : List (Value × Value)}
    (hdiffer : entries.Pairwise fun a b => equal a.1 b.1 = false) :
    dictOf entries = .dict entries := by
  rw [dictOf, foldl_store_of_differ (fun _ _ _ hold => absurd hold List.not_mem_nil) hdiffer,
    List.nil_append]

theorem equalEntries_of_forall {xs ys : List (Value × Value)}
    (hequal : ∀ x ∈ xs, ∃ y ∈ ys, equal x.1 y.1 = true ∧ equal x.2 y.2 = true) :
    equalEntries xs ys = true := by
  induction xs with
  | nil => rw [equalEntries]
  | cons x rest ih =>
      obtain ⟨⟨y, hmem, hkey, hvalue⟩, hrest⟩ := List.forall_mem_cons.mp hequal
      rw [equalEntries, ih hrest, Bool.and_true, List.any_eq_true]
      exact ⟨y, hmem, by rw [hkey, hvalue]; rfl⟩

theorem equalAll_map {f : Value → Value} {items : List Value}
    (hequal : ∀ item ∈ items, equal (f item) item = true) :
    equalAll (items.map f) items = true := by
  induction items with
  | nil => rw [List.map_nil, equalAll]
  | cons item rest ih =>
      obtain ⟨hitem, hrest⟩ := List.forall_mem_cons.mp hequal
      rw [List.map_cons, equalAll, hitem, ih hrest]
      rfl

end SealedCall.Value
