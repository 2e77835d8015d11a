import SealedCall.Json.Printer
import SealedCall.Proofs.Value.Nested

/-! # Values with their surrogate pairs joined

Written as sixteen-bit units, a high surrogate with a low one right behind it cannot be told from
the character that the two encode. A value with every such pair joined is therefore what is left of
it when it has been written and read. Dictionaries are rebuilt in the order of the keys they had
before, so that of two keys that become equal the later one gives the value.
-/

namespace SealedCall

namespace Text

/-- Whether a high surrogate is followed by a low one anywhere. -/
def hasPair : Text → Bool
  | first :: second :: rest =>
    (first.isHighSurrogate && second.isLowSurrogate) || hasPair (second :: rest)
  | _ => false

theorem joinPairs_of_hasPair_eq_false {t : Text} (hfree : t.hasPair = false) :
    joinPairs t = t := by
  induction t with
  | nil => rfl
  | cons first rest ih =>
      cases rest with
      | nil => rfl
      | cons second rest =>
          rw [hasPair, Bool.or_eq_false_iff] at hfree
          rw [joinPairs, hfree.1, if_neg Bool.false_ne_true, ih hfree.2]

end Text

theorem Binary64.equal_self (x : Binary64) : x.equal x = true := by
  cases x with
  | finite negative m => exact beq_self_eq_true _
  | infinite negative => exact beq_self_eq_true _
  | nan mark => exact beq_self_eq_true _

theorem ForeignKind.equal_self (kind : ForeignKind) : kind.equal kind = true := by
  cases kind with
  | object number => exact beq_self_eq_true number
  | complex z =>
      rw [equal, ComplexNumber.equal, Binary64.equal_self, Binary64.equal_self]
      rfl
  | emptySet => rfl
  | frozenSet => rfl
  | range => rfl
  | integerType => rfl

namespace Value

/-- The dictionary that entries give when they are stored in the order of their keys, each under
the joined form of its key. -/
def rebuilt (entries : List (Text × Value)) : List (Value × Value) :=
  (Json.sortedByKey entries).foldl
    (fun stored entry => store (.text (Text.joinPairs entry.1)) entry.2 stored) []

mutual

/-- A value with every surrogate pair of its texts and keys joined. -/
def joined : Value → Value
  | .text t => .text (Text.joinPairs t)
  | .list items => .list (joinedAll items)
  | .tuple items => .tuple (joinedAll items)
  | .dict entries => .dict (rebuilt (joinedEntries entries))
  | other => other

/-- Several values, joined. -/
def joinedAll : List Value → List Value
  | [] => []
  | item :: rest => joined item :: joinedAll rest

/-- The entries of a dictionary by the texts of their keys, with their values joined. -/
def joinedEntries : List (Value × Value) → List (Text × Value)
  | [] => []
  | (key, value) :: rest => (key.keyText, joined value) :: joinedEntries rest

end

theorem joinedAll_eq_map (items : List Value) : joinedAll items = items.map joined := by
  induction items with
  | nil => rw [joinedAll, List.map_nil]
  | cons item rest ih => rw [joinedAll, List.map_cons, ih]

theorem joinedEntries_eq_map (entries : List (Value × Value)) :
    joinedEntries entries = (byText entries).map fun entry => (entry.1, entry.2.joined) := by
  induction entries with
  | nil => rw [joinedEntries]; rfl
  | cons entry rest ih =>
      obtain ⟨key, value⟩ := entry
      rw [joinedEntries, ih]
      rfl

@[simp]
theorem joined_typeName (v : Value) : v.joined.typeName = v.typeName := by
  cases v with
  | text t => rw [joined]; rfl
  | list items => rw [joined]; rfl
  | tuple items => rw [joined]; rfl
  | dict entries => rw [joined]; rfl
  | _ => rfl

/-! ## Entries in the order of their keys -/

/-- The order of the entries does not depend on what stands under the keys. -/
theorem sortedByKey_map {α β : Type} (f : α → β) (entries : List (Text × α)) :
    Json.sortedByKey (entries.map fun entry => (entry.1, f entry.2)) =
      (Json.sortedByKey entries).map fun entry => (entry.1, f entry.2) := by
  have hmap : (Json.sortedByKey entries).map (fun entry => (entry.1, f entry.2)) =
      Json.sortedByKey (entries.map fun entry => (entry.1, f entry.2)) :=
    List.map_mergeSort fun _ _ _ _ => rfl
  exact hmap.symm

theorem perm_sortedByKey {α : Type} (entries : List (Text × α)) :
    (Json.sortedByKey entries).Perm entries :=
  List.mergeSort_perm entries _

theorem mem_sortedByKey {α : Type} {entries : List (Text × α)} {entry : Text × α} :
    entry ∈ Json.sortedByKey entries ↔ entry ∈ entries :=
  (perm_sortedByKey entries).mem_iff

theorem mem_byText {entries : List (Value × Value)} {entry : Text × Value}
    (hmem : entry ∈ byText entries) :
    ∃ held ∈ entries, held.1.keyText = entry.1 ∧ held.2 = entry.2 := by
  obtain ⟨held, hheld, heq⟩ := List.mem_map.mp hmem
  subst heq
  exact ⟨held, hheld, rfl, rfl⟩

/-- Entries under different texts are all kept, in the order in which they are stored. -/
theorem foldl_store {entries : List (Text × Value)} {stored : List (Value × Value)}
    (habsent : ∀ entry ∈ entries, ∀ old ∈ stored, equal old.1 (.text entry.1) = false)
    (hdiffer : entries.Pairwise fun a b => a.1 ≠ b.1) :
    entries.foldl (fun stored entry => store (.text entry.1) entry.2 stored) stored =
      stored ++ entries.map fun entry => (.text entry.1, entry.2) := by
  have hkeys : (entries.map fun entry => ((.text entry.1, entry.2) : Value × Value)).Pairwise
      fun a b => equal a.1 b.1 = false := by
    rw [List.pairwise_map]
    exact hdiffer.imp fun hne => by rw [equal_text, beq_eq_false_iff_ne]; exact hne
  have hkeyed := foldl_store_of_differ (List.forall_mem_map.mpr habsent) hkeys
  rw [List.foldl_map] at hkeyed
  exact hkeyed

/-! ## Values without surrogate pairs -/

/-- Every key of the value, if it is a dictionary, is a text. -/
def TextKeyed (v : Value) : Prop :=
  ∀ entries, v = .dict entries → ∀ entry ∈ entries, ∃ t, entry.1 = .text t

/-- No two keys of the value, if it is a dictionary, are equal. -/
def KeysDiffer (v : Value) : Prop :=
  ∀ entries, v = .dict entries → entries.Pairwise fun a b => equal a.1 b.1 = false

/-- The value is no text that has a high surrogate with a low one right behind it. -/
def PairFree (v : Value) : Prop := ∀ t, v = .text t → t.hasPair = false

theorem pairwise_byText {entries : List (Value × Value)}
    (htext : ∀ entry ∈ entries, ∃ t, entry.1 = .text t)
    (hdiffer : entries.Pairwise fun a b => equal a.1 b.1 = false) :
    (byText entries).Pairwise fun a b => a.1 ≠ b.1 := by
  rw [byText, List.pairwise_map]
  refine hdiffer.imp_of_mem ?_
  intro a b hmemA hmemB hne
  obtain ⟨s, hs⟩ := htext a hmemA
  obtain ⟨t, ht⟩ := htext b hmemB
  rw [hs, ht, equal_text, beq_eq_false_iff_ne] at hne
  rw [hs, ht]
  exact hne

/-- Where no key has a surrogate pair and the keys differ, rebuilding only reorders the entries. -/
theorem rebuilt_of_pairFree {entries : List (Text × Value)}
    (hfree : ∀ entry ∈ entries, entry.1.hasPair = false)
    (hdiffer : entries.Pairwise fun a b => a.1 ≠ b.1) :
    rebuilt entries =
      (Json.sortedByKey entries).map fun entry => (.text entry.1, entry.2) := by
  have hsorted : (Json.sortedByKey entries).Pairwise fun a b => a.1 ≠ b.1 :=
    ((perm_sortedByKey entries).pairwise_iff fun hne => hne.symm).mpr hdiffer
  have hjoined : (Json.sortedByKey entries).map (fun entry => (Text.joinPairs entry.1, entry.2)) =
      Json.sortedByKey entries := by
    rw [List.map_congr_left (g := id), List.map_id]
    intro entry hmem
    rw [Text.joinPairs_of_hasPair_eq_false (hfree entry (mem_sortedByKey.mp hmem))]
    rfl
  calc
    rebuilt entries
        = ((Json.sortedByKey entries).map fun entry =>
            (Text.joinPairs entry.1, entry.2)).foldl
            (fun stored entry => store (.text entry.1) entry.2 stored) [] := by
          rw [rebuilt, List.foldl_map]
    _ = (Json.sortedByKey entries).map fun entry => (.text entry.1, entry.2) := by
          rw [hjoined, foldl_store (fun _ _ _ hmem => absurd hmem List.not_mem_nil) hsorted,
            List.nil_append]

/-- Every joined entry comes from one of the dictionary, under the same key. -/
theorem held_of_mem_joinedEntries {entries : List (Value × Value)}
    (htext : ∀ entry ∈ entries, ∃ t, entry.1 = .text t) {entry : Text × Value}
    (hmem : entry ∈ joinedEntries entries) :
    ∃ held ∈ entries, held.1 = .text entry.1 ∧ entry.2 = held.2.joined := by
  rw [joinedEntries_eq_map] at hmem
  obtain ⟨byKey, hbyKey, rfl⟩ := List.mem_map.mp hmem
  obtain ⟨held, hheld, hkey, hvalue⟩ := mem_byText hbyKey
  obtain ⟨t, ht⟩ := htext held hheld
  refine ⟨held, hheld, ?_, by rw [hvalue]⟩
  rw [← hkey, ht]
  rfl

/-- Without surrogate pairs, joining a dictionary only reorders its entries. -/
theorem joined_dict_of_pairFree {entries : List (Value × Value)}
    (htext : ∀ entry ∈ entries, ∃ t, entry.1 = .text t)
    (hdiffer : entries.Pairwise fun a b => equal a.1 b.1 = false)
    (hfree : ∀ entry ∈ entries, entry.1.keyText.hasPair = false) :
    joined (.dict entries) =
      .dict ((Json.sortedByKey (joinedEntries entries)).map fun entry =>
        (.text entry.1, entry.2)) := by
  have hjoinedFree : ∀ entry ∈ joinedEntries entries, entry.1.hasPair = false := by
    intro entry hmem
    obtain ⟨held, hheld, hkey, -⟩ := held_of_mem_joinedEntries htext hmem
    have hheldFree := hfree held hheld
    rw [hkey] at hheldFree
    exact hheldFree
  -- keys without pairs are not changed, so no two of them become equal
  have hjoinedDiffer : (joinedEntries entries).Pairwise fun a b => a.1 ≠ b.1 := by
    rw [joinedEntries_eq_map, List.pairwise_map]
    exact pairwise_byText htext hdiffer
  rw [joined, rebuilt_of_pairFree hjoinedFree hjoinedDiffer]

theorem length_sortedByKey_joinedEntries (entries : List (Value × Value)) :
    (Json.sortedByKey (joinedEntries entries)).length = entries.length := by
  rw [(perm_sortedByKey _).length_eq, joinedEntries_eq_map, List.length_map, byText,
    List.length_map]

theorem equal_joined_dict {entries : List (Value × Value)}
    (htext : ∀ entry ∈ entries, ∃ t, entry.1 = .text t)
    (hdiffer : entries.Pairwise fun a b => equal a.1 b.1 = false)
    (hfree : ∀ entry ∈ entries, entry.1.keyText.hasPair = false)
    (hvalues : ∀ entry ∈ entries, equal entry.2.joined entry.2 = true) :
    equal (joined (.dict entries)) (.dict entries) = true := by
  rw [joined_dict_of_pairFree htext hdiffer hfree, equal, Bool.and_eq_true]
  constructor
  · rw [List.length_map, length_sortedByKey_joinedEntries]
    exact beq_self_eq_true _
  · refine equalEntries_of_forall fun entry hmem => ?_
    obtain ⟨byKey, hbyKey, rfl⟩ := List.mem_map.mp hmem
    obtain ⟨held, hheld, hkey, hvalue⟩ :=
      held_of_mem_joinedEntries htext (mem_sortedByKey.mp hbyKey)
    refine ⟨held, hheld, ?_, ?_⟩
    · rw [hkey, equal_text]
      exact beq_self_eq_true _
    · rw [hvalue]
      exact hvalues held hheld

theorem keyText_hasPair_of_pairFree {entries : List (Value × Value)}
    (htext : ∀ entry ∈ entries, ∃ t, entry.1 = .text t)
    (hfree : Everywhere PairFree (.dict entries)) :
    ∀ entry ∈ entries, entry.1.keyText.hasPair = false := by
  intro entry hmem
  obtain ⟨t, ht⟩ := htext entry hmem
  rw [ht]
  exact (hfree.key hmem).here t ht

/-- A value without surrogate pairs comes back equal when it is joined. -/
theorem equal_joined {v : Value} (htext : Everywhere TextKeyed v)
    (hdiffer : Everywhere KeysDiffer v) (hfree : Everywhere PairFree v) :
    equal v.joined v = true := by
  induction v using nested_induction with
  | null => rfl
  | bool b => exact beq_self_eq_true _
  | int n => exact beq_self_eq_true _
  | float x => exact Binary64.equal_self x
  | text t =>
      rw [joined, Text.joinPairs_of_hasPair_eq_false (hfree.here t rfl), equal_text]
      exact beq_self_eq_true t
  | bytes octets => exact beq_self_eq_true octets
  | byteArray octets => exact beq_self_eq_true octets
  | list items ih =>
      rw [joined, joinedAll_eq_map]
      exact equalAll_map fun item hmem =>
        ih item hmem (htext.item hmem) (hdiffer.item hmem) (hfree.item hmem)
  | tuple items ih =>
      rw [joined, joinedAll_eq_map]
      exact equalAll_map fun item hmem =>
        ih item hmem (htext.component hmem) (hdiffer.component hmem) (hfree.component hmem)
  | dict entries ih =>
      have hkeys := htext.here entries rfl
      exact equal_joined_dict hkeys (hdiffer.here entries rfl)
        (keyText_hasPair_of_pairFree hkeys hfree) fun entry hmem =>
          (ih entry hmem).2 (htext.entry hmem) (hdiffer.entry hmem) (hfree.entry hmem)
  | foreign kind => exact ForeignKind.equal_self kind

end Value

end SealedCall
