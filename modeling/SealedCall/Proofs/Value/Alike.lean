import SealedCall.Proofs.Value.Joined

/-! # Values alike up to the order of entries

Two values are alike when they have the same type and content at every depth, and only the entries
of dictionaries may stand in another order. Numbers of different types are never alike, nor are
zeros of different signs. Dictionaries have different keys, so as many entries, each of which has
one like it on the other side, are all of them.
-/

namespace SealedCall.Value

mutual

def Alike : Value → Value → Prop
  | .list items, .list others => AlikeAll items others
  | .tuple items, .tuple others => AlikeAll items others
  | .dict entries, .dict others => entries.length = others.length ∧ AlikeEntries entries others
  | v, w => v = w

/-- Whether values are alike one by one. -/
def AlikeAll : List Value → List Value → Prop
  | [], [] => True
  | item :: rest, other :: others => Alike item other ∧ AlikeAll rest others
  | _, _ => False

/-- Whether every entry has one like it among others. -/
def AlikeEntries : List (Value × Value) → List (Value × Value) → Prop
  | [], _ => True
  | (key, value) :: rest, others =>
    (∃ other ∈ others, other.1 = key ∧ Alike value other.2) ∧ AlikeEntries rest others

end

theorem alikeEntries_iff {entries others : List (Value × Value)} :
    AlikeEntries entries others ↔
      ∀ entry ∈ entries, ∃ other ∈ others, other.1 = entry.1 ∧ Alike entry.2 other.2 := by
  induction entries with
  | nil => simp [AlikeEntries]
  | cons entry rest ih =>
      obtain ⟨key, value⟩ := entry
      rw [AlikeEntries, ih, List.forall_mem_cons]

theorem alikeAll_map {f : Value → Value} {items : List Value}
    (halike : ∀ item ∈ items, Alike (f item) item) : AlikeAll (items.map f) items := by
  induction items with
  | nil => rw [List.map_nil, AlikeAll]; trivial
  | cons item rest ih =>
      obtain ⟨hitem, hrest⟩ := List.forall_mem_cons.mp halike
      rw [List.map_cons, AlikeAll]
      exact ⟨hitem, ih hrest⟩

theorem AlikeAll.exists_mem {items others : List Value} (halike : AlikeAll items others)
    {item : Value} (hmem : item ∈ items) : ∃ other ∈ others, Alike item other := by
  induction items generalizing others with
  | nil => exact absurd hmem List.not_mem_nil
  | cons first rest ih =>
      cases others with
      | nil => simp [AlikeAll] at halike
      | cons other others =>
          rw [AlikeAll] at halike
          rcases List.mem_cons.mp hmem with rfl | hmem
          · exact ⟨other, List.mem_cons_self, halike.1⟩
          · obtain ⟨found, hfound, hsame⟩ := ih halike.2 hmem
            exact ⟨found, List.mem_cons_of_mem _ hfound, hsame⟩

/-- Without surrogate pairs, a value comes back alike when it is joined. -/
theorem alike_joined {v : Value} (htext : Everywhere TextKeyed v)
    (hdiffer : Everywhere KeysDiffer v) (hfree : Everywhere PairFree v) : Alike v.joined v := by
  induction v using nested_induction with
  | text t => rw [joined, Text.joinPairs_of_hasPair_eq_false (hfree.here t rfl)]; rfl
  | list items ih =>
      rw [joined, joinedAll_eq_map]
      exact alikeAll_map fun item hmem =>
        ih item hmem (htext.item hmem) (hdiffer.item hmem) (hfree.item hmem)
  | tuple items ih =>
      rw [joined, joinedAll_eq_map]
      exact alikeAll_map fun item hmem =>
        ih item hmem (htext.component hmem) (hdiffer.component hmem) (hfree.component hmem)
  | dict entries ih =>
      have hkeys := htext.here entries rfl
      rw [joined_dict_of_pairFree hkeys (hdiffer.here entries rfl)
        (keyText_hasPair_of_pairFree hkeys hfree), Alike]
      refine ⟨by rw [List.length_map, length_sortedByKey_joinedEntries], ?_⟩
      refine alikeEntries_iff.mpr fun entry hmem => ?_
      obtain ⟨byKey, hbyKey, rfl⟩ := List.mem_map.mp hmem
      obtain ⟨held, hheld, hkey, hvalue⟩ :=
        held_of_mem_joinedEntries hkeys (mem_sortedByKey.mp hbyKey)
      refine ⟨held, hheld, hkey, ?_⟩
      rw [hvalue]
      exact (ih held hheld).2 (htext.entry hheld) (hdiffer.entry hheld) (hfree.entry hheld)
  | _ => rfl

end SealedCall.Value
