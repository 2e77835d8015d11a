import SealedCall.Proofs.Json.NumberToken
import SealedCall.Proofs.Value.Joined

/-! # What is printed

Where a container is printed, everything in it is. The entries of a dictionary are printed in the
order of their keys.
-/

namespace SealedCall.Json

/-- The text that was printed, if one was. -/
def printedText : Except WritingFault Text → Text
  | .ok t => t
  | .error _ => []

theorem gather_eq_ok {written : List (Except WritingFault Text)} {parts : List Text}
    (hgather : gather written = .ok parts) :
    parts = written.map printedText ∧ ∀ part ∈ written, part = .ok (printedText part) := by
  induction written generalizing parts with
  | nil =>
      cases hgather
      exact ⟨rfl, fun _ hmem => nomatch hmem⟩
  | cons first rest ih =>
      cases first with
      | error fault => exact nomatch hgather
      | ok part =>
          rw [gather] at hgather
          split at hgather
          · next parts hrest =>
              cases hgather
              obtain ⟨rfl, hall⟩ := ih hrest
              exact ⟨rfl, List.forall_mem_cons.mpr ⟨rfl, hall⟩⟩
          · exact nomatch hgather

theorem member_eq_ok {key : Text} {written : Except WritingFault Text}
    (hmember : member key written = .ok (printedText (member key written))) :
    written = .ok (printedText written) ∧
      printedText (member key written) =
        string key ++ CodePoint.ofChar ':' :: printedText written := by
  cases written with
  | ok t => exact ⟨rfl, rfl⟩
  | error fault => exact nomatch hmember

theorem printAll_eq_map (items : List Value) : printAll items = items.map print := by
  induction items with
  | nil => rw [printAll, List.map_nil]
  | cons item rest ih => rw [printAll, List.map_cons, ih]

theorem printEntries_eq_map {entries : List (Value × Value)}
    (htext : ∀ entry ∈ entries, ∃ t, entry.1 = .text t) :
    printEntries entries =
      (Value.byText entries).map fun entry => (entry.1, print entry.2) := by
  induction entries with
  | nil => rw [printEntries]; rfl
  | cons entry rest ih =>
      obtain ⟨key, value⟩ := entry
      obtain ⟨⟨t, ht⟩, hrest⟩ := List.forall_mem_cons.mp htext
      simp only at ht
      subst ht
      rw [printEntries, ih hrest]
      rfl

/-- A printed sequence is the printed items between brackets. -/
theorem print_list_eq_ok {items : List Value} {written : Text}
    (hprint : print (.list items) = .ok written) :
    written = enclosed '[' ']' (items.map fun item => printedText (print item)) ∧
      ∀ item ∈ items, print item = .ok (printedText (print item)) := by
  rw [print] at hprint
  split at hprint
  · next parts hgather =>
      cases hprint
      rw [printAll_eq_map] at hgather
      obtain ⟨rfl, hall⟩ := gather_eq_ok hgather
      rw [List.map_map]
      exact ⟨rfl, fun item hmem => hall (print item) (List.mem_map_of_mem hmem)⟩
  · exact nomatch hprint

/-- A printed dictionary is its printed members between braces, in the order of their keys. -/
theorem print_dict_eq_ok {entries : List (Value × Value)} {written : Text}
    (htext : ∀ entry ∈ entries, ∃ t, entry.1 = .text t)
    (hprint : print (.dict entries) = .ok written) :
    written = enclosed '\x7b' '\x7d' ((sortedByKey (Value.byText entries)).map fun entry =>
        string entry.1 ++ CodePoint.ofChar ':' :: printedText (print entry.2)) ∧
      ∀ entry ∈ entries, print entry.2 = .ok (printedText (print entry.2)) := by
  rw [print] at hprint
  split at hprint
  · next parts hgather =>
      cases hprint
      rw [printEntries_eq_map htext, Value.sortedByKey_map, List.map_map] at hgather
      obtain ⟨rfl, hall⟩ := gather_eq_ok hgather
      have hmember : ∀ entry ∈ sortedByKey (Value.byText entries),
          print entry.2 = .ok (printedText (print entry.2)) ∧
            printedText (member entry.1 (print entry.2)) =
              string entry.1 ++ CodePoint.ofChar ':' :: printedText (print entry.2) :=
        fun entry hmem => member_eq_ok (hall _ (List.mem_map_of_mem hmem))
      refine ⟨?_, ?_⟩
      · rw [List.map_map]
        exact congrArg _ (List.map_congr_left fun entry hmem => (hmember entry hmem).2)
      · intro entry hmem
        have hbyText : (entry.1.keyText, entry.2) ∈ Value.byText entries :=
          List.mem_map_of_mem hmem
        exact (hmember _ (Value.mem_sortedByKey.mpr hbyText)).1
  · exact nomatch hprint

end SealedCall.Json
