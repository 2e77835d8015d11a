import Mathlib.Data.List.Nodup
import Mathlib.Data.List.Perm.Subperm
import SealedCall.Proofs.Json.Printing
import SealedCall.Proofs.Text.Order
import SealedCall.Proofs.Value.Alike

/-! # One text for values that are alike

The entries of a dictionary are printed in the order of their keys, which are different texts, so
the order in which they were inserted leaves no trace: values that are alike have the same JSON
text.
-/

namespace SealedCall.Json

open Value

theorem pairwise_sortedByKey {α : Type} (entries : List (Text × α)) :
    (sortedByKey entries).Pairwise fun a b => Text.atMost a.1 b.1 = true := by
  refine List.pairwise_mergeSort ?_ ?_ entries
  · exact fun _ _ _ hab hbc => Text.atMost_trans hab hbc
  · exact fun a b => Text.atMost_total a.1 b.1

/-- Under different keys there is only one order. -/
theorem sortedByKey_eq_of_perm {α : Type} {entries others : List (Text × α)}
    (hperm : entries.Perm others) (hdiffer : entries.Pairwise fun a b => a.1 ≠ b.1) :
    sortedByKey entries = sortedByKey others := by
  refine List.Perm.eq_of_pairwise ?_ (pairwise_sortedByKey entries) (pairwise_sortedByKey others)
    ((perm_sortedByKey entries).trans (hperm.trans (perm_sortedByKey others).symm))
  intro a b ha hb hab hba
  have hkeys : (entries.map Prod.fst).Nodup := List.pairwise_map.mpr hdiffer
  exact List.inj_on_of_nodup_map hkeys (mem_sortedByKey.mp ha)
    (hperm.mem_iff.mpr (mem_sortedByKey.mp hb)) (Text.atMost_antisymm hab hba)

theorem print_list_congr {items others : List Value}
    (hprint : items.map print = others.map print) : print (.list items) = print (.list others) := by
  rw [print, print, printAll_eq_map, printAll_eq_map, hprint]

theorem print_tuple (items : List Value) : print (.tuple items) = print (.list items) := rfl

theorem map_print_of_alikeAll {items others : List Value} (halike : AlikeAll items others)
    (hprint : ∀ item ∈ items, ∀ other ∈ others, Alike item other → print item = print other) :
    items.map print = others.map print := by
  induction items generalizing others with
  | nil =>
      cases others with
      | nil => rfl
      | cons other others => simp [AlikeAll] at halike
  | cons item rest ih =>
      cases others with
      | nil => simp [AlikeAll] at halike
      | cons other others =>
          rw [AlikeAll] at halike
          rw [List.map_cons, List.map_cons,
            hprint item List.mem_cons_self other List.mem_cons_self halike.1,
            ih halike.2 fun item hitem other hother =>
              hprint item (List.mem_cons_of_mem _ hitem) other (List.mem_cons_of_mem _ hother)]

/-- The entries of alike dictionaries are printed to the same members in some order. -/
theorem perm_printEntries {entries others : List (Value × Value)}
    (htext : ∀ entry ∈ entries, ∃ t, entry.1 = .text t)
    (htextOthers : ∀ other ∈ others, ∃ t, other.1 = .text t)
    (hdiffer : entries.Pairwise fun a b => equal a.1 b.1 = false)
    (hlength : entries.length = others.length)
    (hentries : ∀ entry ∈ entries, ∃ other ∈ others, other.1 = entry.1 ∧
      print entry.2 = print other.2) :
    (printEntries entries).Perm (printEntries others) := by
  have hkeys : (printEntries entries).Pairwise fun a b => a.1 ≠ b.1 := by
    rw [printEntries_eq_map htext, List.pairwise_map]
    exact pairwise_byText htext hdiffer
  have hsubset : printEntries entries ⊆ printEntries others := by
    rw [printEntries_eq_map htext, printEntries_eq_map htextOthers]
    intro written hmem
    obtain ⟨byKey, hbyKey, rfl⟩ := List.mem_map.mp hmem
    obtain ⟨entry, hentry, rfl⟩ := List.mem_map.mp hbyKey
    obtain ⟨other, hother, hkey, hprint⟩ := hentries entry hentry
    refine List.mem_map.mpr ⟨_, List.mem_map_of_mem hother, ?_⟩
    simp only [hkey, hprint]
  have hnodup : (printEntries entries).Nodup := hkeys.imp fun hne h => hne (congrArg Prod.fst h)
  refine (List.subperm_of_subset hnodup hsubset).perm_of_length_le ?_
  rw [printEntries_eq_map htext, printEntries_eq_map htextOthers]
  simp only [byText, List.length_map]
  exact Nat.le_of_eq hlength.symm

/-- Values that are alike have the same JSON text. -/
theorem print_of_alike {v w : Value} (halike : Alike v w) (htext : v.Everywhere TextKeyed)
    (htextOther : w.Everywhere TextKeyed) (hdiffer : v.Everywhere KeysDiffer) :
    print v = print w := by
  induction v using nested_induction generalizing w with
  | list items ih =>
      cases w with
      | list others =>
          rw [Alike] at halike
          refine print_list_congr (map_print_of_alikeAll halike ?_)
          exact fun item hitem other hother hsame =>
            ih item hitem hsame (htext.item hitem) (htextOther.item hother) (hdiffer.item hitem)
      | _ => cases halike
  | tuple items ih =>
      cases w with
      | tuple others =>
          rw [Alike] at halike
          rw [print_tuple, print_tuple]
          refine print_list_congr (map_print_of_alikeAll halike ?_)
          exact fun item hitem other hother hsame =>
            ih item hitem hsame (htext.component hitem) (htextOther.component hother)
              (hdiffer.component hitem)
      | _ => cases halike
  | dict entries ih =>
      cases w with
      | dict others =>
          rw [Alike, alikeEntries_iff] at halike
          obtain ⟨hlength, hentries⟩ := halike
          have hkeys := htext.here entries rfl
          have hkeysOther := htextOther.here others rfl
          have hdifferHere := hdiffer.here entries rfl
          have hperm : (printEntries entries).Perm (printEntries others) := by
            refine perm_printEntries hkeys hkeysOther hdifferHere hlength fun entry hmem => ?_
            obtain ⟨other, hother, hkey, hsame⟩ := hentries entry hmem
            exact ⟨other, hother, hkey, (ih entry hmem).2 hsame (htext.entry hmem)
              (htextOther.entry hother) (hdiffer.entry hmem)⟩
          have hprinted : (printEntries entries).Pairwise fun a b => a.1 ≠ b.1 := by
            rw [printEntries_eq_map hkeys, List.pairwise_map]
            exact pairwise_byText hkeys hdifferHere
          rw [print, print, sortedByKey_eq_of_perm hperm hprinted]
      | _ => cases halike
  | _ =>
      cases w <;> cases halike
      rfl

end SealedCall.Json
