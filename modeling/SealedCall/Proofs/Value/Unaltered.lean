import Mathlib.Algebra.Order.BigOperators.Group.List
import Mathlib.Algebra.Order.Ring.Nat
import Mathlib.Data.List.Nodup
import Mathlib.Data.List.Perm.Subperm
import SealedCall.Proofs.Value.Joined

/-! # Values that joining leaves equal

A value comes back equal from joining its surrogate pairs only when it has none. For a text this is
a matter of length. For a dictionary it takes all keys together: one joined key may well be another
key that was there before, but the keys cannot all be keys again when some of them got shorter.
-/

namespace SealedCall

namespace Text

theorem length_joinPairs_le (t : Text) : (joinPairs t).length ≤ t.length := by
  fun_induction joinPairs t with
  | case1 => exact Nat.le_refl _
  | case2 last => exact Nat.le_refl _
  | case3 first second rest hpair ih =>
      simp only [List.length_cons]
      omega
  | case4 first second rest hpair ih =>
      simp only [List.length_cons] at ih ⊢
      omega

/-- A text with a surrogate pair gets shorter. -/
theorem length_joinPairs_lt {t : Text} (hpair : t.hasPair = true) :
    (joinPairs t).length < t.length := by
  fun_induction joinPairs t with
  | case1 => cases hpair
  | case2 last => cases hpair
  | case3 first second rest hfirst ih =>
      have hrest := length_joinPairs_le rest
      simp only [List.length_cons]
      omega
  | case4 first second rest hfirst ih =>
      rw [hasPair, Bool.eq_false_iff.mpr hfirst, Bool.false_or] at hpair
      have hrest := ih hpair
      simp only [List.length_cons] at hrest ⊢
      omega

/-- Texts that all are among themselves again when they are joined, and stay different, have no
surrogate pairs. -/
theorem hasPair_of_joinPairs_mem {keys : List Text} (hnodup : (keys.map joinPairs).Nodup)
    (hmem : ∀ key ∈ keys, joinPairs key ∈ keys) : ∀ key ∈ keys, key.hasPair = false := by
  have hsubset : keys.map joinPairs ⊆ keys := by
    intro joined hjoined
    obtain ⟨key, hkey, rfl⟩ := List.mem_map.mp hjoined
    exact hmem key hkey
  have hperm : (keys.map joinPairs).Perm keys :=
    (List.subperm_of_subset hnodup hsubset).perm_of_length_le (by rw [List.length_map])
  have hsum : (keys.map fun key => (joinPairs key).length).sum = (keys.map List.length).sum := by
    have hlengths := (hperm.map List.length).sum_eq
    rw [List.map_map] at hlengths
    exact hlengths
  intro key hkey
  by_contra hpair
  have hless := List.sum_lt_sum (fun key => (joinPairs key).length) List.length
    (fun key _ => length_joinPairs_le key)
    ⟨key, hkey, length_joinPairs_lt (Bool.eq_true_of_not_eq_false hpair)⟩
  omega

end Text

namespace Value

theorem equalAll_map_iff {f : Value → Value} {items : List Value} :
    equalAll (items.map f) items = true ↔ ∀ item ∈ items, equal (f item) item = true := by
  refine ⟨fun hequal => ?_, equalAll_map⟩
  induction items with
  | nil => exact fun _ hmem => nomatch hmem
  | cons item rest ih =>
      rw [List.map_cons, equalAll, Bool.and_eq_true] at hequal
      exact List.forall_mem_cons.mpr ⟨hequal.1, ih hequal.2⟩

theorem exists_of_equalEntries {xs ys : List (Value × Value)} (hequal : equalEntries xs ys = true) :
    ∀ x ∈ xs, ∃ y ∈ ys, equal x.1 y.1 = true ∧ equal x.2 y.2 = true := by
  induction xs with
  | nil => exact fun _ hmem => nomatch hmem
  | cons x rest ih =>
      rw [equalEntries, Bool.and_eq_true, List.any_eq_true] at hequal
      obtain ⟨⟨y, hmem, hentry⟩, hrest⟩ := hequal
      exact List.forall_mem_cons.mpr ⟨⟨y, hmem, Bool.and_eq_true_iff.mp hentry⟩, ih hrest⟩

/-! ## Storing without a loss -/

theorem length_store_le {α : Type} (key : Value) (value : α) (stored : List (Value × α)) :
    (store key value stored).length ≤ stored.length + 1 := by
  induction stored with
  | nil => exact Nat.le_refl _
  | cons head rest ih =>
      rw [store]
      split
      · exact Nat.le_succ _
      · exact Nat.succ_le_succ ih

/-- Only a key that is not there yet makes the stored entries more. -/
theorem absent_of_length_store {α : Type} {key : Value} {value : α} {stored : List (Value × α)}
    (hlength : (store key value stored).length = stored.length + 1) :
    ∀ entry ∈ stored, equal entry.1 key = false := by
  induction stored with
  | nil => exact fun _ hmem => nomatch hmem
  | cons head rest ih =>
      rw [store] at hlength
      split at hlength
      · simp only [List.length_cons] at hlength
        omega
      · next hdiffers =>
          exact List.forall_mem_cons.mpr
            ⟨Bool.eq_false_iff.mpr hdiffers, ih (Nat.succ.inj hlength)⟩

theorem length_foldl_store_le (entries : List (Text × Value)) (stored : List (Value × Value)) :
    (entries.foldl (fun stored entry => store (.text entry.1) entry.2 stored) stored).length ≤
      stored.length + entries.length := by
  induction entries generalizing stored with
  | nil => exact Nat.le_refl _
  | cons entry rest ih =>
      have hrest := ih (store (.text entry.1) entry.2 stored)
      have hfirst := length_store_le (.text entry.1) entry.2 stored
      rw [List.foldl_cons, List.length_cons]
      omega

/-- Where storing entries keeps their number, no key was there before, and no two keys are the
same. -/
theorem differ_of_length_foldl_store {entries : List (Text × Value)}
    {stored : List (Value × Value)}
    (hlength : (entries.foldl (fun stored entry => store (.text entry.1) entry.2 stored)
      stored).length = stored.length + entries.length) :
    (∀ entry ∈ entries, ∀ old ∈ stored, equal old.1 (.text entry.1) = false) ∧
      entries.Pairwise fun a b => a.1 ≠ b.1 := by
  induction entries generalizing stored with
  | nil => exact ⟨fun _ hmem => absurd hmem List.not_mem_nil, List.Pairwise.nil⟩
  | cons entry rest ih =>
      have hrest := length_foldl_store_le rest (store (.text entry.1) entry.2 stored)
      have hfirst := length_store_le (.text entry.1) entry.2 stored
      rw [List.foldl_cons, List.length_cons] at hlength
      have hnew : (store (.text entry.1) entry.2 stored).length = stored.length + 1 := by omega
      have habsent := absent_of_length_store hnew
      obtain ⟨hlater, hdiffer⟩ := @ih (store (.text entry.1) entry.2 stored) (by omega)
      rw [store_of_absent _ _ habsent] at hlater
      refine ⟨List.forall_mem_cons.mpr ⟨habsent, fun other hother old hold => ?_⟩,
        List.pairwise_cons.mpr ⟨fun other hother => ?_, hdiffer⟩⟩
      · exact hlater other hother old (List.mem_append_left _ hold)
      · have hkeys := hlater other hother _ (List.mem_append_right _ List.mem_cons_self)
        rw [equal_text, beq_eq_false_iff_ne] at hkeys
        exact hkeys

/-! ## Dictionaries that come back equal -/

/-- Rebuilding that keeps the number of the entries joins no two keys to the same text, and keeps
every entry under its joined key. -/
theorem rebuilt_of_length {entries : List (Text × Value)}
    (hlength : (rebuilt entries).length = entries.length) :
    (entries.map fun entry => Text.joinPairs entry.1).Nodup ∧
      ∀ entry ∈ entries, (.text (Text.joinPairs entry.1), entry.2) ∈ rebuilt entries := by
  have hperm := perm_sortedByKey entries
  have hfold : rebuilt entries =
      ((Json.sortedByKey entries).map fun entry => (Text.joinPairs entry.1, entry.2)).foldl
        (fun stored entry => store (.text entry.1) entry.2 stored) [] := by
    rw [rebuilt, List.foldl_map]
  rw [hfold] at hlength ⊢
  obtain ⟨habsent, hdiffer⟩ := @differ_of_length_foldl_store _ []
    (by rw [hlength, List.length_map, hperm.length_eq, List.length_nil, Nat.zero_add])
  rw [foldl_store habsent hdiffer, List.nil_append]
  constructor
  · rw [List.pairwise_map] at hdiffer
    exact (hperm.map _).nodup_iff.mp (List.pairwise_map.mpr hdiffer)
  · intro entry hmem
    rw [List.map_map]
    exact List.mem_map.mpr ⟨entry, hperm.mem_iff.mpr hmem, rfl⟩

/-- A dictionary with texts as keys that comes back equal has no surrogate pair in a key, and every
value in it comes back equal. -/
theorem entries_of_equal_joined {entries : List (Value × Value)}
    (htext : ∀ entry ∈ entries, ∃ t, entry.1 = .text t)
    (hdiffer : entries.Pairwise fun a b => equal a.1 b.1 = false)
    (hequal : equal (joined (.dict entries)) (.dict entries) = true) :
    ∀ entry ∈ entries,
      entry.1.keyText.hasPair = false ∧ equal entry.2.joined entry.2 = true := by
  rw [joined, equal, Bool.and_eq_true, beq_iff_eq, joinedEntries_eq_map] at hequal
  obtain ⟨hlength, hentries⟩ := hequal
  obtain ⟨hnodup, hkept⟩ := rebuilt_of_length
    (by rw [hlength, List.length_map, byText, List.length_map])
  -- every entry has its equal among the old ones, under the joined form of its key
  have hfound : ∀ entry ∈ entries, ∃ other ∈ entries,
      other.1.keyText = Text.joinPairs entry.1.keyText ∧
        equal entry.2.joined other.2 = true := by
    intro entry hmem
    have hjoined : (entry.1.keyText, entry.2.joined) ∈
        (byText entries).map fun entry => (entry.1, entry.2.joined) := by
      rw [byText, List.map_map]
      exact List.mem_map.mpr ⟨entry, hmem, rfl⟩
    obtain ⟨other, hother, hkey, hvalue⟩ := exists_of_equalEntries hentries _ (hkept _ hjoined)
    obtain ⟨t, ht⟩ := htext other hother
    rw [ht, equal_text, beq_iff_eq] at hkey
    exact ⟨other, hother, by rw [ht, hkey]; rfl, hvalue⟩
  have hkeys : (entries.map fun entry => entry.1.keyText).Nodup := by
    have hbyText := pairwise_byText htext hdiffer
    rw [byText, List.pairwise_map] at hbyText
    exact List.pairwise_map.mpr hbyText
  have hfree : ∀ entry ∈ entries, entry.1.keyText.hasPair = false := by
    rw [← List.forall_mem_map (P := fun key : Text => key.hasPair = false)]
    refine Text.hasPair_of_joinPairs_mem ?_ ?_
    · rw [List.map_map, byText, List.map_map] at hnodup
      rw [List.map_map]
      exact hnodup
    · rw [List.forall_mem_map]
      intro entry hmem
      obtain ⟨other, hother, hkey, -⟩ := hfound entry hmem
      exact List.mem_map.mpr ⟨other, hother, hkey⟩
  intro entry hmem
  obtain ⟨other, hother, hkey, hvalue⟩ := hfound entry hmem
  rw [Text.joinPairs_of_hasPair_eq_false (hfree entry hmem)] at hkey
  rw [List.inj_on_of_nodup_map hkeys hother hmem hkey] at hvalue
  exact ⟨hfree entry hmem, hvalue⟩

/-- A value comes back equal from joining exactly when it has no surrogate pair, in any text or key
at any depth. -/
theorem equal_joined_iff {v : Value} (htext : Everywhere TextKeyed v)
    (hdiffer : Everywhere KeysDiffer v) :
    equal v.joined v = true ↔ Everywhere PairFree v := by
  refine ⟨fun hequal => ?_, equal_joined htext hdiffer⟩
  induction v using nested_induction with
  | text t =>
      rw [joined, equal_text, beq_iff_eq] at hequal
      refine everywhere_iff.mpr ⟨?_, True.intro⟩
      rintro _ ⟨⟩
      by_contra hpair
      have hless := Text.length_joinPairs_lt (Bool.eq_true_of_not_eq_false hpair)
      rw [hequal] at hless
      exact Nat.lt_irrefl _ hless
  | list items ih =>
      rw [joined, joinedAll_eq_map, equal, equalAll_map_iff] at hequal
      refine everywhere_iff.mpr ⟨by rintro _ ⟨⟩, fun item hmem => ?_⟩
      exact ih item hmem (htext.item hmem) (hdiffer.item hmem) (hequal item hmem)
  | tuple items ih =>
      rw [joined, joinedAll_eq_map, equal, equalAll_map_iff] at hequal
      refine everywhere_iff.mpr ⟨by rintro _ ⟨⟩, fun item hmem => ?_⟩
      exact ih item hmem (htext.component hmem) (hdiffer.component hmem) (hequal item hmem)
  | dict entries ih =>
      have hentries := entries_of_equal_joined (htext.here entries rfl) (hdiffer.here entries rfl)
        hequal
      refine everywhere_iff.mpr ⟨by rintro _ ⟨⟩, fun entry hmem => ⟨?_, ?_⟩⟩
      · obtain ⟨t, ht⟩ := htext.here entries rfl entry hmem
        rw [ht]
        refine everywhere_iff.mpr ⟨?_, True.intro⟩
        rintro _ ⟨⟩
        have hkey := (hentries entry hmem).1
        rw [ht] at hkey
        exact hkey
      · exact (ih entry hmem).2 (htext.entry hmem) (hdiffer.entry hmem) (hentries entry hmem).2
  | _ => exact everywhere_iff.mpr ⟨by rintro _ ⟨⟩, True.intro⟩

end Value

end SealedCall
