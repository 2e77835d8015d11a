import SealedCall.Json.Response
import SealedCall.Proofs.Memory.Placing

/-! # Values that a response carries unchanged

A reader of a response sees less than what was handed in wherever a value has no form of its own in
JSON. Values made only of what JSON knows, with whole numbers that can be read and texts that can be
written, are carried as they are, if they fit into a response. No value is carried that does not.
-/

namespace SealedCall.Json

open Value

/-- Values made of nothing but what JSON has a form for that can be read back. -/
inductive Carried : Value → Prop
  | null : Carried .null
  | bool (b : Bool) : Carried (.bool b)
  | int {n : Int} (hshort : n.natAbs < digitLimit) : Carried (.int n)
  | float {x : Binary64} (hfinite : x.isFinite = true) : Carried (.float x)
  | text {t : Text} (hplain : t.hasSurrogate = false) : Carried (.text t)
  | list {items : List Value} (hitems : ∀ item ∈ items, Carried item) : Carried (.list items)
  | dict {entries : List (Value × Value)}
      (hkeys : ∀ entry ∈ entries, ∃ t, entry.1 = .text t ∧ t.hasSurrogate = false)
      (hdiffer : entries.Pairwise fun a b => equal a.1 b.1 = false)
      (hvalues : ∀ entry ∈ entries, Carried entry.2) : Carried (.dict entries)

theorem writtenText_eq_some {t : Text} (hplain : t.hasSurrogate = false) :
    writtenText t = some t := by
  rw [writtenText, hplain, if_neg Bool.false_ne_true]

/-- Whether no more than the given number of values stand inside each other, the innermost one
counted. -/
def fits : Nat → Value → Bool
  | 0, _ => false
  | levels + 1, .list items | levels + 1, .tuple items => items.all fun item => fits levels item
  | levels + 1, .dict entries => entries.all fun entry => fits levels entry.2
  | _ + 1, _ => true

theorem writtenEntry_eq_some {write : Value → Option Value} {entry : Value × Value}
    (hkey : ∃ t, entry.1 = .text t ∧ t.hasSurrogate = false)
    (hvalue : write entry.2 = some entry.2) : writtenEntry write entry = some entry := by
  obtain ⟨key, value⟩ := entry
  obtain ⟨t, rfl, hplain⟩ := hkey
  rw [writtenEntry, writtenKey, writtenText_eq_some hplain, hvalue]

/-- The reader of a response sees a carried value as it is, where it fits. -/
theorem writtenWithin_of_carried {v : Value} {levels : Nat} (hcarried : Carried v)
    (hfits : fits levels v = true) : writtenWithin levels v = some v := by
  induction levels generalizing v with
  | zero => cases hfits
  | succ levels ih =>
      cases hcarried with
      | null => rfl
      | bool b => rfl
      | int hshort => rfl
      | float hfinite => rw [writtenWithin, if_pos hfinite]
      | text hplain => rw [writtenWithin, writtenText_eq_some hplain, Option.map_some]
      | list hitems =>
          rw [fits, List.all_eq_true] at hfits
          rw [writtenWithin, mapM_eq_some_iff.mpr, Option.map_some]
          exact List.forall₂_same.mpr fun item hmem => ih (hitems item hmem) (hfits item hmem)
      | dict hkeys hdiffer hvalues =>
          rw [fits, List.all_eq_true] at hfits
          rw [writtenWithin, mapM_eq_some_iff.mpr, Option.map_some, dictOf_of_differ hdiffer]
          exact List.forall₂_same.mpr fun entry hmem =>
            writtenEntry_eq_some (hkeys entry hmem) (ih (hvalues entry hmem) (hfits entry hmem))

/-- Only what fits into a response is written. -/
theorem fits_of_writtenWithin {v seen : Value} {levels : Nat}
    (hwritten : writtenWithin levels v = some seen) : fits levels v = true := by
  induction levels generalizing v seen with
  | zero => cases hwritten
  | succ levels ih =>
      have hitems : ∀ {items more : List Value},
          (items.mapM fun item => writtenWithin levels item) = some more →
            (items.all fun item => fits levels item) = true := by
        intro items more hmore
        refine List.all_eq_true.mpr fun item hmem => ?_
        obtain ⟨seen, hseen⟩ := exists_of_mapM_eq_some hmore item hmem
        exact ih hseen
      cases v with
      | list items =>
          obtain ⟨more, hmore, -⟩ := Option.map_eq_some_iff.mp hwritten
          exact hitems hmore
      | tuple items =>
          obtain ⟨more, hmore, -⟩ := Option.map_eq_some_iff.mp hwritten
          exact hitems hmore
      | dict entries =>
          obtain ⟨more, hmore, -⟩ := Option.map_eq_some_iff.mp hwritten
          refine List.all_eq_true.mpr fun entry hmem => ?_
          obtain ⟨seen, hseen⟩ := exists_of_mapM_eq_some hmore entry hmem
          rw [writtenEntry] at hseen
          split at hseen
          · next hvalue => exact ih hvalue
          · cases hseen
      | _ => rfl

/-- What does not fit has no form in a response. -/
theorem written_of_not_fits {v : Value} (hfits : fits responseLimit v = false) :
    written v = none := by
  cases hwritten : written v with
  | none => rfl
  | some seen =>
      rw [fits_of_writtenWithin hwritten] at hfits
      cases hfits

-- the innermost value takes a level as well
example : writtenWithin 1 (.list [.null]) = none := rfl

theorem areShowable_of_forall {items : List Value}
    (hitems : ∀ item ∈ items, item.isShowable = true) : areShowable items = true := by
  induction items with
  | nil => rw [areShowable]
  | cons item rest ih =>
      obtain ⟨hitem, hrest⟩ := List.forall_mem_cons.mp hitems
      rw [areShowable, hitem, ih hrest, Bool.and_true]

theorem entriesShowable_of_forall {entries : List (Value × Value)}
    (hentries : ∀ entry ∈ entries, entry.1.isShowable = true ∧ entry.2.isShowable = true) :
    entriesShowable entries = true := by
  induction entries with
  | nil => rw [entriesShowable]
  | cons entry rest ih =>
      obtain ⟨⟨hkey, hvalue⟩, hrest⟩ := List.forall_mem_cons.mp hentries
      rw [entriesShowable, hkey, hvalue, ih hrest, Bool.and_true, Bool.and_true]

/-- No whole number in a carried value is too long to be read. -/
theorem isShowable_of_carried {v : Value} (hcarried : Carried v) : v.isShowable = true := by
  induction hcarried with
  | int hshort =>
      rw [isShowable, decide_eq_true_eq]
      exact hshort
  | list _ ih =>
      rw [isShowable]
      exact areShowable_of_forall ih
  | dict hkeys _ _ ih =>
      rw [isShowable]
      refine entriesShowable_of_forall fun entry hmem => ⟨?_, ih entry hmem⟩
      obtain ⟨t, ht, -⟩ := hkeys entry hmem
      rw [ht]
      rfl
  | _ => rfl

end SealedCall.Json
