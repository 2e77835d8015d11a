import SealedCall.Proofs.Value.Nested

/-! # How deep values nest

The depth of a value is the number of containers that stand inside each other in it. The keys of
dictionaries do not count, since nothing that walks through a value goes into them.
-/

namespace SealedCall.Value

mutual

/-- The greatest number of lists, tuples and dictionaries inside each other. -/
def depth : Value → Nat
  | .list items | .tuple items => depthAll items + 1
  | .dict entries => depthEntries entries + 1
  | .null | .bool _ | .int _ | .float _ | .text _ | .bytes _ | .byteArray _ | .foreign _ => 0

/-- The greatest depth among several values. -/
def depthAll : List Value → Nat
  | [] => 0
  | item :: rest => max (depth item) (depthAll rest)

/-- The greatest depth among the values of entries. -/
def depthEntries : List (Value × Value) → Nat
  | [] => 0
  | (_, value) :: rest => max (depth value) (depthEntries rest)

end

variable {items : List Value} {entries : List (Value × Value)} {levels : Nat}

theorem depthAll_le_iff : depthAll items ≤ levels ↔ ∀ item ∈ items, depth item ≤ levels := by
  induction items with
  | nil => simp [depthAll]
  | cons item rest ih => rw [depthAll, Nat.max_le, ih, List.forall_mem_cons]

theorem depthEntries_le_iff :
    depthEntries entries ≤ levels ↔ ∀ entry ∈ entries, depth entry.2 ≤ levels := by
  induction entries with
  | nil => simp [depthEntries]
  | cons entry rest ih =>
      obtain ⟨key, value⟩ := entry
      rw [depthEntries, Nat.max_le, ih, List.forall_mem_cons]

theorem depth_list_le_iff :
    depth (.list items) ≤ levels + 1 ↔ ∀ item ∈ items, depth item ≤ levels := by
  rw [depth, Nat.add_le_add_iff_right, depthAll_le_iff]

theorem depth_dict_le_iff :
    depth (.dict entries) ≤ levels + 1 ↔ ∀ entry ∈ entries, depth entry.2 ≤ levels := by
  rw [depth, Nat.add_le_add_iff_right, depthEntries_le_iff]

/-- A list needs a level of its own, and what is in it fits into the others. -/
theorem exists_of_depth_list_le (hdepth : depth (.list items) ≤ levels) :
    ∃ inner, levels = inner + 1 ∧ ∀ item ∈ items, depth item ≤ inner := by
  cases levels with
  | zero => rw [depth] at hdepth; omega
  | succ inner => exact ⟨inner, rfl, depth_list_le_iff.mp hdepth⟩

theorem exists_of_depth_dict_le (hdepth : depth (.dict entries) ≤ levels) :
    ∃ inner, levels = inner + 1 ∧ ∀ entry ∈ entries, depth entry.2 ≤ inner := by
  cases levels with
  | zero => rw [depth] at hdepth; omega
  | succ inner => exact ⟨inner, rfl, depth_dict_le_iff.mp hdepth⟩

end SealedCall.Value
