import SealedCall.Proofs.Declaration
import SealedCall.Proofs.Json.Canonical

/-! # Views of a roster

Whatever calls have been made to enrol and declare, also ones that failed, no two entries of the
roster have one id and each has a name. From this it follows that all ways to look at the roster
agree: asking for an id, finding what is held under it, making a handle for it, and the lists of ids
and names.
-/

namespace SealedCall

open Operation

/-- A call that may put an action on the roster. -/
inductive RosterCall
  | enrol (id : Value) (implementation : Implementation) (name : Value)
  | declare (id name : Value) (implementation : Implementation)

/-- The host when a call has ended, whether it came back or failed. -/
def Host.afterCall (host : Host) : RosterCall → Host
  | .enrol id implementation name => ((Enrolment.enrol id implementation name).perform host).2
  | .declare id name implementation => ((Enrolment.declare id name implementation).perform host).2

/-- The host when several calls were made, one after the other. -/
def Host.afterCalls (host : Host) : List RosterCall → Host
  | [] => host
  | call :: rest => (host.afterCall call).afterCalls rest

namespace Roster

/-- Whether the entries of a roster have different ids, and names that count as present. -/
structure Consistent (roster : Roster) : Prop where
  ids_differ : (roster.actions.map (·.id)).Nodup
  named : ∀ entry ∈ roster.actions, entry.name.isTruthy = true

variable {roster : Roster} {t : Text} {entry : RosterEntry}

theorem mem_of_find? (hheld : roster.find? t = some entry) :
    entry ∈ roster.actions ∧ entry.id = t :=
  ⟨List.mem_of_find?_eq_some hheld, by simpa using List.find?_some hheld⟩

theorem find?_eq_none_iff : roster.find? t = none ↔ ∀ entry ∈ roster.actions, entry.id ≠ t := by
  simp [find?]

/-! ## What calls keep -/

theorem consistent_empty (salt : Value) : (Roster.empty salt).Consistent :=
  ⟨List.nodup_nil, List.forall_mem_nil _⟩

/-- A new entry under a free id keeps the roster consistent. -/
theorem Consistent.added (hconsistent : roster.Consistent) (hfree : roster.find? entry.id = none)
    (hnamed : entry.name.isTruthy = true) : (roster.after (.added entry)).Consistent := by
  constructor
  · rw [after, List.map_append, List.nodup_append]
    refine ⟨hconsistent.ids_differ, List.nodup_singleton _, ?_⟩
    intro id hid other hother
    obtain ⟨held, hmem, rfl⟩ := List.mem_map.mp hid
    rw [List.mem_singleton.mp hother]
    exact find?_eq_none_iff.mp hfree held hmem
  · intro held hmem
    rcases List.mem_append.mp hmem with hmem | hmem
    · exact hconsistent.named held hmem
    · rw [List.mem_singleton.mp hmem]
      exact hnamed

theorem Consistent.of_led {start later : Roster} {calls : List EnrolmentCall}
    (hled : start.Led calls later) (hconsistent : start.Consistent) : later.Consistent := by
  induction hled with
  | idle roster => exact hconsistent
  | @call host id implementation name calls later hrest ih =>
      apply ih
      rcases enrol_cases host id implementation name with ⟨t, held, -, -, -, hroster⟩ |
        ⟨t, fullName, -, hnew, hname, -, hroster⟩ | ⟨failure, -, hroster⟩
      · rw [hroster]
        exact hconsistent
      · rw [hroster]
        exact hconsistent.added hnew (isTruthy_of_nameFor hname)
      · rw [hroster]
        exact hconsistent

theorem Consistent.afterCall {host : Host} (hconsistent : host.roster.Consistent)
    (call : RosterCall) : (host.afterCall call).roster.Consistent := by
  cases call with
  | enrol id implementation name =>
      exact .of_led (led_enrol host id implementation name) hconsistent
  | declare id name implementation =>
      exact .of_led (led_declare host id name implementation) hconsistent

theorem Consistent.afterCalls {host : Host} (hconsistent : host.roster.Consistent)
    (calls : List RosterCall) : (host.afterCalls calls).roster.Consistent := by
  induction calls generalizing host with
  | nil => exact hconsistent
  | cons call rest ih => exact ih (hconsistent.afterCall call)

/-! ## Looking for one id -/

theorem mem_ids_iff : t ∈ roster.ids ↔ ∃ entry, roster.find? t = some entry := by
  rw [ids, List.mem_mergeSort, List.mem_map, ← Option.ne_none_iff_exists', ne_eq,
    find?_eq_none_iff]
  push Not
  rfl

theorem entry_text (roster : Roster) (t : Text) :
    roster.entry (.text t) =
      match roster.find? t with
      | some entry => .ok entry
      | none => .error (.unknownAction (.text t)) := by
  rw [Roster.entry, lookup]
  cases roster.find? t with
  | none => rfl
  | some held => rfl

theorem contains_text (roster : Roster) (t : Text) :
    roster.contains (.text t) = .ok (decide (t ∈ roster.ids)) := by
  rw [contains, lookup]
  refine congrArg Except.ok ?_
  rw [Bool.eq_iff_iff, Option.isSome_iff_exists, decide_eq_true_iff, mem_ids_iff]

theorem entry_text_eq_ok_iff :
    roster.entry (.text t) = .ok entry ↔ roster.find? t = some entry := by
  rw [entry_text]
  cases roster.find? t with
  | none => simp
  | some held => simp

theorem exists_implementationOf_iff :
    (∃ implementation, roster.implementationOf (.text t) = .ok implementation) ↔
      ∃ entry, roster.find? t = some entry := by
  constructor
  · rintro ⟨implementation, hfound⟩
    obtain ⟨_, held, ⟨⟩, hheld, -⟩ := implementationOf_eq_ok hfound
    exact ⟨held, hheld⟩
  · rintro ⟨held, hheld⟩
    exact ⟨_, implementationOf_text hheld⟩

/-! ## Lists -/

/-- The items of the mapping that a roster is: each entry under its id. -/
def items (roster : Roster) : List (Text × RosterEntry) :=
  roster.actions.map fun entry => (entry.id, entry)

theorem namesById_eq (roster : Roster) :
    roster.namesById = (Json.sortedByKey roster.items).map fun item => (item.1, item.2.name) := by
  rw [namesById, items, ← Value.sortedByKey_map, List.map_map]
  rfl

theorem map_fst_namesById (roster : Roster) : roster.namesById.map (·.1) = roster.ids := by
  have hkeys : roster.namesById.map (·.1) =
      ((roster.actions.map fun entry => (entry.id, entry.name)).map (·.1)).mergeSort Text.atMost :=
    List.map_mergeSort fun _ _ _ _ => rfl
  rw [hkeys, List.map_map]
  rfl

theorem size_eq_length_ids (roster : Roster) : roster.size = roster.ids.length := by
  rw [size, ids, List.length_mergeSort, List.length_map]

/-- The ids stand in strict order, since no two are the same. -/
theorem Consistent.pairwise_ids (hconsistent : roster.Consistent) :
    roster.ids.Pairwise fun s t => Text.before s t = true := by
  have hordered : roster.ids.Pairwise fun s t => Text.atMost s t = true := by
    refine List.pairwise_mergeSort ?_ ?_ _
    · exact fun _ _ _ hab hbc => Text.atMost_trans hab hbc
    · exact Text.atMost_total
  have hdiffer : roster.ids.Pairwise fun s t => s ≠ t :=
    (List.mergeSort_perm _ _).nodup_iff.mpr hconsistent.ids_differ
  exact hordered.imp₂ (fun _ _ hatMost hne => (Text.atMost_iff.mp hatMost).resolve_left hne) hdiffer

/-- Every entry is the one that is found under its id. -/
theorem Consistent.find?_of_mem (hconsistent : roster.Consistent) (hmem : entry ∈ roster.actions) :
    roster.find? entry.id = some entry := by
  cases hheld : roster.find? entry.id with
  | none => exact absurd rfl (find?_eq_none_iff.mp hheld entry hmem)
  | some held =>
      obtain ⟨hheldMem, hid⟩ := mem_of_find? hheld
      rw [List.inj_on_of_nodup_map hconsistent.ids_differ hheldMem hmem hid]

/-- A listed name is the name of what is found under the id that it is listed with. -/
theorem Consistent.of_mem_namesById (hconsistent : roster.Consistent) {name : Value}
    (hlisted : (t, name) ∈ roster.namesById) :
    ∃ entry, roster.find? t = some entry ∧ entry.name = name ∧ name.isTruthy = true := by
  obtain ⟨entry, hmem, hentry⟩ := List.mem_map.mp (Value.mem_sortedByKey.mp hlisted)
  cases hentry
  exact ⟨entry, hconsistent.find?_of_mem hmem, rfl, hconsistent.named entry hmem⟩

/-! ## Comparing items -/

section

variable {α : Type} (heldAtMost : α → α → Except Failure Bool)

/-- How two items of a mapping compare: by their keys, and only where these are the same by what is
held under them, which may fail. -/
def itemsAtMost (a b : Text × α) : Except Failure Bool :=
  if a.1 = b.1 then heldAtMost a.2 b.2 else .ok (Text.atMost a.1 b.1)

/-- Puts an item among items that are in order, after comparing it with one after the other. -/
def insertItem (item : Text × α) : List (Text × α) → Except Failure (List (Text × α))
  | [] => .ok [item]
  | next :: rest =>
    match itemsAtMost heldAtMost item next with
    | .ok true => .ok (item :: next :: rest)
    | .ok false => (insertItem item rest).map (next :: ·)
    | .error failure => .error failure

/-- Sorts items by comparing them, and fails where comparing two of them does. -/
def sortItems : List (Text × α) → Except Failure (List (Text × α))
  | [] => .ok []
  | item :: rest =>
    match sortItems rest with
    | .ok sorted => insertItem heldAtMost item sorted
    | .error failure => .error failure

theorem itemsAtMost_of_ne {a b : Text × α} (hne : a.1 ≠ b.1) :
    itemsAtMost heldAtMost a b = .ok (Text.atMost a.1 b.1) := if_neg hne

theorem insertItem_of_new {item : Text × α} {sorted : List (Text × α)}
    (hsorted : sorted.Pairwise fun a b => Text.atMost a.1 b.1 = true)
    (hnew : ∀ other ∈ sorted, item.1 ≠ other.1) :
    ∃ placed, insertItem heldAtMost item sorted = .ok placed ∧ placed.Perm (item :: sorted) ∧
      placed.Pairwise fun a b => Text.atMost a.1 b.1 = true := by
  induction sorted with
  | nil => exact ⟨[item], rfl, .refl _, List.pairwise_singleton _ _⟩
  | cons next rest ih =>
      obtain ⟨hnext, hrest⟩ := List.pairwise_cons.mp hsorted
      obtain ⟨hne, hothers⟩ := List.forall_mem_cons.mp hnew
      rw [insertItem, itemsAtMost_of_ne heldAtMost hne]
      cases hfirst : Text.atMost item.1 next.1 with
      | true =>
          refine ⟨item :: next :: rest, rfl, .refl _, List.pairwise_cons.mpr ⟨?_, hsorted⟩⟩
          intro other hmem
          rcases List.mem_cons.mp hmem with rfl | hmem
          · exact hfirst
          · exact Text.atMost_trans hfirst (hnext other hmem)
      | false =>
          obtain ⟨placed, hplaced, hperm, hordered⟩ := ih hrest hothers
          have hbehind : Text.atMost next.1 item.1 = true := by
            simpa [hfirst] using Text.atMost_total item.1 next.1
          refine ⟨next :: placed, by rw [hplaced]; rfl, (hperm.cons next).trans (.swap _ _ _),
            List.pairwise_cons.mpr ⟨?_, hordered⟩⟩
          intro other hmem
          rcases List.mem_cons.mp (hperm.mem_iff.mp hmem) with rfl | hmem
          · exact hbehind
          · exact hnext other hmem

/-- Items with different keys are sorted without a look at what is held under them. -/
theorem sortItems_of_differ {entries : List (Text × α)}
    (hdiffer : entries.Pairwise fun a b => a.1 ≠ b.1) :
    sortItems heldAtMost entries = .ok (Json.sortedByKey entries) := by
  induction entries with
  | nil => rw [sortItems, Json.sortedByKey, List.mergeSort_nil]
  | cons item rest ih =>
      obtain ⟨hnew, hrest⟩ := List.pairwise_cons.mp hdiffer
      obtain ⟨placed, hplaced, hperm, hordered⟩ :=
        insertItem_of_new heldAtMost (Json.pairwise_sortedByKey rest)
          fun other hmem => hnew other (Value.mem_sortedByKey.mp hmem)
      have hentries : placed.Perm (item :: rest) :=
        hperm.trans ((Value.perm_sortedByKey rest).cons item)
      have hplacedDiffer : placed.Pairwise fun a b => a.1 ≠ b.1 :=
        (hentries.pairwise_iff fun hne => hne.symm).mpr hdiffer
      rw [sortItems, ih hrest]
      simp only
      -- what is in order already does not change when it is sorted
      rw [hplaced, ← Json.sortedByKey_eq_of_perm hentries hplacedDiffer, Json.sortedByKey,
        List.mergeSort_of_pairwise hordered]

end

theorem Consistent.items_differ (hconsistent : roster.Consistent) :
    roster.items.Pairwise fun a b => a.1 ≠ b.1 :=
  List.pairwise_map.mpr (List.pairwise_map.mp hconsistent.ids_differ)

end Roster

/-- A handle is made for what is found, and the failure to find it is the failure to make one. -/
theorem Handle.outcome_ofRegistered (host : Host) (id : Value) :
    ((Handle.ofRegistered id).perform host).1 = (host.roster.entry id).map fun _ => ⟨id⟩ := by
  rw [Handle.ofRegistered, Operation.perform_bind, perform_get]
  simp only
  cases host.roster.entry id with
  | ok held => rfl
  | error failure => rfl

/-- All ways to look at a roster agree, whatever calls were made on an empty one. For every text, it
is contained, has an entry, has an implementation and gets a handle exactly when it is one of the
ids, and its entry has it for its id. The ids stand in strict order and are as many as there are
entries, and the names are listed with the same ids in the same order, each being that of the entry
and counting as present. To sort the items, no two entries are ever compared. -/
theorem roster_views_agree (host : Host) (salt : Value) (calls : List RosterCall) (later : Host)
    (hlater : later = ({ host with roster := .empty salt } : Host).afterCalls calls) :
    (∀ t, later.roster.contains (.text t) = .ok (decide (t ∈ later.roster.ids)) ∧
      ((∃ entry, later.roster.entry (.text t) = .ok entry) ↔ t ∈ later.roster.ids) ∧
      ((∃ implementation, later.roster.implementationOf (.text t) = .ok implementation) ↔
        t ∈ later.roster.ids) ∧
      ((∃ handle, ((Handle.ofRegistered (.text t)).perform later).1 = .ok handle) ↔
        t ∈ later.roster.ids) ∧
      ∀ entry, later.roster.entry (.text t) = .ok entry → entry.id = t) ∧
    (later.roster.ids.Pairwise fun s t => Text.before s t = true) ∧
    later.roster.size = later.roster.ids.length ∧
    later.roster.namesById.map (·.1) = later.roster.ids ∧
    (∀ listed ∈ later.roster.namesById, ∃ entry,
      later.roster.entry (.text listed.1) = .ok entry ∧ entry.name = listed.2 ∧
        listed.2.isTruthy = true) ∧
    ∀ heldAtMost,
      (later.roster.items.Pairwise fun a b =>
        Roster.itemsAtMost heldAtMost a b = .ok (Text.atMost a.1 b.1) ∧
          Roster.itemsAtMost heldAtMost b a = .ok (Text.atMost b.1 a.1)) ∧
      (Roster.sortItems heldAtMost later.roster.items).map
        (fun items => items.map fun item => (item.1, item.2.name)) =
          .ok later.roster.namesById := by
  have hconsistent : later.roster.Consistent := by
    rw [hlater]
    exact Roster.Consistent.afterCalls (Roster.consistent_empty salt) calls
  refine ⟨fun t => ⟨Roster.contains_text _ t, ?_, ?_, ?_, ?_⟩, hconsistent.pairwise_ids,
    Roster.size_eq_length_ids _, Roster.map_fst_namesById _, ?_, fun heldAtMost => ⟨?_, ?_⟩⟩
  · simp only [Roster.entry_text_eq_ok_iff, Roster.mem_ids_iff]
  · rw [Roster.exists_implementationOf_iff, Roster.mem_ids_iff]
  · rw [Handle.outcome_ofRegistered, Roster.mem_ids_iff, Roster.entry_text]
    cases later.roster.find? t with
    | none => simp [Except.map]
    | some held => simp [Except.map]
  · intro entry hentry
    exact (Roster.mem_of_find? (Roster.entry_text_eq_ok_iff.mp hentry)).2
  · rintro ⟨t, name⟩ hlisted
    obtain ⟨entry, hheld, hname⟩ := hconsistent.of_mem_namesById hlisted
    exact ⟨entry, Roster.entry_text_eq_ok_iff.mpr hheld, hname⟩
  · exact hconsistent.items_differ.imp fun hne =>
      ⟨Roster.itemsAtMost_of_ne heldAtMost hne, Roster.itemsAtMost_of_ne heldAtMost hne.symm⟩
  · rw [Roster.sortItems_of_differ heldAtMost hconsistent.items_differ, Roster.namesById_eq]
    rfl

/-- Two ids that are enrolled, a rival for the first, and a declaration that fails at its mark. -/
def sampleRosterCalls : List RosterCall :=
  [.enrol (Value.ofString "ship") .sample .null,
    .enrol (Value.ofString "pay") RosterScene.rival .null,
    .enrol (Value.ofString "ship") RosterScene.rival .null,
    .declare (Value.ofString "act") .null Enrolment.unmarkable]

/-- The declaration that failed put its id on the roster, and every view shows it. -/
theorem roster_views_agree_sample :
    ∃ later, later = ({ Host.untouched with roster := .empty .null } : Host).afterCalls
        sampleRosterCalls ∧
      later.roster.ids.length = 3 ∧ Text.of "act" ∈ later.roster.ids ∧
      later.roster.contains (Value.ofString "act") = .ok true ∧
      (∃ handle, ((Handle.ofRegistered (Value.ofString "act")).perform later).1 = .ok handle) ∧
      later.roster.namesById.map (·.1) = later.roster.ids ∧
      (Roster.sortItems (fun _ _ => .error .integrity) later.roster.items).map
        (fun items => items.map fun item => (item.1, item.2.name)) =
          .ok later.roster.namesById := by
  obtain ⟨hviews, -, hsize, hnames, -, hitems⟩ :=
    roster_views_agree Host.untouched .null sampleRosterCalls _ rfl
  obtain ⟨hcontains, hentry, -, hhandle, -⟩ := hviews (Text.of "act")
  have hlisted := hentry.mp ⟨_, rfl⟩
  refine ⟨_, rfl, hsize.symm, hlisted, ?_, hhandle.mpr hlisted, hnames,
    (hitems fun _ _ => .error .integrity).2⟩
  rw [decide_eq_true hlisted] at hcontains
  exact hcontains

end SealedCall
