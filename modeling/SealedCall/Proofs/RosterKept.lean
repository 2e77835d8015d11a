import SealedCall.Proofs.BasicSteps
import SealedCall.Variables

/-! # Operations that keep the roster

Freezing, sealing, opening and recovering, and whatever is done with variables, leave the whole
roster as it was, also when they fail.
-/

namespace SealedCall

open Operation

namespace Roster

variable {roster : Roster} {id : Value}

/-- Only a text under which an entry is held has an implementation. -/
theorem implementationOf_eq_ok {implementation : Implementation}
    (hlookup : roster.implementationOf id = .ok implementation) :
    ∃ t entry, id = .text t ∧ roster.find? t = some entry ∧
      entry.implementation = implementation := by
  rw [implementationOf, entry, lookup.eq_def] at hlookup
  split at hlookup
  · next held hentry =>
      cases hlookup
      split at hentry
      · next hfound =>
          cases hentry
          split at hfound
          · next t =>
              exact ⟨t, held, rfl, Except.ok.inj hfound, rfl⟩
          · split at hfound
            · cases hfound
            · cases hfound
      · cases hentry
      · cases hentry
  · cases hlookup

theorem lookup_of_unhashable {typeName : String} (hpart : id.unhashablePart? = some typeName) :
    roster.lookup id = .error (.misuse (.unhashable typeName)) := by
  rw [lookup.eq_def]
  split
  · cases hpart
  · rw [hpart]

theorem lookup_of_hashable (hpart : id.unhashablePart? = none) :
    ∃ found, roster.lookup id = .ok found := by
  rw [lookup.eq_def]
  split
  · exact ⟨_, rfl⟩
  · rw [hpart]
    exact ⟨none, rfl⟩

/-- Where nothing is held, an id that cannot be looked up at all fails as such, and any other id is
unknown. -/
theorem implementationOf_eq_error {failure : Failure}
    (hlookup : roster.implementationOf id = .error failure) :
    (id.unhashablePart? = none → id.isShowable = true → failure = .unknownAction id) ∧
      (∀ typeName, id.unhashablePart? = some typeName →
        failure = .misuse (.unhashable typeName)) := by
  rw [implementationOf, entry] at hlookup
  constructor
  · intro hpart hshowable
    obtain ⟨found, hfound⟩ : ∃ found, roster.lookup id = .ok found := lookup_of_hashable hpart
    rw [hfound] at hlookup
    cases found with
    | some held => cases hlookup
    | none =>
        cases hlookup
        have hreason : (Failure.unknownAction id).isShowable = true := hshowable
        rw [unknown, Failure.checked, if_pos hreason]
  · intro typeName hpart
    rw [lookup_of_unhashable hpart] at hlookup
    cases hlookup
    rfl

theorem implementationOf_text {t : Text} {held : RosterEntry}
    (hheld : roster.find? t = some held) :
    roster.implementationOf (.text t) = .ok held.implementation := by
  rw [implementationOf, entry, lookup, hheld]

end Roster

/-- Whether two hosts have the same roster. -/
def SameRoster (host later : Host) : Prop := later.roster = host.roster

theorem sameRoster_accumulates : Accumulates SameRoster :=
  ⟨fun _ => rfl, fun hfirst hsecond => hsecond.trans hfirst⟩

theorem sameRoster_basic : Basic SameRoster where
  toAccumulates := sameRoster_accumulates
  place _ _ := rfl
  draw _ _ := rfl
  record _ _ _ _ := rfl

theorem sameRoster_place (value : Value) : Respects SameRoster (place value) :=
  sameRoster_basic.place value

theorem sameRoster_freeze (data : List Datum) : Respects SameRoster (freeze data) :=
  respects_freeze sameRoster_basic.toPlacing data

theorem sameRoster_spread (datum : Datum) : Respects SameRoster (spread datum) :=
  respects_spread sameRoster_basic.toPlacing datum

theorem sameRoster_recover (reference : Reference) (key : Value) :
    Respects SameRoster (reference.recover key) :=
  respects_recover sameRoster_basic.toQuiet reference key

theorem sameRoster_sealWith (reference : Reference) (key : Value) :
    Respects SameRoster (reference.sealWith key) :=
  respects_sealWith sameRoster_basic.toSilent reference key

theorem sameRoster_bind (handle : Handle) (data : List Datum) :
    Respects SameRoster (handle.bind data) :=
  respects_bindData sameRoster_basic.toPlacing handle data

theorem sameRoster_issue (service : Service) (id : Value) (data : List Datum) :
    Respects SameRoster (service.issue id data) :=
  respects_issue sameRoster_basic.toSilent service id data

/-! ## Variables -/

theorem sameRoster_modify {change : Host → Host}
    (hchange : ∀ host, (change host).roster = host.roster) :
    Respects SameRoster (modify change : Operation Unit) := hchange

theorem sameRoster_rebound (name : Text) (datum : Datum) :
    Respects SameRoster (do
      modify fun host : Host => { host with memory := host.memory.bind name datum }
      pure datum) := by
  refine respects_bind sameRoster_accumulates (sameRoster_modify fun _ => rfl) ?_
  intro _
  exact respects_pure sameRoster_accumulates datum

theorem sameRoster_computed (value : Value) : Respects SameRoster (computed value) := fun _ => rfl

theorem sameRoster_held (name : Text) : Respects SameRoster (Variables.held name) := by
  unfold Variables.held
  apply respects_bind sameRoster_accumulates (respects_get sameRoster_accumulates)
  intro host
  split
  · exact respects_pure sameRoster_accumulates _
  · exact respects_fail sameRoster_accumulates _

theorem sameRoster_assign (name : Text) (datum : Datum) :
    Respects SameRoster (Variables.assign name datum) := by
  unfold Variables.assign
  apply respects_bind sameRoster_accumulates (respects_view sameRoster_accumulates datum)
  intro value
  apply respects_bind sameRoster_accumulates (sameRoster_place value)
  intro copy
  exact sameRoster_rebound name copy

theorem sameRoster_change (place : Nat) (object : Object) :
    Respects SameRoster (Variables.change place object) := sameRoster_modify fun _ => rfl

theorem sameRoster_append (datum item : Datum) :
    Respects SameRoster (Variables.append datum item) := by
  unfold Variables.append
  apply respects_bind sameRoster_accumulates (respects_get sameRoster_accumulates)
  intro host
  simp only
  split
  · exact sameRoster_change _ _
  · split
    · exact sameRoster_change _ _
    · exact respects_fail sameRoster_accumulates _
  · exact respects_fail sameRoster_accumulates _

theorem sameRoster_put (datum : Datum) (key : Value) (item : Datum) :
    Respects SameRoster (Variables.put datum key item) := by
  unfold Variables.put
  apply respects_bind sameRoster_accumulates (respects_get sameRoster_accumulates)
  intro host
  simp only
  split
  · exact sameRoster_change _ _
  · exact respects_fail sameRoster_accumulates _

theorem sameRoster_increase (name : Text) (amount : Datum) :
    Respects SameRoster (Variables.increase name amount) := by
  unfold Variables.increase
  apply respects_bind sameRoster_accumulates (sameRoster_held name)
  intro datum
  simp only
  apply respects_bind sameRoster_accumulates (respects_get sameRoster_accumulates)
  intro host
  split
  · apply respects_bind sameRoster_accumulates (sameRoster_change _ _)
    intro _
    exact respects_pure sameRoster_accumulates _
  · apply respects_bind sameRoster_accumulates (sameRoster_computed _)
    intro sum
    exact sameRoster_rebound name (.fixed sum)
  · exact sameRoster_rebound name _
  · exact respects_fail sameRoster_accumulates _

end SealedCall
