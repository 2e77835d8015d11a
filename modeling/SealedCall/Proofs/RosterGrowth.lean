import SealedCall.Proofs.RosterKept

/-! # Growing rosters

Only enrolment changes the roster, and it only adds to it: whatever is held under an id stays what
it is, and so the first enrolment under an id that is not refused decides for good.
-/

namespace SealedCall

open Operation

namespace Roster

variable {roster : Roster}

/-- Whether a roster comes from another one by enrolments alone. -/
inductive Grows : Roster → Roster → Prop
  | same (roster : Roster) : Grows roster roster
  | enrolled {roster later : Roster} {id : Value} {implementation : Implementation} {name : Value}
      {admission : Admission} (hadmission : roster.admission id implementation name = .ok admission)
      (hrest : Grows (roster.after admission) later) : Grows roster later

theorem Grows.trans {between later : Roster} (hfirst : roster.Grows between)
    (hsecond : between.Grows later) : roster.Grows later := by
  induction hfirst with
  | same _ => exact hsecond
  | enrolled hadmission _ ih => exact .enrolled hadmission (ih hsecond)

theorem find?_after (admission : Admission) {t : Text} {held : RosterEntry}
    (hheld : roster.find? t = some held) : (roster.after admission).find? t = some held := by
  cases admission with
  | known present => exact hheld
  | added new =>
      rw [find?] at hheld
      rw [after, find?, List.find?_append, hheld]
      rfl

/-- However a roster grows, what is held under an id stays there. -/
theorem Grows.find? {later : Roster} (hgrows : roster.Grows later) {t : Text} {held : RosterEntry}
    (hheld : roster.find? t = some held) : later.find? t = some held := by
  induction hgrows with
  | same _ => exact hheld
  | @enrolled _ _ _ _ _ admission _ _ ih => exact ih (find?_after admission hheld)

/-- The first admission under an id adds the implementation that it is about. -/
theorem admission_of_new {t : Text} {implementation : Implementation} {name : Value}
    {admission : Admission} (hnew : roster.find? t = none)
    (hadmission : roster.admission (.text t) implementation name = .ok admission) :
    t ≠ [] ∧ ∃ fullName, admission = .added ⟨t, implementation, fullName⟩ := by
  cases t with
  | nil => cases hadmission
  | cons point rest =>
      rw [Roster.admission.eq_2 _ _ _ _ (List.cons_ne_nil point rest)] at hadmission
      split at hadmission
      · rw [hnew] at hadmission
        simp only at hadmission
        cases hname : nameFor implementation name with
        | error failure =>
            rw [hname] at hadmission
            cases hadmission
        | ok fullName =>
            rw [hname] at hadmission
            cases hadmission
            exact ⟨List.cons_ne_nil point rest, fullName, rfl⟩
      · cases hadmission

end Roster

/-- Whether the roster of a host comes from that of another one by enrolments alone. -/
def Grown (host later : Host) : Prop := host.roster.Grows later.roster

theorem grown_accumulates : Accumulates Grown :=
  ⟨fun _ => .same _, Roster.Grows.trans⟩

theorem grown_of_sameRoster (host later : Host) (hsame : SameRoster host later) :
    Grown host later := by
  rw [Grown, hsame]
  exact .same _

/-- An enrolment ends as it is admitted, and the roster is what it is after the admission. -/
theorem perform_enrol (id : Value) (implementation : Implementation) (name : Value) (host : Host) :
    ∃ log, (Enrolment.enrol id implementation name).perform host =
      match host.roster.admission id implementation name with
      | .ok admission =>
        (.ok admission.entry, { host with roster := host.roster.after admission, log := log })
      | .error failure => (.error failure, { host with log := log }) := by
  rw [Enrolment.enrol, perform_bind, perform_get]
  simp only
  cases host.roster.admission id implementation name with
  | ok admission =>
      cases admission with
      | known held => exact ⟨host.log, rfl⟩
      | added new => exact ⟨_, rfl⟩
  | error failure =>
      -- only a duplicate is noted before it is refused
      cases failure with
      | duplicateAction id => exact ⟨_, rfl⟩
      | _ => exact ⟨host.log, rfl⟩

theorem grown_enrol (id : Value) (implementation : Implementation) (name : Value) :
    Respects Grown (Enrolment.enrol id implementation name) := by
  intro host
  obtain ⟨log, henrol⟩ := perform_enrol id implementation name host
  rw [henrol]
  split
  · next hadmission => exact .enrolled hadmission (.same _)
  · exact .same _

theorem grown_declare (id name : Value) (implementation : Implementation) :
    Respects Grown (Enrolment.declare id name implementation) := by
  unfold Enrolment.declare
  apply respects_bind grown_accumulates (respects_ofExcept grown_accumulates _)
  intro fullName
  apply respects_bind grown_accumulates (respects_get grown_accumulates)
  intro host
  have hrest : ∀ chosen, Respects Grown (do
      let _ ← Enrolment.enrol chosen implementation fullName
      Operation.ofExcept (implementation.marked chosen)) := by
    intro chosen
    apply respects_bind grown_accumulates (grown_enrol chosen implementation _)
    intro _
    exact respects_ofExcept grown_accumulates _
  simp only
  split
  · exact respects_bind grown_accumulates (respects_pure grown_accumulates id) hrest
  · split
    · exact respects_bind grown_accumulates (respects_pure grown_accumulates _) hrest
    · exact respects_bind grown_accumulates (respects_fail grown_accumulates _) hrest

/-- The first enrolment of an id that is not refused puts its implementation under the id. -/
theorem find?_of_enrol {t : Text} {implementation : Implementation} {name : Value}
    {start enrolled : Host} {held : RosterEntry} (hnew : start.roster.find? t = none)
    (henrol : (Enrolment.enrol (.text t) implementation name).perform start =
      (.ok held, enrolled)) :
    t ≠ [] ∧ enrolled.roster.find? t = some held ∧ held.implementation = implementation := by
  obtain ⟨log, hperform⟩ := perform_enrol (.text t) implementation name start
  rw [henrol] at hperform
  split at hperform
  · next admission hadmission =>
      obtain ⟨hnonempty, fullName, rfl⟩ := Roster.admission_of_new hnew hadmission
      cases hperform
      refine ⟨hnonempty, ?_, rfl⟩
      -- nothing is held before it, so the new entry is the first that is found
      rw [Roster.find?] at hnew
      rw [Roster.after, Roster.find?, List.find?_append, hnew]
      rw [Option.none_or, List.find?_singleton, beq_self_eq_true, if_pos rfl]
      rfl
  · cases hperform

end SealedCall
