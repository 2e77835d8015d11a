import SealedCall.Proofs.FirstEnrolment

/-! # Declarations

A declaration settles the name and the id of an action, enrols the implementation and marks it last.
Whatever goes wrong before the mark leaves the roster alone. That an implementation takes no mark
comes out only when it has been enrolled, and it stays enrolled although its declaration fails.
-/

namespace SealedCall

open Operation

/-- The id under which an implementation is declared: the given one where it counts as present, or
else the derived one. -/
def Implementation.idFor (implementation : Implementation) (id salt : Value) :
    Except Failure Value :=
  if id.isTruthy then .ok id else (implementation.derivedId salt).map .text

namespace Roster

/-- The name of an implementation counts as present, whether it is given or its own. -/
theorem isTruthy_of_nameFor {implementation : Implementation} {name fullName : Value}
    (hname : nameFor implementation name = .ok fullName) : fullName.isTruthy = true := by
  rw [nameFor] at hname
  split at hname
  · next hgiven =>
      cases hname
      exact hgiven
  · rw [Implementation.fullName] at hname
    split at hname
    · next own _ =>
        -- there is a separator in the full name, whatever stands around it
        cases hname
        simp [Value.isTruthy, ActionId.separator]
    · cases hname

/-- A name that was settled stays what it is. -/
theorem nameFor_settled {implementation : Implementation} {name fullName : Value}
    (hname : nameFor implementation name = .ok fullName) :
    nameFor implementation fullName = .ok fullName := by
  rw [nameFor, if_pos (isTruthy_of_nameFor hname)]

end Roster

theorem Implementation.equal_self (implementation : Implementation) :
    implementation.equal implementation = true := beq_self_eq_true _

/-- Only what can be called is admitted, and what is held then equals it. -/
theorem Roster.equal_of_admission {roster : Roster} {id : Value} {implementation : Implementation}
    {name : Value} {admission : Admission}
    (hadmission : roster.admission id implementation name = .ok admission) :
    implementation.isCallable = true ∧
      admission.entry.implementation.equal implementation = true := by
  rw [Roster.admission.eq_def] at hadmission
  split at hadmission
  · cases hadmission
  · split at hadmission
    · next hcallable =>
        refine ⟨hcallable, ?_⟩
        split at hadmission
        · split at hadmission
          · next hequal =>
              cases hadmission
              exact hequal
          · cases hadmission
        · cases hname : nameFor implementation name with
          | error failure =>
              rw [hname] at hadmission
              cases hadmission
          | ok fullName =>
              rw [hname] at hadmission
              cases hadmission
              exact implementation.equal_self
    · cases hadmission
  · cases hadmission

namespace Enrolment

/-- An enrolment that comes back with an entry holds it under its id, where an equal implementation
was held already or is held from then on. -/
theorem enrol_eq_ok {host after : Host} {id : Value} {implementation : Implementation}
    {name : Value} {held : RosterEntry}
    (henrol : (enrol id implementation name).perform host = (.ok held, after)) :
    ∃ t, id = .text t ∧ after.roster.find? t = some held ∧
      held.implementation.equal implementation = true ∧
      (after.roster = host.roster ∨ t ≠ [] ∧ implementation.isCallable = true ∧
        host.roster.find? t = none ∧ Roster.nameFor implementation name = .ok held.name) := by
  obtain ⟨log, hperform⟩ := perform_enrol id implementation name host
  rw [henrol] at hperform
  split at hperform
  · next admission hadmission =>
      cases hperform
      obtain ⟨hcallable, hequal⟩ := Roster.equal_of_admission hadmission
      obtain ⟨t, rfl, ⟨known, rfl, hknown⟩ | ⟨hnew, fullName, hname, rfl⟩⟩ :=
        Roster.admission_eq_ok hadmission
      · exact ⟨t, rfl, hknown, hequal, .inl rfl⟩
      · refine ⟨t, rfl, ?_, hequal, .inr ⟨?_, hcallable, hnew, hname⟩⟩
        · exact (Roster.find?_after_added hnew).trans (if_pos rfl)
        · exact (Roster.admission_of_new hnew hadmission).1
  · cases hperform

/-- An enrolment of what can be called, under an id where nothing is held, adds it. -/
theorem perform_enrol_of_new {host : Host} {t : Text} {implementation : Implementation}
    {name fullName : Value} (ht : t ≠ []) (hcallable : implementation.isCallable = true)
    (hnew : host.roster.find? t = none)
    (hname : Roster.nameFor implementation name = .ok fullName) :
    ∃ after, (enrol (.text t) implementation name).perform host =
        (.ok ⟨t, implementation, fullName⟩, after) ∧
      after.roster = host.roster.after (.added ⟨t, implementation, fullName⟩) := by
  have hadmission : host.roster.admission (.text t) implementation name =
      .ok (.added ⟨t, implementation, fullName⟩) := by
    rw [Roster.admission.eq_2 _ _ _ _ ht, if_pos hcallable, hnew, hname]
    rfl
  obtain ⟨log, henrol⟩ := perform_enrol (.text t) implementation name host
  rw [hadmission] at henrol
  exact ⟨_, henrol, rfl⟩

/-- An enrolment that fails leaves the roster as it was. -/
theorem roster_of_enrol_error {host after : Host} {id : Value} {implementation : Implementation}
    {name : Value} {failure : Failure}
    (henrol : (enrol id implementation name).perform host = (.error failure, after)) :
    after.roster = host.roster := by
  obtain ⟨log, hperform⟩ := perform_enrol id implementation name host
  rw [henrol] at hperform
  split at hperform
  · cases hperform
  · cases hperform
    rfl

/-- A declaration enrols under the settled name and id, and answers with the marked
implementation. -/
theorem perform_declare (host : Host) (id name : Value) (implementation : Implementation) :
    (declare id name implementation).perform host =
      match Roster.nameFor implementation name, implementation.idFor id host.roster.salt with
      | .ok fullName, .ok chosen =>
        match (enrol chosen implementation fullName).perform host with
        | (.ok _, after) => (implementation.marked chosen, after)
        | (.error failure, after) => (.error failure, after)
      | .error failure, _ | .ok _, .error failure => (.error failure, host) := by
  have hrest : ∀ chosen fullName,
      (do
        let _ ← enrol chosen implementation fullName
        Operation.ofExcept (implementation.marked chosen)).perform host =
      match (enrol chosen implementation fullName).perform host with
      | (.ok _, after) => (implementation.marked chosen, after)
      | (.error failure, after) => (.error failure, after) := by
    intro chosen fullName
    rw [perform_bind]
    cases (enrol chosen implementation fullName).perform host with
    | mk outcome after =>
        cases outcome with
        | error failure => rfl
        | ok entry => exact perform_ofExcept _ _
  rw [declare, perform_bind, perform_ofExcept]
  cases Roster.nameFor implementation name with
  | error failure => rfl
  | ok fullName =>
      simp only
      rw [perform_bind, perform_get]
      simp only
      rw [Implementation.idFor]
      by_cases hid : id.isTruthy
      · rw [if_pos hid, if_pos hid]
        exact hrest id fullName
      · rw [if_neg hid, if_neg hid]
        cases implementation.derivedId host.roster.salt with
        | error failure => rfl
        | ok derived => exact hrest (.text derived) fullName

/-- Whether a declaration gets as far as a new entry for an implementation that takes no mark. -/
structure Strands (host : Host) (id name : Value) (implementation : Implementation)
    (entry : RosterEntry) : Prop where
  chosen : implementation.idFor id host.roster.salt = .ok (.text entry.id)
  nonempty : entry.id ≠ []
  named : Roster.nameFor implementation name = .ok entry.name
  callable : implementation.isCallable = true
  declared : entry.implementation = implementation
  new : host.roster.find? entry.id = none
  unmarked : implementation.takesMark = false

section

variable {host later : Host} {id name : Value} {implementation : Implementation}

/-- A declaration that comes back has marked what it enrolled, and its id leads to an equal
implementation. -/
theorem declare_eq_ok {marked : Implementation}
    (hdeclare : (declare id name implementation).perform host = (.ok marked, later)) :
    ∃ chosen, implementation.idFor id host.roster.salt = .ok chosen ∧
      marked = { implementation with mark := some chosen } ∧
      ∃ held, later.roster.implementationOf chosen = .ok held ∧
        held.equal implementation = true := by
  rw [perform_declare] at hdeclare
  split at hdeclare
  · next fullName chosen _ hchosen =>
      split at hdeclare
      · next held after henrol =>
          obtain ⟨t, rfl, hheld, hequal, -⟩ := enrol_eq_ok henrol
          rw [Implementation.marked] at hdeclare
          split at hdeclare
          · cases hdeclare
            exact ⟨.text t, hchosen, rfl, held.implementation,
              Roster.implementationOf_text hheld, hequal⟩
          · cases hdeclare
      · cases hdeclare
  · cases hdeclare
  · cases hdeclare

/-- A declaration that fails leaves the roster as it was, or strands. -/
theorem declare_eq_error {failure : Failure}
    (hdeclare : (declare id name implementation).perform host = (.error failure, later)) :
    later.roster = host.roster ∨ ∃ entry, Strands host id name implementation entry := by
  rw [perform_declare] at hdeclare
  split at hdeclare
  · next fullName chosen hname hchosen =>
      split at hdeclare
      · next held after henrol =>
          obtain ⟨t, rfl, -, -, hroster⟩ := enrol_eq_ok henrol
          rw [Implementation.marked] at hdeclare
          split at hdeclare
          · cases hdeclare
          · next hunmarked =>
              cases hdeclare
              refine hroster.imp_right fun ⟨hnonempty, hcallable, hnew, _⟩ => ?_
              exact ⟨⟨t, implementation, fullName⟩, hchosen, hnonempty, hname, hcallable, rfl, hnew,
                Bool.eq_false_iff.mpr hunmarked⟩
      · next refused after henrol =>
          cases hdeclare
          exact .inl (roster_of_enrol_error henrol)
  · cases hdeclare
    exact .inl rfl
  · cases hdeclare
    exact .inl rfl

/-- A declaration that strands fails because there is no mark, with the new entry on the roster. -/
theorem perform_declare_of_strands {entry : RosterEntry}
    (hstrands : Strands host id name implementation entry) :
    ∃ left, (declare id name implementation).perform host =
        (.error (.misuse (.noAttribute implementation.typeName (Text.of "__action_id__"))), left) ∧
      left.roster = host.roster.after (.added entry) := by
  obtain ⟨left, henrol, hroster⟩ := perform_enrol_of_new hstrands.nonempty hstrands.callable
    hstrands.new (Roster.nameFor_settled hstrands.named)
  refine ⟨left, ?_, ?_⟩
  · rw [perform_declare, hstrands.named, hstrands.chosen]
    simp only
    rw [henrol]
    simp only
    rw [Implementation.marked, hstrands.unmarked, if_neg Bool.false_ne_true]
  · rw [hroster, ← hstrands.declared]

end

/-- A declaration that comes back answers with the very implementation, marked with the given id or
else the derived one, and an equal implementation is found under that id. One that fails leaves the
roster as it was, with one exception: what takes no mark is enrolled all the same, where it could be
called and its id was free. -/
theorem declaration_whole_unless_stranded (host : Host) (id name : Value)
    (implementation : Implementation) :
    (∀ marked later, (declare id name implementation).perform host = (.ok marked, later) →
      ∃ chosen, implementation.idFor id host.roster.salt = .ok chosen ∧
        marked = { implementation with mark := some chosen } ∧
        ∃ held, later.roster.implementationOf chosen = .ok held ∧
          held.equal implementation = true) ∧
    (∀ failure later, (declare id name implementation).perform host = (.error failure, later) →
      (¬ ∃ entry, Strands host id name implementation entry) → later.roster = host.roster) ∧
    (∀ entry, Strands host id name implementation entry →
      ∃ later, (declare id name implementation).perform host =
          (.error (.misuse (.noAttribute implementation.typeName (Text.of "__action_id__"))),
            later) ∧
        later.roster = host.roster.after (.added entry)) := by
  refine ⟨fun marked later => declare_eq_ok, ?_, fun entry => perform_declare_of_strands⟩
  intro failure later hdeclare hkept
  exact (declare_eq_error hdeclare).resolve_right hkept

/-- An implementation that belongs to an object and takes no mark. -/
def unmarkable : Implementation :=
  { Implementation.sample with typeName := Text.of "method", takesMark := false }

theorem declaration_whole_unless_stranded_sample :
    (∃ marked later held,
      (declare (Value.ofString "pay") .null .sample).perform Host.untouched = (.ok marked, later) ∧
        marked.mark = some (Value.ofString "pay") ∧
        later.roster.implementationOf (Value.ofString "pay") = .ok held ∧
          held.equal .sample = true) ∧
    (∃ failure later, (declare .null .null { Implementation.sample with module := none }).perform
        Host.untouched = (.error failure, later) ∧ later.roster = Host.untouched.roster) ∧
    ∃ failure later, (declare (Value.ofString "pay") .null unmarkable).perform Host.untouched =
        (.error failure, later) ∧ later.roster.size = 1 := by
  refine ⟨?_, ?_, ?_⟩
  · have hdeclare : ∃ marked later, (declare (Value.ofString "pay") .null .sample).perform
        Host.untouched = (.ok marked, later) := ⟨_, _, rfl⟩
    obtain ⟨marked, later, hdeclare⟩ := hdeclare
    obtain ⟨chosen, hchosen, hmarked, held, hheld, hequal⟩ :=
      (declaration_whole_unless_stranded Host.untouched (Value.ofString "pay") .null .sample).1
        marked later hdeclare
    cases hchosen
    exact ⟨marked, later, held, hdeclare, by rw [hmarked], hheld, hequal⟩
  · have hdeclare : ∃ failure later, (declare .null .null
        { Implementation.sample with module := none }).perform Host.untouched =
          (.error failure, later) := ⟨_, _, rfl⟩
    obtain ⟨failure, later, hdeclare⟩ := hdeclare
    refine ⟨failure, later, hdeclare, (declaration_whole_unless_stranded Host.untouched .null .null
      { Implementation.sample with module := none }).2.1 failure later hdeclare ?_⟩
    rintro ⟨entry, hstrands⟩
    cases hstrands.unmarked
  · have hstrands : Strands Host.untouched (Value.ofString "pay") .null unmarkable
        ⟨Text.of "pay", unmarkable, Value.ofString "shop:pay"⟩ :=
      ⟨rfl, by decide, rfl, rfl, rfl, rfl, rfl⟩
    obtain ⟨later, hdeclare, hroster⟩ :=
      (declaration_whole_unless_stranded Host.untouched (Value.ofString "pay") .null
        unmarkable).2.2 _ hstrands
    exact ⟨_, later, hdeclare, by rw [hroster]; rfl⟩

/-- A declaration that fails does not always leave the roster as it was: what takes no mark is on it
when the mark is tried. -/
theorem failed_declaration_not_always_undone :
    ¬ ∀ (host : Host) (id name : Value) (implementation : Implementation) (failure : Failure)
      (later : Host), (declare id name implementation).perform host = (.error failure, later) →
        later.roster = host.roster := by
  intro hclaim
  have hkept := hclaim Host.untouched (Value.ofString "pay") .null unmarkable _ _ rfl
  cases congrArg Roster.size hkept

end Enrolment

end SealedCall
