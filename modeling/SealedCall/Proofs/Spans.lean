import SealedCall.Proofs.Invocation

/-! # Spans tell what was applied

An invocation ends one span of its own, behind those that the implementation leaves. The span holds
a rejection exactly when the reference was turned away as altered, malformed or unknown before
anything was applied. What an implementation raises never looks like one of these, because it comes
out wrapped.
-/

namespace SealedCall.Invocation

open Operation

variable {reference : Reference} {arguments : List Datum} {key : Value} {host : Host}

/-! ## Either turned away or applied -/

theorem TurnsAway.outcome {failure : Failure}
    (hturned : TurnsAway reference arguments key host failure) (behaviour : Behaviour) :
    ((run behaviour reference arguments key).run host).1 = .error failure := by
  obtain ⟨later, hlater⟩ := hturned
  rw [hlater behaviour]

theorem TurnsAway.unique {failure other : Failure}
    (hturned : TurnsAway reference arguments key host failure)
    (hother : TurnsAway reference arguments key host other) : failure = other := by
  have hsame := (hturned.outcome fun _ _ => .done (.ok (.fixed .null))).symm.trans
    (hother.outcome fun _ _ => .done (.ok (.fixed .null)))
  cases hsame
  rfl

/-- An invocation that applies an implementation is not turned away, since it has a value when that
implementation has one. -/
theorem Applies.not_turnsAway {implementation : Implementation} {values : List Datum}
    {before : Host} (happlies : Applies reference arguments key host implementation values before)
    (failure : Failure) : ¬ TurnsAway reference arguments key host failure := by
  intro hturned
  have houtcome := hturned.outcome fun _ _ => .done (.ok (.fixed .null))
  rw [happlies] at houtcome
  cases houtcome

/-! ## Spans -/

/-- Neither placing values nor writing to the log ends a span. -/
theorem sameSpans_quiet : Quiet fun host later => later.spans = host.spans where
  refl _ := rfl
  trans hfirst hsecond := hsecond.trans hfirst
  place _ _ := rfl
  record _ _ _ _ := rfl

theorem spans_prepare (reference : Reference) (key : Value) (host : Host) :
    ((prepare reference key).perform host).2.spans = host.spans :=
  respects_prepare sameSpans_quiet reference key host

theorem spans_noted (id : Value) (outcome : Except Failure Datum) (host : Host) :
    (noted id outcome host).spans = host.spans := by
  cases outcome with
  | ok result => rfl
  | error failure =>
      simp only [noted]
      split
      · rfl
      · rfl

/-- What comes out of an implementation is no rejection, whatever it was before. -/
theorem rejections_wrapped (id tag : Value) (outcome : Except Failure Datum) :
    rejections tag (wrapped id outcome) = [] := by
  cases hwrapped : wrapped id outcome with
  | ok result => rfl
  | error failure =>
      have hlate := isForestalling_of_wrapped hwrapped
      cases failure with
      | integrity => cases hlate
      | malformed cause => cases hlate
      | unknownAction id => cases hlate
      | _ => rfl

/-- What comes before the implementation leaves the spans as they are, and then the invocation is
turned away or applies an implementation. -/
theorem turnsAway_or_applies_after (reference : Reference) (arguments : List Datum) (key : Value)
    (host : Host) :
    (∃ failure, TurnsAway reference arguments key host failure ∧ ∀ behaviour,
      ((run behaviour reference arguments key).run host).2.spans = host.spans ++
        [⟨reference.id.tag, rejections reference.id.tag (.error failure : Except Failure Datum)⟩]) ∨
    ∃ implementation values before, before.spans = host.spans ∧
      Applies reference arguments key host implementation values before := by
  have hspans := spans_prepare reference key host
  have hrun : ∀ behaviour, (run behaviour reference arguments key).run host = _ :=
    fun behaviour => run_of_prepare behaviour
  cases hprepare : (prepare reference key).perform host with
  | mk outcome after =>
      simp only [hprepare] at hspans hrun
      cases outcome with
      | error failure =>
          refine .inl ⟨failure, ⟨_, hrun⟩, fun behaviour => ?_⟩
          simp only [hrun, spanEnded, hspans]
      | ok prepared => exact .inr ⟨prepared.2, _, after, hspans, hrun⟩

/-- The implementation leaves its own spans, and the invocation adds one without a rejection. -/
theorem Applies.spans {implementation : Implementation} {values : List Datum} {before : Host}
    (happlies : Applies reference arguments key host implementation values before)
    (behaviour : Behaviour) :
    ((run behaviour reference arguments key).run host).2.spans =
      ((behaviour implementation values).run before).2.spans ++ [⟨reference.id.tag, []⟩] := by
  rw [happlies behaviour, conclude, spanEnded, rejections_wrapped, spans_noted]

/-- Every invocation ends one span, which is tagged with the id of its reference. It comes behind
the spans that were there, and behind those that the implementation left if one was applied. There
is one rejection in it when the reference was turned away as altered, malformed or unknown before
anything was applied; there is none whatever an implementation did, and none for any other
failure. -/
theorem span_mirrors_application (behaviour : Behaviour) (reference : Reference)
    (arguments : List Datum) (key : Value) (host : Host) :
    ∃ earlier events,
      ((run behaviour reference arguments key).run host).2.spans =
        earlier ++ [⟨reference.id.tag, events⟩] ∧
      (∀ t, reference.id = .text t → reference.id.tag = .text t) ∧
      ((∃ failure, TurnsAway reference arguments key host failure ∧ earlier = host.spans) ∨
        ∃ implementation values before, before.spans = host.spans ∧
          Applies reference arguments key host implementation values before ∧
          earlier = ((behaviour implementation values).run before).2.spans ∧ events = []) ∧
      (events = [] ∨ ∃ reason, events = [(reference.id.tag, reason)]) ∧
      (events = [(reference.id.tag, .integrity)] ↔
        TurnsAway reference arguments key host .integrity) ∧
      (events = [(reference.id.tag, .malformed)] ↔
        ∃ cause, TurnsAway reference arguments key host (.malformed cause)) ∧
      (events = [(reference.id.tag, .unknownAction)] ↔
        ∃ id, TurnsAway reference arguments key host (.unknownAction id)) ∧
      ∀ failure, ((run behaviour reference arguments key).run host).1 = .error failure →
        failure.rejection? = none → events = [] := by
  have htag : ∀ t, reference.id = .text t → reference.id.tag = .text t := by
    rintro t hid
    rw [hid]
    rfl
  rcases turnsAway_or_applies_after reference arguments key host with
    ⟨failure, hturned, hspans⟩ | ⟨implementation, values, before, hbefore, happlies⟩
  · refine ⟨host.spans, _, hspans behaviour, htag, .inl ⟨failure, hturned, rfl⟩, ?_⟩
    -- the failure is the only one with which the invocation is turned away
    have honly : ∀ other, TurnsAway reference arguments key host other ↔ failure = other :=
      fun other => ⟨hturned.unique, fun hsame => hsame ▸ hturned⟩
    have houtcome := hturned.outcome behaviour
    simp only [honly, houtcome]
    cases failure <;> simp [rejections, Failure.rejection?]
  · refine ⟨_, [], happlies.spans behaviour, htag,
      .inr ⟨implementation, values, before, hbefore, happlies, rfl, rfl⟩, .inl rfl, ?_⟩
    simp [happlies.not_turnsAway]

end SealedCall.Invocation
