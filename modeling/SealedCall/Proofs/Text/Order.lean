import SealedCall.Proofs.Json.StringToken

/-! # The order of texts

The code-point order of texts is linear, so texts under different keys have only one order.
-/

namespace SealedCall.Text

theorem before_cons_iff {a b : CodePoint} {s t : Text} :
    before (a :: s) (b :: t) = true ↔
      a.value < b.value ∨ a.value = b.value ∧ before s t = true := by
  rw [before]
  split
  · next hless => simp [hless]
  · next hless =>
      split
      · next hmore =>
          have hne : a.value ≠ b.value := by omega
          simp [hless, hne]
      · next hmore =>
          have heq : a.value = b.value := by omega
          simp [heq]

theorem before_trans {r s t : Text} (hfirst : before r s = true) (hsecond : before s t = true) :
    before r t = true := by
  induction r generalizing s t with
  | nil =>
      cases t with
      | nil => cases s <;> cases hsecond
      | cons c t => rfl
  | cons a r ih =>
      cases s with
      | nil => cases hfirst
      | cons b s =>
          cases t with
          | nil => cases hsecond
          | cons c t =>
              rw [before_cons_iff] at hfirst hsecond ⊢
              rcases hfirst with hless | ⟨heq, hfirst⟩
              · left
                rcases hsecond with hnext | ⟨hnext, -⟩ <;> omega
              · rcases hsecond with hnext | ⟨hnext, hsecond⟩
                · left
                  omega
                · exact .inr ⟨heq.trans hnext, ih hfirst hsecond⟩

theorem before_irrefl (t : Text) : before t t = false := by
  induction t with
  | nil => rfl
  | cons point t ih =>
      rw [← Bool.not_eq_true, before_cons_iff, ih]
      simp

/-- Of two texts that differ, one comes before the other. -/
theorem before_or_before {s t : Text} (hne : s ≠ t) : before s t = true ∨ before t s = true := by
  induction s generalizing t with
  | nil =>
      cases t with
      | nil => exact absurd rfl hne
      | cons b t => exact .inl rfl
  | cons a s ih =>
      cases t with
      | nil => exact .inr rfl
      | cons b t =>
          rw [before_cons_iff, before_cons_iff]
          rcases Nat.lt_trichotomy a.value b.value with hless | heq | hless
          · exact .inl (.inl hless)
          · have hrest : s ≠ t := fun h => hne (by rw [CodePoint.eq_of_value heq, h])
            exact (ih hrest).imp (.inr ⟨heq, ·⟩) (.inr ⟨heq.symm, ·⟩)
          · exact .inr (.inl hless)

theorem atMost_iff {s t : Text} : atMost s t = true ↔ s = t ∨ before s t = true := by
  rw [atMost, Bool.not_eq_true']
  constructor
  · intro hnot
    by_cases heq : s = t
    · exact .inl heq
    · refine .inr ((before_or_before heq).resolve_right fun hback => ?_)
      rw [hback] at hnot
      cases hnot
  · rintro (rfl | hbefore)
    · exact before_irrefl s
    · rw [← Bool.not_eq_true]
      intro hback
      have hsame := before_trans hbefore hback
      rw [before_irrefl] at hsame
      cases hsame

theorem atMost_trans {r s t : Text} (hfirst : atMost r s = true) (hsecond : atMost s t = true) :
    atMost r t = true := by
  rw [atMost_iff] at hfirst hsecond ⊢
  rcases hfirst with rfl | hfirst
  · exact hsecond
  · rcases hsecond with rfl | hsecond
    · exact .inr hfirst
    · exact .inr (before_trans hfirst hsecond)

theorem atMost_total (s t : Text) : (atMost s t || atMost t s) = true := by
  rw [Bool.or_eq_true, atMost_iff, atMost_iff]
  by_cases heq : s = t
  · exact .inl (.inl heq)
  · exact (before_or_before heq).imp .inr .inr

theorem atMost_antisymm {s t : Text} (hfirst : atMost s t = true) (hsecond : atMost t s = true) :
    s = t := by
  rw [atMost_iff] at hfirst
  refine hfirst.resolve_right fun hbefore => ?_
  rw [atMost, hbefore] at hsecond
  cases hsecond

end SealedCall.Text
