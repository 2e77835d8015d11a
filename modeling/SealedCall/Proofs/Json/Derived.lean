import SealedCall.Proofs.Json.GrammarTokens
import SealedCall.Proofs.Value.Joined

/-! # What the values of texts are

Not every value is one that a text stands for. A text without surrogates of its own gives strings in
which no high surrogate has a low one right behind it, since an escaped pair is one character; its
whole numbers have no more digits than can be written; and its dictionaries have different texts as
keys.
-/

namespace SealedCall

namespace Text

theorem hasSurrogate_cons {point : CodePoint} {t : Text} :
    hasSurrogate (point :: t) = false ↔ point.isSurrogate = false ∧ hasSurrogate t = false := by
  rw [hasSurrogate, List.any_cons, Bool.or_eq_false_iff]
  rfl

theorem hasSurrogate_append {front back : Text} :
    hasSurrogate (front ++ back) = false ↔
      hasSurrogate front = false ∧ hasSurrogate back = false := by
  rw [hasSurrogate, List.any_append, Bool.or_eq_false_iff]
  rfl

/-- A code point in front makes a pair only with a low surrogate right behind it. -/
theorem hasPair_cons {point : CodePoint} {t : Text}
    (hpoint : point.isHighSurrogate = true →
      ∀ second rest, t = second :: rest → second.isLowSurrogate = false)
    (ht : t.hasPair = false) : hasPair (point :: t) = false := by
  cases t with
  | nil => rfl
  | cons second rest =>
      rw [hasPair, ht, Bool.or_false, Bool.and_eq_false_iff]
      cases hhigh : point.isHighSurrogate with
      | false => exact .inl rfl
      | true => exact .inr (hpoint hhigh second rest rfl)

/-- A text without surrogates has no pair of them. -/
theorem hasPair_of_hasSurrogate {t : Text} (hplain : t.hasSurrogate = false) :
    t.hasPair = false := by
  induction t with
  | nil => rfl
  | cons point rest ih =>
      obtain ⟨hpoint, hrest⟩ := hasSurrogate_cons.mp hplain
      refine hasPair_cons (fun hhigh => ?_) (ih hrest)
      rw [Json.isSurrogate_of_isHighSurrogate hhigh] at hpoint
      cases hpoint

end Text

namespace Value

/-- Whether a value, whatever is inside it, is one that a text can stand for. -/
def IsRestored : Value → Prop
  | .null | .bool _ | .float _ | .list _ => True
  | .int n => (Text.ofNat n.natAbs).length ≤ 4300
  | .text t => t.hasPair = false
  | .dict entries => (∀ entry ∈ entries, ∃ t, entry.1 = .text t) ∧
      entries.Pairwise fun a b => equal a.1 b.1 = false
  | .bytes _ | .byteArray _ | .tuple _ | .foreign _ => False

end Value

namespace Json

/-! ## Strings -/

theorem LetterEscape.not_surrogate {letter meant : CodePoint}
    (hletter : LetterEscape letter meant) : meant.isSurrogate = false := by
  obtain ⟨row, hmem, -, hvalue⟩ := hletter
  have hrows : ∀ row ∈ letterEscapes, row.2 < 0xD800 := by decide
  rw [CodePoint.isSurrogate, CodePoint.within_eq_false_iff, hvalue]
  exact .inl (hrows row hmem)

theorem not_surrogate_ofPair (high low : CodePoint) :
    (CodePoint.ofPair high low).isSurrogate = false := by
  rw [CodePoint.isSurrogate, CodePoint.within_eq_false_iff, CodePoint.ofPair]
  right
  simp only
  omega

/-- A string starts with a low surrogate only where one is escaped. -/
theorem Content.startsLow {body t : Text} (hcontent : Content body t)
    (hplain : body.hasSurrogate = false) {second : CodePoint} {rest : Text}
    (ht : t = second :: rest) (hlow : second.isLowSurrogate = true) : StartsLow body := by
  have hsurrogate := isSurrogate_of_isLowSurrogate hlow
  cases hcontent with
  | nil => cases ht
  | plain =>
      cases ht
      rw [(Text.hasSurrogate_cons.mp hplain).1] at hsurrogate
      cases hsurrogate
  | letter hletter _ =>
      cases ht
      rw [hletter.not_surrogate] at hsurrogate
      cases hsurrogate
  | pair =>
      rw [← (List.cons.inj ht).1, not_surrogate_ofPair] at hsurrogate
      cases hsurrogate
  | unit hunit _ _ =>
      cases ht
      exact ⟨_, _, _, rfl, hunit, hlow⟩

/-- No string has a high surrogate with a low one right behind it. -/
theorem Content.hasPair {body t : Text} (hcontent : Content body t)
    (hplain : body.hasSurrogate = false) : t.hasPair = false := by
  have hlone : ∀ {point : CodePoint}, point.isSurrogate = false →
      ∀ {t : Text}, t.hasPair = false → Text.hasPair (point :: t) = false :=
    fun hpoint _ ht => Text.hasPair_cons
      (fun hhigh => nomatch (isSurrogate_of_isHighSurrogate hhigh).symm.trans hpoint) ht
  induction hcontent with
  | nil => rfl
  | plain _ _ _ _ ih =>
      obtain ⟨hpoint, hbody⟩ := Text.hasSurrogate_cons.mp hplain
      exact hlone hpoint (ih hbody)
  | letter hletter _ ih =>
      have hbody := (Text.hasSurrogate_cons.mp (Text.hasSurrogate_cons.mp hplain).2).2
      exact hlone hletter.not_surrogate (ih hbody)
  | pair _ _ _ _ _ ih =>
      have hbody := (Text.hasSurrogate_append.mp (Text.hasSurrogate_append.mp hplain).2).2
      exact hlone (not_surrogate_ofPair _ _) (ih hbody)
  | unit _ halone hrest ih =>
      have hbody := (Text.hasSurrogate_append.mp hplain).2
      refine Text.hasPair_cons (fun hhigh second rest ht => ?_) (ih hbody)
      rw [← Bool.not_eq_true]
      exact fun hlow => halone hhigh (hrest.startsLow hbody ht hlow)

/-! ## Values -/

theorem mem_of_mem_collected {members : List (Text × Value)} {entry : Value × Value}
    (hmem : entry ∈ collected members) :
    ∃ member ∈ members, entry.1 = .text member.1 ∧ entry.2 = member.2 := by
  obtain ⟨key, hkey, rfl⟩ := List.mem_map.mp hmem
  obtain ⟨member, hmember, rfl⟩ := List.mem_map.mp (List.mem_eraseDups.mp hkey)
  cases hlookup : members.reverse.lookup member.1 with
  | none =>
      have habsent := List.lookup_eq_none_iff.mp hlookup member (List.mem_reverse.mpr hmember)
      rw [bne_self_eq_false] at habsent
      cases habsent
  | some value =>
      obtain ⟨later, earlier, hsplit, -⟩ := List.lookup_eq_some_iff.mp hlookup
      refine ⟨(member.1, value), ?_, rfl, by rw [lastValue, hlookup]; rfl⟩
      rw [← List.mem_reverse, hsplit]
      exact List.mem_append_right _ List.mem_cons_self

theorem pairwise_collected (members : List (Text × Value)) :
    (collected members).Pairwise fun a b => Value.equal a.1 b.1 = false := by
  rw [collected, List.pairwise_map]
  refine (nodup_eraseDups _).imp fun hne => ?_
  rw [Value.equal_text, beq_eq_false_iff_ne]
  exact hne

/-- Whether everything in a phrase is what a text can stand for. -/
def Phrase.IsRestored : Phrase → Prop
  | .value v => v.Everywhere Value.IsRestored
  | .items values => ∀ v ∈ values, v.Everywhere Value.IsRestored
  | .members entries =>
    ∀ member ∈ entries, member.1.hasPair = false ∧ member.2.Everywhere Value.IsRestored

theorem isRestored_collected {members : List (Text × Value)}
    (hmembers : (Phrase.members members).IsRestored) :
    (Value.dict (collected members)).Everywhere Value.IsRestored := by
  refine Value.everywhere_dict.mpr ⟨⟨?_, pairwise_collected members⟩, ?_⟩
  · intro entry hmem
    obtain ⟨member, -, hkey, -⟩ := mem_of_mem_collected hmem
    exact ⟨_, hkey⟩
  · intro entry hmem
    obtain ⟨member, hmember, hkey, hvalue⟩ := mem_of_mem_collected hmem
    obtain ⟨hfree, hrestored⟩ := hmembers member hmember
    rw [hkey, hvalue]
    exact ⟨Value.everywhere_iff.mpr ⟨hfree, True.intro⟩, hrestored⟩

theorem Literal.isRestored {word : Text} {v : Value} (hword : Literal word v) :
    v.Everywhere Value.IsRestored := by
  cases hword <;> exact Value.everywhere_iff.mpr ⟨True.intro, True.intro⟩

theorem Numeral.isRestored {written : Text} {v : Value} (hnumeral : Numeral written v) :
    v.Everywhere Value.IsRestored := by
  cases hnumeral with
  | whole negative hdigits hlength =>
      refine Value.everywhere_iff.mpr ⟨?_, True.intro⟩
      have hshort := Text.length_ofNat_decimalValue_le hdigits.digits hdigits.ne_nil
      rw [Value.IsRestored]
      cases negative with
      | true =>
          rw [if_pos rfl, Int.natAbs_neg, Int.natAbs_natCast]
          exact hshort.trans hlength
      | false =>
          rw [if_neg Bool.false_ne_true, Int.natAbs_natCast]
          exact hshort.trans hlength
  | real negative form _ _ => exact Value.everywhere_iff.mpr ⟨True.intro, True.intro⟩

/-- Whatever a text without surrogates derives is what a text can stand for. -/
theorem Derives.isRestored {t : Text} {phrase : Phrase} (hderives : Derives t phrase)
    (hplain : t.hasSurrogate = false) : phrase.IsRestored := by
  induction hderives with
  | literal hword => exact hword.isRestored
  | number hnumeral => exact hnumeral.isRestored
  | string hcontent =>
      have hbody := (Text.hasSurrogate_append.mp (Text.hasSurrogate_cons.mp hplain).2).1
      exact Value.everywhere_iff.mpr ⟨hcontent.hasPair hbody, True.intro⟩
  | emptyArray => exact Value.everywhere_list.mpr ⟨True.intro, List.forall_mem_nil _⟩
  | array _ ih =>
      have hinner := (Text.hasSurrogate_append.mp (Text.hasSurrogate_cons.mp hplain).2).1
      exact Value.everywhere_list.mpr ⟨True.intro, ih hinner⟩
  | emptyObject =>
      exact Value.everywhere_dict.mpr ⟨⟨List.forall_mem_nil _, .nil⟩, List.forall_mem_nil _⟩
  | object _ ih =>
      have hinner := (Text.hasSurrogate_append.mp (Text.hasSurrogate_cons.mp hplain).2).1
      exact isRestored_collected (ih hinner)
  | lastItem _ _ _ ih =>
      simp only [Text.hasSurrogate_append] at hplain
      exact List.forall_mem_singleton.mpr (ih hplain.2.1)
  | nextItem _ _ _ _ ih ihrest =>
      simp only [Text.hasSurrogate_append, Text.hasSurrogate_cons] at hplain
      exact List.forall_mem_cons.mpr ⟨ih hplain.2.1, ihrest hplain.2.2.2.2⟩
  | lastMember _ hkey _ _ _ _ ih =>
      simp only [quoted, Text.hasSurrogate_append, Text.hasSurrogate_cons] at hplain
      obtain ⟨-, ⟨-, hbody, -⟩, -, -, -, hwritten, -⟩ := hplain
      exact List.forall_mem_singleton.mpr ⟨hkey.hasPair hbody, ih hwritten⟩
  | nextMember _ hkey _ _ _ _ _ ih ihrest =>
      simp only [quoted, Text.hasSurrogate_append, Text.hasSurrogate_cons] at hplain
      obtain ⟨-, ⟨-, hbody, -⟩, -, -, -, hwritten, -, -, hrest⟩ := hplain
      exact List.forall_mem_cons.mpr ⟨⟨hkey.hasPair hbody, ih hwritten⟩, ihrest hrest⟩

end Json

end SealedCall
