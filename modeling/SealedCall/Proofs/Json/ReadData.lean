import SealedCall.Json.Reader
import SealedCall.Proofs.Value.Nested

/-! # What reading gives

Whatever text is read, the value it gives is plain JSON data: dictionaries have different texts as
keys, and containers nest no deeper than the limit. This holds because every container that is
still open holds only such data, which each token preserves.
-/

namespace SealedCall.Json

open Value

/-- JSON data of at most so many levels. -/
inductive Data : Nat → Value → Prop
  | null {levels : Nat} : Data levels .null
  | bool {levels : Nat} (b : Bool) : Data levels (.bool b)
  | int {levels : Nat} (n : Int) : Data levels (.int n)
  | float {levels : Nat} (x : Binary64) : Data levels (.float x)
  | text {levels : Nat} (t : Text) : Data levels (.text t)
  | list {levels : Nat} {items : List Value} (hitems : ∀ item ∈ items, Data levels item) :
      Data (levels + 1) (.list items)
  | dict {levels : Nat} {entries : List (Value × Value)}
      (htext : ∀ entry ∈ entries, ∃ t, entry.1 = .text t)
      (hdiffer : entries.Pairwise fun a b => equal a.1 b.1 = false)
      (hvalues : ∀ entry ∈ entries, Data levels entry.2) : Data (levels + 1) (.dict entries)

/-! ## Tokens -/

theorem data_numberToken (parts : NumberParts) {v : Value} (htoken : parts.token = .scalar v)
    (levels : Nat) : Data levels v := by
  rw [NumberParts.token] at htoken
  split at htoken
  · split at htoken
    · cases htoken
    · cases htoken
      exact .int _
  · cases htoken
    exact .float _

theorem data_words {word : Text} {v : Value} (hmem : (word, v) ∈ words) (levels : Nat) :
    Data levels v := by
  simp only [words, List.mem_cons, List.not_mem_nil, or_false, Prod.mk.injEq] at hmem
  rcases hmem with ⟨-, rfl⟩ | ⟨-, rfl⟩ | ⟨-, rfl⟩ | ⟨-, rfl⟩ | ⟨-, rfl⟩ | ⟨-, rfl⟩
  · exact .null
  · exact .bool true
  · exact .bool false
  · exact .float _
  · exact .float _
  · exact .float _

theorem punctuation?_ne_scalar (point : CodePoint) (v : Value) :
    punctuation? point ≠ some (.scalar v) := by
  intro htoken
  rw [punctuation?] at htoken
  repeat' split at htoken
  all_goals cases htoken

theorem data_scalar {position : Nat} {t : Text} {v : Value}
    (htoken : (nextLexeme position t).token = .scalar v) (levels : Nat) : Data levels v := by
  rw [nextLexeme] at htoken
  generalize position + (t.takeWhile isBlank).length = front at htoken
  generalize t.dropWhile isBlank = rest at htoken
  cases rest with
  | nil => cases htoken
  | cons point rest =>
      rw [lexemeAt] at htoken
      split at htoken
      · next hpunctuation => exact absurd (htoken ▸ hpunctuation) (punctuation?_ne_scalar point v)
      split at htoken
      · split at htoken
        · cases htoken
        · cases htoken
      split at htoken
      · next hword =>
          cases htoken
          exact data_words (List.mem_of_find?_eq_some hword) levels
      split at htoken
      · exact data_numberToken _ htoken levels
      · cases htoken

/-! ## Entries -/

/-- Entries that a dictionary of JSON data can have. -/
structure EntriesData (levels : Nat) (entries : List (Value × Value)) : Prop where
  text : ∀ entry ∈ entries, ∃ t, entry.1 = .text t
  differ : entries.Pairwise fun a b => equal a.1 b.1 = false
  values : ∀ entry ∈ entries, Data levels entry.2

theorem mem_store {key value : Value} {stored : List (Value × Value)} {entry : Value × Value}
    (hmem : entry ∈ store key value stored) :
    (entry.1 = key ∧ entry.2 = value) ∨
      ∃ old ∈ stored, entry.1 = old.1 ∧ (entry.2 = old.2 ∨ entry.2 = value) := by
  induction stored with
  | nil => exact .inl (by simpa [store, Prod.ext_iff] using hmem)
  | cons head rest ih =>
      obtain ⟨present, old⟩ := head
      rw [store] at hmem
      split at hmem
      · rcases List.mem_cons.mp hmem with rfl | hmem
        · exact .inr ⟨_, List.mem_cons_self, rfl, .inr rfl⟩
        · exact .inr ⟨entry, List.mem_cons_of_mem _ hmem, rfl, .inl rfl⟩
      · rcases List.mem_cons.mp hmem with rfl | hmem
        · exact .inr ⟨_, List.mem_cons_self, rfl, .inl rfl⟩
        · rcases ih hmem with hnew | ⟨held, hheld, hentry⟩
          · exact .inl hnew
          · exact .inr ⟨held, List.mem_cons_of_mem _ hheld, hentry⟩

theorem pairwise_store {key : Value} {value : Value} {stored : List (Value × Value)}
    (hdiffer : stored.Pairwise fun a b => equal a.1 b.1 = false) :
    (store key value stored).Pairwise fun a b => equal a.1 b.1 = false := by
  induction stored with
  | nil => exact List.pairwise_singleton _ _
  | cons head rest ih =>
      obtain ⟨present, old⟩ := head
      obtain ⟨hhead, hrest⟩ := List.pairwise_cons.mp hdiffer
      rw [store]
      split
      · exact List.pairwise_cons.mpr ⟨hhead, hrest⟩
      · next hne =>
          refine List.pairwise_cons.mpr ⟨?_, ih hrest⟩
          intro entry hmem
          rcases mem_store hmem with ⟨hkey, -⟩ | ⟨held, hheld, hkey, -⟩
          · rw [hkey]
            exact Bool.eq_false_iff.mpr hne
          · rw [hkey]
            exact hhead held hheld

theorem entriesData_nil {levels : Nat} : EntriesData levels [] := by
  refine ⟨?_, List.Pairwise.nil, ?_⟩ <;> simp

theorem EntriesData.store {levels : Nat} {entries : List (Value × Value)}
    (hentries : EntriesData levels entries) (key : Text) {value : Value}
    (hvalue : Data levels value) :
    EntriesData levels (Value.store (.text key) value entries) := by
  refine ⟨?_, pairwise_store hentries.differ, ?_⟩
  · intro entry hmem
    rcases mem_store hmem with ⟨hkey, -⟩ | ⟨held, hheld, hkey, -⟩
    · exact ⟨key, hkey⟩
    · rw [hkey]
      exact hentries.text held hheld
  · intro entry hmem
    rcases mem_store hmem with ⟨-, hnew⟩ | ⟨held, hheld, -, hold | hnew⟩
    · rw [hnew]
      exact hvalue
    · rw [hold]
      exact hentries.values held hheld
    · rw [hnew]
      exact hvalue

/-! ## Readings -/

/-- Whether an open container holds JSON data of at most so many levels. -/
def FrameFits (levels : Nat) : Frame → Prop
  | .array before => ∀ item ∈ before, Data levels item
  | .object before _ => EntriesData levels before

/-- Whether each open container holds data of at most as many levels as are left inside it. -/
def FramesFit : List Frame → Prop
  | [] => True
  | frame :: outer => FramesFit outer ∧
    ∃ levels, outer.length + (levels + 1) = nestingLimit ∧ FrameFits levels frame

/-- Whether what a reader has collected at some depth fits there. -/
def ExpectationFits (depth : Nat) : Expectation → Prop
  | .value => True
  | .firstItem | .firstKey => depth < nestingLimit
  | .key before | .colon before _ =>
    ∃ levels, depth + (levels + 1) = nestingLimit ∧ EntriesData levels before
  | .separator frame value =>
    ∃ levels, depth + (levels + 1) = nestingLimit ∧ FrameFits levels frame ∧ Data levels value
  | .finish value => Data nestingLimit value

/-- Whether everything a reader has collected is JSON data that fits where it stands. -/
def Reading.Fits (reading : Reading) : Prop :=
  ExpectationFits reading.open_.length reading.expects ∧ FramesFit reading.open_

theorem FramesFit.levels {frames : List Frame} (hframes : FramesFit frames) :
    ∃ levels, frames.length + levels = nestingLimit := by
  cases frames with
  | nil => exact ⟨nestingLimit, Nat.zero_add _⟩
  | cons frame outer =>
      obtain ⟨-, levels, hlevels, -⟩ := hframes
      exact ⟨levels, by rw [List.length_cons]; omega⟩

theorem complete_fits {frames : List Frame} {levels : Nat} {value : Value}
    (hframes : FramesFit frames) (hlevels : frames.length + levels = nestingLimit)
    (hvalue : Data levels value) : (Reading.complete value frames).Fits := by
  cases frames with
  | nil =>
      rw [List.length_nil, Nat.zero_add] at hlevels
      subst hlevels
      exact ⟨hvalue, True.intro⟩
  | cons frame outer =>
      obtain ⟨houter, inner, hinner, hframe⟩ := hframes
      rw [List.length_cons] at hlevels
      obtain rfl : inner = levels := by omega
      exact ⟨⟨inner, hinner, hframe, hvalue⟩, houter⟩

theorem close_data {levels : Nat} {frame : Frame} {value : Value} (hframe : FrameFits levels frame)
    (hvalue : Data levels value) : Data (levels + 1) (frame.close value) := by
  cases frame with
  | array before =>
      refine .list fun item hmem => ?_
      rcases List.mem_cons.mp (List.mem_reverse.mp hmem) with rfl | hmem
      · exact hvalue
      · exact hframe item hmem
  | object before key =>
      have hstored : EntriesData levels before := hframe
      have hentries := hstored.store key hvalue
      exact .dict hentries.text hentries.differ hentries.values

theorem nested_fits {expects : Expectation} {frames : List Frame} {next : Reading}
    (hexpects : frames.length < nestingLimit → ExpectationFits frames.length expects)
    (hframes : FramesFit frames) (hnested : Reading.nested expects frames = .ok next) :
    next.Fits := by
  rw [Reading.nested] at hnested
  split at hnested
  · next hroom =>
      cases hnested
      exact ⟨hexpects hroom, hframes⟩
  · cases hnested

theorem startValue_fits {lexeme : Lexeme} {frames : List Frame} {next : Reading}
    (hscalar : ∀ v, lexeme.token = .scalar v → ∀ levels, Data levels v)
    (hframes : FramesFit frames) (hnext : Reading.startValue lexeme frames = .ok next) :
    next.Fits := by
  obtain ⟨levels, hlevels⟩ := hframes.levels
  rw [Reading.startValue] at hnext
  split at hnext
  · exact nested_fits id hframes hnext
  · exact nested_fits id hframes hnext
  · cases hnext
    exact complete_fits hframes hlevels (.text _)
  · next htoken =>
      cases hnext
      exact complete_fits hframes hlevels (hscalar _ htoken levels)
  · cases hnext
  · cases hnext
  · cases hnext

theorem startKey_fits {lexeme : Lexeme} {frames : List Frame} {before : List (Value × Value)}
    {next : Reading}
    (hbefore : ∃ levels, frames.length + (levels + 1) = nestingLimit ∧ EntriesData levels before)
    (hframes : FramesFit frames) (hnext : Reading.startKey lexeme before frames = .ok next) :
    next.Fits := by
  rw [Reading.startKey] at hnext
  split at hnext
  · cases hnext
    exact ⟨hbefore, hframes⟩
  · cases hnext
  · cases hnext

theorem exists_inner {depth : Nat} (hroom : depth < nestingLimit) :
    ∃ levels, depth + (levels + 1) = nestingLimit :=
  ⟨nestingLimit - depth - 1, by omega⟩

/-- A token preserves that everything collected fits. -/
theorem step_fits {reading next : Reading} {lexeme : Lexeme} (hfits : reading.Fits)
    (hscalar : ∀ v, lexeme.token = .scalar v → ∀ levels, Data levels v)
    (hstep : reading.step lexeme = .ok next) : next.Fits := by
  obtain ⟨hexpects, hframes⟩ := hfits
  rw [Reading.step] at hstep
  split at hstep
  -- one case for each line of the table: what was expected tells what the frames still take
  · exact startValue_fits hscalar hframes hstep
  · next hfirst htoken =>
      rw [hfirst] at hexpects
      obtain ⟨levels, hlevels⟩ := exists_inner hexpects
      cases hstep
      exact complete_fits hframes hlevels (.list (by simp))
  · next hfirst htoken =>
      rw [hfirst] at hexpects
      obtain ⟨levels, hlevels⟩ := exists_inner hexpects
      have hempty : FrameFits levels (.array []) := by simp [FrameFits]
      have hopen : FramesFit (.array [] :: reading.open_) := ⟨hframes, levels, hlevels, hempty⟩
      exact startValue_fits hscalar hopen hstep
  · next hfirst htoken =>
      rw [hfirst] at hexpects
      obtain ⟨levels, hlevels⟩ := exists_inner hexpects
      cases hstep
      exact complete_fits hframes hlevels (.dict (by simp) .nil (by simp))
  · next hfirst htoken =>
      rw [hfirst] at hexpects
      obtain ⟨levels, hlevels⟩ := exists_inner hexpects
      exact startKey_fits ⟨levels, hlevels, entriesData_nil⟩ hframes hstep
  · next hkey =>
      rw [hkey] at hexpects
      exact startKey_fits hexpects hframes hstep
  · next hcolon htoken =>
      rw [hcolon] at hexpects
      cases hstep
      exact ⟨True.intro, hframes, hexpects⟩
  · next hseparator htoken =>
      rw [hseparator] at hexpects
      obtain ⟨levels, hlevels, hframe, hvalue⟩ := hexpects
      cases hstep
      exact ⟨True.intro, hframes, levels, hlevels, List.forall_mem_cons.mpr ⟨hvalue, hframe⟩⟩
  · next hseparator htoken =>
      rw [hseparator] at hexpects
      obtain ⟨levels, hlevels, hframe, hvalue⟩ := hexpects
      cases hstep
      exact complete_fits hframes hlevels (close_data hframe hvalue)
  · next hseparator htoken =>
      rw [hseparator] at hexpects
      obtain ⟨levels, hlevels, hframe, hvalue⟩ := hexpects
      cases hstep
      exact ⟨⟨levels, hlevels, EntriesData.store hframe _ hvalue⟩, hframes⟩
  · next hseparator htoken =>
      rw [hseparator] at hexpects
      obtain ⟨levels, hlevels, hframe, hvalue⟩ := hexpects
      cases hstep
      exact complete_fits hframes hlevels (close_data hframe hvalue)
  · cases hstep

/-- What a reader ends with is JSON data, when everything it had collected was. -/
theorem data_of_readFrom {steps position : Nat} {reading : Reading} {t : Text} {v : Value}
    (hfits : reading.Fits) (hread : readFrom steps reading position t = .ok v) :
    Data nestingLimit v := by
  induction steps generalizing reading position t with
  | zero => cases hread
  | succ steps ih =>
      rw [readFrom] at hread
      split at hread
      · next value hexpects _ =>
          cases hread
          have hvalue := hfits.1
          rw [hexpects] at hvalue
          exact hvalue
      · split at hread
        · next next hstep =>
            exact ih (step_fits hfits (fun _ htoken => data_scalar htoken) hstep) hread
        · cases hread

/-- What a text is read as is JSON data. -/
theorem data_of_read {t : Text} {v : Value} (hread : read t = .ok v) : Data nestingLimit v := by
  have hstart : Reading.Fits ⟨.value, []⟩ := ⟨True.intro, True.intro⟩
  exact data_of_readFrom hstart hread

end SealedCall.Json
