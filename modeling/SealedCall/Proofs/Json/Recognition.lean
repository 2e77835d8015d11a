import SealedCall.Proofs.Json.Nesting
import SealedCall.Proofs.Json.Reading

/-! # The reader recognizes the grammar

What the reader takes is a text of the grammar, with the value that the grammar gives it: whatever
is still to come completes the containers that are open, and each token passes this on from the
reading behind it to the one before it. Conversely every text of the grammar is taken, as long as it
nests no deeper than the limit, and only a text that does is refused for its depth.
-/

namespace SealedCall.Json

/-! ## Steps of the reader -/

/-- A reading that awaits a value, with the containers around that value. -/
inductive AwaitsValue : Reading → List Frame → Prop
  | value (frames : List Frame) : AwaitsValue ⟨.value, frames⟩ frames
  | firstItem (frames : List Frame) : AwaitsValue ⟨.firstItem, frames⟩ (.array [] :: frames)

/-- A reading that awaits a member, with the entries before it and the containers around its
object. -/
inductive AwaitsMember : Reading → List (Value × Value) → List Frame → Prop
  | key (before : List (Value × Value)) (frames : List Frame) :
      AwaitsMember ⟨.key before, frames⟩ before frames
  | firstKey (frames : List Frame) : AwaitsMember ⟨.firstKey, frames⟩ [] frames

/-- Everything a token can do to a reading. -/
inductive Moves : Reading → Token → Reading → Prop
  | openArray {reading : Reading} {frames : List Frame} (hawaits : AwaitsValue reading frames) :
      Moves reading .openArray ⟨.firstItem, frames⟩
  | openObject {reading : Reading} {frames : List Frame} (hawaits : AwaitsValue reading frames) :
      Moves reading .openObject ⟨.firstKey, frames⟩
  | text {reading : Reading} {frames : List Frame} (hawaits : AwaitsValue reading frames)
      (t : Text) : Moves reading (.string t) (.complete (.text t) frames)
  | scalar {reading : Reading} {frames : List Frame} (hawaits : AwaitsValue reading frames)
      (v : Value) : Moves reading (.scalar v) (.complete v frames)
  | emptyArray (frames : List Frame) :
      Moves ⟨.firstItem, frames⟩ .closeArray (.complete (.list []) frames)
  | emptyObject (frames : List Frame) :
      Moves ⟨.firstKey, frames⟩ .closeObject (.complete (.dict []) frames)
  | key {reading : Reading} {before : List (Value × Value)} {frames : List Frame}
      (hawaits : AwaitsMember reading before frames) (key : Text) :
      Moves reading (.string key) ⟨.colon before key, frames⟩
  | colon (before : List (Value × Value)) (key : Text) (frames : List Frame) :
      Moves ⟨.colon before key, frames⟩ .colon ⟨.value, .object before key :: frames⟩
  | nextItem (before : List Value) (value : Value) (frames : List Frame) :
      Moves ⟨.separator (.array before) value, frames⟩ .comma
        ⟨.value, .array (value :: before) :: frames⟩
  | lastItem (before : List Value) (value : Value) (frames : List Frame) :
      Moves ⟨.separator (.array before) value, frames⟩ .closeArray
        (.complete (.list (value :: before).reverse) frames)
  | nextMember (before : List (Value × Value)) (key : Text) (value : Value)
      (frames : List Frame) :
      Moves ⟨.separator (.object before key) value, frames⟩ .comma
        ⟨.key (Value.store (.text key) value before), frames⟩
  | lastMember (before : List (Value × Value)) (key : Text) (value : Value)
      (frames : List Frame) :
      Moves ⟨.separator (.object before key) value, frames⟩ .closeObject
        (.complete (.dict (Value.store (.text key) value before)) frames)

theorem nested_eq_ok {expects : Expectation} {frames : List Frame} {next : Reading}
    (hnested : Reading.nested expects frames = .ok next) : next = ⟨expects, frames⟩ := by
  rw [Reading.nested] at hnested
  split at hnested
  · cases hnested
    rfl
  · cases hnested

theorem moves_of_startValue {reading next : Reading} {frames : List Frame} {lexeme : Lexeme}
    (hawaits : AwaitsValue reading frames)
    (hstart : Reading.startValue lexeme frames = .ok next) :
    Moves reading lexeme.token next := by
  rw [Reading.startValue] at hstart
  split at hstart
  · next htoken =>
      rw [htoken, nested_eq_ok hstart]
      exact .openArray hawaits
  · next htoken =>
      rw [htoken, nested_eq_ok hstart]
      exact .openObject hawaits
  · next t htoken =>
      cases hstart
      rw [htoken]
      exact .text hawaits t
  · next v htoken =>
      cases hstart
      rw [htoken]
      exact .scalar hawaits v
  · cases hstart
  · cases hstart
  · cases hstart

theorem moves_of_startKey {reading next : Reading} {before : List (Value × Value)}
    {frames : List Frame} {lexeme : Lexeme} (hawaits : AwaitsMember reading before frames)
    (hstart : Reading.startKey lexeme before frames = .ok next) :
    Moves reading lexeme.token next := by
  rw [Reading.startKey] at hstart
  split at hstart
  · next key htoken =>
      cases hstart
      rw [htoken]
      exact .key hawaits key
  · cases hstart
  · cases hstart

theorem moves_of_step {reading next : Reading} {lexeme : Lexeme}
    (hstep : reading.step lexeme = .ok next) : Moves reading lexeme.token next := by
  obtain ⟨expects, frames⟩ := reading
  rw [Reading.step] at hstep
  split at hstep
  · next hexpects =>
      cases hexpects
      exact moves_of_startValue (.value frames) hstep
  · next hexpects htoken =>
      cases hexpects
      cases hstep
      rw [htoken]
      exact .emptyArray frames
  · next hexpects _ =>
      cases hexpects
      exact moves_of_startValue (.firstItem frames) hstep
  · next hexpects htoken =>
      cases hexpects
      cases hstep
      rw [htoken]
      exact .emptyObject frames
  · next hexpects _ =>
      cases hexpects
      exact moves_of_startKey (.firstKey frames) hstep
  · next before hexpects =>
      cases hexpects
      exact moves_of_startKey (.key before frames) hstep
  · next hexpects htoken =>
      cases hexpects
      cases hstep
      rw [htoken]
      exact .colon _ _ frames
  · next hexpects htoken =>
      cases hexpects
      cases hstep
      rw [htoken]
      exact .nextItem _ _ frames
  · next hexpects htoken =>
      cases hexpects
      cases hstep
      rw [htoken]
      exact .lastItem _ _ frames
  · next hexpects htoken =>
      cases hexpects
      cases hstep
      rw [htoken]
      exact .nextMember _ _ _ frames
  · next hexpects htoken =>
      cases hexpects
      cases hstep
      rw [htoken]
      exact .lastMember _ _ _ frames
  · cases hstep

theorem Moves.isPart {reading next : Reading} {token : Token} (hmoves : Moves reading token next) :
    token.isPart = true := by
  cases hmoves <;> rfl

/-! ## Depth -/

/-- The number of containers that are open where a reading stands. -/
def Reading.depth (reading : Reading) : Nat :=
  match reading.expects with
  | .value | .finish _ => reading.open_.length
  | _ => reading.open_.length + 1

theorem Reading.depth_complete (value : Value) (frames : List Frame) :
    (Reading.complete value frames).depth = frames.length := by
  cases frames <;> rfl

theorem AwaitsValue.depth {reading : Reading} {frames : List Frame}
    (hawaits : AwaitsValue reading frames) : reading.depth = frames.length := by
  cases hawaits <;> rfl

theorem AwaitsMember.depth {reading : Reading} {before : List (Value × Value)}
    {frames : List Frame} (hawaits : AwaitsMember reading before frames) :
    reading.depth = frames.length + 1 := by
  cases hawaits <;> rfl

/-- A token opens and closes in the reader what it opens and closes in the text. -/
theorem Moves.depth {reading next : Reading} {token : Token} (hmoves : Moves reading token next) :
    next.depth = token.depthBehind reading.depth := by
  cases hmoves with
  | openArray hawaits => rw [hawaits.depth]; rfl
  | openObject hawaits => rw [hawaits.depth]; rfl
  | text hawaits t => rw [hawaits.depth, Reading.depth_complete]; rfl
  | scalar hawaits v => rw [hawaits.depth, Reading.depth_complete]; rfl
  | emptyArray frames => rw [Reading.depth_complete]; rfl
  | emptyObject frames => rw [Reading.depth_complete]; rfl
  | key hawaits key => rw [hawaits.depth]; rfl
  | colon before key frames => rfl
  | nextItem before value frames => rfl
  | lastItem before value frames => rw [Reading.depth_complete]; rfl
  | nextMember before key value frames => rfl
  | lastMember before key value frames => rw [Reading.depth_complete]; rfl

theorem tooDeep_of_startValue {lexeme : Lexeme} {frames : List Frame}
    (hstart : Reading.startValue lexeme frames = .error .tooDeep) :
    nestingLimit ≤ frames.length ∧ lexeme.token.isPart = true ∧
      lexeme.token.depthBehind frames.length = frames.length + 1 := by
  have hnested : ∀ {expects : Expectation}, Reading.nested expects frames = .error .tooDeep →
      nestingLimit ≤ frames.length := by
    intro expects hnested
    rw [Reading.nested] at hnested
    split at hnested
    · cases hnested
    · next hroom => exact Nat.not_lt.mp hroom
  rw [Reading.startValue] at hstart
  split at hstart
  · next htoken =>
      rw [htoken]
      exact ⟨hnested hstart, rfl, rfl⟩
  · next htoken =>
      rw [htoken]
      exact ⟨hnested hstart, rfl, rfl⟩
  all_goals cases hstart

theorem ne_tooDeep_of_startKey (lexeme : Lexeme) (before : List (Value × Value))
    (frames : List Frame) : Reading.startKey lexeme before frames ≠ .error .tooDeep := by
  intro hstart
  rw [Reading.startKey] at hstart
  split at hstart <;> cases hstart

/-- Only a container is refused for its depth, and only where the limit is reached. -/
theorem tooDeep_of_step {reading : Reading} {lexeme : Lexeme}
    (hstep : reading.step lexeme = .error .tooDeep) :
    nestingLimit ≤ reading.depth ∧ lexeme.token.isPart = true ∧
      lexeme.token.depthBehind reading.depth = reading.depth + 1 := by
  obtain ⟨expects, frames⟩ := reading
  rw [Reading.step] at hstep
  split at hstep
  · next hexpects =>
      cases hexpects
      exact tooDeep_of_startValue hstep
  · cases hstep
  · next hexpects _ =>
      cases hexpects
      exact tooDeep_of_startValue hstep
  · cases hstep
  · exact absurd hstep (ne_tooDeep_of_startKey _ _ _)
  · exact absurd hstep (ne_tooDeep_of_startKey _ _ _)
  all_goals cases hstep

/-- What is left behind a token nests no deeper than the text at hand. -/
theorem peak_behind_lexeme {position : Nat} {t : Text}
    (hpart : (nextLexeme position t).token.isPart = true) (depth : Nat) :
    peak .outside ((nextLexeme position t).token.depthBehind depth) (nextLexeme position t).rest ≤
      peak .outside depth t := by
  obtain ⟨gap, front, ht, hgap, hspells⟩ := spells_of_nextLexeme hpart
  have hshifts := (shifts_blanks hgap depth).trans (hspells.shifts depth)
  calc
    _ ≤ _ := hshifts (nextLexeme position t).rest
    _ = peak .outside depth t := by rw [List.append_assoc, ← ht]

/-- A text that is refused for its depth nests deeper than the limit. -/
theorem nestingLimit_lt_peak {steps position : Nat} {reading : Reading} {t : Text}
    (hread : readFrom steps reading position t = .error .tooDeep) :
    nestingLimit < peak .outside reading.depth t := by
  induction steps generalizing reading position t with
  | zero => cases hread
  | succ steps ih =>
      rw [readFrom] at hread
      split at hread
      · cases hread
      · split at hread
        · next next hstep =>
            have hmoves := moves_of_step hstep
            have hbehind := peak_behind_lexeme hmoves.isPart reading.depth
            rw [← hmoves.depth] at hbehind
            exact (ih hread).trans_le hbehind
        · next fault hstep =>
            cases hread
            obtain ⟨hlimit, hpart, hdepth⟩ := tooDeep_of_step hstep
            have hbehind := peak_behind_lexeme hpart reading.depth
            have hopen := le_peak .outside (reading.depth + 1) (nextLexeme position t).rest
            rw [hdepth] at hbehind
            omega

/-! ## What is taken is in the grammar -/

/-- The text behind an item up to the end of its list, with the items in it. -/
inductive MoreItems : Text → List Value → Prop
  | none {gap : Text} (hgap : Blanks gap) : MoreItems gap []
  | some {gap rest : Text} {values : List Value} (hgap : Blanks gap)
      (hrest : Derives rest (.items values)) :
      MoreItems (gap ++ CodePoint.ofChar ',' :: rest) values

/-- The text behind a member up to the end of its object, with the members in it. -/
inductive MoreMembers : Text → List (Text × Value) → Prop
  | none {gap : Text} (hgap : Blanks gap) : MoreMembers gap []
  | some {gap rest : Text} {entries : List (Text × Value)} (hgap : Blanks gap)
      (hrest : Derives rest (.members entries)) :
      MoreMembers (gap ++ CodePoint.ofChar ',' :: rest) entries

/-- The entries after one more member. -/
def stored (entries : List (Value × Value)) (member : Text × Value) : List (Value × Value) :=
  Value.store (.text member.1) member.2 entries

/-- Whether a text closes all the open containers, the innermost of which has a value as its last
part so far, and what the outermost comes to is a given value. -/
def Closes : List Frame → Value → Text → Value → Prop
  | [], value, t, v => Blanks t ∧ v = value
  | .array before :: outer, value, t, v =>
    ∃ inner values rest, t = inner ++ CodePoint.ofChar ']' :: rest ∧ MoreItems inner values ∧
      Closes outer (.list ((value :: before).reverse ++ values)) rest v
  | .object before key :: outer, value, t, v =>
    ∃ inner entries rest, t = inner ++ CodePoint.ofChar '\x7d' :: rest ∧
      MoreMembers inner entries ∧
      Closes outer (.dict (((key, value) :: entries).foldl stored before)) rest v

/-- Whether a text starts with a value and then closes all the open containers. -/
def ValueThen (frames : List Frame) (t : Text) (v : Value) : Prop :=
  ∃ gap written value rest, t = gap ++ (written ++ rest) ∧ Blanks gap ∧
    Derives written (.value value) ∧ Closes frames value rest v

/-- Whether a text starts with a member of the innermost object and then closes everything. -/
def MemberThen (before : List (Value × Value)) (frames : List Frame) (t : Text) (v : Value) :
    Prop :=
  ∃ gap body key middle rest,
    t = gap ++ (quoted body ++ (middle ++ CodePoint.ofChar ':' :: rest)) ∧ Blanks gap ∧
      Content body key ∧ Blanks middle ∧ ValueThen (.object before key :: frames) rest v

/-- Whether a text is what is still to come at a reading for a given value to be read. -/
def Completes (reading : Reading) (t : Text) (v : Value) : Prop :=
  match reading.expects with
  | .value => ValueThen reading.open_ t v
  | .firstItem =>
    (∃ gap rest, t = gap ++ CodePoint.ofChar ']' :: rest ∧ Blanks gap ∧
      Closes reading.open_ (.list []) rest v) ∨ ValueThen (.array [] :: reading.open_) t v
  | .firstKey =>
    (∃ gap rest, t = gap ++ CodePoint.ofChar '\x7d' :: rest ∧ Blanks gap ∧
      Closes reading.open_ (.dict []) rest v) ∨ MemberThen [] reading.open_ t v
  | .key before => MemberThen before reading.open_ t v
  | .colon before key =>
    ∃ middle rest, t = middle ++ CodePoint.ofChar ':' :: rest ∧ Blanks middle ∧
      ValueThen (.object before key :: reading.open_) rest v
  | .separator frame value => Closes (frame :: reading.open_) value t v
  | .finish value => Blanks t ∧ v = value

theorem closes_of_complete {value v : Value} {frames : List Frame} {t : Text}
    (hcompletes : Completes (.complete value frames) t v) : Closes frames value t v := by
  cases frames <;> exact hcompletes

theorem AwaitsValue.completes {reading : Reading} {frames : List Frame} {t : Text} {v : Value}
    (hawaits : AwaitsValue reading frames) (hvalue : ValueThen frames t v) :
    Completes reading t v := by
  cases hawaits with
  | value => exact hvalue
  | firstItem => exact .inr hvalue

theorem AwaitsMember.completes {reading : Reading} {before : List (Value × Value)}
    {frames : List Frame} {t : Text} {v : Value} (hawaits : AwaitsMember reading before frames)
    (hmember : MemberThen before frames t v) : Completes reading t v := by
  cases hawaits with
  | key => exact hmember
  | firstKey => exact .inr hmember

theorem derives_items {before written inner : Text} {value : Value} {values : List Value}
    (hbefore : Blanks before) (hvalue : Derives written (.value value))
    (hmore : MoreItems inner values) :
    Derives (before ++ (written ++ inner)) (.items (value :: values)) := by
  cases hmore with
  | none hgap => exact .lastItem hbefore hvalue hgap
  | some hgap hrest => exact .nextItem hbefore hvalue hgap hrest

theorem derives_members {before body middle gap written inner key : Text} {value : Value}
    {entries : List (Text × Value)} (hbefore : Blanks before) (hkey : Content body key)
    (hmiddle : Blanks middle) (hgap : Blanks gap) (hvalue : Derives written (.value value))
    (hmore : MoreMembers inner entries) :
    Derives (before ++ (quoted body ++ (middle ++ CodePoint.ofChar ':' ::
      (gap ++ (written ++ inner))))) (.members ((key, value) :: entries)) := by
  cases hmore with
  | none hbehind => exact .lastMember hbefore hkey hmiddle hgap hvalue hbehind
  | some hbehind hrest => exact .nextMember hbefore hkey hmiddle hgap hvalue hbehind hrest

theorem foldl_stored (members : List (Text × Value)) :
    members.foldl stored [] = collected members := foldl_store_eq_collected members

theorem Spells.value {front : Text} {v : Value} (hspells : Spells (.scalar v) front) :
    Derives front (.value v) := by
  cases hspells with
  | literal hword => exact .literal hword
  | number hnumeral => exact .number hnumeral

/-- A token passes on what is still to come from the reading behind it to the one before it. -/
theorem Moves.completes {reading next : Reading} {token : Token} {gap front rest : Text} {v : Value}
    (hmoves : Moves reading token next) (hgap : Blanks gap) (hspells : Spells token front)
    (hnext : Completes next rest v) : Completes reading (gap ++ (front ++ rest)) v := by
  cases hmoves with
  | openArray hawaits =>
      cases hspells
      refine hawaits.completes ?_
      rcases hnext with ⟨inside, behind, rfl, hinside, hcloses⟩ |
        ⟨inside, written, value, more, rfl, hinside, hvalue, inner, values, behind, rfl, hmore,
          hcloses⟩
      · exact ⟨gap, _, _, behind, by simp, hgap, .emptyArray hinside, hcloses⟩
      · exact ⟨gap, _, _, behind, by simp, hgap, .array (derives_items hinside hvalue hmore),
          hcloses⟩
  | openObject hawaits =>
      cases hspells
      refine hawaits.completes ?_
      rcases hnext with ⟨inside, behind, rfl, hinside, hcloses⟩ | ⟨inside, body, key, middle, more,
        rfl, hinside, hkey, hmiddle, before, written, value, after, rfl, hbefore, hvalue, inner,
        entries, behind, rfl, hmore, hcloses⟩
      · exact ⟨gap, _, _, behind, by simp, hgap, .emptyObject hinside, hcloses⟩
      · rw [foldl_stored] at hcloses
        exact ⟨gap, _, _, behind, by simp, hgap,
          .object (derives_members hinside hkey hmiddle hbefore hvalue hmore), hcloses⟩
  | text hawaits t =>
      cases hspells with
      | string hcontent =>
          exact hawaits.completes
            ⟨gap, _, _, rest, rfl, hgap, .string hcontent, closes_of_complete hnext⟩
  | scalar hawaits v =>
      exact hawaits.completes
        ⟨gap, _, _, rest, rfl, hgap, hspells.value, closes_of_complete hnext⟩
  | emptyArray frames =>
      cases hspells
      exact .inl ⟨gap, rest, rfl, hgap, closes_of_complete hnext⟩
  | emptyObject frames =>
      cases hspells
      exact .inl ⟨gap, rest, rfl, hgap, closes_of_complete hnext⟩
  | key hawaits key =>
      cases hspells with
      | string hcontent =>
          obtain ⟨middle, behind, rfl, hmiddle, hvalue⟩ := hnext
          exact hawaits.completes
            ⟨gap, _, key, middle, behind, rfl, hgap, hcontent, hmiddle, hvalue⟩
  | colon before key frames =>
      cases hspells
      exact ⟨gap, rest, rfl, hgap, hnext⟩
  | nextItem before value frames =>
      cases hspells
      obtain ⟨inside, written, item, more, rfl, hinside, hitem, inner, values, behind, rfl, hmore,
        hcloses⟩ := hnext
      refine ⟨_, item :: values, behind, ?_, .some hgap (derives_items hinside hitem hmore), ?_⟩
      · simp
      · simpa using hcloses
  | lastItem before value frames =>
      cases hspells
      refine ⟨gap, [], rest, rfl, .none hgap, ?_⟩
      rw [List.append_nil]
      exact closes_of_complete hnext
  | nextMember before key value frames =>
      cases hspells
      obtain ⟨inside, body, name, middle, more, rfl, hinside, hname, hmiddle, space, written, item,
        after, rfl, hspace, hitem, inner, entries, behind, rfl, hmore, hcloses⟩ := hnext
      exact ⟨_, (name, item) :: entries, behind, by simp,
        .some hgap (derives_members hinside hname hmiddle hspace hitem hmore), hcloses⟩
  | lastMember before key value frames =>
      cases hspells
      exact ⟨gap, [], rest, rfl, .none hgap, closes_of_complete hnext⟩

/-- What the reader ends with is what the grammar makes of the rest of the text. -/
theorem completes_of_readFrom {steps position : Nat} {reading : Reading} {t : Text} {v : Value}
    (hread : readFrom steps reading position t = .ok v) : Completes reading t v := by
  induction steps generalizing reading position t with
  | zero => cases hread
  | succ steps ih =>
      rw [readFrom] at hread
      split at hread
      · next value hexpects hfinish =>
          cases hread
          rw [Completes, hexpects]
          exact ⟨blanks_of_nextLexeme hfinish, rfl⟩
      · split at hread
        · next next hstep =>
            have hmoves := moves_of_step hstep
            obtain ⟨gap, front, ht, hgap, hspells⟩ := spells_of_nextLexeme hmoves.isPart
            rw [ht]
            exact hmoves.completes hgap hspells (ih hread)
        · cases hread

theorem document_of_read {t : Text} {v : Value} (hread : read t = .ok v) : Document t v := by
  obtain ⟨gap, written, value, rest, rfl, hgap, hvalue, hrest, rfl⟩ := completes_of_readFrom hread
  exact ⟨gap, written, rest, rfl, hgap, hrest, hvalue⟩

/-! ## What is in the grammar is taken -/

theorem endsNumber_append {gap rest : Text} (hgap : Blanks gap) (hrest : EndsNumber rest) :
    EndsNumber (gap ++ rest) := by
  cases gap with
  | nil => exact hrest
  | cons point gap =>
      have hblank := hgap point List.mem_cons_self
      simp only [isBlank, Bool.or_eq_true] at hblank
      rcases hblank with ((hblank | hblank) | hblank) | hblank <;>
        exact endsNumber_cons (CodePoint.eq_ofChar_of_is hblank ▸ by decide)

/-- Whether a text is read as a phrase wherever the phrase is awaited, as long as it nests no deeper
there than the limit. Items and members are read up to the end of their container. -/
def Phrase.ReadsFrom : Phrase → Text → Prop
  | .value v, t => ∀ ⦃reading : Reading⦄ ⦃frames : List Frame⦄ ⦃gap rest : Text⦄,
      Awaits reading frames → Blanks gap → EndsNumber rest →
      peak .outside frames.length (t ++ rest) ≤ nestingLimit →
      Leads reading (gap ++ t) (Reading.complete v frames) rest
  | .items values, t => ∀ ⦃reading : Reading⦄ ⦃frames : List Frame⦄ ⦃before : List Value⦄
      ⦃rest : Text⦄, Awaits reading (.array before :: frames) →
      peak .outside (frames.length + 1) (t ++ CodePoint.ofChar ']' :: rest) ≤ nestingLimit →
      Leads reading (t ++ [CodePoint.ofChar ']'])
        (Reading.complete (.list (before.reverse ++ values)) frames) rest
  | .members entries, t => ∀ ⦃reading : Reading⦄ ⦃frames : List Frame⦄
      ⦃before : List (Value × Value)⦄ ⦃rest : Text⦄, AwaitsKey reading before frames →
      peak .outside (frames.length + 1) (t ++ CodePoint.ofChar '\x7d' :: rest) ≤ nestingLimit →
      Leads reading (t ++ [CodePoint.ofChar '\x7d'])
        (Reading.complete (.dict (entries.foldl stored before)) frames) rest

section Leading

variable {reading : Reading} {frames : List Frame} {gap rest : Text}

/-- A token that makes a value by itself completes the value that is awaited. -/
theorem leads_scalar {t : Text} {v : Value} (hawaits : Awaits reading frames) (hgap : Blanks gap)
    (hlength : 1 ≤ t.length) (hlexes : Lexes t (.scalar v) rest) :
    Leads reading (gap ++ t) (Reading.complete v frames) rest := by
  refine leads_lexeme (hlexes.behind hgap) ?_ fun lexeme htoken => ?_
  · rw [List.length_append]
    omega
  · rw [hawaits lexeme (by rw [htoken]; exact Token.noConfusion), Reading.startValue, htoken]

theorem leads_content {body t : Text} (hawaits : Awaits reading frames) (hgap : Blanks gap)
    (hcontent : Content body t) :
    Leads reading (gap ++ quoted body) (Reading.complete (.text t) frames) rest := by
  refine leads_lexeme ((lexes_content hcontent rest).behind hgap) ?_ fun lexeme htoken => ?_
  · rw [quoted, List.length_append, List.length_cons]
    omega
  · rw [hawaits lexeme (by rw [htoken]; exact Token.noConfusion), Reading.startValue, htoken]

theorem leads_key {body key : Text} {before : List (Value × Value)}
    (hawaits : AwaitsKey reading before frames) (hgap : Blanks gap) (hkey : Content body key) :
    Leads reading (gap ++ quoted body) ⟨.colon before key, frames⟩ rest := by
  refine leads_lexeme ((lexes_content hkey rest).behind hgap) ?_ fun lexeme htoken => ?_
  · rw [quoted, List.length_append, List.length_cons]
    omega
  · rw [hawaits lexeme (by rw [htoken]; exact Token.noConfusion), Reading.startKey, htoken]

theorem leads_point {after : Reading} {point : CodePoint} {token : Token} (hgap : Blanks gap)
    (hblank : isBlank point = false) (htoken : punctuation? point = some token)
    (hstep : ∀ lexeme, lexeme.token = token → reading.step lexeme = .ok after) :
    Leads reading (gap ++ [point]) after rest := by
  refine leads_lexeme ((lexes_punctuation rest hblank htoken).behind hgap) ?_ hstep
  rw [List.length_append, List.length_singleton]
  omega

/-- A container is opened where the text nests no deeper than the limit. -/
theorem nested_of_peak {opening : CodePoint} {behind : Text} (expects : Expectation)
    (hquote : opening.is '"' = false) (hopening : (opening.is '[' || opening.is '\x7b') = true)
    (hdepth : peak .outside frames.length (opening :: behind) ≤ nestingLimit) :
    Reading.nested expects frames = .ok ⟨expects, frames⟩ := by
  rw [peak_open hquote hopening] at hdepth
  have hopen := le_peak .outside (frames.length + 1) behind
  rw [Reading.nested, if_pos (by omega)]

theorem leads_openArray {behind : Text} (hawaits : Awaits reading frames) (hgap : Blanks gap)
    (hdepth : peak .outside frames.length (CodePoint.ofChar '[' :: behind) ≤ nestingLimit) :
    Leads reading (gap ++ [CodePoint.ofChar '[']) ⟨.firstItem, frames⟩ rest := by
  refine leads_point hgap rfl rfl fun lexeme htoken => ?_
  rw [hawaits lexeme (by rw [htoken]; exact Token.noConfusion), Reading.startValue, htoken]
  exact nested_of_peak _ (by decide) (by decide) hdepth

theorem leads_openObject {behind : Text} (hawaits : Awaits reading frames) (hgap : Blanks gap)
    (hdepth : peak .outside frames.length (CodePoint.ofChar '\x7b' :: behind) ≤ nestingLimit) :
    Leads reading (gap ++ [CodePoint.ofChar '\x7b']) ⟨.firstKey, frames⟩ rest := by
  refine leads_point hgap rfl rfl fun lexeme htoken => ?_
  rw [hawaits lexeme (by rw [htoken]; exact Token.noConfusion), Reading.startValue, htoken]
  exact nested_of_peak _ (by decide) (by decide) hdepth

end Leading

theorem Literal.length {word : Text} {v : Value} (hword : Literal word v) : 1 ≤ word.length := by
  cases hword <;> decide

theorem Numeral.length {written : Text} {v : Value} (hnumeral : Numeral written v) :
    1 ≤ written.length := by
  obtain ⟨negative, first, more, rfl, -⟩ := hnumeral.head
  rw [List.length_append, List.length_cons]
  omega

section Containers

variable {reading : Reading} {frames : List Frame} {rest : Text}

/-- A member is read up to the end of its value. -/
theorem leads_memberOf {front body middle gap written key : Text} {v : Value}
    {before : List (Value × Value)} (hawaits : AwaitsKey reading before frames)
    (hfront : Blanks front) (hkey : Content body key) (hmiddle : Blanks middle) (hgap : Blanks gap)
    (hvalue : (Phrase.value v).ReadsFrom written) (hends : EndsNumber rest)
    (hdepth : peak .outside (frames.length + 1) (written ++ rest) ≤ nestingLimit) :
    Leads reading
      (front ++ quoted body ++ (middle ++ [CodePoint.ofChar ':'] ++ (gap ++ written)))
      ⟨.separator (.object before key) v, frames⟩ rest := by
  have hcolon : Leads ⟨.colon before key, frames⟩ (middle ++ [CodePoint.ofChar ':'])
      ⟨.value, .object before key :: frames⟩ (gap ++ written ++ rest) := by
    refine leads_point hmiddle rfl rfl fun lexeme htoken => ?_
    rw [Reading.step, htoken]
  exact (leads_key hawaits hfront hkey).trans
    (hcolon.trans (hvalue (awaits_value _) hgap hends hdepth))

theorem leads_emptyArray {inside : Text} (hinside : Blanks inside) :
    Leads ⟨.firstItem, frames⟩ (inside ++ [CodePoint.ofChar ']'])
      (Reading.complete (.list []) frames) rest := by
  refine leads_point hinside rfl rfl fun lexeme htoken => ?_
  rw [Reading.step, htoken]

theorem leads_emptyObject {inside : Text} (hinside : Blanks inside) :
    Leads ⟨.firstKey, frames⟩ (inside ++ [CodePoint.ofChar '\x7d'])
      (Reading.complete (.dict []) frames) rest := by
  refine leads_point hinside rfl rfl fun lexeme htoken => ?_
  rw [Reading.step, htoken]

theorem leads_lastItem {before : List Value} {v : Value} {behind : Text} (hbehind : Blanks behind) :
    Leads ⟨.separator (.array before) v, frames⟩ (behind ++ [CodePoint.ofChar ']'])
      (Reading.complete (.list (before.reverse ++ [v])) frames) rest := by
  refine leads_point hbehind rfl rfl fun lexeme htoken => ?_
  rw [← List.reverse_cons, Reading.step, htoken]
  rfl

theorem leads_nextItem {before : List Value} {v : Value} {behind : Text} (hbehind : Blanks behind) :
    Leads ⟨.separator (.array before) v, frames⟩ (behind ++ [CodePoint.ofChar ','])
      ⟨.value, .array (v :: before) :: frames⟩ rest := by
  refine leads_point hbehind rfl rfl fun lexeme htoken => ?_
  rw [Reading.step, htoken]

theorem leads_lastMember {before : List (Value × Value)} {key : Text} {v : Value} {behind : Text}
    (hbehind : Blanks behind) :
    Leads ⟨.separator (.object before key) v, frames⟩ (behind ++ [CodePoint.ofChar '\x7d'])
      (Reading.complete (.dict (stored before (key, v))) frames) rest := by
  refine leads_point hbehind rfl rfl fun lexeme htoken => ?_
  rw [Reading.step, htoken]
  rfl

theorem leads_nextMember {before : List (Value × Value)} {key : Text} {v : Value} {behind : Text}
    (hbehind : Blanks behind) :
    Leads ⟨.separator (.object before key) v, frames⟩ (behind ++ [CodePoint.ofChar ','])
      ⟨.key (stored before (key, v)), frames⟩ rest := by
  refine leads_point hbehind rfl rfl fun lexeme htoken => ?_
  rw [Reading.step, htoken]
  rfl

end Containers

theorem shifts_comma {written behind : Text} {v : Value} (hvalue : Derives written (.value v))
    (hbehind : Blanks behind) (depth : Nat) :
    Shifts (written ++ (behind ++ [CodePoint.ofChar ','])) depth depth :=
  (hvalue.shifts depth).trans ((shifts_blanks hbehind depth).trans (shifts_point (by decide) depth))

theorem shifts_memberFront {before body middle gap key : Text} (hbefore : Blanks before)
    (hkey : Content body key) (hmiddle : Blanks middle) (hgap : Blanks gap) (depth : Nat) :
    Shifts (before ++ (quoted body ++ (middle ++ ([CodePoint.ofChar ':'] ++ gap)))) depth depth :=
  (shifts_blanks hbefore depth).trans ((shifts_quoted hkey depth).trans
    ((shifts_blanks hmiddle depth).trans
      ((shifts_point (by decide) depth).trans (shifts_blanks hgap depth))))

/-- A comma, a bracket or a brace ends a number, also behind blanks. -/
theorem endsNumber_point {behind : Text} {point : CodePoint} (rest : Text)
    (hbehind : Blanks behind)
    (hpoint : point.isDigit = false ∧ point.is '.' = false ∧ point.is 'e' = false ∧
      point.is 'E' = false) : EndsNumber (behind ++ [point] ++ rest) := by
  rw [List.append_assoc]
  exact endsNumber_append hbehind (endsNumber_cons hpoint)

/-- A text of the grammar is read, as long as it nests no deeper than the limit. -/
theorem Derives.readsFrom {t : Text} {phrase : Phrase} (hderives : Derives t phrase) :
    phrase.ReadsFrom t := by
  induction hderives with
  | literal hword =>
      intro reading frames gap rest hawaits hgap _ _
      exact leads_scalar hawaits hgap hword.length (lexes_literal hword rest)
  | number hnumeral =>
      intro reading frames gap rest hawaits hgap hrest _
      exact leads_scalar hawaits hgap hnumeral.length (lexes_numeral hnumeral hrest)
  | string hcontent =>
      intro reading frames gap rest hawaits hgap _ _
      exact leads_content hawaits hgap hcontent
  | emptyArray hinside =>
      intro reading frames gap rest hawaits hgap _ hdepth
      rw [← List.singleton_append, ← List.append_assoc]
      exact (leads_openArray hawaits hgap hdepth).trans (leads_emptyArray hinside)
  | array _ ih =>
      intro reading frames gap rest hawaits hgap _ hdepth
      rw [← List.singleton_append, ← List.append_assoc]
      refine (leads_openArray hawaits hgap hdepth).trans (ih (awaits_firstItem frames) ?_)
      rw [List.cons_append, peak_open (by decide) (by decide), List.append_assoc] at hdepth
      exact hdepth
  | emptyObject hinside =>
      intro reading frames gap rest hawaits hgap _ hdepth
      rw [← List.singleton_append, ← List.append_assoc]
      exact (leads_openObject hawaits hgap hdepth).trans (leads_emptyObject hinside)
  | object _ ih =>
      intro reading frames gap rest hawaits hgap _ hdepth
      rw [← List.singleton_append, ← List.append_assoc, ← foldl_stored]
      refine (leads_openObject hawaits hgap hdepth).trans (ih (awaitsKey_firstKey frames) ?_)
      rw [List.cons_append, peak_open (by decide) (by decide), List.append_assoc] at hdepth
      exact hdepth
  | @lastItem before written behind v hbefore _ hbehind ih =>
      intro reading frames items rest hawaits hdepth
      have hinside : peak .outside (frames.length + 1)
          (written ++ (behind ++ [CodePoint.ofChar ']'] ++ rest)) ≤ nestingLimit :=
        (shifts_blanks hbefore _ _).trans (by simpa using hdepth)
      have hread := (ih hawaits hbefore (endsNumber_point rest hbehind (by decide)) hinside).trans
        (leads_lastItem hbehind)
      simpa using hread
  | @nextItem before written behind more v values hbefore hvalue hbehind _ ih ihmore =>
      intro reading frames items rest hawaits hdepth
      have hinside : peak .outside (frames.length + 1) (written ++
          (behind ++ [CodePoint.ofChar ','] ++ (more ++ [CodePoint.ofChar ']']) ++ rest)) ≤
            nestingLimit :=
        (shifts_blanks hbefore _ _).trans (by simpa using hdepth)
      have hmoreInside : peak .outside (frames.length + 1)
          (more ++ CodePoint.ofChar ']' :: rest) ≤ nestingLimit :=
        (shifts_comma hvalue hbehind _ _).trans (by simpa using hinside)
      have hends : EndsNumber (behind ++ [CodePoint.ofChar ','] ++
          (more ++ [CodePoint.ofChar ']']) ++ rest) :=
        List.append_assoc _ _ rest ▸ endsNumber_point _ hbehind (by decide)
      have hread := (ih hawaits hbefore hends hinside).trans
        ((leads_nextItem hbehind).trans (ihmore (awaits_value _) hmoreInside))
      simpa using hread
  | @lastMember before body middle gap written behind key v hbefore hkey hmiddle hgap _ hbehind
      ih =>
      intro reading frames entries rest hawaits hdepth
      have hinside : peak .outside (frames.length + 1)
          (written ++ (behind ++ [CodePoint.ofChar '\x7d'] ++ rest)) ≤ nestingLimit :=
        (shifts_memberFront hbefore hkey hmiddle hgap _ _).trans (by simpa using hdepth)
      have hread := (leads_memberOf hawaits hbefore hkey hmiddle hgap ih
        (endsNumber_point rest hbehind (by decide)) hinside).trans (leads_lastMember hbehind)
      simpa using hread
  | @nextMember before body middle gap written behind more key v members hbefore hkey hmiddle hgap
      hvalue hbehind _ ih ihmore =>
      intro reading frames entries rest hawaits hdepth
      have hinside : peak .outside (frames.length + 1) (written ++
          (behind ++ [CodePoint.ofChar ','] ++ (more ++ [CodePoint.ofChar '\x7d']) ++ rest)) ≤
            nestingLimit :=
        (shifts_memberFront hbefore hkey hmiddle hgap _ _).trans (by simpa using hdepth)
      have hmoreInside : peak .outside (frames.length + 1)
          (more ++ CodePoint.ofChar '\x7d' :: rest) ≤ nestingLimit :=
        (shifts_comma hvalue hbehind _ _).trans (by simpa using hinside)
      have hends : EndsNumber (behind ++ [CodePoint.ofChar ','] ++
          (more ++ [CodePoint.ofChar '\x7d']) ++ rest) :=
        List.append_assoc _ _ rest ▸ endsNumber_point _ hbehind (by decide)
      have hread := (leads_memberOf hawaits hbefore hkey hmiddle hgap ih hends hinside).trans
        ((leads_nextMember hbehind).trans (ihmore (awaitsKey_key _ _) hmoreInside))
      simpa using hread

/-- A document is read as its value, as long as it nests no deeper than the limit. -/
theorem read_of_document {t : Text} {v : Value} (hdocument : Document t v)
    (hnesting : nesting t ≤ nestingLimit) : read t = .ok v := by
  obtain ⟨before, written, behind, rfl, hbefore, hbehind, hvalue⟩ := hdocument
  have hinside : peak .outside 0 (written ++ behind) ≤ nestingLimit :=
    (shifts_blanks hbefore 0 _).trans hnesting
  have hnothing : EndsNumber [] := fun _ hhead => nomatch hhead
  have hends : EndsNumber behind := List.append_nil behind ▸ endsNumber_append hbehind hnothing
  obtain ⟨count, hcount, hleads⟩ := hvalue.readsFrom (awaits_value []) hbefore hends hinside
  obtain ⟨later, hsteps⟩ := hleads 0
  have hlast := hsteps ((before ++ (written ++ behind)).length - count + 1)
  have hfuel : (before ++ (written ++ behind)).length - count + 1 + count =
      (before ++ (written ++ behind)).length + 1 := by
    simp only [List.length_append] at hcount ⊢
    omega
  have hblank : behind.dropWhile isBlank = [] := List.dropWhile_eq_nil_iff.mpr hbehind
  rw [hfuel, List.append_assoc] at hlast
  rw [read, hlast, readFrom, nextLexeme, hblank]
  rfl

end SealedCall.Json
