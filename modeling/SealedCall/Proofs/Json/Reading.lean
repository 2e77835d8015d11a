import SealedCall.Json.Printer
import SealedCall.Json.Reader
import SealedCall.Proofs.Json.Lexeme

/-! # Written values read back

The reader takes one token at a time and never looks ahead, so reading a written part only moves it
from one reading to another. What a written value does is the same wherever it stands: it completes
the value that is awaited. Lists and objects are read by induction on their parts.
-/

namespace SealedCall.Json

/-! ## Moves of the reader -/

/-- Whether a text in front of another one takes the reader from one reading to another. The number
of steps that takes is at most the length of the text. -/
def Leads (before : Reading) (t : Text) (after : Reading) (rest : Text) : Prop :=
  ∃ count, count ≤ t.length ∧ ∀ position, ∃ later, ∀ steps,
    readFrom (steps + count) before position (t ++ rest) = readFrom steps after later rest

theorem Leads.trans {before between after : Reading} {front back rest : Text}
    (hfront : Leads before front between (back ++ rest)) (hback : Leads between back after rest) :
    Leads before (front ++ back) after rest := by
  obtain ⟨countFront, hcountFront, hfront⟩ := hfront
  obtain ⟨countBack, hcountBack, hback⟩ := hback
  refine ⟨countBack + countFront, ?_, ?_⟩
  · rw [List.length_append]
    omega
  · intro position
    obtain ⟨middle, hmiddle⟩ := hfront position
    obtain ⟨later, hlater⟩ := hback middle
    refine ⟨later, fun steps => ?_⟩
    rw [← Nat.add_assoc, List.append_assoc, hmiddle, hlater]

/-- A step that succeeds is taken. -/
theorem readFrom_step {reading next : Reading} {position steps : Nat} {t : Text}
    (hstep : reading.step (nextLexeme position t) = .ok next) :
    readFrom (steps + 1) reading position t =
      readFrom steps next (nextLexeme position t).stop (nextLexeme position t).rest := by
  rw [readFrom]
  split
  · next value hexpects htoken =>
      rw [Reading.step, hexpects] at hstep
      exact nomatch hstep
  · rw [hstep]

theorem leads_lexeme {before after : Reading} {t rest : Text} {token : Token}
    (hlexes : Lexes t token rest) (hlength : 1 ≤ t.length)
    (hstep : ∀ lexeme, lexeme.token = token → before.step lexeme = .ok after) :
    Leads before t after rest := by
  refine ⟨1, hlength, fun position => ?_⟩
  obtain ⟨start, stop, hlexeme⟩ := hlexes position
  refine ⟨stop, fun steps => ?_⟩
  rw [readFrom_step (hstep _ (by rw [hlexeme])), hlexeme]

/-- A reading that treats every token that is no closing bracket as the start of a value. -/
def Awaits (reading : Reading) (frames : List Frame) : Prop :=
  ∀ lexeme, lexeme.token ≠ .closeArray → reading.step lexeme = Reading.startValue lexeme frames

theorem awaits_value (frames : List Frame) : Awaits ⟨.value, frames⟩ frames :=
  fun _ _ => by rw [Reading.step]

theorem awaits_firstItem (frames : List Frame) :
    Awaits ⟨.firstItem, frames⟩ (.array [] :: frames) := by
  intro lexeme htoken
  obtain ⟨token, start, stop, rest⟩ := lexeme
  cases token <;> first | rfl | exact absurd rfl htoken

/-- A reading that treats every token that is no closing brace as a key. -/
def AwaitsKey (reading : Reading) (before : List (Value × Value)) (frames : List Frame) : Prop :=
  ∀ lexeme, lexeme.token ≠ .closeObject →
    reading.step lexeme = Reading.startKey lexeme before frames

theorem awaitsKey_key (before : List (Value × Value)) (frames : List Frame) :
    AwaitsKey ⟨.key before, frames⟩ before frames :=
  fun _ _ => by rw [Reading.step]

theorem awaitsKey_firstKey (frames : List Frame) : AwaitsKey ⟨.firstKey, frames⟩ [] frames := by
  intro lexeme htoken
  obtain ⟨token, start, stop, rest⟩ := lexeme
  cases token <;> first | rfl | exact absurd rfl htoken

/-! ## Values in place -/

/-- Whether a text is read as a value wherever one is awaited and at least the given number of
levels is left. -/
def ReadsAs (levels : Nat) (t : Text) (v : Value) : Prop :=
  ∀ ⦃reading : Reading⦄ ⦃frames : List Frame⦄ ⦃rest : Text⦄, Awaits reading frames →
    frames.length + levels ≤ nestingLimit → EndsNumber rest →
    Leads reading t (Reading.complete v frames) rest

theorem readsAs_scalar {levels : Nat} {t : Text} {v : Value} (hlength : 1 ≤ t.length)
    (hlexes : ∀ rest, EndsNumber rest → Lexes t (.scalar v) rest) : ReadsAs levels t v := by
  intro reading frames rest hawaits _ hrest
  refine leads_lexeme (hlexes rest hrest) hlength fun lexeme htoken => ?_
  rw [hawaits lexeme (by rw [htoken]; exact Token.noConfusion), Reading.startValue, htoken]

theorem readsAs_string (levels : Nat) (t : Text) :
    ReadsAs levels (string t) (.text (Text.joinPairs t)) := by
  intro reading frames rest hawaits _ _
  refine leads_lexeme (lexes_string t rest) (by simp [string]) fun lexeme htoken => ?_
  rw [hawaits lexeme (by rw [htoken]; exact Token.noConfusion), Reading.startValue, htoken]

theorem readsAs_number {levels : Nat} {t : Text} {v : Value}
    (hscans : ∀ rest, EndsNumber rest → ScansNumber t (.scalar v) rest) : ReadsAs levels t v := by
  obtain ⟨⟨negative, form, htext⟩, -⟩ := hscans [] fun _ hhead => nomatch hhead
  have hwhole := List.length_pos_iff.mpr form.whole_digits.ne_nil
  refine readsAs_scalar ?_ fun rest hrest => lexes_number (hscans rest hrest)
  rw [htext, NumberForm.text, List.length_append, List.length_append]
  omega

theorem endsNumber_cons {point : CodePoint} {rest : Text}
    (hpoint : point.isDigit = false ∧ point.is '.' = false ∧ point.is 'e' = false ∧
      point.is 'E' = false) : EndsNumber (point :: rest) := by
  intro head hhead
  cases hhead
  exact hpoint

/-! ## Lists -/

theorem leads_punctuation {before after : Reading} {point : CodePoint} {token : Token} {rest : Text}
    (hblank : isBlank point = false) (htoken : punctuation? point = some token)
    (hstep : ∀ lexeme, lexeme.token = token → before.step lexeme = .ok after) :
    Leads before [point] after rest :=
  leads_lexeme (lexes_punctuation rest hblank htoken) (Nat.le_refl 1) hstep

/-- The items of a list, with the values they are read as. -/
theorem leads_items {levels : Nat} {frames : List Frame} {rest : Text}
    (hroom : frames.length + 1 + levels ≤ nestingLimit) (first : Text × Value)
    (more : List (Text × Value)) (before : List Value) {reading : Reading}
    (hparts : ∀ part ∈ first :: more, ReadsAs levels part.1 part.2)
    (hawaits : Awaits reading (.array before :: frames)) :
    Leads reading
      (Text.joinWith [CodePoint.ofChar ','] ((first :: more).map (·.1)) ++ [CodePoint.ofChar ']'])
      (Reading.complete (.list (before.reverse ++ (first :: more).map (·.2))) frames) rest := by
  have hfirst : ReadsAs levels first.1 first.2 := hparts first List.mem_cons_self
  -- what was collected so far is part of the reader, so both are generalized
  induction more generalizing first before reading with
  | nil =>
      have hclose : Leads ⟨.separator (.array before) first.2, frames⟩ [CodePoint.ofChar ']']
          (Reading.complete (.list (before.reverse ++ [first.2])) frames) rest := by
        refine leads_punctuation rfl rfl fun lexeme htoken => ?_
        rw [← List.reverse_cons, Reading.step, htoken]
        rfl
      -- a bracket or a comma ends a number, which no digit behind it can lengthen
      have hends : EndsNumber ([CodePoint.ofChar ']'] ++ rest) := endsNumber_cons (by decide)
      rw [List.map_singleton, List.map_singleton, Text.joinWith, List.intercalate_singleton]
      exact (hfirst hawaits hroom hends).trans hclose
  | cons next more ih =>
      have hcomma : Leads ⟨.separator (.array before) first.2, frames⟩ [CodePoint.ofChar ',']
          ⟨.value, .array (first.2 :: before) :: frames⟩
          (Text.joinWith [CodePoint.ofChar ','] ((next :: more).map (·.1)) ++
            [CodePoint.ofChar ']'] ++ rest) := by
        refine leads_punctuation rfl rfl fun lexeme htoken => ?_
        rw [Reading.step, htoken]
      have hlater := ih next (first.2 :: before)
        (fun part hmem => hparts part (List.mem_cons_of_mem first hmem))
        (awaits_value _) (hparts next (List.mem_cons_of_mem first List.mem_cons_self))
      rw [List.reverse_cons, List.append_assoc, List.singleton_append] at hlater
      have hends : EndsNumber ([CodePoint.ofChar ','] ++
          (Text.joinWith [CodePoint.ofChar ','] ((next :: more).map (·.1)) ++
            [CodePoint.ofChar ']']) ++ rest) := endsNumber_cons (by decide)
      have htext : Text.joinWith [CodePoint.ofChar ','] ((first :: next :: more).map (·.1)) ++
            [CodePoint.ofChar ']'] =
          first.1 ++ ([CodePoint.ofChar ','] ++
            (Text.joinWith [CodePoint.ofChar ','] ((next :: more).map (·.1)) ++
              [CodePoint.ofChar ']'])) := by
        simp only [Text.joinWith, List.map_cons, List.intercalate_cons_cons, List.append_assoc]
      rw [htext]
      exact (hfirst hawaits hroom hends).trans (hcomma.trans hlater)

theorem nested_of_room {frames : List Frame} {levels : Nat} {expects : Expectation}
    (hroom : frames.length + (levels + 1) ≤ nestingLimit) :
    Reading.nested expects frames = .ok ⟨expects, frames⟩ := by
  rw [Reading.nested, if_pos (by omega)]

theorem readsAs_list {levels : Nat} {parts : List (Text × Value)}
    (hparts : ∀ part ∈ parts, ReadsAs levels part.1 part.2) :
    ReadsAs (levels + 1) (enclosed '[' ']' (parts.map (·.1))) (.list (parts.map (·.2))) := by
  intro reading frames rest hawaits hroom _
  have hopen : ∀ behind, Leads reading [CodePoint.ofChar '['] ⟨.firstItem, frames⟩ behind := by
    refine fun behind => leads_punctuation rfl rfl fun lexeme htoken => ?_
    rw [hawaits lexeme (by rw [htoken]; exact Token.noConfusion), Reading.startValue, htoken]
    exact nested_of_room hroom
  rw [enclosed, List.cons_append]
  cases parts with
  | nil =>
      refine (hopen _).trans (leads_punctuation rfl rfl fun lexeme htoken => ?_)
      rw [Reading.step, htoken]
      rfl
  | cons first more =>
      exact (hopen _).trans
        (leads_items (by omega) first more [] hparts (awaits_firstItem frames))

/-! ## Objects -/

/-- A member of an object: its key, the text of its value, and the value that is read. -/
structure Member where
  key : Text
  written : Text
  value : Value

/-- The text of a member. -/
def Member.text (part : Member) : Text := string part.key ++ CodePoint.ofChar ':' :: part.written

/-- The entries of an object after one more member. -/
def Member.storedAfter (before : List (Value × Value)) (part : Member) : List (Value × Value) :=
  Value.store (.text (Text.joinPairs part.key)) part.value before

theorem leads_member {levels : Nat} {frames : List Frame} {rest : Text} {part : Member}
    {before : List (Value × Value)} {reading : Reading}
    (hroom : frames.length + 1 + levels ≤ nestingLimit)
    (hpart : ReadsAs levels part.written part.value) (hawaits : AwaitsKey reading before frames)
    (hends : EndsNumber rest) :
    Leads reading part.text
      ⟨.separator (.object before (Text.joinPairs part.key)) part.value, frames⟩ rest := by
  have hkey : Leads reading (string part.key) ⟨.colon before (Text.joinPairs part.key), frames⟩
      ([CodePoint.ofChar ':'] ++ part.written ++ rest) := by
    refine leads_lexeme (lexes_string _ _) (by simp [string]) fun lexeme htoken => ?_
    rw [hawaits lexeme (by rw [htoken]; exact Token.noConfusion), Reading.startKey, htoken]
  have hcolon : Leads ⟨.colon before (Text.joinPairs part.key), frames⟩ [CodePoint.ofChar ':']
      ⟨.value, .object before (Text.joinPairs part.key) :: frames⟩ (part.written ++ rest) := by
    refine leads_punctuation rfl rfl fun lexeme htoken => ?_
    rw [Reading.step, htoken]
  exact hkey.trans (hcolon.trans (hpart (awaits_value _) hroom hends))

/-- The members of an object, stored one after the other. -/
theorem leads_members {levels : Nat} {frames : List Frame} {rest : Text}
    (hroom : frames.length + 1 + levels ≤ nestingLimit) (first : Member) (more : List Member)
    (before : List (Value × Value)) {reading : Reading}
    (hparts : ∀ part ∈ first :: more, ReadsAs levels part.written part.value)
    (hawaits : AwaitsKey reading before frames) :
    Leads reading
      (Text.joinWith [CodePoint.ofChar ','] ((first :: more).map Member.text) ++
        [CodePoint.ofChar '\x7d'])
      (Reading.complete (.dict ((first :: more).foldl Member.storedAfter before)) frames) rest := by
  have hfirst : ReadsAs levels first.written first.value := hparts first List.mem_cons_self
  induction more generalizing first before reading with
  | nil =>
      have hclose : Leads
          ⟨.separator (.object before (Text.joinPairs first.key)) first.value, frames⟩
          [CodePoint.ofChar '\x7d']
          (Reading.complete (.dict (first.storedAfter before)) frames) rest := by
        refine leads_punctuation rfl rfl fun lexeme htoken => ?_
        rw [Reading.step, htoken]
        rfl
      have hends : EndsNumber ([CodePoint.ofChar '\x7d'] ++ rest) := endsNumber_cons (by decide)
      rw [List.map_singleton, Text.joinWith, List.intercalate_singleton]
      exact (leads_member hroom hfirst hawaits hends).trans hclose
  | cons next more ih =>
      have hcomma : Leads
          ⟨.separator (.object before (Text.joinPairs first.key)) first.value, frames⟩
          [CodePoint.ofChar ','] ⟨.key (first.storedAfter before), frames⟩
          (Text.joinWith [CodePoint.ofChar ','] ((next :: more).map Member.text) ++
            [CodePoint.ofChar '\x7d'] ++ rest) := by
        refine leads_punctuation rfl rfl fun lexeme htoken => ?_
        rw [Reading.step, htoken]
        rfl
      have hlater := ih next (first.storedAfter before)
        (fun part hmem => hparts part (List.mem_cons_of_mem first hmem))
        (awaitsKey_key _ _) (hparts next (List.mem_cons_of_mem first List.mem_cons_self))
      have hends : EndsNumber ([CodePoint.ofChar ','] ++
          (Text.joinWith [CodePoint.ofChar ','] ((next :: more).map Member.text) ++
            [CodePoint.ofChar '\x7d']) ++ rest) := endsNumber_cons (by decide)
      have htext : Text.joinWith [CodePoint.ofChar ','] ((first :: next :: more).map Member.text) ++
            [CodePoint.ofChar '\x7d'] =
          first.text ++ ([CodePoint.ofChar ','] ++
            (Text.joinWith [CodePoint.ofChar ','] ((next :: more).map Member.text) ++
              [CodePoint.ofChar '\x7d'])) := by
        simp only [Text.joinWith, List.map_cons, List.intercalate_cons_cons, List.append_assoc]
      rw [htext]
      exact (leads_member hroom hfirst hawaits hends).trans (hcomma.trans hlater)

theorem readsAs_dict {levels : Nat} {parts : List Member}
    (hparts : ∀ part ∈ parts, ReadsAs levels part.written part.value) :
    ReadsAs (levels + 1) (enclosed '\x7b' '\x7d' (parts.map Member.text))
      (.dict (parts.foldl Member.storedAfter [])) := by
  intro reading frames rest hawaits hroom _
  have hopen : ∀ behind, Leads reading [CodePoint.ofChar '\x7b'] ⟨.firstKey, frames⟩ behind := by
    refine fun behind => leads_punctuation rfl rfl fun lexeme htoken => ?_
    rw [hawaits lexeme (by rw [htoken]; exact Token.noConfusion), Reading.startValue, htoken]
    exact nested_of_room hroom
  rw [enclosed, List.cons_append]
  cases parts with
  | nil =>
      refine (hopen _).trans (leads_punctuation rfl rfl fun lexeme htoken => ?_)
      rw [Reading.step, htoken]
      rfl
  | cons first more =>
      exact (hopen _).trans
        (leads_members (by omega) first more [] hparts (awaitsKey_firstKey frames))

/-! ## Whole texts -/

/-- A text that is read as a value wherever it stands is read as that value on its own. -/
theorem read_of_readsAs {levels : Nat} {t : Text} {v : Value} (hreads : ReadsAs levels t v)
    (hlevels : levels ≤ nestingLimit) : read t = .ok v := by
  have hroom : ([] : List Frame).length + levels ≤ nestingLimit := by
    rw [List.length_nil]
    omega
  have hends : EndsNumber [] := fun _ hhead => nomatch hhead
  obtain ⟨count, hcount, hleads⟩ := hreads (awaits_value []) hroom hends
  obtain ⟨later, hsteps⟩ := hleads 0
  have hlast := hsteps (t.length - count + 1)
  have hfuel : t.length - count + 1 + count = t.length + 1 := by omega
  rw [hfuel, List.append_nil] at hlast
  rw [read, hlast]
  rfl

end SealedCall.Json
