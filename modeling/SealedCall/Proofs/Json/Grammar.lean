import Mathlib.Data.List.Induction
import SealedCall.Proofs.Json.NumberToken
import SealedCall.Proofs.Value.Nested

/-! # The grammar of JSON texts

What a JSON text is and which value it stands for, told without a reader. Beside the standard
grammar there are three words for the numbers that are not finite. An escaped high surrogate and an escaped
low one right behind it stand for one character, and any other surrogate for itself. A number with
neither fraction nor exponent is a whole number and has at most 4300 digits; every other number is a
binary one. A key that is repeated keeps its first place and takes its last value.
-/

namespace SealedCall.Json

/-- Whether a text consists of blanks. -/
def Blanks (t : Text) : Prop := ∀ point ∈ t, isBlank point = true

/-! ## Strings -/

/-- The letters that stand behind a backslash, with the code points they mean. -/
def letterEscapes : List (Char × Nat) :=
  [('"', 0x22), ('\\', 0x5C), ('/', 0x2F), ('b', 0x08), ('f', 0x0C), ('n', 0x0A), ('r', 0x0D),
    ('t', 0x09)]

def LetterEscape (letter meant : CodePoint) : Prop :=
  ∃ row ∈ letterEscapes, letter.value = row.1.toNat ∧ meant.value = row.2

/-- Whether a text is the numeric escape of a sixteen-bit unit: four hexadecimal digits behind a
mark. -/
def UnitEscape (written : Text) (unit : CodePoint) : Prop :=
  ∃ a b c d i j k l, written = CodePoint.ofChar '\\' :: CodePoint.ofChar 'u' :: [a, b, c, d] ∧
    CodePoint.hexValue? a = some i ∧ CodePoint.hexValue? b = some j ∧
    CodePoint.hexValue? c = some k ∧ CodePoint.hexValue? d = some l ∧
    unit.value = i * 0x1000 + j * 0x100 + k * 0x10 + l

/-- Whether a text starts with the numeric escape of a low surrogate. -/
def StartsLow (body : Text) : Prop :=
  ∃ written unit rest, body = written ++ rest ∧ UnitEscape written unit ∧
    unit.isLowSurrogate = true

/-- What may stand between the quotes of a string, and the text that it stands for. -/
inductive Content : Text → Text → Prop
  | nil : Content [] []
  | plain {point : CodePoint} {body t : Text} (hcontrol : 0x20 ≤ point.value)
      (hquote : point.is '"' = false) (hbackslash : point.is '\\' = false)
      (hbody : Content body t) : Content (point :: body) (point :: t)
  | letter {letter meant : CodePoint} {body t : Text} (hletter : LetterEscape letter meant)
      (hbody : Content body t) :
      Content (CodePoint.ofChar '\\' :: letter :: body) (meant :: t)
  | pair {first second body t : Text} {high low : CodePoint} (hfirst : UnitEscape first high)
      (hsecond : UnitEscape second low) (hhigh : high.isHighSurrogate = true)
      (hlow : low.isLowSurrogate = true) (hbody : Content body t) :
      Content (first ++ (second ++ body)) (CodePoint.ofPair high low :: t)
  | unit {written body t : Text} {unit : CodePoint} (hunit : UnitEscape written unit)
      (halone : unit.isHighSurrogate = true → ¬ StartsLow body) (hbody : Content body t) :
      Content (written ++ body) (unit :: t)

/-- What stands between two quotes. -/
def quoted (body : Text) : Text :=
  CodePoint.ofChar '"' :: (body ++ [CodePoint.ofChar '"'])

/-! ## Words and numbers -/

/-- The words that stand for values. -/
inductive Literal : Text → Value → Prop
  | null : Literal (Text.of "null") .null
  | true : Literal (Text.of "true") (.bool true)
  | false : Literal (Text.of "false") (.bool false)
  | nan : Literal (Text.of "NaN") (.float (.nan 0))
  | infinity : Literal (Text.of "Infinity") (.float (.infinite false))
  | negativeInfinity : Literal (Text.of "-Infinity") (.float (.infinite true))

/-- Numbers as they are written, with their values. -/
inductive Numeral : Text → Value → Prop
  | whole (negative : Bool) {digits : Text} (hdigits : WholeDigits digits)
      (hlength : digits.length ≤ 4300) :
      Numeral (signText negative ++ digits)
        (.int (if negative then -(Text.decimalValue digits : Int) else Text.decimalValue digits))
  | real (negative : Bool) (form : NumberForm) {exponent : Text}
      (hexponent : ExponentSpelling exponent form.exponent) (hreal : form.isWhole = false) :
      Numeral (signText negative ++ (form.whole ++ (fractionText form.fraction ++ exponent)))
        (.float (Binary64.ofDecimal negative form.decimal))

/-! ## Values -/

/-- The last value of a key among members. -/
def lastValue (members : List (Text × Value)) (key : Text) : Value :=
  (members.reverse.lookup key).getD .null

/-- The entries that the members of an object make: the keys in the order in which they first occur,
each with its last value. -/
def collected (members : List (Text × Value)) : List (Value × Value) :=
  (members.map Prod.fst).eraseDups.map fun key => (.text key, lastValue members key)

/-- What a part of a text can be: a value, the items of a list with the commas between them, or the
members of an object. -/
inductive Phrase
  | value (v : Value)
  | items (values : List Value)
  | members (entries : List (Text × Value))

/-- The texts of each phrase. -/
inductive Derives : Text → Phrase → Prop
  | literal {word : Text} {v : Value} (hword : Literal word v) : Derives word (.value v)
  | number {written : Text} {v : Value} (hnumber : Numeral written v) : Derives written (.value v)
  | string {body t : Text} (hbody : Content body t) : Derives (quoted body) (.value (.text t))
  | emptyArray {gap : Text} (hgap : Blanks gap) :
      Derives (CodePoint.ofChar '[' :: (gap ++ [CodePoint.ofChar ']'])) (.value (.list []))
  | array {written : Text} {values : List Value} (hitems : Derives written (.items values)) :
      Derives (CodePoint.ofChar '[' :: (written ++ [CodePoint.ofChar ']'])) (.value (.list values))
  | emptyObject {gap : Text} (hgap : Blanks gap) :
      Derives (CodePoint.ofChar '\x7b' :: (gap ++ [CodePoint.ofChar '\x7d'])) (.value (.dict []))
  | object {written : Text} {entries : List (Text × Value)}
      (hmembers : Derives written (.members entries)) :
      Derives (CodePoint.ofChar '\x7b' :: (written ++ [CodePoint.ofChar '\x7d']))
        (.value (.dict (collected entries)))
  | lastItem {before written behind : Text} {v : Value} (hbefore : Blanks before)
      (hvalue : Derives written (.value v)) (hbehind : Blanks behind) :
      Derives (before ++ (written ++ behind)) (.items [v])
  | nextItem {before written behind rest : Text} {v : Value} {values : List Value}
      (hbefore : Blanks before) (hvalue : Derives written (.value v)) (hbehind : Blanks behind)
      (hrest : Derives rest (.items values)) :
      Derives (before ++ (written ++ (behind ++ CodePoint.ofChar ',' :: rest)))
        (.items (v :: values))
  | lastMember {before body middle gap written behind : Text} {key : Text} {v : Value}
      (hbefore : Blanks before) (hkey : Content body key) (hmiddle : Blanks middle)
      (hgap : Blanks gap) (hvalue : Derives written (.value v)) (hbehind : Blanks behind) :
      Derives (before ++ (quoted body ++ (middle ++ CodePoint.ofChar ':' ::
        (gap ++ (written ++ behind))))) (.members [(key, v)])
  | nextMember {before body middle gap written behind rest : Text} {key : Text} {v : Value}
      {entries : List (Text × Value)} (hbefore : Blanks before) (hkey : Content body key)
      (hmiddle : Blanks middle) (hgap : Blanks gap) (hvalue : Derives written (.value v))
      (hbehind : Blanks behind) (hrest : Derives rest (.members entries)) :
      Derives (before ++ (quoted body ++ (middle ++ CodePoint.ofChar ':' ::
        (gap ++ (written ++ (behind ++ CodePoint.ofChar ',' :: rest))))))
        (.members ((key, v) :: entries))

/-- Whether a text is one value with nothing but blanks around it. -/
def Document (t : Text) (v : Value) : Prop :=
  ∃ before written behind, t = before ++ (written ++ behind) ∧ Blanks before ∧ Blanks behind ∧
    Derives written (.value v)

/-! ## Members and the entries they make -/

theorem nodup_eraseDups (keys : List Text) : keys.eraseDups.Nodup := by
  induction keys using List.reverseRecOn with
  | nil => exact List.nodup_nil
  | append_singleton keys key ih =>
      rw [List.eraseDups_append]
      by_cases hmem : key ∈ keys
      · simpa [List.removeAll, hmem] using ih
      · have hone : ([key] : List Text).eraseDups = [key] := by simp [List.eraseDups_cons]
        simp only [List.removeAll, hmem, List.elem_eq_mem, List.filter_cons, List.filter_nil,
          decide_false, Bool.not_false, if_true, hone]
        refine List.nodup_append.mpr ⟨ih, List.pairwise_singleton _ key, ?_⟩
        rintro other hother _ hkey rfl
        exact hmem (List.mem_singleton.mp hkey ▸ List.mem_eraseDups.mp hother)

theorem lastValue_append (members : List (Text × Value)) (key : Text) (value : Value)
    (other : Text) :
    lastValue (members ++ [(key, value)]) other =
      if other = key then value else lastValue members other := by
  rw [lastValue, List.reverse_append, List.reverse_singleton, List.singleton_append,
    List.lookup_cons]
  by_cases hkey : other = key
  · rw [if_pos hkey, beq_iff_eq.mpr hkey]
    rfl
  · rw [if_neg hkey, beq_eq_false_iff_ne.mpr hkey]
    rfl

/-- Storing under a key that is there changes its value and nothing else. -/
theorem store_map_of_mem {keys : List Text} (hnodup : keys.Nodup) {key : Text} (hmem : key ∈ keys)
    (value : Value) (valueOf : Text → Value) :
    Value.store (.text key) value (keys.map fun other => (.text other, valueOf other)) =
      keys.map fun other => (.text other, if other = key then value else valueOf other) := by
  induction keys with
  | nil => exact absurd hmem List.not_mem_nil
  | cons first rest ih =>
      obtain ⟨hfirst, hrest⟩ := List.nodup_cons.mp hnodup
      rw [List.map_cons, List.map_cons, Value.store, Value.equal_text]
      by_cases hkey : first = key
      · -- the key does not occur again, so the values behind it stay
        have hothers : ∀ other ∈ rest, ((.text other, valueOf other) : Value × Value) =
            (.text other, if other = key then value else valueOf other) := by
          intro other hother
          rw [if_neg]
          rintro rfl
          exact hfirst (hkey ▸ hother)
        rw [if_pos (beq_iff_eq.mpr hkey), if_pos hkey, List.map_congr_left hothers]
      · have hother : key ∈ rest := (List.mem_cons.mp hmem).resolve_left (Ne.symm hkey)
        rw [if_neg (by rwa [beq_iff_eq]), if_neg hkey, ih hrest hother]

/-- One more member is stored among the entries of those before it. -/
theorem collected_append (members : List (Text × Value)) (key : Text) (value : Value) :
    collected (members ++ [(key, value)]) =
      Value.store (.text key) value (collected members) := by
  simp only [collected, lastValue_append]
  rw [List.map_append, List.eraseDups_append, List.map_append]
  by_cases hmem : key ∈ members.map Prod.fst
  · have hkeys : key ∈ (members.map Prod.fst).eraseDups := List.mem_eraseDups.mpr hmem
    have hnone : [key].removeAll (members.map Prod.fst) = [] := by simp [List.removeAll, hmem]
    rw [store_map_of_mem (nodup_eraseDups _) hkeys, List.map_singleton, hnone]
    simp
  · have hone : [key].removeAll (members.map Prod.fst) = [key] := by simp [List.removeAll, hmem]
    rw [Value.store_of_absent, List.map_singleton, hone]
    · have hothers : ∀ other ∈ (members.map Prod.fst).eraseDups,
          ((.text other, if other = key then value else lastValue members other) :
            Value × Value) = (.text other, lastValue members other) := by
        intro other hother
        rw [if_neg]
        rintro rfl
        exact hmem (List.mem_eraseDups.mp hother)
      rw [List.map_congr_left hothers]
      simp [List.eraseDups_cons]
    · intro entry hentry
      obtain ⟨other, hother, rfl⟩ := List.mem_map.mp hentry
      rw [Value.equal_text, beq_eq_false_iff_ne]
      rintro rfl
      exact hmem (List.mem_eraseDups.mp hother)

/-- Storing the members one after the other gives the entries they make. -/
theorem foldl_store_eq_collected (members : List (Text × Value)) :
    members.foldl (fun stored member => Value.store (.text member.1) member.2 stored) [] =
      collected members := by
  induction members using List.reverseRecOn with
  | nil => rfl
  | append_singleton members member ih =>
      rw [List.foldl_append, List.foldl_cons, List.foldl_nil, ih, collected_append]

end SealedCall.Json
