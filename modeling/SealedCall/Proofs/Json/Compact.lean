import SealedCall.Proofs.Json.Nesting
import SealedCall.Proofs.Json.Printing
import SealedCall.Proofs.Text.Ascii
import SealedCall.Text.Blank

/-! # Printed texts are compact

A printed text is made of printable ASCII characters, all its strings are closed, and no blank
stands outside of them. Texts of this kind stay so when they are put together, and so everything
that is printed is of this kind.
-/

namespace SealedCall.Json

/-! ## What stands outside of strings -/

/-- The place behind a code point. -/
def Place.next : Place → CodePoint → Place
  | .outside, point => if point.is '"' then .inside else .outside
  | .inside, point =>
    if point.is '\\' then .escaped else if point.is '"' then .outside else .inside
  | .escaped, _ => .inside

/-- The place behind a text. -/
def Place.behind (place : Place) (t : Text) : Place := t.foldl Place.next place

/-- What of a text stands outside of strings, with the quotes that open them. -/
def unquoted : Place → Text → Text
  | _, [] => []
  | .outside, point :: rest => point :: unquoted (Place.outside.next point) rest
  | place, point :: rest => unquoted (place.next point) rest

theorem Place.behind_append (place : Place) (front back : Text) :
    place.behind (front ++ back) = (place.behind front).behind back :=
  List.foldl_append

theorem unquoted_append (place : Place) (front back : Text) :
    unquoted place (front ++ back) =
      unquoted place front ++ unquoted (place.behind front) back := by
  induction front generalizing place with
  | nil => cases place <;> rfl
  | cons point front ih =>
      rw [List.cons_append]
      cases place with
      | outside => simp only [unquoted, ih]; rfl
      | inside => simp only [unquoted, ih]; rfl
      | escaped => simp only [unquoted, ih]; rfl

/-- Whether every code point of a text is a printable ASCII character. -/
def Printable (t : Text) : Prop := ∀ point ∈ t, point.within 0x20 0x7E = true

theorem Printable.append {front back : Text} (hfront : Printable front) (hback : Printable back) :
    Printable (front ++ back) :=
  List.forall_mem_append.mpr ⟨hfront, hback⟩

theorem Printable.ascii {t : Text} (hprintable : Printable t) : t.Ascii := by
  intro point hmem
  have hvalue := CodePoint.within_iff.mp (hprintable point hmem)
  omega

/-! ## What may stand between quotes -/

/-- Whether a text can stand between quotes: it is printable, and whatever is inside of a string
before it is inside of that string behind it. -/
structure Quotable (t : Text) : Prop where
  printable : Printable t
  stays : Place.inside.behind t = .inside
  hidden : unquoted .inside t = []

theorem quotable_nil : Quotable [] := ⟨fun _ hmem => (nomatch hmem), rfl, rfl⟩

theorem Quotable.append {front back : Text} (hfront : Quotable front) (hback : Quotable back) :
    Quotable (front ++ back) := by
  refine ⟨hfront.printable.append hback.printable, ?_, ?_⟩
  · rw [Place.behind_append, hfront.stays, hback.stays]
  · rw [unquoted_append, hfront.stays, hfront.hidden, hback.hidden, List.nil_append]

theorem quotable_flatMap {f : CodePoint → Text} {t : Text}
    (hpoints : ∀ point ∈ t, Quotable (f point)) : Quotable (t.flatMap f) := by
  induction t with
  | nil => exact quotable_nil
  | cons point rest ih =>
      obtain ⟨hpoint, hrest⟩ := List.forall_mem_cons.mp hpoints
      rw [List.flatMap_cons]
      exact hpoint.append (ih hrest)

theorem quotable_point {point : CodePoint} (hprintable : point.within 0x20 0x7E = true)
    (hbackslash : point.is '\\' = false) (hquote : point.is '"' = false) : Quotable [point] := by
  refine ⟨List.forall_mem_singleton.mpr hprintable, ?_, rfl⟩
  simp [Place.behind, Place.next, hbackslash, hquote]

theorem quotable_escape {letter : CodePoint} (hprintable : letter.within 0x20 0x7E = true) :
    Quotable [CodePoint.ofChar '\\', letter] :=
  ⟨List.forall_mem_cons.mpr ⟨by decide, List.forall_mem_singleton.mpr hprintable⟩, rfl, rfl⟩

theorem quotable_unitEscape {unit : Nat} (hunit : unit < 0x10000) : Quotable (unitEscape unit) := by
  have hdigit : ∀ n, n < 16 → Quotable [Text.hexCharacter n] := by
    have hshape : ∀ n, n < 16 → (Text.hexCharacter n).within 0x20 0x7E = true ∧
        (Text.hexCharacter n).is '\\' = false ∧ (Text.hexCharacter n).is '"' = false := by
      simp only [Text.hexCharacter]
      decide
    intro n hn
    obtain ⟨hprintable, hbackslash, hquote⟩ := hshape n hn
    exact quotable_point hprintable hbackslash hquote
  have hmark : Quotable [CodePoint.ofChar '\\', CodePoint.ofChar 'u'] :=
    quotable_escape (by decide)
  rw [unitEscape, Text.ofHex_four hunit]
  apply hmark.append
  exact (hdigit _ (by omega)).append <| (hdigit _ (by omega)).append <|
    (hdigit _ (by omega)).append (hdigit _ (by omega))

theorem quotable_stringPoint (point : CodePoint) : Quotable (stringPoint point) := by
  have hvalue := point.value_lt
  simp only [stringPoint]
  split
  · exact quotable_escape (by decide)
  next hquote =>
  split
  · exact quotable_escape (by decide)
  next hbackslash =>
  split
  · exact quotable_escape (by decide)
  split
  · exact quotable_escape (by decide)
  split
  · exact quotable_escape (by decide)
  split
  · exact quotable_escape (by decide)
  split
  · exact quotable_escape (by decide)
  split
  · next hprintable =>
      exact quotable_point (CodePoint.within_iff.mpr hprintable)
        (CodePoint.is_eq_false_iff.mpr hbackslash) (CodePoint.is_eq_false_iff.mpr hquote)
  split
  · next hunit => exact quotable_unitEscape hunit
  · exact (quotable_unitEscape (by omega)).append (quotable_unitEscape (by omega))

/-! ## Compact texts -/

/-- Whether a text is printable, closes all its strings and has no blank outside of them. -/
structure Compact (t : Text) : Prop where
  printable : Printable t
  closed : Place.outside.behind t = .outside
  unspaced : ∀ point ∈ unquoted .outside t, point.isBlank = false

theorem compact_nil : Compact [] :=
  ⟨fun _ hmem => (nomatch hmem), rfl, fun _ hmem => (nomatch hmem)⟩

theorem Compact.append {front back : Text} (hfront : Compact front) (hback : Compact back) :
    Compact (front ++ back) := by
  refine ⟨hfront.printable.append hback.printable, ?_, ?_⟩
  · rw [Place.behind_append, hfront.closed, hback.closed]
  · rw [unquoted_append, hfront.closed]
    exact List.forall_mem_append.mpr ⟨hfront.unspaced, hback.unspaced⟩

/-- Whether a code point can stand outside of strings by itself. -/
def isSolid (point : CodePoint) : Bool := point.within 0x21 0x7E && !point.is '"'

theorem isBlank_of_isSolid {point : CodePoint} (hsolid : isSolid point = true) :
    point.isBlank = false := by
  have hvalue := CodePoint.within_iff.mp (Bool.and_eq_true_iff.mp hsolid).1
  simp only [CodePoint.isBlank, Bool.or_eq_false_iff, CodePoint.within_eq_false_iff]
  omega

theorem compact_point {point : CodePoint} (hsolid : isSolid point = true) : Compact [point] := by
  obtain ⟨hwithin, hquote⟩ := Bool.and_eq_true_iff.mp hsolid
  rw [Bool.not_eq_true'] at hquote
  have hvalue := CodePoint.within_iff.mp hwithin
  refine ⟨List.forall_mem_singleton.mpr (CodePoint.within_iff.mpr (by omega)), ?_, ?_⟩
  · simp [Place.behind, Place.next, hquote]
  · exact List.forall_mem_singleton.mpr (isBlank_of_isSolid hsolid)

theorem compact_of_isSolid {t : Text} (hsolid : ∀ point ∈ t, isSolid point = true) :
    Compact t := by
  induction t with
  | nil => exact compact_nil
  | cons point rest ih =>
      obtain ⟨hpoint, hrest⟩ := List.forall_mem_cons.mp hsolid
      exact (compact_point hpoint).append (ih hrest)

theorem compact_quoted {t : Text} (hquotable : Quotable t) : Compact (quoted t) := by
  have hclosing : Printable (t ++ [CodePoint.ofChar '"']) :=
    hquotable.printable.append (List.forall_mem_singleton.mpr (by decide))
  have hopening : Place.outside.next (CodePoint.ofChar '"') = .inside := rfl
  refine ⟨List.forall_mem_cons.mpr ⟨by decide, hclosing⟩, ?_, ?_⟩
  · have hbehind : Place.outside.behind (quoted t) =
        Place.inside.behind (t ++ [CodePoint.ofChar '"']) := rfl
    rw [hbehind, Place.behind_append, hquotable.stays]
    rfl
  · rw [quoted, unquoted, hopening, unquoted_append, hquotable.hidden, hquotable.stays]
    decide

theorem compact_string (t : Text) : Compact (string t) :=
  compact_quoted (quotable_flatMap fun point _ => quotable_stringPoint point)

theorem compact_joinWith {separator : Text} {parts : List Text} (hseparator : Compact separator)
    (hparts : ∀ part ∈ parts, Compact part) : Compact (Text.joinWith separator parts) := by
  induction parts with
  | nil => exact compact_nil
  | cons first rest ih =>
      obtain ⟨hfirst, hrest⟩ := List.forall_mem_cons.mp hparts
      cases rest with
      | nil =>
          rw [Text.joinWith, List.intercalate_singleton]
          exact hfirst
      | cons second rest =>
          rw [Text.joinWith, List.intercalate_cons_cons]
          exact (hfirst.append hseparator).append (ih hrest)

theorem compact_enclosed {opening closing : Char} {parts : List Text}
    (hopening : isSolid (CodePoint.ofChar opening) = true)
    (hclosing : isSolid (CodePoint.ofChar closing) = true)
    (hparts : ∀ part ∈ parts, Compact part) : Compact (enclosed opening closing parts) := by
  have hcomma : Compact [CodePoint.ofChar ','] := compact_point (by decide)
  have hinside := compact_joinWith hcomma hparts
  exact ((compact_point hopening).append hinside).append (compact_point hclosing)

/-- A key and a value with a colon between them. -/
theorem compact_member (key : Text) {written : Text} (hwritten : Compact written) :
    Compact (string key ++ CodePoint.ofChar ':' :: written) := by
  have hcolon : Compact [CodePoint.ofChar ':'] := compact_point (by decide)
  exact (compact_string key).append (hcolon.append hwritten)

/-! ## Numbers -/

theorem isSolid_of_allDigits {digits : Text} (hdigits : AllDigits digits) :
    ∀ point ∈ digits, isSolid point = true := by
  intro point hmem
  have hdigit := hdigits point hmem
  have hvalue := CodePoint.within_iff.mp hdigit
  rw [isSolid, CodePoint.is_eq_false_of_isDigit hdigit (.inl (by decide)), Bool.not_false,
    Bool.and_true]
  exact CodePoint.within_iff.mpr (by omega)

theorem NumberForm.isSolid_of_mem (form : NumberForm) :
    ∀ point ∈ form.text, isSolid point = true := by
  have hfraction : ∀ point ∈ fractionText form.fraction, isSolid point = true := by
    rw [fractionText]
    split
    · exact List.forall_mem_nil _
    · exact List.forall_mem_cons.mpr ⟨by decide, isSolid_of_allDigits form.fraction_digits⟩
  have hexponent : ∀ point ∈ exponentText form.exponent, isSolid point = true := by
    cases hform : form.exponent with
    | none => exact List.forall_mem_nil _
    | some exponent =>
        obtain ⟨small, digits⟩ := exponent
        have hdigits := isSolid_of_allDigits (form.exponent_digits small digits hform).1
        refine List.forall_mem_cons.mpr ⟨by decide, List.forall_mem_cons.mpr ⟨?_, hdigits⟩⟩
        cases small <;> decide
  rw [text]
  exact List.forall_mem_append.mpr ⟨isSolid_of_allDigits form.whole_digits.digits,
    List.forall_mem_append.mpr ⟨hfraction, hexponent⟩⟩

/-- Whatever can be scanned as a number is compact. -/
theorem ScansNumber.compact {t rest : Text} {token : Token} (hscans : ScansNumber t token rest) :
    Compact t := by
  obtain ⟨⟨negative, form, rfl⟩, -⟩ := hscans
  apply compact_of_isSolid
  refine List.forall_mem_append.mpr ⟨?_, form.isSolid_of_mem⟩
  cases negative <;> decide

/-! ## Values -/

theorem compact_print {v : Value} (htext : v.Everywhere Value.TextKeyed) {written : Text}
    (hprint : print v = .ok written) : Compact written := by
  have hends : EndsNumber [] := fun _ hhead => nomatch hhead
  induction v using Value.nested_induction generalizing written with
  | null =>
      cases hprint
      exact compact_of_isSolid (by decide)
  | bool b =>
      cases hprint
      apply compact_of_isSolid
      cases b <;> decide
  | int n =>
      rw [print] at hprint
      split at hprint
      · next hshort =>
          cases hprint
          exact (scansNumber_ofInt hshort hends).compact
      · cases hprint
  | float x =>
      rw [print] at hprint
      split at hprint
      · next hfinite =>
          cases hprint
          exact (scansNumber_render hfinite hends).compact
      · cases hprint
  | text t =>
      cases hprint
      exact compact_string t
  | bytes octets => cases hprint
  | byteArray octets => cases hprint
  | list items ih =>
      obtain ⟨rfl, hitems⟩ := print_list_eq_ok hprint
      refine compact_enclosed (by decide) (by decide) fun part hpart => ?_
      obtain ⟨item, hmem, rfl⟩ := List.mem_map.mp hpart
      exact ih item hmem (htext.item hmem) (hitems item hmem)
  | tuple items ih =>
      have hlist : print (.list items) = .ok written := hprint
      obtain ⟨rfl, hitems⟩ := print_list_eq_ok hlist
      refine compact_enclosed (by decide) (by decide) fun part hpart => ?_
      obtain ⟨item, hmem, rfl⟩ := List.mem_map.mp hpart
      exact ih item hmem (htext.component hmem) (hitems item hmem)
  | dict entries ih =>
      obtain ⟨rfl, hentries⟩ := print_dict_eq_ok (htext.here entries rfl) hprint
      refine compact_enclosed (by decide) (by decide) fun part hpart => ?_
      obtain ⟨entry, hmem, rfl⟩ := List.mem_map.mp hpart
      obtain ⟨held, hheld, -, hvalue⟩ := Value.mem_byText (Value.mem_sortedByKey.mp hmem)
      apply compact_member
      rw [← hvalue]
      exact (ih held hheld).2 (htext.entry hheld) (hentries held hheld)
  | foreign kind => cases hprint

end SealedCall.Json
