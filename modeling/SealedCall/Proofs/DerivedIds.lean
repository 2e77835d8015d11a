import SealedCall.CommandLine.Run
import SealedCall.Proofs.Declaration
import SealedCall.Proofs.Text.Digits
import SealedCall.Proofs.Text.Utf8

/-! # Derived ids

A derived id is the digest of a salt, a module and a name with colons between them. Modules and
names hold no colon, so the last two colons are the separators, whatever the salt holds: two ids are
the same only for the same three texts, or for octets on which the digest collides. Whoever asks the
command line for an id is told the one that a declaration assigns.
-/

namespace SealedCall

/-! ## The digits of a digest -/

theorem CodePoint.hexValue?_hexDigit {n : Nat} (hn : n < 16) : (hexDigit n).hexValue? = some n := by
  rw [hexDigit, hexValue?]
  split
  · next hdecimal =>
      rw [if_pos (within_iff.mpr ⟨by simp only; omega, by simp only; omega⟩)]
      simp
  · next hletter =>
      rw [if_neg (by simp only [within_iff]; omega),
        if_pos (within_iff.mpr ⟨by simp only; omega, by simp only; omega⟩)]
      simp only [Option.some.injEq]
      omega

namespace Hex

theorem decode?_encode (octets : Octets) : decode? (encode octets) = some octets := by
  induction octets with
  | nil => rfl
  | cons octet rest ih =>
      have hoctet : octet.toNat < 256 := octet.toNat_lt
      have hparts : 16 * (octet.toNat / 16) + octet.toNat % 16 = octet.toNat := Nat.div_add_mod _ _
      have hencode : encode (octet :: rest) = CodePoint.hexDigit (octet.toNat / 16) ::
          CodePoint.hexDigit (octet.toNat % 16) :: encode rest := rfl
      rw [hencode, decode?, ih, CodePoint.hexValue?_hexDigit (by omega),
        CodePoint.hexValue?_hexDigit (by omega)]
      simp only
      rw [hparts, UInt8.ofNat_toNat]

theorem encode_injective {first second : Octets} (hsame : encode first = encode second) :
    first = second := by
  have hdecoded := congrArg decode? hsame
  rw [decode?_encode, decode?_encode] at hdecoded
  exact Option.some.inj hdecoded

end Hex

/-! ## What is hashed -/

/-- Where an action comes from, as far as its derived id depends on it. -/
structure Origin where
  salt : Text
  module : Text
  name : Text

namespace Origin

/-- Whether a module and a name can be told apart by the separators. A salt may hold separators. -/
structure Separable (origin : Origin) : Prop where
  module : CodePoint.ofChar ':' ∉ origin.module
  name : CodePoint.ofChar ':' ∉ origin.name

/-- Whether all three texts can be written as octets. -/
structure Encodable (origin : Origin) : Prop where
  salt : origin.salt.hasSurrogate = false
  module : origin.module.hasSurrogate = false
  name : origin.name.hasSurrogate = false

def material (origin : Origin) : Text := ActionId.material origin.salt origin.module origin.name

/-- The id that is derived from an origin. -/
def id (origin : Origin) : Except Failure Text :=
  ActionId.derive (.text origin.salt) (.text origin.module) (.text origin.name)

theorem id_eq (origin : Origin) :
    origin.id = ActionId.deriveText origin.salt origin.module origin.name := rfl

/-- The last separator of a text divides it in one way only. -/
theorem eq_of_last_separator {α : Type} {separator : α} {front back front' back' : List α}
    (hback : separator ∉ back) (hback' : separator ∉ back')
    (hsame : front ++ separator :: back = front' ++ separator :: back') :
    front = front' ∧ back = back' := by
  -- one of the fronts goes on where the other ends, and would put its separator into a back
  obtain ⟨more, hfront, hrest⟩ | ⟨more, hfront, hrest⟩ := List.append_eq_append_iff.mp hsame
  · cases more with
    | nil => simp_all
    | cons first more =>
        rw [List.cons_append, List.cons.injEq] at hrest
        exact absurd (by simp [hrest.2]) hback
  · cases more with
    | nil => simp_all
    | cons first more =>
        rw [List.cons_append, List.cons.injEq] at hrest
        exact absurd (by simp [hrest.2]) hback'

theorem material_injective {first second : Origin} (hfirst : first.Separable)
    (hsecond : second.Separable) (hsame : first.material = second.material) : first = second := by
  cases first
  cases second
  simp only [material, ActionId.material, ActionId.separator, List.append_assoc,
    List.singleton_append] at hsame
  rw [← List.append_assoc, ← List.append_assoc] at hsame
  obtain ⟨hfront, rfl⟩ := eq_of_last_separator hfirst.name hsecond.name hsame
  obtain ⟨rfl, rfl⟩ := eq_of_last_separator hfirst.module hsecond.module hfront
  rfl

theorem exists_octets {origin : Origin} (hencodable : origin.Encodable) :
    ∃ octets, ActionId.octets origin.material = .ok octets := by
  have hplain : origin.material.hasSurrogate = false := by
    obtain ⟨hsalt, hmodule, hname⟩ := hencodable
    rw [Text.hasSurrogate] at hsalt hmodule hname ⊢
    simp only [material, ActionId.material, List.any_append, hsalt, hmodule, hname]
    rfl
  obtain ⟨octets, hencode⟩ := Utf8.exists_encode hplain
  exact ⟨octets, by rw [ActionId.octets, hencode]⟩

/-- An id is the digest of the octets of its origin. -/
theorem id_eq_ok_iff {origin : Origin} {id : Text} :
    origin.id = .ok id ↔ ∃ octets, ActionId.octets origin.material = .ok octets ∧
      id = Hex.encode (Sha1.digest octets) := by
  rw [id_eq, ActionId.deriveText, ← material]
  cases ActionId.octets origin.material with
  | ok octets => simp [eq_comm]
  | error failure => simp

/-- That an origin has no id is the misuse of a text that cannot be written as octets. -/
theorem misuse_of_id_error {origin : Origin} {failure : Failure}
    (hid : origin.id = .error failure) : ∃ misuse, failure = .misuse misuse := by
  rw [id_eq, ActionId.deriveText, ActionId.octets] at hid
  split at hid
  · cases hid
  · next hoctets =>
      cases hid
      split at hoctets
      · cases hoctets
      · cases hoctets
        exact ⟨_, rfl⟩

theorem ne_nil_of_id {origin : Origin} {id : Text} (hid : origin.id = .ok id) : id ≠ [] := by
  obtain ⟨octets, -, rfl⟩ := id_eq_ok_iff.mp hid
  exact List.cons_ne_nil _ _

theorem material_of_octets {first second : Origin} {octets : Octets}
    (hfirst : ActionId.octets first.material = .ok octets)
    (hsecond : ActionId.octets second.material = .ok octets) :
    first.material = second.material := by
  rw [ActionId.octets] at hfirst hsecond
  split at hfirst
  · next hencode =>
      split at hsecond
      · next hencode' =>
          cases hfirst
          cases hsecond
          exact Utf8.encode_injective hencode hencode'
      · cases hsecond
  · cases hfirst

/-- Different octets with the same digest. -/
def Collide (first second : Octets) : Prop :=
  first ≠ second ∧ Sha1.digest first = Sha1.digest second

/-- Two origins with one id are the same origin, or their octets collide. -/
theorem eq_or_collide {first second : Origin} {id : Text} (hfirst : first.Separable)
    (hsecond : second.Separable) (hid : first.id = .ok id) (hid' : second.id = .ok id) :
    first = second ∨ ∃ octets octets', ActionId.octets first.material = .ok octets ∧
      ActionId.octets second.material = .ok octets' ∧ Collide octets octets' := by
  obtain ⟨octets, hoctets, rfl⟩ := id_eq_ok_iff.mp hid
  obtain ⟨octets', hoctets', hdigits⟩ := id_eq_ok_iff.mp hid'
  by_cases hsame : octets = octets'
  · subst hsame
    exact .inl (material_injective hfirst hsecond (material_of_octets hoctets hoctets'))
  · exact .inr ⟨octets, octets', hoctets, hoctets', hsame, Hex.encode_injective hdigits⟩

end Origin

/-! ## Asking the command line -/

namespace CommandLine

/-- Whether a word does not look like an option. -/
def IsBare (word : Text) : Prop := word.head? ≠ some (CodePoint.ofChar '-')

instance (word : Text) : Decidable (IsBare word) := inferInstanceAs (Decidable (_ ≠ _))

theorem IsBare.ne_divider {word : Text} (hbare : IsBare word) : word ≠ Text.of "--" := by
  rintro rfl
  exact hbare rfl

theorem role_of_bare (grammar : Grammar) {word : Text} (hbare : IsBare word) :
    grammar.role word = .ok .plain := by
  match word with
  | [] => rfl
  | [_] => rfl
  | first :: second :: rest =>
      have hfirst : first.is '-' = false := by
        rw [CodePoint.is_eq_false_iff]
        intro hvalue
        cases first
        cases hvalue
        exact hbare rfl
      rw [Grammar.role, hfirst]
      rfl

/-- Words that are read from a line without options and dividers. -/
def plainWords (texts : List Text) : List Word := texts.map fun text => ⟨text, .plain⟩

theorem sort_of_bare (grammar : Grammar) {line : List Text} (hbare : ∀ word ∈ line, IsBare word) :
    grammar.sort line = .ok (plainWords line) := by
  induction line with
  | nil => rfl
  | cons word rest ih =>
      obtain ⟨hword, hrest⟩ := List.forall_mem_cons.mp hbare
      rw [Grammar.sort, if_neg hword.ne_divider, role_of_bare grammar hword, ih hrest]
      rfl

theorem take_everything (first : Text) (rest : List Text) :
    Extent.everything.take (plainWords (first :: rest)) =
      some (plainWords (first :: rest), plainWords []) :=
  rfl

theorem take_one (first : Text) (rest : List Text) :
    Extent.one.take (plainWords (first :: rest)) = some (plainWords [first], plainWords rest) := by
  cases rest with
  | nil => rfl
  | cons second rest => rfl

theorem scan_of_take (grammar : Grammar) (operand : Operand) (later : List Operand) {first : Text}
    {rest : List Text} {taken after : List Word}
    (htake : operand.extent.take (plainWords (first :: rest)) = some (taken, after)) :
    scan grammar (operand :: later) (plainWords (first :: rest)) =
      withOperand operand (operand.extent.texts taken) (scan grammar later after) := by
  rw [plainWords, List.map_cons, scan]
  simp only
  split
  · next htake' =>
      cases htake.symm.trans htake'
      rfl
  · next hnone => cases htake.symm.trans hnone

theorem scan_done (grammar : Grammar) : scan grammar [] (plainWords []) = .ok ⟨[], [], []⟩ := by
  rw [plainWords, List.map_nil, scan]
  rfl

theorem texts_one {word : Text} (hbare : IsBare word) :
    Extent.one.texts (plainWords [word]) = [word] :=
  List.erase_of_not_mem fun hmem => hbare.ne_divider (List.mem_singleton.mp hmem).symm

/-- The words of a line that asks for an id are read as they stand. -/
theorem readRequest_deriveId {module name : Text} (hmodule : IsBare module)
    (hname : IsBare name) :
    readRequest [Text.of "derive-id", module, name] = .ok (.deriveId module name none) := by
  have houter : outerGrammar.read [Text.of "derive-id", module, name] =
      .ok ⟨[], [(⟨"cmd", .everything⟩, [Text.of "derive-id", module, name])], []⟩ := by
    have hcommand : IsBare (Text.of "derive-id") := by decide
    rw [Grammar.read, sort_of_bare _ (by simp [hcommand, hmodule, hname])]
    have hscan := scan_of_take outerGrammar ⟨"cmd", .everything⟩ []
      (take_everything (Text.of "derive-id") [module, name])
    rw [scan_done] at hscan
    exact hscan
  have hinner : Command.deriveId.grammar.read [module, name] =
      .ok ⟨[], [(⟨"module", .one⟩, [module]), (⟨"name", .one⟩, [name])], []⟩ := by
    rw [Grammar.read, sort_of_bare _ (by simp [hmodule, hname])]
    have hscan := scan_of_take Command.deriveId.grammar ⟨"module", .one⟩ [⟨"name", .one⟩]
      (take_one module [name])
    rw [scan_of_take Command.deriveId.grammar ⟨"name", .one⟩ [] (take_one name []), scan_done,
      texts_one hmodule, texts_one hname] at hscan
    exact hscan
  rw [readRequest, houter]
  have hcommand : Command.named? (Text.of "derive-id") = some .deriveId := by decide
  simp only [Arguments.words, List.find?_cons, beq_self_eq_true]
  rw [hcommand]
  simp only
  rw [hinner]
  rfl

/-- What a line that asks for an id without a salt prints is derived with the salt of the
deployment. -/
theorem run_deriveId (modules : List ActionModule) {line : List Text} {host : Host} {rank : Nat}
    {module name : Text} (hrank : leastRank host.deployment = .ok rank)
    (hline : readRequest line = .ok (.deriveId module name none)) :
    match Origin.id ⟨host.deployment.salt, module, name⟩ with
    | .ok id => (run modules line host).ending = .status (.int 0) ∧
        (run modules line host).output = id ++ endOfLine
    | .error failure => (run modules line host).ending = .failed failure ∧
        (run modules line host).output = [] := by
  have hanswer : (answer modules line).perform host =
      ((Origin.id ⟨host.deployment.salt, module, name⟩).map fun id => .done (id ++ endOfLine),
        host) := by
    rw [answer, hline]
    simp only [serve]
    rw [Operation.perform_bind, Operation.perform_get]
    simp only
    rw [Operation.perform_bind, Operation.perform_ofExcept, Option.getD_none, Origin.id_eq]
    cases ActionId.deriveText host.deployment.salt module name with
    | ok id => rfl
    | error failure => rfl
  rw [run, hrank]
  simp only
  rw [hanswer]
  cases hid : Origin.id ⟨host.deployment.salt, module, name⟩ with
  | ok id => exact ⟨rfl, rfl⟩
  | error failure =>
      obtain ⟨misuse, rfl⟩ := Origin.misuse_of_id_error hid
      exact ⟨rfl, rfl⟩

end CommandLine

/-! ## Declarations without an id -/

/-- An implementation that tells a module and a name as texts derives its id from these. -/
theorem Implementation.derivedId_eq {implementation : Implementation} {module name : Text}
    (hmodule : implementation.module = some (.text module))
    (hname : implementation.qualifiedName = some (.text name)) (salt : Text) :
    implementation.derivedId (.text salt) = Origin.id ⟨salt, module, name⟩ := by
  rw [derivedId, hmodule, hname]
  rfl

namespace Enrolment

variable {host : Host} {id label : Value} {implementation : Implementation} {origin : Origin}

/-- Whether a declaration without an id would derive it from an origin. -/
structure Derives (host : Host) (id : Value) (implementation : Implementation)
    (origin : Origin) : Prop where
  absent : id.isTruthy = false
  salt : host.roster.salt = .text origin.salt
  module : implementation.module = some (.text origin.module)
  name : implementation.qualifiedName = some (.text origin.name)

theorem Derives.idFor (hderives : Derives host id implementation origin) :
    implementation.idFor id host.roster.salt = origin.id.map .text := by
  rw [Implementation.idFor, hderives.absent, hderives.salt,
    Implementation.derivedId_eq hderives.module hderives.name]
  rfl

/-- What is declared without an id is marked with the derived one, and found under it. -/
theorem Derives.marked (hderives : Derives host id implementation origin) {later : Host}
    {marked : Implementation}
    (hdeclare : (declare id label implementation).perform host = (.ok marked, later)) :
    ∃ derived, origin.id = .ok derived ∧ marked.mark = some (.text derived) ∧
      ∃ held, later.roster.implementationOf (.text derived) = .ok held ∧
        held.equal implementation = true := by
  obtain ⟨chosen, hchosen, rfl, hheld⟩ := declare_eq_ok hdeclare
  rw [hderives.idFor] at hchosen
  cases hid : origin.id with
  | error failure =>
      rw [hid] at hchosen
      cases hchosen
  | ok derived =>
      rw [hid] at hchosen
      cases hchosen
      exact ⟨derived, rfl, rfl, hheld⟩

/-- A declaration without an id comes back where nothing is held under the derived one. -/
theorem Derives.declares (hderives : Derives host id implementation origin) {derived : Text}
    {fullName : Value} (hid : origin.id = .ok derived) (hnew : host.roster.find? derived = none)
    (hname : Roster.nameFor implementation label = .ok fullName)
    (hcallable : implementation.isCallable = true) (hmark : implementation.takesMark = true) :
    ∃ marked later, (declare id label implementation).perform host = (.ok marked, later) := by
  obtain ⟨after, henrol, -⟩ := perform_enrol_of_new (Origin.ne_nil_of_id hid) hcallable hnew
    (Roster.nameFor_settled hname)
  refine ⟨{ implementation with mark := some (.text derived) }, after, ?_⟩
  rw [perform_declare, hname, hderives.idFor, hid]
  simp only [Except.map]
  rw [henrol]
  simp only
  rw [Implementation.marked, if_pos hmark]

end Enrolment

/-- Derived ids separate actions. Every origin whose texts can be written as octets has an id, and
two origins whose modules and names hold no separator have the same id only if they are the same,
or if their octets are different and the digest collides on them. The id that the command line
prints without a salt is the one under which a declaration without an id holds its implementation,
on a roster that has its salt from the same surroundings: what comes back is marked with it, and it
comes back where the id was free and nothing else stood in the way. Where there is no such id, the
command line fails as the derivation does, and no such declaration comes back. -/
theorem derived_ids_separate :
    (∀ origin : Origin, origin.Encodable → ∃ id, origin.id = .ok id) ∧
    (∀ first second : Origin, first.Separable → second.Separable → ∀ id, first.id = .ok id →
      second.id = .ok id → first = second ∨ ∃ octets octets',
        ActionId.octets first.material = .ok octets ∧
        ActionId.octets second.material = .ok octets' ∧ Origin.Collide octets octets') ∧
    (∀ module name, CommandLine.IsBare module → CommandLine.IsBare name →
      CommandLine.readRequest [Text.of "derive-id", module, name] =
        .ok (.deriveId module name none)) ∧
    ∀ (modules : List ActionModule) (line : List Text) (runner declarer : Host) (rank : Nat)
      (module name : Text) (id label : Value) (implementation : Implementation),
      CommandLine.leastRank runner.deployment = .ok rank →
      CommandLine.readRequest line = .ok (.deriveId module name none) →
      declarer.roster.salt = runner.deployment.saltFor .null →
      implementation.module = some (.text module) →
      implementation.qualifiedName = some (.text name) → id.isTruthy = false →
      match implementation.derivedId declarer.roster.salt with
      | .ok derived =>
        (CommandLine.run modules line runner).ending = .status (.int 0) ∧
        (CommandLine.run modules line runner).output = derived ++ CommandLine.endOfLine ∧
        (∀ marked later,
          (Enrolment.declare id label implementation).perform declarer = (.ok marked, later) →
            marked.mark = some (.text derived) ∧
            ∃ held, later.roster.implementationOf (.text derived) = .ok held ∧
              held.equal implementation = true) ∧
        (declarer.roster.find? derived = none → implementation.isCallable = true →
          implementation.takesMark = true →
          (∃ fullName, Roster.nameFor implementation label = .ok fullName) →
          ∃ marked later,
            (Enrolment.declare id label implementation).perform declarer = (.ok marked, later))
      | .error failure =>
        (CommandLine.run modules line runner).ending = .failed failure ∧
        (CommandLine.run modules line runner).output = [] ∧
        ∀ marked later,
          (Enrolment.declare id label implementation).perform declarer ≠ (.ok marked, later) := by
  refine ⟨?_, fun first second hfirst hsecond id => Origin.eq_or_collide hfirst hsecond,
    fun module name => CommandLine.readRequest_deriveId, ?_⟩
  · intro origin hencodable
    obtain ⟨octets, hoctets⟩ := Origin.exists_octets hencodable
    exact ⟨_, Origin.id_eq_ok_iff.mpr ⟨octets, hoctets, rfl⟩⟩
  · intro modules line runner declarer rank module name id label implementation hrank hline hsalt
      hmodule hname habsent
    have hrun := CommandLine.run_deriveId modules hrank hline
    have hderives : Enrolment.Derives declarer id implementation
        ⟨runner.deployment.salt, module, name⟩ := ⟨habsent, hsalt, hmodule, hname⟩
    rw [hsalt, Deployment.saltFor, Implementation.derivedId_eq hmodule hname]
    cases hid : Origin.id ⟨runner.deployment.salt, module, name⟩ with
    | ok derived =>
        rw [hid] at hrun
        refine ⟨hrun.1, hrun.2, ?_, ?_⟩
        · intro marked later hdeclare
          obtain ⟨_, hid', hmark⟩ := hderives.marked hdeclare
          cases hid.symm.trans hid'
          exact hmark
        · rintro hnew hcallable hmark ⟨fullName, hfullName⟩
          exact hderives.declares hid hnew hfullName hcallable hmark
    | error failure =>
        rw [hid] at hrun
        refine ⟨hrun.1, hrun.2, ?_⟩
        intro marked later hdeclare
        obtain ⟨derived, hid', -⟩ := hderives.marked hdeclare
        cases hid.symm.trans hid'

/-- An untouched host whose roster was given no salt. -/
def Host.unsalted : Host :=
  { Host.untouched with roster := .empty (Host.untouched.deployment.saltFor .null) }

/-- The sample implementation tells a module and a name, and is declared under the printed id. -/
theorem derived_ids_separate_sample :
    ∃ derived, Origin.id ⟨[], Text.of "shop", Text.of "pay"⟩ = .ok derived ∧
      (CommandLine.run [] [Text.of "derive-id", Text.of "shop", Text.of "pay"]
        Host.unsalted).output = derived ++ CommandLine.endOfLine ∧
      (∃ marked later, (Enrolment.declare .null .null .sample).perform Host.unsalted =
        (.ok marked, later) ∧ marked.mark = some (.text derived)) ∧
      ∀ origin : Origin, origin.Separable → origin.id = .ok derived →
        origin = ⟨[], Text.of "shop", Text.of "pay"⟩ ∨ ∃ octets octets',
          ActionId.octets origin.material = .ok octets ∧
          ActionId.octets (Text.of ":shop:pay") = .ok octets' ∧ Origin.Collide octets octets' := by
  obtain ⟨hexists, hseparate, hread, hprinted⟩ := derived_ids_separate
  have hencodable : Origin.Encodable ⟨[], Text.of "shop", Text.of "pay"⟩ := ⟨rfl, rfl, rfl⟩
  have hseparable : Origin.Separable ⟨[], Text.of "shop", Text.of "pay"⟩ :=
    ⟨by decide, by decide⟩
  obtain ⟨derived, hderived⟩ := hexists _ hencodable
  have hline := hread (Text.of "shop") (Text.of "pay") (by decide) (by decide)
  have hagree := hprinted [] _ Host.unsalted Host.unsalted 20 _ _ .null .null .sample rfl hline
    rfl rfl rfl rfl
  have hsame : Implementation.sample.derivedId Host.unsalted.roster.salt = .ok derived := hderived
  rw [hsame] at hagree
  obtain ⟨-, houtput, hmark, hdeclares⟩ := hagree
  obtain ⟨marked, later, hdeclare⟩ := hdeclares rfl rfl rfl ⟨_, rfl⟩
  exact ⟨derived, hderived, houtput, ⟨marked, later, hdeclare, (hmark marked later hdeclare).1⟩,
    fun origin horigin hid => hseparate origin _ horigin hseparable derived hid hderived⟩

end SealedCall
