import SealedCall.Proofs.Endpoint
import SealedCall.Proofs.Json.Compact
import SealedCall.Proofs.Json.Derived
import SealedCall.Proofs.Json.Reading

/-! # Posted wire forms

A client posts the wire form of a reference to the path that its id has below the list of actions.
Such a request comes through to the action, with the wire form and the arguments in it, unless the
id has a slash in it: then the path leads to no action, and the request is answered with nothing
done.
-/

namespace SealedCall

/-! ## Wire forms in a body -/

namespace WireForm

/-- The dictionary that holds a wire form. -/
def value (wire : WireForm) : Value := toValue (.text wire.id) wire.nonce wire.payload

/-- Whether every text of a wire form can stand in one. -/
def Sound (wire : WireForm) : Prop :=
  ∀ t ∈ [wire.id, wire.nonce, wire.payload], t ≠ [] ∧ t.hasSurrogate = false

theorem Sound.fields {wire : WireForm} (hsound : wire.Sound) :
    (wire.id ≠ [] ∧ wire.id.hasSurrogate = false) ∧
      (wire.nonce ≠ [] ∧ wire.nonce.hasSurrogate = false) ∧
        (wire.payload ≠ [] ∧ wire.payload.hasSurrogate = false) := by
  simpa only [Sound, List.forall_mem_cons, List.not_mem_nil, IsEmpty.forall_iff, implies_true,
    and_true] using hsound

theorem ofValue?_value {wire : WireForm} (hsound : wire.Sound) :
    ofValue? wire.value = some wire := by
  obtain ⟨hid, hnonce, hpayload⟩ := hsound.fields
  exact ofValue?_toValue (field?_text hid.1 hid.2) (field?_text hnonce.1 hnonce.2)
    (field?_text hpayload.1 hpayload.2)

/-- A field of a wire form in the text of a body, with what it is read as. -/
def fieldMember (name : String) (t : Text) : Json.Member :=
  ⟨Text.of name, Json.string t, .text (Text.joinPairs t)⟩

def members (wire : WireForm) : List Json.Member :=
  [fieldMember "id" wire.id, fieldMember "nonce" wire.nonce, fieldMember "payload" wire.payload]

/-- The text of a wire form in a body. -/
def written (wire : WireForm) : Text :=
  Json.enclosed '\x7b' '\x7d' (wire.members.map Json.Member.text)

theorem readsAs_written {wire : WireForm} (hsound : wire.Sound) :
    Json.ReadsAs 1 wire.written wire.value := by
  have hjoined : ∀ t ∈ [wire.id, wire.nonce, wire.payload], Text.joinPairs t = t := fun t hmem =>
    Text.joinPairs_of_hasPair_eq_false (Text.hasPair_of_hasSurrogate (hsound t hmem).2)
  simp only [List.forall_mem_cons] at hjoined
  have hfields : ∀ part ∈ wire.members, Json.ReadsAs 0 part.written part.value := by
    simp only [members, fieldMember, List.forall_mem_cons]
    exact ⟨Json.readsAs_string 0 _, Json.readsAs_string 0 _, Json.readsAs_string 0 _,
      List.forall_mem_nil _⟩
  have hread := Json.readsAs_dict hfields
  have hstored : Value.dict (wire.members.foldl Json.Member.storedAfter []) =
      toValue (.text (Text.joinPairs wire.id)) (Text.joinPairs wire.nonce)
        (Text.joinPairs wire.payload) := rfl
  rw [hstored, hjoined.1, hjoined.2.1, hjoined.2.2.1] at hread
  exact hread

end WireForm

namespace Endpoint

/-! ## Requests that post a wire form -/

/-- The path of an id below the list of actions. -/
def pathOf (id : Text) : Text := Text.of "/actions/" ++ id

def hasSlash (id : Text) : Bool := id.any (·.is '/')

theorem ofPath?_pathOf {id : Text} (hid : id ≠ []) :
    Route.ofPath? (pathOf id) = if hasSlash id then none else some (.action id) := by
  have hstarts : (Text.of "/actions/").isPrefixOf (pathOf id) = true :=
    List.isPrefixOf_iff_prefix.mpr (List.prefix_append _ _)
  have hlength : 9 < (pathOf id).length := by
    rw [pathOf, List.length_append]
    exact Nat.lt_add_of_pos_right (List.length_pos_iff.mpr hid)
  have hbelow : pathOf id ≠ Text.of "/actions" ∧ pathOf id ≠ Text.of "/actions\n" := by
    constructor <;> exact fun hsame => absurd (hsame ▸ hlength) (by decide)
  have hempty : id.isEmpty = false := List.isEmpty_eq_false_iff.mpr hid
  have hdrop : (pathOf id).drop 9 = id := List.drop_left' rfl
  rw [Route.ofPath?, if_neg (by simp [hbelow]), if_pos hstarts]
  simp only [hdrop, hempty, Bool.false_or]
  rfl

/-- Whether a request posts data as the reference, and arguments, to the path of an id. -/
structure Request.Posts (request : Request) (id : Text) (data : Value)
    (arguments : List Value) : Prop where
  method : request.method = Text.of "POST"
  path : request.path = pathOf id
  content : ∃ entries, contentOf request.contentType request.body = .value (.dict entries) ∧
    WireForm.member? entries "reference" = some data ∧
      (WireForm.member? entries "args").getD (.list []) = .list arguments

theorem checkText_of_plain {entries : List (Value × Value)} {name : String} {t : Text}
    (hmember : WireForm.member? entries name = some (.text t))
    (hplain : t ≠ [] ∧ t.hasSurrogate = false) : checkText entries name = ⟨some t, []⟩ := by
  rw [checkText, hmember]
  simp only
  rw [hplain.2, List.isEmpty_eq_false_iff.mpr hplain.1]
  rfl

theorem checkReference_of_value {entries : List (Value × Value)} {wire : WireForm}
    (hmember : WireForm.member? entries "reference" = some wire.value) (hsound : wire.Sound) :
    (checkReference entries).value = some wire := by
  obtain ⟨hid, hnonce, hpayload⟩ := hsound.fields
  rw [checkReference, hmember, WireForm.value, WireForm.toValue]
  simp only
  rw [checkText_of_plain (t := wire.id) rfl hid, checkText_of_plain (t := wire.nonce) rfl hnonce,
    checkText_of_plain (t := wire.payload) rfl hpayload]

theorem checkArguments_of_list {entries : List (Value × Value)} {arguments : List Value}
    (hmember : (WireForm.member? entries "args").getD (.list []) = .list arguments) :
    (checkArguments entries).value = some arguments := by
  rw [checkArguments]
  cases hargs : WireForm.member? entries "args" with
  | none =>
      rw [hargs] at hmember
      cases hmember
      rfl
  | some data =>
      rw [hargs, Option.getD_some] at hmember
      rw [hmember]

theorem mem_of_member? {entries : List (Value × Value)} {name : String} {data : Value}
    (hmember : WireForm.member? entries name = some data) : ∃ entry ∈ entries, entry.2 = data := by
  obtain ⟨entry, hfind, hdata⟩ := Option.map_eq_some_iff.mp hmember
  exact ⟨entry, List.mem_of_find?_eq_some hfind, hdata⟩

/-- What the body of a request holds was read from a JSON text. -/
theorem data_of_contentOf {contentType : Text} {body : Octets} {content : Value}
    (hcontent : contentOf contentType body = .value content) :
    Json.Data nestingLimit content := by
  rw [contentOf] at hcontent
  split at hcontent
  · cases hcontent
  split at hcontent
  · cases hcontent
  split at hcontent
  · cases hcontent
  split at hcontent
  · next hread =>
      cases hcontent
      exact Json.data_of_read hread
  · cases hcontent
  · cases hcontent

section

variable {request : Request} {arguments : List Value}

/-- The arguments that are posted can be placed and viewed. -/
theorem placeable_of_posts {id : Text} {data : Value} (hposts : request.Posts id data arguments) :
    ∀ argument ∈ arguments, argument.Placeable nestingLimit := by
  obtain ⟨entries, hcontent, -, harguments⟩ := hposts.content
  cases hmember : WireForm.member? entries "args" with
  | none =>
      rw [hmember] at harguments
      cases harguments
      exact List.forall_mem_nil _
  | some held =>
      rw [hmember, Option.getD_some] at harguments
      obtain ⟨entry, hmem, hentry⟩ := mem_of_member? hmember
      obtain ⟨levels, hlevels, hvalues⟩ := (data_of_contentOf hcontent).entries
      have hlist := hvalues entry hmem
      rw [hentry, harguments] at hlist
      obtain ⟨inner, rfl, hitems⟩ := hlist.items
      exact fun argument hargument => (hitems argument hargument).placeable.mono (by omega)

/-- What is posted comes through to the action where its id has no slash. -/
theorem reaches_of_posts {wire : WireForm} (hsound : wire.Sound)
    (hposts : request.Posts wire.id wire.value arguments) (hslash : hasSlash wire.id = false) :
    request.Reaches wire.id ⟨wire, arguments⟩ := by
  obtain ⟨entries, hcontent, hreference, harguments⟩ := hposts.content
  have hroute := ofPath?_pathOf hsound.fields.1.1
  rw [hslash, if_neg Bool.false_ne_true] at hroute
  refine ⟨hposts.path ▸ hroute, hposts.method, _, hcontent, ?_⟩
  rw [orderOf]
  simp only [checkReference_of_value hreference hsound, checkArguments_of_list harguments]

/-- What is posted to the path of an id with a slash is answered with nothing done: there is nothing
at the path, or the client is told to leave out the slashes at its end. -/
theorem respond_of_hasSlash {id : Text} {data : Value} (hid : id ≠ [])
    (hposts : request.Posts id data arguments) (hslash : hasSlash id = true) :
    ∃ reply, (reply = .detail 404 (Text.of "Not Found") ∨ reply = .text 307 []) ∧
      ∀ service behaviour, respond service behaviour request = .done (.ok reply) := by
  have hroute := ofPath?_pathOf hid
  rw [hslash, if_pos rfl, ← hposts.path] at hroute
  refine ⟨if isRedirected request.path then .text 307 [] else .detail 404 (Text.of "Not Found"),
    ?_, fun service behaviour => by rw [respond, hroute]⟩
  cases isRedirected request.path with
  | true => exact .inr rfl
  | false => exact .inl rfl

end

/-! ## The request that a client makes -/

/-- The text of a body with a wire form and no arguments. -/
def bodyOf (wire : WireForm) : Text :=
  Json.enclosed '\x7b' '\x7d'
    ([⟨Text.of "reference", wire.written, wire.value⟩].map Json.Member.text)

/-- The request that posts a wire form without arguments. -/
def Request.posting (wire : WireForm) : Request :=
  ⟨Text.of "POST", pathOf wire.id, Text.of "application/json",
    Snapshot.asciiOctets (bodyOf wire)⟩

theorem compact_bodyOf (wire : WireForm) : Json.Compact (bodyOf wire) := by
  have hwritten : Json.Compact wire.written := by
    refine Json.compact_enclosed (by decide) (by decide) fun part hpart => ?_
    simp only [WireForm.members, List.map_cons, List.map_nil, List.mem_cons, List.not_mem_nil,
      or_false] at hpart
    rcases hpart with rfl | rfl | rfl <;> exact Json.compact_member _ (Json.compact_string _)
  refine Json.compact_enclosed (by decide) (by decide) fun part hpart => ?_
  rw [List.map_singleton, List.mem_singleton] at hpart
  rw [hpart]
  exact Json.compact_member _ hwritten

/-- The body starts with four characters of ASCII, none of them zero, so it is read as UTF-8. -/
theorem textOf_bodyOf (wire : WireForm) :
    Json.textOf (Snapshot.asciiOctets (bodyOf wire)) = some (bodyOf wire) := by
  have hencoding : Json.textOf (Snapshot.asciiOctets (bodyOf wire)) =
      Utf8.decode true (Snapshot.asciiOctets (bodyOf wire)) := rfl
  rw [hencoding, Snapshot.asciiOctets,
    Text.decode_ascii true (compact_bodyOf wire).printable.ascii]

theorem posts_posting {wire : WireForm} (hsound : wire.Sound) :
    (Request.posting wire).Posts wire.id wire.value [] := by
  have hreference : ∀ part ∈ [(⟨Text.of "reference", wire.written, wire.value⟩ : Json.Member)],
      Json.ReadsAs 1 part.written part.value :=
    List.forall_mem_singleton.mpr (WireForm.readsAs_written hsound)
  have hread : Json.read (bodyOf wire) =
      .ok (.dict [(Value.ofString "reference", wire.value)]) :=
    Json.read_of_readsAs (Json.readsAs_dict hreference) (by decide)
  refine ⟨rfl, rfl, [(Value.ofString "reference", wire.value)], ?_, rfl, rfl⟩
  have hannounced : announcesJson (Text.of "application/json") = true := by decide
  have hbody : (Snapshot.asciiOctets (bodyOf wire)).isEmpty = false := rfl
  rw [Request.posting, contentOf, hbody, hannounced, textOf_bodyOf]
  simp only [Bool.not_true, Bool.false_eq_true, if_false, hread]

end Endpoint

end SealedCall
