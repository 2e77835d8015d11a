import SealedCall.Invocation
import SealedCall.Proofs.Memory.Regions

/-! # Settlements

An activity that has places of its own, and only reads those that it shares, comes to the same end
whatever others do in the meantime, as long as they leave alone what is its own, change nothing that
is shared, and do not touch the roster. What it comes to is a settlement: what is reported of its
outcome, and the spans that it adds. This is said from the side of the activity; it holds on every
turn, and so over a whole run.
-/

namespace SealedCall

open Memory

/-! ## What is reported -/

namespace Value

mutual

/-- A value without the numbers by which what equals only itself is told apart. -/
def unmarked : Value → Value
  | .list items => .list (unmarkedAll items)
  | .tuple items => .tuple (unmarkedAll items)
  | .dict entries => .dict (unmarkedEntries entries)
  | .foreign (.object _) => .foreign (.object 0)
  | other => other.marked 0

def unmarkedAll : List Value → List Value
  | [] => []
  | item :: rest => unmarked item :: unmarkedAll rest

def unmarkedEntries : List (Value × Value) → List (Value × Value)
  | [] => []
  | (key, value) :: rest => (unmarked key, unmarked value) :: unmarkedEntries rest

end

end Value

/-- What is reported of an outcome: the failure, or what the result views as, where the numbers that
are given out as activities go along do not count. -/
def report (memory : Memory) (outcome : Except Failure Datum) : Except Failure (Option Value) :=
  outcome.map fun datum => (memory.view datum).map Value.unmarked

/-- What is reported of an activity in the end, and the spans that it adds. -/
structure Settlement where
  outcome : Except Failure (Option Value)
  spans : List Span

/-! ## What others do, and what one does -/

/-- Whether nothing in a region has changed, nor the roster, whatever else has. -/
structure Undisturbed (region : Set Nat) (host later : Host) : Prop where
  grown : host.memory.objects.size ≤ later.memory.objects.size
  agree : ∀ place ∈ region, later.memory.objects[place]? = host.memory.objects[place]?
  roster : later.roster = host.roster

/-- Whether what is done from a region of one's own on changes nothing outside of it and does not
touch the roster. The region may have become wider by new places. -/
structure Changes (own wider : Set Nat) (host later : Host) : Prop where
  widens : own ⊆ wider
  fresh : ∀ place ∈ wider, place ∈ own ∨ place ∈ host.memory.newPlaces later.memory
  grown : host.memory.objects.size ≤ later.memory.objects.size
  spares : ∀ place, place ∉ own → place < host.memory.objects.size →
    later.memory.objects[place]? = host.memory.objects[place]?
  roster : later.roster = host.roster

variable {region part own wider shared : Set Nat} {host between later : Host}

namespace Undisturbed

theorem refl (region : Set Nat) (host : Host) : Undisturbed region host host :=
  ⟨Nat.le_refl _, fun _ _ => rfl, rfl⟩

theorem trans (hfirst : Undisturbed region host between)
    (hsecond : Undisturbed region between later) : Undisturbed region host later where
  grown := hfirst.grown.trans hsecond.grown
  agree place hplace := (hsecond.agree place hplace).trans (hfirst.agree place hplace)
  roster := hsecond.roster.trans hfirst.roster

end Undisturbed

namespace Changes

/-- What touches neither memory nor the roster may change anything else. -/
theorem of_memory_eq (own : Set Nat) (hmemory : later.memory = host.memory)
    (hroster : later.roster = host.roster) : Changes own own host later where
  widens := Set.Subset.refl own
  fresh _ hplace := .inl hplace
  grown := by rw [hmemory]
  spares _ _ _ := by rw [hmemory]
  roster := hroster

theorem refl (own : Set Nat) (host : Host) : Changes own own host host :=
  of_memory_eq own rfl rfl

/-- An object of one's own may be changed. -/
theorem replace {place : Nat} (hplace : place ∈ own) (object : Object) :
    Changes own own host { host with memory := host.memory.replace place object } where
  widens := Set.Subset.refl own
  fresh _ hmem := .inl hmem
  grown := Array.size_setIfInBounds.ge
  spares other houtside _ := by
    refine Array.getElem?_setIfInBounds_ne ?_
    rintro rfl
    exact houtside hplace
  roster := rfl

theorem trans {widest : Set Nat} (hfirst : Changes own wider host between)
    (hsecond : Changes wider widest between later) : Changes own widest host later where
  widens := hfirst.widens.trans hsecond.widens
  fresh place hplace := by
    rcases hsecond.fresh place hplace with hwider | hnew
    · refine (hfirst.fresh place hwider).imp_right fun hnew => ?_
      exact ⟨hnew.1, hnew.2.trans_le hsecond.grown⟩
    · exact .inr ⟨hfirst.grown.trans hnew.1, hnew.2⟩
  grown := hfirst.grown.trans hsecond.grown
  spares place hplace hlt := by
    have hwider : place ∉ wider := by
      intro hmem
      rcases hfirst.fresh place hmem with hown | hnew
      · exact hplace hown
      · exact Nat.not_lt.mpr hnew.1 hlt
    rw [hsecond.spares place hwider (hlt.trans_le hfirst.grown), hfirst.spares place hplace hlt]
  roster := hsecond.roster.trans hfirst.roster

/-- Nobody else is disturbed. -/
theorem undisturbed (hchanges : Changes own wider host later)
    (hallocated : ∀ place ∈ region, place < host.memory.objects.size)
    (hdisjoint : Disjoint region own) : Undisturbed region host later where
  grown := hchanges.grown
  agree place hplace :=
    hchanges.spares place (Set.disjoint_left.mp hdisjoint hplace) (hallocated place hplace)
  roster := hchanges.roster

/-- A region that is apart from one's own stays apart from it. -/
theorem disjoint (hchanges : Changes own wider host later)
    (hallocated : ∀ place ∈ region, place < host.memory.objects.size)
    (hdisjoint : Disjoint region own) : Disjoint region wider := by
  refine Set.disjoint_left.mpr fun place hplace hmem => ?_
  rcases hchanges.fresh place hmem with hown | hnew
  · exact Set.disjoint_left.mp hdisjoint hplace hown
  · exact Nat.not_lt.mpr hnew.1 (hallocated place hplace)

theorem allocated (hchanges : Changes own wider host later)
    (hallocated : ∀ place ∈ own, place < host.memory.objects.size) :
    ∀ place ∈ wider, place < later.memory.objects.size := by
  intro place hmem
  rcases hchanges.fresh place hmem with hown | hnew
  · exact (hallocated place hown).trans_le hchanges.grown
  · exact hnew.2

end Changes

/-! ## Coming to a settlement -/

/-- Whether an outcome is reported in one way, and its result, if it has one, holds nothing but what
cannot be changed by others. -/
def Comes (region : Set Nat) (host : Host) (outcome : Except Failure Datum)
    (reported : Except Failure (Option Value)) : Prop :=
  report host.memory outcome = reported ∧
    ∀ datum, outcome = .ok datum →
      ∃ part, part ⊆ region ∧ host.memory.Closed part ∧ datum.Inside part

theorem comes_error (region : Set Nat) (host : Host) (failure : Failure) :
    Comes region host (.error failure) (.error failure) := by
  refine ⟨rfl, ?_⟩
  rintro _ ⟨⟩

/-- What has been reported is reported again later on. -/
theorem Comes.of_undisturbed {outcome : Except Failure Datum}
    {reported : Except Failure (Option Value)}
    (hcomes : Comes region host outcome reported) (hundisturbed : Undisturbed region host later) :
    Comes region later outcome reported := by
  obtain ⟨hreport, hinside⟩ := hcomes
  cases outcome with
  | error failure =>
      cases hreport
      exact comes_error region later failure
  | ok datum =>
      obtain ⟨part, hpart, hclosed, hdatum⟩ := hinside datum rfl
      have hagree : ∀ place ∈ part,
          later.memory.objects[place]? = host.memory.objects[place]? :=
        fun place hplace => hundisturbed.agree place (hpart hplace)
      have hview : later.memory.view datum = host.memory.view datum :=
        viewWithin_of_agree hclosed hagree nestingLimit hdatum
      refine ⟨?_, ?_⟩
      · rw [← hreport]
        simp only [report, Except.map, hview]
      · rintro _ ⟨⟩
        exact ⟨part, hpart, hclosed.of_agree hagree hundisturbed.grown, hdatum⟩

namespace Activity

/-- Whether an activity comes to a settlement from a host on, when it has a region of its own there
and shares another one with activities that only read it. Each change stays in its own region, and
while it is paused others may do anything that leaves both regions undisturbed. -/
def Settles (shared : Set Nat) : Activity Datum → Set Nat → Host → Settlement → Prop
  | .done outcome, own, host, settlement =>
    settlement.spans = [] ∧ Comes (own ∪ shared) host outcome settlement.outcome
  | .inspect next, own, host, settlement => Settles shared (next host) own host settlement
  | .update after next, own, host, settlement =>
    ∃ wider spans rest, Changes own wider host after ∧ after.spans = host.spans ++ spans ∧
      settlement.spans = spans ++ rest ∧
        Settles shared next wider after ⟨settlement.outcome, rest⟩
  | .pause next, own, host, settlement =>
    ∀ later, Undisturbed (own ∪ shared) host later → Settles shared next own later settlement

variable {activity : Activity Datum} {settlement : Settlement}

/-- What a turn adds, and what is left to settle then. -/
theorem settles_advance (hsettles : Settles shared activity own host settlement) :
    ∃ wider spans rest, Changes own wider host (activity.advance host).2 ∧
      (activity.advance host).2.spans = host.spans ++ spans ∧ settlement.spans = spans ++ rest ∧
        ∀ later, Undisturbed (wider ∪ shared) (activity.advance host).2 later →
          Settles shared (activity.advance host).1 wider later ⟨settlement.outcome, rest⟩ := by
  induction activity generalizing own host settlement with
  | done outcome =>
      obtain ⟨hspans, hcomes⟩ := hsettles
      refine ⟨own, [], [], Changes.refl own host, (List.append_nil _).symm, hspans, ?_⟩
      exact fun later hundisturbed => ⟨rfl, hcomes.of_undisturbed hundisturbed⟩
  | inspect next ih => exact ih host hsettles
  | update after next ih =>
      obtain ⟨wider, spans, rest, hchanges, hafter, hspans, hnext⟩ := hsettles
      obtain ⟨widest, more, last, hmore, hlater, hrest, hleft⟩ := ih hnext
      refine ⟨widest, spans ++ more, last, hchanges.trans hmore, ?_, ?_, hleft⟩
      · rw [← List.append_assoc, ← hafter]
        exact hlater
      · rw [hspans, List.append_assoc]
        exact congrArg _ hrest
  | pause next _ =>
      exact ⟨own, [], settlement.spans, Changes.refl own host, (List.append_nil _).symm, rfl,
        hsettles⟩

/-- An activity that has the host to itself comes to its settlement. -/
theorem settles_run (hsettles : Settles shared activity own host settlement) :
    report (activity.run host).2.memory (activity.run host).1 = settlement.outcome ∧
      (activity.run host).2.spans = host.spans ++ settlement.spans := by
  induction activity generalizing own host settlement with
  | done outcome =>
      refine ⟨hsettles.2.1, ?_⟩
      rw [hsettles.1, List.append_nil]
      rfl
  | inspect next ih => exact ih host hsettles
  | update after next ih =>
      obtain ⟨wider, spans, rest, -, hafter, hspans, hnext⟩ := hsettles
      obtain ⟨hreport, hadded⟩ := ih hnext
      refine ⟨hreport, ?_⟩
      rw [hspans, ← List.append_assoc, ← hafter]
      exact hadded
  | pause next ih => exact ih (hsettles host (.refl _ host))

/-- What follows on an activity adds its spans to those of the activity. -/
theorem settles_andThen {next : Except Failure Datum → Activity Datum} (last : Settlement)
    (hsettles : Settles shared activity own host settlement)
    (hnext : ∀ outcome wider later, Comes (wider ∪ shared) later outcome settlement.outcome →
      Settles shared (next outcome) wider later last) :
    Settles shared (activity.andThen next) own host
      ⟨last.outcome, settlement.spans ++ last.spans⟩ := by
  induction activity generalizing own host settlement with
  | done outcome =>
      rw [hsettles.1, List.nil_append]
      exact hnext outcome own host hsettles.2
  | inspect more ih => exact ih host hsettles hnext
  | update after more ih =>
      obtain ⟨wider, spans, rest, hchanges, hafter, hspans, hmore⟩ := hsettles
      refine ⟨wider, spans, rest ++ last.spans, hchanges, hafter, ?_, ih hmore hnext⟩
      rw [hspans, List.append_assoc]
  | pause more ih => exact fun later hundisturbed => ih (hsettles later hundisturbed) hnext

end Activity

end SealedCall
