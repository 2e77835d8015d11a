import Mathlib.Data.List.Perm.Basic
import Mathlib.Data.List.Nodup
import SealedCall.Scheduling

/-! # Schedules

Several processes are started together and then have their turns in some order, which a list of
places tells. Going on with the one that has waited longest is one of these orders, and it ends with
the outcomes of all processes at their places.
-/

namespace SealedCall.Scheduling

variable {σ ε α : Type}

/-- Processes that share a state, each at its place. -/
structure Shared (σ ε α : Type) where
  processes : List (Process σ ε α)
  state : σ

namespace Shared

/-- The process at a place has a turn. Where there is none, nothing happens. -/
def resume (shared : Shared σ ε α) (place : Nat) : Shared σ ε α :=
  match shared.processes[place]? with
  | some process =>
    ⟨shared.processes.set place (process.advance shared.state).1,
      (process.advance shared.state).2⟩
  | none => shared

/-- What becomes of the processes when they have their turns in an order. -/
def after (shared : Shared σ ε α) : List Nat → Shared σ ε α
  | [] => shared
  | place :: rest => (shared.resume place).after rest

/-- Whether tasks are at their places. -/
def Holds (shared : Shared σ ε α) (tasks : List (Task σ ε α)) : Prop :=
  ∀ task ∈ tasks, shared.processes[task.1]? = some task.2

/-- Whether all processes have come to their ends. -/
def AllDone (shared : Shared σ ε α) : Prop :=
  ∀ process ∈ shared.processes, ∃ outcome, process = .done outcome

variable {shared between later : Shared σ ε α}

theorem after_append (shared : Shared σ ε α) (schedule more : List Nat) :
    shared.after (schedule ++ more) = (shared.after schedule).after more := by
  induction schedule generalizing shared with
  | nil => rfl
  | cons place rest ih => exact ih (shared.resume place)

theorem resume_of_process {place : Nat} {process : Process σ ε α}
    (hprocess : shared.processes[place]? = some process) :
    shared.resume place =
      ⟨shared.processes.set place (process.advance shared.state).1,
        (process.advance shared.state).2⟩ := by
  rw [resume, hprocess]

theorem length_resume (shared : Shared σ ε α) (place : Nat) :
    (shared.resume place).processes.length = shared.processes.length := by
  unfold resume
  split
  · exact List.length_set
  · rfl

theorem length_after (shared : Shared σ ε α) (schedule : List Nat) :
    (shared.after schedule).processes.length = shared.processes.length := by
  induction schedule generalizing shared with
  | nil => rfl
  | cons place rest ih => exact (ih _).trans (length_resume shared place)

theorem process_resume_of_ne {place other : Nat} (hne : place ≠ other) :
    (shared.resume place).processes[other]? = shared.processes[other]? := by
  unfold resume
  split
  · exact List.getElem?_set_ne hne
  · rfl

/-- A process that has had no turn is as it was started. -/
theorem process_after_of_not_mem {schedule : List Nat} {place : Nat} (hplace : place ∉ schedule) :
    (shared.after schedule).processes[place]? = shared.processes[place]? := by
  induction schedule generalizing shared with
  | nil => rfl
  | cons first rest ih =>
      rw [after, ih (List.not_mem_of_not_mem_cons hplace),
        process_resume_of_ne (List.ne_of_not_mem_cons hplace).symm]

end Shared

/-! ## Taking turns in order -/

/-- Whether some turns lead from tasks that are at their places to what is left of them, and leave
all other places alone. -/
def Reaches (shared : Shared σ ε α) (tasks left : List (Task σ ε α)) (later : Shared σ ε α) :
    Prop :=
  (∃ schedule, later = shared.after schedule) ∧ later.Holds left ∧
    (left.map Prod.fst).Perm (tasks.map Prod.fst) ∧
    ∀ place ∉ tasks.map Prod.fst, later.processes[place]? = shared.processes[place]?

/-- Processes that are done, as tasks. -/
def ended (finished : List (Nat × Except ε α)) : List (Task σ ε α) :=
  finished.map fun entry => (entry.1, .done entry.2)

theorem places_ended (finished : List (Nat × Except ε α)) :
    (ended finished : List (Task σ ε α)).map Prod.fst = finished.map Prod.fst := by
  rw [ended, List.map_map]
  rfl

theorem eq_done_of_outcome? {process : Process σ ε α} {outcome : Except ε α}
    (houtcome : process.outcome? = some outcome) : process = .done outcome := by
  cases process with
  | done held =>
      cases houtcome
      rfl
  | _ => cases houtcome

variable {shared between later : Shared σ ε α} {tasks waiting : List (Task σ ε α)}

/-- Tasks that are done stay at their places while the others go on. -/
theorem Reaches.trans {finished more : List (Nat × Except ε α)}
    (hnodup : (tasks.map Prod.fst).Nodup)
    (hfirst : Reaches shared tasks (ended finished ++ waiting) between)
    (hsecond : Reaches between waiting (ended more) later) :
    Reaches shared tasks (ended (finished ++ more)) later := by
  obtain ⟨⟨schedule, rfl⟩, hholds, hperm, hother⟩ := hfirst
  obtain ⟨⟨rest, rfl⟩, hlater, hplaces, hkept⟩ := hsecond
  have happart := hperm.nodup_iff.mpr hnodup
  rw [List.map_append, List.nodup_append] at happart
  have hleft : (ended (finished ++ more) : List (Task σ ε α)) = ended finished ++ ended more :=
    List.map_append
  rw [hleft]
  refine ⟨⟨schedule ++ rest, (shared.after_append schedule rest).symm⟩, ?_, ?_, ?_⟩
  · intro task hmem
    rcases List.mem_append.mp hmem with hmem | hmem
    · rw [hkept task.1 ?_]
      · exact hholds task (List.mem_append_left _ hmem)
      · intro hwaits
        exact happart.2.2 _ (List.mem_map_of_mem hmem) _ hwaits rfl
    · exact hlater task hmem
  · rw [List.map_append]
    rw [List.map_append] at hperm
    exact (hplaces.append_left _).trans hperm
  · intro place hplace
    rw [hkept place ?_, hother place hplace]
    intro hwaits
    exact hplace (hperm.mem_iff.mp (by
      rw [List.map_append]
      exact List.mem_append_right _ hwaits))

/-- What a round of turns leaves of the first task and of the others. -/
theorem perm_turn_cons (place : Nat) (process : Process σ ε α) (rest : List (Task σ ε α))
    (state : σ) :
    (ended (turn ((place, process) :: rest) state).finished ++
      (turn ((place, process) :: rest) state).waiting).Perm
        ((place, (process.advance state).1) ::
          (ended (turn rest (process.advance state).2).finished ++
            (turn rest (process.advance state).2).waiting)) ∧
      (turn ((place, process) :: rest) state).state =
        (turn rest (process.advance state).2).state := by
  simp only [turn]
  split
  · next outcome houtcome =>
      rw [eq_done_of_outcome? houtcome]
      exact ⟨.refl _, rfl⟩
  · exact ⟨List.perm_middle, rfl⟩

/-- A round in which every task has a turn. -/
theorem reaches_turn (hnodup : (tasks.map Prod.fst).Nodup) (hholds : shared.Holds tasks) :
    ∃ later, Reaches shared tasks
      (ended (turn tasks shared.state).finished ++ (turn tasks shared.state).waiting) later ∧
        later.state = (turn tasks shared.state).state := by
  induction tasks generalizing shared with
  | nil => exact ⟨shared, ⟨⟨[], rfl⟩, List.forall_mem_nil _, .refl _, fun _ _ => rfl⟩, rfl⟩
  | cons task rest ih =>
      obtain ⟨place, process⟩ := task
      obtain ⟨hnew, hrest⟩ := List.nodup_cons.mp hnodup
      obtain ⟨hprocess, hothers⟩ := List.forall_mem_cons.mp hholds
      obtain ⟨hleft, hstate⟩ := perm_turn_cons place process rest shared.state
      have hresume := Shared.resume_of_process hprocess
      -- the first task works, and the others find their processes as they were
      have hnext : (shared.resume place).Holds rest := by
        intro other hmem
        rw [Shared.process_resume_of_ne ?_]
        · exact hothers other hmem
        · intro hsame
          exact hnew (List.mem_map.mpr ⟨other, hmem, hsame.symm⟩)
      obtain ⟨later, ⟨⟨schedule, rfl⟩, hlater, hplaces, hkept⟩, hend⟩ := ih hrest hnext
      have hworked : ((shared.resume place).after schedule).processes[place]? =
          some (process.advance shared.state).1 := by
        rw [hkept place hnew, hresume]
        exact List.getElem?_set_self (List.getElem?_eq_some_iff.mp hprocess).1
      have hbetween : (shared.resume place).state = (process.advance shared.state).2 := by
        rw [hresume]
      rw [hbetween] at hlater hplaces hend
      refine ⟨_, ⟨⟨place :: schedule, rfl⟩, ?_, ?_, ?_⟩, hend.trans hstate.symm⟩
      · intro task hmem
        rcases List.mem_cons.mp (hleft.mem_iff.mp hmem) with rfl | hmem
        · exact hworked
        · exact hlater task hmem
      · exact (hleft.map Prod.fst).trans (hplaces.cons place)
      · intro other hmem
        rw [Shared.after, hkept other (List.not_mem_of_not_mem_cons hmem),
          Shared.process_resume_of_ne (List.ne_of_not_mem_cons hmem).symm]

/-- Going on with the task that has waited longest is a round, and then another one with what is
left. -/
theorem finish_eq (first : Task σ ε α) (others : List (Task σ ε α)) (state : σ) :
    finish first others state =
      match (turn (first :: others) state).waiting with
      | [] => ((turn (first :: others) state).finished, (turn (first :: others) state).state)
      | next :: rest =>
        ((turn (first :: others) state).finished ++
          (finish next rest (turn (first :: others) state).state).1,
          (finish next rest (turn (first :: others) state).state).2) := by
  rw [finish]
  simp only
  split
  · next outcome houtcome =>
      split
      · next hwaiting => simp only [turn, houtcome, hwaiting]
      · next next rest hwaiting =>
          simp only [turn, houtcome, hwaiting]
  · next houtcome =>
      simp only [turn, houtcome]

/-- Whether turns of the tasks that are left lead to the outcomes with which they finish. -/
def Ends (next : Task σ ε α) (rest : List (Task σ ε α)) (state : σ) : Prop :=
  ∀ shared : Shared σ ε α, ((next :: rest).map Prod.fst).Nodup → shared.Holds (next :: rest) →
    shared.state = state →
      ∃ later, Reaches shared (next :: rest) (ended (finish next rest state).1) later ∧
        later.state = (finish next rest state).2

/-- After a round the tasks end as those that are left of them do. -/
theorem ends_of_waiting {first next : Task σ ε α} {others rest : List (Task σ ε α)} {state : σ}
    (hwaiting : (turn (first :: others) state).waiting = next :: rest)
    (hrest : Ends next rest (turn (first :: others) state).state) : Ends first others state := by
  intro shared hnodup hholds hstate
  subst hstate
  obtain ⟨between, hround, hbetween⟩ := reaches_turn hnodup hholds
  rw [hwaiting] at hround
  have hplaces := hround.2.2.1.nodup_iff.mpr hnodup
  rw [List.map_append] at hplaces
  obtain ⟨later, hreaches, hlater⟩ := hrest between (List.nodup_append.mp hplaces).2.1
    (fun task hmem => hround.2.1 task (List.mem_append_right _ hmem)) hbetween
  rw [finish_eq, hwaiting]
  exact ⟨later, hround.trans hnodup hreaches, hlater⟩

/-- Turns of the task that has waited longest, until all are done, are turns in some order. -/
theorem ends_finish (first : Task σ ε α) (others : List (Task σ ε α)) (state : σ) :
    Ends first others state := by
  induction first, others, state using finish.induct with
  | case1 first others state =>
      rename_i worked turned outcome houtcome hwaiting
      intro shared hnodup hholds hstate
      subst hstate
      have hnone : (turn (first :: others) shared.state).waiting = [] := by
        simp only [turn]
        rw [houtcome]
        exact hwaiting
      obtain ⟨later, hround, hlater⟩ := reaches_turn hnodup hholds
      rw [hnone, List.append_nil] at hround
      rw [finish_eq, hnone]
      exact ⟨later, hround, hlater⟩
  | case2 first others state =>
      rename_i worked turned outcome houtcome next rest hwaiting later after hfinish ih
      have hstate : (turn (first :: others) state).state = turned.state := by
        simp only [turn]
        rw [houtcome]
      have hleft : (turn (first :: others) state).waiting = next :: rest := by
        simp only [turn]
        rw [houtcome]
        exact hwaiting
      rw [← hstate] at ih
      exact ends_of_waiting hleft ih
  | case3 first others state =>
      rename_i worked turned houtcome later after hfinish ih
      have hstate : (turn (first :: others) state).state = turned.state := by
        simp only [turn]
        rw [houtcome]
      have hleft : (turn (first :: others) state).waiting =
          (first.1, worked.1) :: turned.waiting := by
        simp only [turn]
        rw [houtcome]
      rw [← hstate] at ih
      exact ends_of_waiting hleft ih

/-! ## Outcomes in order -/

/-- Processes with their places, as tasks. -/
def placed (processes : List (Process σ ε α)) : List (Task σ ε α) :=
  processes.zipIdx.map fun entry => (entry.2, entry.1)

theorem places_placed (processes : List (Process σ ε α)) :
    (placed processes).map Prod.fst = List.range processes.length := by
  rw [placed, List.map_map, List.range_eq_range', ← List.zipIdx_map_snd 0 processes]
  rfl

theorem holds_placed (processes : List (Process σ ε α)) (state : σ) :
    Shared.Holds ⟨processes, state⟩ (placed processes) := by
  intro task hmem
  obtain ⟨entry, hentry, rfl⟩ := List.mem_map.mp hmem
  exact List.mem_zipIdx_iff_getElem?.mp hentry

/-- Outcomes sorted by their places are in the order of the places. -/
theorem places_mergeSort {outcomes : List (Nat × Except ε α)} {count : Nat}
    (hplaces : (outcomes.map Prod.fst).Perm (List.range count)) :
    (outcomes.mergeSort fun a b => decide (a.1 ≤ b.1)).map Prod.fst = List.range count := by
  have hsorted : (outcomes.mergeSort fun a b => decide (a.1 ≤ b.1)).Pairwise
      fun a b => decide (a.1 ≤ b.1) = true := by
    apply List.pairwise_mergeSort
    · intro a b c hab hbc
      simp only [decide_eq_true_eq] at *
      omega
    · intro a b
      simp only [Bool.or_eq_true, decide_eq_true_eq]
      omega
  refine List.Perm.eq_of_pairwise (fun a b _ _ => Nat.le_antisymm) ?_ List.pairwise_le_range ?_
  · rw [List.pairwise_map]
    exact hsorted.imp fun hle => by simpa using hle
  · exact ((List.mergeSort_perm _ _).map Prod.fst).trans hplaces

/-- Processes whose outcomes are at their places are done with these, in the order of the places. -/
theorem processes_of_ended {outcomes : List (Nat × Except ε α)}
    (hplaces : (outcomes.map Prod.fst).Perm (List.range later.processes.length))
    (hended : later.Holds (ended outcomes)) :
    later.processes =
      ((outcomes.mergeSort fun a b => decide (a.1 ≤ b.1)).map (·.2)).map .done := by
  have hsorted := places_mergeSort hplaces
  refine List.ext_getElem? fun place => ?_
  have hplace := congrArg (fun places : List Nat => places[place]?) hsorted
  simp only [List.getElem?_map] at hplace ⊢
  rcases hfound : (outcomes.mergeSort fun a b => decide (a.1 ≤ b.1))[place]? with _ | entry
  · rw [hfound, Option.map_none, eq_comm, List.getElem?_eq_none_iff, List.length_range] at hplace
    exact List.getElem?_eq_none hplace
  · have hmem : entry ∈ outcomes :=
      (List.mergeSort_perm _ _).mem_iff.mp (List.mem_of_getElem? hfound)
    rw [hfound, Option.map_some, eq_comm, List.getElem?_eq_some_iff] at hplace
    obtain ⟨hlt, hnumber⟩ := hplace
    rw [List.getElem_range] at hnumber
    rw [hnumber]
    exact hended (entry.1, .done entry.2) (List.mem_map.mpr ⟨entry, hmem, rfl⟩)

/-- Processes that are started together end, at their places, with the outcomes that are gathered,
and they do so by turns in some order. -/
theorem exists_schedule_gather (processes : List (Process σ ε α)) (state : σ) :
    ∃ schedule, (Shared.mk processes state).after schedule =
      ⟨(gather processes state).1.map .done, (gather processes state).2⟩ := by
  have hgather : gather processes state =
      match placed processes with
      | [] => ([], state)
      | first :: others =>
        (((finish first others state).1.mergeSort fun a b => decide (a.1 ≤ b.1)).map (·.2),
          (finish first others state).2) := rfl
  have hholds := holds_placed processes state
  have hplaces := places_placed processes
  rw [hgather]
  cases htasks : placed processes with
  | nil =>
      refine ⟨[], ?_⟩
      rw [htasks] at hplaces
      have hempty : processes = [] := by simpa using hplaces.symm
      rw [hempty]
      rfl
  | cons first others =>
      rw [htasks] at hholds hplaces
      have hnodup : ((first :: others).map Prod.fst).Nodup := hplaces ▸ List.nodup_range
      obtain ⟨later, ⟨⟨schedule, rfl⟩, hended, hperm, -⟩, hstate⟩ :=
        ends_finish first others state ⟨processes, state⟩ hnodup hholds rfl
      have hlength := Shared.length_after ⟨processes, state⟩ schedule
      rw [places_ended, hplaces, ← hlength] at hperm
      refine ⟨schedule, ?_⟩
      simp only
      rw [← processes_of_ended hperm hended, ← hstate]

/-- Turns can always be added until all processes have come to their ends. -/
theorem exists_allDone (shared : Shared σ ε α) (schedule : List Nat) :
    ∃ more, (shared.after (schedule ++ more)).AllDone := by
  obtain ⟨more, hmore⟩ :=
    exists_schedule_gather (shared.after schedule).processes (shared.after schedule).state
  refine ⟨more, fun process hmem => ?_⟩
  rw [Shared.after_append, hmore] at hmem
  obtain ⟨outcome, -, rfl⟩ := List.mem_map.mp hmem
  exact ⟨outcome, rfl⟩

end SealedCall.Scheduling
