import SealedCall.Proofs.Discretion.Transaction
import SealedCall.Proofs.FirstEnrolment

/-! # What runs leave in the log

A run is told by the transactions in it and by their endings, in the order in which they end; those
that implementations are in the course of come before the one that applied them. What it adds to the
log is a function of their ids, of the names that come to be registered, and of how they end.
Nothing else that goes into a run makes a difference: two runs that agree on these add the same
records.
-/

namespace SealedCall

open Operation

namespace Roster

variable {roster : Roster} {t : Text}

/-- Whether something is held under an id. -/
def holds (roster : Roster) (t : Text) : Bool := (roster.find? t).isSome

/-- The name that is held under an id. -/
def name? (roster : Roster) (t : Text) : Option Value := (roster.find? t).map (·.name)

theorem holds_after_added (roster : Roster) (entry : RosterEntry) :
    (roster.after (.added entry)).holds = fun t => t == entry.id || roster.holds t := by
  funext t
  have hnew : ([entry].find? fun held => held.id == t).isSome = (t == entry.id) := by
    by_cases hid : t = entry.id
    · simp [hid]
    · simp [hid, Ne.symm hid]
  rw [holds, after, find?, List.find?_append, Option.isSome_or, hnew, Bool.or_comm]
  rfl

theorem Grows.name? {later : Roster} (hgrows : roster.Grows later) {entry : RosterEntry}
    (hheld : roster.find? t = some entry) : later.name? t = some entry.name := by
  rw [Roster.name?, hgrows.find? hheld]
  rfl

end Roster

/-! ## Chronicles -/

namespace Transaction

/-- The log records of a transaction that opens a reference. -/
def openingRecords (ending : Ending) (transaction : Transaction) : List LogRecord :=
  match transaction.opened? with
  | some reference => ending.records reference.id
  | none => []

/-- The log records of a transaction that ended in some way, where some ids are known before it, and
with the names that come to be registered. -/
def records (names : Text → Option Value) (known : Text → Bool) (ending : Ending) :
    Transaction → List LogRecord
  | .enrol id _ _ =>
    match ending with
    | .success =>
      match id with
      | .text t =>
        if known t then []
        else [⟨.debug, .roster, Text.of "Registered action " ++ t ++ Text.of " -> " ++
          ((names t).getD .null).plain⟩]
      | _ => []
    | .duplicate =>
      [⟨.warning, .roster, Text.of "Refusing to re-register action " ++ id.plain⟩]
    | _ => []
  | transaction => transaction.openingRecords ending

/-- The ids that are known after a transaction. -/
def learned (known : Text → Bool) (ending : Ending) : Transaction → Text → Bool
  | .enrol (.text t) _ _ => fun id => ending == .success && id == t || known id
  | _ => known

variable {transaction : Transaction} {reference : Reference}

theorem records_of_opened (hopened : transaction.opened? = some reference)
    (names : Text → Option Value) (known : Text → Bool) (ending : Ending) :
    transaction.records names known ending = ending.records reference.id := by
  cases transaction with
  | enrol id implementation name => cases hopened
  | _ => simp only [records, openingRecords, hopened]

theorem learned_of_opened (hopened : transaction.opened? = some reference) (known : Text → Bool)
    (ending : Ending) : transaction.learned known ending = known := by
  cases transaction with
  | enrol id implementation name => cases hopened
  | _ => rfl

end Transaction

/-- Transactions with their endings, in the order in which they ended. -/
abbrev Account := List (Transaction × Ending)

namespace Account

/-- The log records of an account. -/
def chronicle (names : Text → Option Value) : (Text → Bool) → Account → List LogRecord
  | _, [] => []
  | known, (transaction, ending) :: rest =>
    transaction.records names known ending ++
      chronicle names (transaction.learned known ending) rest

/-- The ids that are known after an account. -/
def learned : (Text → Bool) → Account → Text → Bool
  | known, [] => known
  | known, (transaction, ending) :: rest => learned (transaction.learned known ending) rest

theorem learned_append (known : Text → Bool) (first second : Account) :
    learned known (first ++ second) = learned (learned known first) second := by
  induction first generalizing known with
  | nil => rfl
  | cons entry rest ih => exact ih _

theorem chronicle_append (names : Text → Option Value) (known : Text → Bool)
    (first second : Account) :
    chronicle names known (first ++ second) =
      chronicle names known first ++ chronicle names (learned known first) second := by
  induction first generalizing known with
  | nil => rfl
  | cons entry rest ih =>
      rw [List.cons_append, chronicle, ih, chronicle, List.append_assoc]
      rfl

/-- Whether an account tells what was added to the log and to the roster, with the names on any
roster that comes to be from there. -/
structure Tells (account : Account) (host later : Host) : Prop where
  grows : host.roster.Grows later.roster
  holds : later.roster.holds = account.learned host.roster.holds
  log : ∀ final, later.roster.Grows final →
    later.log = host.log ++ account.chronicle final.name? host.roster.holds

theorem tells_nil {host later : Host} (haside : Aside host later) : Tells [] host later where
  grows := by
    rw [haside.roster]
    exact .same _
  holds := by
    rw [haside.roster]
    rfl
  log _ _ := by
    rw [haside.log]
    exact (List.append_nil _).symm

theorem Tells.append {first second : Account} {host between later : Host}
    (hfirst : first.Tells host between) (hsecond : second.Tells between later) :
    Tells (first ++ second) host later where
  grows := hfirst.grows.trans hsecond.grows
  holds := by rw [hsecond.holds, hfirst.holds, learned_append]
  log final hfinal := by
    rw [hsecond.log final hfinal, hfirst.log final (hsecond.grows.trans hfinal),
      chronicle_append, hfirst.holds, List.append_assoc]

/-- A transaction that opens a reference is told by how it ended, if that is all it adds. -/
theorem tells_of_opened {transaction : Transaction} {reference : Reference} {ending : Ending}
    {host later : Host} (hopened : transaction.opened? = some reference)
    (hroster : later.roster = host.roster)
    (hlog : later.log = host.log ++ ending.records reference.id) :
    Tells [(transaction, ending)] host later where
  grows := by
    rw [hroster]
    exact .same _
  holds := by
    rw [hroster]
    exact (Transaction.learned_of_opened hopened _ _).symm
  log final _ := by
    rw [hlog, chronicle, Transaction.records_of_opened hopened, chronicle, List.append_nil]

end Account

/-! ## What one transaction adds -/

namespace Transaction

open Account

variable {transaction : Transaction} {behaviour : Behaviour} {host : Host}

/-- A transaction that is never told and leaves log and roster alone. -/
theorem tells_of_aside {later : Host} {ending : Ending} (haside : Aside host later)
    (hrecords : ∀ names, transaction.records names host.roster.holds ending = [])
    (hlearned : transaction.learned host.roster.holds ending = host.roster.holds) :
    Tells [(transaction, ending)] host later where
  grows := by
    rw [haside.roster]
    exact .same _
  holds := by
    rw [haside.roster]
    exact hlearned.symm
  log _ _ := by
    rw [haside.log, chronicle, hrecords]
    exact (List.append_nil _).symm

/-- What an enrolment comes to, with the log record that it leaves. -/
theorem perform_enrol_logged (id : Value) (implementation : Implementation) (name : Value)
    (host : Host) :
    (Enrolment.enrol id implementation name).perform host =
      match host.roster.admission id implementation name with
      | .ok (.known entry) => (.ok entry, host)
      | .ok (.added entry) => (.ok entry, { host with
          roster := host.roster.after (.added entry)
          log := host.log ++ [⟨.debug, .roster, Text.of "Registered action " ++ entry.id ++
            Text.of " -> " ++ entry.name.plain⟩] })
      | .error (.duplicateAction id) => (.error (.duplicateAction id), { host with
          log := host.log ++ [⟨.warning, .roster,
            Text.of "Refusing to re-register action " ++ id.plain⟩] })
      | .error failure => (.error failure, host) := by
  rw [Enrolment.enrol, perform_bind, perform_get]
  simp only
  cases host.roster.admission id implementation name with
  | ok admission =>
      cases admission with
      | known entry => rfl
      | added entry => rfl
  | error failure => cases failure <;> rfl

theorem misuse_of_nameFor {implementation : Implementation} {name : Value} {failure : Failure}
    (hname : Roster.nameFor implementation name = .error failure) :
    failure = .misuse .tooManyDigits := by
  rw [Roster.nameFor] at hname
  split at hname
  · cases hname
  · rw [Implementation.fullName] at hname
    split at hname
    · cases hname
    · cases hname
      rfl

/-- Only a text is refused as a duplicate, and it is the id that was asked for. -/
theorem duplicate_of_admission {roster : Roster} {id other : Value}
    {implementation : Implementation} {name : Value}
    (hadmission : roster.admission id implementation name = .error (.duplicateAction other)) :
    ∃ t, id = .text t ∧ other = .text t := by
  rw [Roster.admission.eq_def] at hadmission
  split at hadmission
  · cases hadmission
  · split at hadmission
    · split at hadmission
      · split at hadmission
        · cases hadmission
        · cases hadmission
          exact ⟨_, rfl, rfl⟩
      · cases hname : Roster.nameFor implementation name with
        | ok fullName =>
            rw [hname] at hadmission
            cases hadmission
        | error failure =>
            rw [hname, misuse_of_nameFor hname] at hadmission
            cases hadmission
    · cases hadmission
  · cases hadmission

/-- An enrolment that finds an entry under its id adds nothing. -/
theorem tells_known {t : Text} {held : RosterEntry} (hheld : host.roster.find? t = some held)
    (implementation : Implementation) (name : Value) :
    Tells [(.enrol (.text t) implementation name, .success)] host host := by
  have hknown : host.roster.holds t = true := by
    rw [Roster.holds, hheld]
    rfl
  refine tells_of_aside (aside_silent.refl host) (fun names => if_pos hknown) ?_
  funext id
  by_cases hid : id = t
  · simp [learned, hid, hknown]
  · simp [learned, hid]

/-- An enrolment that adds an entry is told with the name that is registered by it. -/
theorem tells_added {t : Text} {fullName : Value} {later : Host} (implementation : Implementation)
    (name : Value) (hnew : host.roster.find? t = none)
    (hadmission : host.roster.admission (.text t) implementation name =
      .ok (.added ⟨t, implementation, fullName⟩))
    (hroster : later.roster = host.roster.after (.added ⟨t, implementation, fullName⟩))
    (hlog : later.log = host.log ++ [⟨.debug, .roster, Text.of "Registered action " ++ t ++
      Text.of " -> " ++ fullName.plain⟩]) :
    Tells [(.enrol (.text t) implementation name, .success)] host later where
  grows := by
    rw [hroster]
    exact .enrolled hadmission (.same _)
  holds := by
    rw [hroster, Roster.holds_after_added]
    rfl
  log final hfinal := by
    have hunknown : host.roster.holds t = false := by
      rw [Roster.holds, hnew]
      rfl
    have hheld : later.roster.find? t = some ⟨t, implementation, fullName⟩ := by
      rw [hroster, Roster.find?_after_added hnew, if_pos rfl]
    rw [hlog, chronicle, chronicle, List.append_nil, records, hunknown, hfinal.name? hheld]
    rfl

/-- Nothing is told of an enrolment that is refused for another reason than a duplicate. -/
theorem tells_unadmitted (id : Value) (implementation : Implementation) (name : Value)
    {ending : Ending} (hsuccess : ending ≠ .success) (hduplicate : ending ≠ .duplicate) :
    Tells [(.enrol id implementation name, ending)] host host := by
  refine tells_of_aside (aside_silent.refl host) (fun names => ?_) ?_
  · cases ending with
    | success => exact absurd rfl hsuccess
    | duplicate => exact absurd rfl hduplicate
    | _ => rfl
  · cases id with
    | text t =>
        funext id
        rw [learned, beq_false_of_ne hsuccess]
        rfl
    | _ => rfl

theorem tells_enrol (id : Value) (implementation : Implementation) (name : Value) (host : Host) :
    Tells [(.enrol id implementation name,
        .of ((Enrolment.enrol id implementation name).perform host).1)] host
      ((Enrolment.enrol id implementation name).perform host).2 := by
  rw [perform_enrol_logged]
  cases hadmission : host.roster.admission id implementation name with
  | ok admission =>
      obtain ⟨t, rfl, ⟨held, rfl, hheld⟩ | ⟨hnew, fullName, -, rfl⟩⟩ :=
        Roster.admission_eq_ok hadmission
      · exact tells_known hheld implementation name
      · exact tells_added implementation name hnew hadmission rfl rfl
  | error failure =>
      cases failure with
      | duplicateAction other =>
          -- the warning is about the id on the failure, which is the one that was asked for
          obtain ⟨t, rfl, rfl⟩ := duplicate_of_admission hadmission
          exact ⟨.same _, rfl, fun _ _ => by rw [chronicle, chronicle, List.append_nil]; rfl⟩
      | _ => exact tells_unadmitted id implementation name nofun nofun

theorem tells_written_unread {service : Service} {data : Value} {arguments : List Datum}
    {failure : Failure} (hread : Reference.ofWireValue data = .error failure) :
    Tells [(.invokeWritten service data arguments,
        (Transaction.invokeWritten service data arguments).ending behaviour host)] host
      ((Transaction.invokeWritten service data arguments).after behaviour host) := by
  have hafter : (Transaction.invokeWritten service data arguments).after behaviour host = host := by
    rw [after, Service.runWritten, hread]
    rfl
  have hopened : (Transaction.invokeWritten service data arguments).opened? = none := by
    rw [opened?, hread]
    rfl
  rw [hafter]
  refine tells_of_aside (aside_silent.refl host) (fun names => ?_) rfl
  simp only [records, openingRecords, hopened]

theorem tells_request_unread {service : Service} {request : Endpoint.Request}
    (hopened : (Transaction.respond service request).opened? = none) :
    Tells [(.respond service request, (Transaction.respond service request).ending behaviour host)]
      host ((Transaction.respond service request).after behaviour host) := by
  have hafter : (Transaction.respond service request).after behaviour host = host := by
    rw [after]
    rw [opened?] at hopened
    cases horder : request.order? with
    | none => exact Endpoint.host_of_no_order horder service behaviour host
    | some order =>
        rw [horder, Option.bind_some] at hopened
        cases hread : Reference.ofWireForm order.reference with
        | ok reference =>
            rw [hread] at hopened
            cases hopened
        | error failure => exact Endpoint.host_of_unread_order horder hread service behaviour host
  rw [hafter]
  refine tells_of_aside (aside_silent.refl host) (fun names => ?_) rfl
  simp only [records, openingRecords, hopened]

/-- What comes down to no invocation is told by itself. -/
theorem tells_of_not_invoked (hinvoked : transaction.invoked? host = none) :
    Tells [(transaction, transaction.ending behaviour host)] host
      (transaction.after behaviour host) := by
  cases transaction with
  | enrol id implementation name => exact tells_enrol id implementation name host
  | bind handle data =>
      exact tells_of_aside (respects_bindData aside_silent.toPlacing handle data host)
        (fun _ => rfl) rfl
  | issue service id data =>
      exact tells_of_aside (respects_issue aside_silent service id data host) (fun _ => rfl) rfl
  | sealWith reference key =>
      exact tells_of_aside (respects_sealWith aside_silent reference key host) (fun _ => rfl) rfl
  | recover reference key =>
      have htold : reference.Told host ((reference.recover key).perform host).1
          ((reference.recover key).perform host).2 := Reference.told_recover rfl
      exact tells_of_opened rfl htold.roster htold.log
  | invoke reference arguments key => cases hinvoked
  | invokeWritten service data arguments =>
      cases hread : Reference.ofWireValue data with
      | ok reference =>
          rw [invoked?, hread] at hinvoked
          cases hinvoked
      | error failure => exact tells_written_unread hread
  | respond service request =>
      refine tells_request_unread ?_
      rw [opened?]
      rw [invoked?] at hinvoked
      cases horder : request.order? with
      | none => rfl
      | some order =>
          rw [horder, Option.bind_some, Option.map_eq_none_iff] at hinvoked
          exact hinvoked

/-- A transaction that applies no implementation is told by itself. -/
theorem tells_of_turned (hturned : transaction.application? host = none) :
    Tells [(transaction, transaction.ending behaviour host)] host
      (transaction.after behaviour host) := by
  cases hinvoked : transaction.invoked? host with
  | none => exact tells_of_not_invoked hinvoked
  | some invoked =>
      rw [application?, hinvoked, Option.bind_some] at hturned
      obtain ⟨hstart, hafter, hopened, htold⟩ := comesDown_of_invoked hinvoked behaviour
      obtain ⟨hroster, hlog⟩ := Invoked.told_of_turned behaviour hturned
      rw [hafter]
      refine tells_of_opened hopened (hroster.trans hstart.roster) ?_
      rw [hlog, hstart.log, htold]

/-- One that applies an implementation adds nothing before it, and is told by itself after it. -/
theorem tells_of_applied {application : Application}
    (happlied : transaction.application? host = some application) :
    Aside host application.start ∧
      Tells [(transaction, transaction.ending behaviour host)] (application.run behaviour).2
        (transaction.after behaviour host) := by
  obtain ⟨invoked, hinvoked, happlication⟩ := Option.bind_eq_some_iff.mp happlied
  obtain ⟨hstart, hafter, hopened, htold⟩ := comesDown_of_invoked hinvoked behaviour
  obtain ⟨hbefore, hroster, hlog⟩ := Invoked.told_of_applied behaviour happlication
  refine ⟨aside_silent.trans hstart hbefore, ?_⟩
  rw [hafter]
  refine tells_of_opened hopened hroster ?_
  rw [hlog, htold]

/-- Only what opened a reference ends in a way that is told under an id. -/
theorem opened_of_isTold (htold : (transaction.ending behaviour host).isTold = true) :
    ∃ reference, transaction.opened? = some reference := by
  cases transaction with
  | recover reference key => exact ⟨reference, rfl⟩
  | invoke reference arguments key => exact ⟨reference, rfl⟩
  | invokeWritten service data arguments =>
      cases hread : Reference.ofWireValue data with
      | ok reference => exact ⟨reference, by rw [opened?, hread]; rfl⟩
      | error failure =>
          rw [ending, hread] at htold
          simp only at htold
          rw [Ending.isTold_ofFailure] at htold
          cases htold
  | respond service request =>
      rw [ending] at htold
      cases horder : request.order? with
      | none =>
          rw [horder] at htold
          simp only at htold
          rw [Ending.isTold_ofAnswer] at htold
          cases htold
      | some order =>
          cases hread : Reference.ofWireForm order.reference with
          | ok reference =>
              exact ⟨reference, by rw [opened?, horder, Option.bind_some, hread]; rfl⟩
          | error failure =>
              rw [horder] at htold
              simp only at htold
              rw [hread] at htold
              simp only at htold
              rw [Ending.isTold_ofFailure] at htold
              cases htold
  | _ =>
      rw [ending, Ending.isTold_of] at htold
      cases htold

end Transaction

/-! ## Runs -/

/-- A run of transactions, from one host to another. What is aside leaves the log and the roster
alone. An applied implementation may make transactions itself, and these are told before the one
that applied it, which ends after them. -/
inductive Course (behaviour : Behaviour) : Host → Account → Host → Prop
  | idle (host : Host) : Course behaviour host [] host
  | aside {host between later : Host} {account : Account} (haside : Aside host between)
      (hrest : Course behaviour between account later) : Course behaviour host account later
  | turned {host later : Host} {transaction : Transaction} {account : Account}
      (hturned : transaction.application? host = none)
      (hrest : Course behaviour (transaction.after behaviour host) account later) :
      Course behaviour host ((transaction, transaction.ending behaviour host) :: account) later
  | applied {host later : Host} {transaction : Transaction} {application : Application}
      {within account : Account}
      (happlied : transaction.application? host = some application)
      (hwithin : Course behaviour application.start within (application.run behaviour).2)
      (hrest : Course behaviour (transaction.after behaviour host) account later) :
      Course behaviour host
        (within ++ (transaction, transaction.ending behaviour host) :: account) later

namespace Course

variable {behaviour : Behaviour} {host later : Host} {account : Account}

/-- What a run adds to log and roster is what its account tells. -/
theorem tells (hcourse : Course behaviour host account later) : account.Tells host later := by
  induction hcourse with
  | idle host => exact Account.tells_nil (aside_silent.refl host)
  | aside haside _ ih => exact (Account.tells_nil haside).append ih
  | turned hturned _ ih => exact (Transaction.tells_of_turned hturned).append ih
  | applied happlied _ _ ihwithin ihrest =>
      -- what the implementation does lies between the two halves of the invocation
      obtain ⟨haside, happlied⟩ := Transaction.tells_of_applied happlied
      exact (Account.tells_nil haside).append (ihwithin.append (happlied.append ihrest))

theorem opened_of_isTold (hcourse : Course behaviour host account later) :
    ∀ entry ∈ account, entry.2.isTold = true → ∃ reference, entry.1.opened? = some reference := by
  induction hcourse with
  | idle host => exact List.forall_mem_nil _
  | aside _ _ ih => exact ih
  | turned _ _ ih => exact List.forall_mem_cons.mpr ⟨Transaction.opened_of_isTold, ih⟩
  | applied _ _ _ ihwithin ihrest =>
      exact List.forall_mem_append.mpr
        ⟨ihwithin, List.forall_mem_cons.mpr ⟨Transaction.opened_of_isTold, ihrest⟩⟩

end Course

/-! ## What is done one after the other -/

/-- The host after transactions that are made one after the other. -/
def Host.afterTransactions (behaviour : Behaviour) (host : Host) : List Transaction → Host
  | [] => host
  | transaction :: rest => (transaction.after behaviour host).afterTransactions behaviour rest

/-- The account of one transaction, given those of the implementations that are applied. -/
def Transaction.account (behaviour : Behaviour) (within : Application → Account) (host : Host)
    (transaction : Transaction) : Account :=
  ((transaction.application? host).map within).getD [] ++
    [(transaction, transaction.ending behaviour host)]

/-- The account of transactions that are made one after the other. -/
def Host.account (behaviour : Behaviour) (within : Application → Account) (host : Host) :
    List Transaction → Account
  | [] => []
  | transaction :: rest => transaction.account behaviour within host ++
      (transaction.after behaviour host).account behaviour within rest

/-- Where what the implementations do is a run itself, so is what is done one after the other. -/
theorem Course.of_transactions {behaviour : Behaviour} {within : Application → Account}
    (hwithin : ∀ application, Course behaviour application.start (within application)
      (application.run behaviour).2) (host : Host) (transactions : List Transaction) :
    Course behaviour host (host.account behaviour within transactions)
      (host.afterTransactions behaviour transactions) := by
  induction transactions generalizing host with
  | nil => exact .idle host
  | cons transaction rest ih =>
      have hrest := ih (transaction.after behaviour host)
      rw [Host.account, Transaction.account]
      cases happlication : transaction.application? host with
      | none => exact .turned happlication hrest
      | some application =>
          rw [List.append_assoc]
          exact .applied happlication (hwithin application) hrest

/-! ## Two runs -/

namespace Transaction

/-- Whether two transactions are of one kind and about one id. Where the id has to be read, they
have to be about the same one only if it can be read in both. -/
inductive Corresponds : Transaction → Transaction → Prop
  | enrol (id : Value) (implementation implementation' : Implementation) (name name' : Value) :
      Corresponds (.enrol id implementation name) (.enrol id implementation' name')
  | bind {handle handle' : Handle} (hid : handle.id = handle'.id) (data data' : List Datum) :
      Corresponds (.bind handle data) (.bind handle' data')
  | issue (service service' : Service) (id : Value) (data data' : List Datum) :
      Corresponds (.issue service id data) (.issue service' id data')
  | sealWith {reference reference' : Reference} (hid : reference.id = reference'.id)
      (key key' : Value) : Corresponds (.sealWith reference key) (.sealWith reference' key')
  | recover {reference reference' : Reference} (hid : reference.id = reference'.id)
      (key key' : Value) : Corresponds (.recover reference key) (.recover reference' key')
  | invoke {reference reference' : Reference} (hid : reference.id = reference'.id)
      (arguments arguments' : List Datum) (key key' : Value) :
      Corresponds (.invoke reference arguments key) (.invoke reference' arguments' key')
  | invokeWritten {data data' : Value} (hid : ∀ reference reference',
        Reference.ofWireValue data = .ok reference → Reference.ofWireValue data' = .ok reference' →
          reference.id = reference'.id)
      (service service' : Service) (arguments arguments' : List Datum) :
      Corresponds (.invokeWritten service data arguments)
        (.invokeWritten service' data' arguments')
  | respond {request request' : Endpoint.Request} (hid : ∀ order order',
        request.order? = some order → request'.order? = some order' →
          order.reference.id = order'.reference.id)
      (service service' : Service) :
      Corresponds (.respond service request) (.respond service' request')

variable {one other : Transaction} {ending : Ending}

theorem openingRecords_congr
    (hone : ending.isTold = true → ∃ reference, one.opened? = some reference)
    (hother : ending.isTold = true → ∃ reference, other.opened? = some reference)
    (hid : ∀ reference reference', one.opened? = some reference →
      other.opened? = some reference' → reference.id = reference'.id) :
    one.openingRecords ending = other.openingRecords ending := by
  -- one of the two may not have been read, but then neither ending is told under an id
  cases htold : ending.isTold with
  | true =>
      obtain ⟨reference, hopened⟩ := hone htold
      obtain ⟨reference', hopened'⟩ := hother htold
      rw [openingRecords, openingRecords, hopened, hopened']
      simp only
      rw [hid reference reference' hopened hopened']
  | false =>
      have hnone : ∀ transaction : Transaction, transaction.openingRecords ending = [] := by
        intro transaction
        rw [openingRecords]
        split
        · exact Ending.records_of_not_isTold _ htold
        · rfl
      rw [hnone, hnone]

theorem eq_ok_of_toOption {α : Type} {outcome : Except Failure α} {value : α}
    (hvalue : outcome.toOption = some value) : outcome = .ok value := by
  cases outcome with
  | ok found =>
      cases hvalue
      rfl
  | error failure => cases hvalue

theorem id_of_ofWireForm {wire : WireForm} {reference : Reference}
    (hread : Reference.ofWireForm wire = .ok reference) : reference.id = .text wire.id := by
  rw [Reference.ofWireForm] at hread
  split at hread
  · cases hread
    rfl
  · cases hread

/-- Corresponding transactions that end in one way are told alike. -/
theorem Corresponds.records_eq (hcorresponds : one.Corresponds other)
    (hone : ending.isTold = true → ∃ reference, one.opened? = some reference)
    (hother : ending.isTold = true → ∃ reference, other.opened? = some reference)
    (names : Text → Option Value) (known : Text → Bool) :
    one.records names known ending = other.records names known ending := by
  cases hcorresponds with
  | enrol id implementation implementation' name name' => rfl
  | bind hid data data' => rfl
  | issue service service' id data data' => rfl
  | sealWith hid key key' => rfl
  | recover hid key key' =>
      refine openingRecords_congr hone hother ?_
      rintro _ _ ⟨⟩ ⟨⟩
      exact hid
  | invoke hid arguments arguments' key key' =>
      refine openingRecords_congr hone hother ?_
      rintro _ _ ⟨⟩ ⟨⟩
      exact hid
  | invokeWritten hid service service' arguments arguments' =>
      refine openingRecords_congr hone hother fun reference reference' hopened hopened' => ?_
      exact hid reference reference' (eq_ok_of_toOption hopened) (eq_ok_of_toOption hopened')
  | respond hid service service' =>
      refine openingRecords_congr hone hother fun reference reference' hopened hopened' => ?_
      obtain ⟨order, horder, hread⟩ := Option.bind_eq_some_iff.mp hopened
      obtain ⟨order', horder', hread'⟩ := Option.bind_eq_some_iff.mp hopened'
      rw [id_of_ofWireForm (eq_ok_of_toOption hread), id_of_ofWireForm (eq_ok_of_toOption hread'),
        hid order order' horder horder']

theorem Corresponds.learned_eq (hcorresponds : one.Corresponds other) (known : Text → Bool) :
    one.learned known ending = other.learned known ending := by
  cases hcorresponds with
  | enrol id implementation implementation' name name' => cases id <;> rfl
  | _ => rfl

end Transaction

namespace Account

/-- Whether two accounts are of corresponding transactions that end in the same ways. -/
def Alike (one other : Account) : Prop :=
  List.Forall₂ (fun entry entry' => entry.1.Corresponds entry'.1 ∧ entry.2 = entry'.2) one other

/-- Alike accounts have the same chronicle. -/
theorem Alike.chronicle_eq {one other : Account} (halike : one.Alike other)
    (hone : ∀ entry ∈ one, entry.2.isTold = true → ∃ reference, entry.1.opened? = some reference)
    (hother : ∀ entry ∈ other, entry.2.isTold = true →
      ∃ reference, entry.1.opened? = some reference)
    (names : Text → Option Value) (known : Text → Bool) :
    one.chronicle names known = other.chronicle names known := by
  induction halike generalizing known with
  | nil => rfl
  | @cons entry entry' rest rest' hentry hrest ih =>
      obtain ⟨transaction, ending⟩ := entry
      obtain ⟨transaction', ending'⟩ := entry'
      obtain ⟨hcorresponds, rfl⟩ := hentry
      obtain ⟨hfirst, hone⟩ := List.forall_mem_cons.mp hone
      obtain ⟨hfirst', hother⟩ := List.forall_mem_cons.mp hother
      rw [chronicle, chronicle, hcorresponds.records_eq hfirst hfirst' names known,
        hcorresponds.learned_eq known, ih hone hother]

end Account

/-- Logs tell nothing of values and keys. Take two runs in which corresponding transactions, in the
order of their ends, are about the same ids and end in the same ways, and which come to register the
same names. What else goes into them, the behaviour of the implementations, the data and the keys,
the nonces and the ciphertexts, can be anything, and still both runs add the same records to the
log. Whatever is done one after the other is such a run, as long as what implementations do is, and
how an invocation ends is what its outcome shows. -/
theorem corresponding_runs_log_alike :
    (∀ (behaviour : Behaviour) (within : Application → Account),
      (∀ application, Course behaviour application.start (within application)
        (application.run behaviour).2) →
      ∀ host transactions, Course behaviour host (host.account behaviour within transactions)
        (host.afterTransactions behaviour transactions)) ∧
    (∀ (invoked : Invoked) (behaviour : Behaviour),
      (invoked.ending behaviour).Shown invoked.reference.id (invoked.run behaviour).1) ∧
    ∀ (behaviour behaviour' : Behaviour) (host host' later later' : Host)
      (account account' : Account),
      Course behaviour host account later → Course behaviour' host' account' later' →
      account.Alike account' → host.roster.holds = host'.roster.holds →
      later.roster.name? = later'.roster.name? →
      ∃ records, later.log = host.log ++ records ∧ later'.log = host'.log ++ records := by
  refine ⟨fun behaviour within hwithin => .of_transactions hwithin, Invoked.ending_shown, ?_⟩
  intro behaviour behaviour' host host' later later' account account' hcourse hcourse' halike
    hholds hnames
  refine ⟨account.chronicle later.roster.name? host.roster.holds,
    hcourse.tells.log later.roster (.same _), ?_⟩
  rw [halike.chronicle_eq hcourse.opened_of_isTold hcourse'.opened_of_isTold, hholds, hnames]
  exact hcourse'.tells.log later'.roster (.same _)

/-- A bound value that is taken to be secret. -/
def Transaction.sampleSecret (secret : String) : Reference :=
  .ofSnapshot (Value.ofString "pay") (.tuple [.fixed (Value.ofString secret)])

/-- An action is enrolled and invoked, and then a sealed reference to it is opened whose nonce has
the wrong length. -/
def Transaction.sample (implementation : Implementation) (secret : String) (nonce : Octets)
    (key : Key) : List Transaction :=
  [.enrol (Value.ofString "pay") implementation .null, .invoke (sampleSecret secret) [] .null,
    .recover (.ofEnvelope (Value.ofString "pay") ⟨Value.ofString "pay", nonce, []⟩)
      (.bytes key.octets)]

/-- Implementations that raise what they are applied to. -/
def Behaviour.revealing (kind : String) : Behaviour :=
  fun _ arguments => .inspect fun host =>
    .done (.error (.raised kind (((host.memory.viewAll arguments).bind List.head?).getD .null)))

/-- The action fails with different secrets in two runs, and the logs are the same. -/
theorem corresponding_runs_log_alike_sample :
    ∃ records : List LogRecord, records.length = 3 ∧
      (Host.untouched.afterTransactions (.revealing "ValueError")
        (Transaction.sample .sample "a" [1] Reference.sampleKey)).log = records ∧
      (Host.untouched.afterTransactions (.revealing "KeyError")
        (Transaction.sample RosterScene.rival "b" [2, 3] ⟨List.replicate 32 1, rfl⟩)).log =
          records := by
  obtain ⟨hcourses, -, halike⟩ := corresponding_runs_log_alike
  have hcourse : ∀ kind transactions, Course (.revealing kind) Host.untouched
      (Host.untouched.account (.revealing kind) (fun _ => []) transactions)
      (Host.untouched.afterTransactions (.revealing kind) transactions) := fun kind transactions =>
    hcourses (.revealing kind) (fun _ => []) (fun application => .idle _) Host.untouched
      transactions
  have hnames : (Host.untouched.afterTransactions (.revealing "ValueError")
      (Transaction.sample .sample "a" [1] Reference.sampleKey)).roster.name? =
        (Host.untouched.afterTransactions (.revealing "KeyError") (Transaction.sample
          RosterScene.rival "b" [2, 3] ⟨List.replicate 32 1, rfl⟩)).roster.name? := by
    funext t
    show Roster.name? ⟨.null, [⟨Text.of "pay", .sample, Value.ofString "shop:pay"⟩]⟩ t =
      Roster.name? ⟨.null, [⟨Text.of "pay", RosterScene.rival, Value.ofString "shop:pay"⟩]⟩ t
    rw [Roster.name?, Roster.name?, Roster.find?, Roster.find?, List.find?_singleton,
      List.find?_singleton]
    split
    · rfl
    · rfl
  have hentries : Account.Alike
      (Host.untouched.account (.revealing "ValueError") (fun _ => [])
        (Transaction.sample .sample "a" [1] Reference.sampleKey))
      (Host.untouched.account (.revealing "KeyError") (fun _ => []) (Transaction.sample
          RosterScene.rival "b" [2, 3] ⟨List.replicate 32 1, rfl⟩)) :=
    .cons ⟨.enrol _ _ _ _ _, rfl⟩ (.cons ⟨.invoke (by rfl) _ _ _ _, rfl⟩
      (.cons ⟨.recover (by rfl) _ _, rfl⟩ .nil))
  obtain ⟨records, hlog, hlog'⟩ := halike _ _ _ _ _ _ _ _
    (hcourse "ValueError" _) (hcourse "KeyError" _) hentries rfl hnames
  refine ⟨records, ?_, hlog, hlog'⟩
  rw [← show _ = records from hlog]
  rfl

end SealedCall
