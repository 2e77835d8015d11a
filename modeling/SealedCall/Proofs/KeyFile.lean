import SealedCall.KeyFile
import SealedCall.Proofs.Files.Tree
import SealedCall.Proofs.KeyText
import SealedCall.Proofs.Operation

/-! # The key that a deployment keeps

There are two ways to ask for the key of a deployment, and they differ only where it has none. Both
see the same: the setting, and what the key path leads to. So a key that either gave is the key that
both give from then on, as long as the setting stays and nobody touches the key file.

A fresh key is written where the key path leads once the directories above it are made. Without a
step up nothing was there before. With one, the path may have led nowhere only for want of a
directory.
-/

namespace SealedCall

open Operation

/-- The host with other files. -/
def Host.withFiles (host : Host) (files : FileTree) : Host :=
  { host with deployment := { host.deployment with files := files } }

namespace KeyFile

variable {deployment : Deployment} {host later : Host} {key : Key} {octets : Octets} {mode : Nat}

/-! ## What a deployment has -/

/-- Whether the setting gives no key, since it is absent or blank. -/
def Unset (deployment : Deployment) : Prop :=
  ∀ raw, deployment.setting? "ACTIONSEAL_KEY" = some raw → raw.strip = []

/-- The key file counts only where the setting gives no key. -/
theorem existing_of_unset (hunset : Unset deployment) :
    existing deployment = ofFile deployment := by
  have hnone : ofSetting deployment = .ok none := by
    rw [ofSetting]
    cases hsetting : deployment.setting? "ACTIONSEAL_KEY" with
    | none => rfl
    | some raw => simp [hunset raw hsetting]
  rw [existing, hnone]

theorem existing_of_given {raw : Text} (hsetting : deployment.setting? "ACTIONSEAL_KEY" = some raw)
    (hgiven : raw.strip ≠ []) : existing deployment = (Key.decode raw).map some := by
  have hblank : raw.strip.isEmpty = false := by simpa using hgiven
  rw [existing, ofSetting, hsetting]
  simp only [hblank]
  cases Key.decode raw with
  | ok key => rfl
  | error failure => rfl

theorem map_some_ne_ok_none (outcome : Except Failure Key) : outcome.map some ≠ .ok none := by
  cases outcome <;> exact nofun

theorem unset_or_given (deployment : Deployment) : Unset deployment ∨
    ∃ raw, deployment.setting? "ACTIONSEAL_KEY" = some raw ∧ raw.strip ≠ [] := by
  by_cases hunset : Unset deployment
  · exact .inl hunset
  · simp only [Unset, not_forall] at hunset
    obtain ⟨raw, hsetting, hgiven⟩ := hunset
    exact .inr ⟨raw, hsetting, hgiven⟩

theorem ofFile_of_look_file
    (hlook : deployment.files.look deployment.keyPath = .ok (.file octets mode)) :
    ofFile deployment = (Key.ofOctets octets).map some := by
  simp only [ofFile, FileTree.holds, FileTree.read, hlook]
  change (do return some (← Key.ofOctets octets)) = _
  cases Key.ofOctets octets with
  | ok key => rfl
  | error failure => rfl

theorem ofFile_of_holds_false (hholds : deployment.files.holds deployment.keyPath = .ok false) :
    ofFile deployment = .ok none := by
  simp only [ofFile, hholds]
  rfl

/-- There is no key only where the key path leads to nothing. -/
theorem look_ne_ok_of_existing (hnone : existing deployment = .ok none) (node : Node) :
    deployment.files.look deployment.keyPath ≠ .ok node := by
  intro hlook
  rcases unset_or_given deployment with hunset | ⟨raw, hsetting, hgiven⟩
  · rw [existing_of_unset hunset] at hnone
    cases node with
    | file octets mode =>
        rw [ofFile_of_look_file hlook] at hnone
        exact map_some_ne_ok_none _ hnone
    | directory =>
        simp only [ofFile, FileTree.holds, FileTree.read, hlook] at hnone
        cases hnone
  · rw [existing_of_given hsetting hgiven] at hnone
    exact map_some_ne_ok_none _ hnone

/-! ## Asking for the key -/

theorem perform_current (host : Host) :
    current.perform host =
      (match existing host.deployment with
        | .ok (some key) => .ok key
        | .ok none => .error (.keyMaterial .notConfigured)
        | .error failure => .error failure, host) := by
  rw [current, perform_bind, perform_get]
  simp only
  cases existing host.deployment with
  | error failure => rfl
  | ok found =>
      cases found with
      | none => rfl
      | some key => rfl

theorem perform_ensure (host : Host) :
    ensure.perform host =
      match existing host.deployment with
      | .ok (some key) => (.ok key.octets, host)
      | .ok none => create.perform host
      | .error failure => (.error failure, host) := by
  rw [ensure, perform_bind, perform_get]
  simp only
  cases existing host.deployment with
  | error failure => rfl
  | ok found =>
      cases found with
      | none => rfl
      | some key => rfl

/-- Making a key: the directories above the key file, a draw, and the key file itself. What was made
before a fault stays. -/
theorem perform_create (host : Host) :
    create.perform host =
      match host.deployment.files.withDirectory host.deployment.keyPath.parent with
      | (files, some (fault, place)) =>
        (.error (.misuse (.file fault place.toText)), host.withFiles files)
      | (files, none) =>
        match files.write host.deployment.keyPath (host.random.draw Aead.keyLength).1 ownerOnly with
        | .ok written =>
          (.ok (host.random.draw Aead.keyLength).1,
            { host.withFiles written with random := (host.random.draw Aead.keyLength).2 })
        | .error fault =>
          (.error (.misuse (.file fault host.deployment.keyPath.toText)),
            { host.withFiles files with random := (host.random.draw Aead.keyLength).2 }) := by
  rw [create, perform_bind, perform_get]
  simp only
  rw [perform_bind, perform_get]
  simp only
  obtain ⟨files, fault⟩ := host.deployment.files.withDirectory host.deployment.keyPath.parent
  cases fault with
  | some fault => rfl
  | none =>
      simp only [changeFiles, perform_bind, perform_modify, perform_pure, perform_draw, perform_get,
        perform_ofExcept]
      cases files.write host.deployment.keyPath (host.random.draw Aead.keyLength).1 ownerOnly with
      | ok written => rfl
      | error fault => rfl

/-! ## What stays true -/

/-- Whether the setting and what the key path leads to have stayed the same. -/
def Undisturbed (host later : Host) : Prop :=
  later.deployment.environment = host.deployment.environment ∧
    later.deployment.files.look host.deployment.keyPath =
      host.deployment.files.look host.deployment.keyPath

theorem setting?_congr (hsame : later.deployment.environment = host.deployment.environment)
    (name : String) : later.deployment.setting? name = host.deployment.setting? name := by
  rw [Deployment.setting?, hsame, Deployment.setting?]

theorem keyPath_congr (hsame : later.deployment.environment = host.deployment.environment) :
    later.deployment.keyPath = host.deployment.keyPath := by
  rw [Deployment.keyPath, setting?_congr hsame, Deployment.keyPath]

/-- What a deployment has is settled by the setting and by what the key path leads to. -/
theorem Undisturbed.existing_eq (hsame : Undisturbed host later) :
    existing later.deployment = existing host.deployment := by
  obtain ⟨hsettings, hlook⟩ := hsame
  have hsetting : ofSetting later.deployment = ofSetting host.deployment := by
    rw [ofSetting, setting?_congr hsettings, ofSetting]
  have hfile : ofFile later.deployment = ofFile host.deployment := by
    simp only [ofFile, FileTree.holds, FileTree.read, keyPath_congr hsettings, hlook]
  rw [existing, hsetting, hfile, existing]

/-- The two ways to ask for the key. -/
inductive Lookup
  | current
  | ensure

def Lookup.operation : Lookup → Operation Octets
  | .current => do return (← KeyFile.current).octets
  | .ensure => KeyFile.ensure

/-- Lookups one after the other with their answers, while all else goes on as it likes but leaves
alone the settings and the key file. -/
inductive Lookups : Host → List (Except Failure Octets) → Host → Prop
  | none (host : Host) : Lookups host [] host
  | meanwhile {host between later : Host} {answers : List (Except Failure Octets)}
      (hsame : Undisturbed host between) (hrest : Lookups between answers later) :
      Lookups host answers later
  | asked {host later : Host} {answers : List (Except Failure Octets)} (lookup : Lookup)
      (hrest : Lookups (lookup.operation.perform host).2 answers later) :
      Lookups host ((lookup.operation.perform host).1 :: answers) later

/-- Either way of asking gives the key that there is, and changes nothing. -/
theorem perform_lookup (hkey : existing host.deployment = .ok (some key)) (lookup : Lookup) :
    lookup.operation.perform host = (.ok key.octets, host) := by
  cases lookup with
  | current =>
      rw [Lookup.operation, perform_bind, perform_current, hkey]
      rfl
  | ensure => rw [Lookup.operation, perform_ensure, hkey]

/-- A key that is there is the answer to every lookup that follows. -/
theorem Lookups.answers_eq {answers : List (Except Failure Octets)}
    (hlookups : Lookups host answers later) (hkey : existing host.deployment = .ok (some key)) :
    ∀ answer ∈ answers, answer = .ok key.octets := by
  induction hlookups with
  | none host => exact nofun
  | meanwhile hsame hrest ih => exact ih (hsame.existing_eq.trans hkey)
  | asked lookup hrest ih =>
      rw [perform_lookup hkey] at ih ⊢
      exact List.forall_mem_cons.mpr ⟨rfl, ih hkey⟩

/-- What making a key leaves behind when it succeeds: the drawn octets, which the key path leads
to. -/
theorem create_eq_ok (hcreate : create.perform host = (.ok octets, later)) :
    octets = (host.random.draw Aead.keyLength).1 ∧
      later.deployment.environment = host.deployment.environment ∧
      later.deployment.files.look host.deployment.keyPath = .ok (.file octets ownerOnly) := by
  rw [perform_create] at hcreate
  split at hcreate
  · cases hcreate
  · split at hcreate
    · next files _ _ written hwritten =>
        cases hcreate
        exact ⟨rfl, rfl, FileTree.look_of_write hwritten⟩
    · cases hcreate

/-- Once a key was given or made, it is there. -/
theorem existing_of_ensure (hlength : (host.random.draw Aead.keyLength).1.length = Aead.keyLength)
    (hensure : ensure.perform host = (.ok octets, later)) :
    ∃ key : Key, key.octets = octets ∧ existing later.deployment = .ok (some key) := by
  rw [perform_ensure] at hensure
  split at hensure
  · next key hkey =>
      cases hensure
      exact ⟨key, rfl, hkey⟩
  · next hnone =>
      obtain ⟨rfl, hsettings, hlook⟩ := create_eq_ok hensure
      refine ⟨⟨_, hlength⟩, rfl, ?_⟩
      have hunset : Unset later.deployment := by
        rcases unset_or_given host.deployment with hunset | ⟨raw, hsetting, hgiven⟩
        · intro raw hsetting
          exact hunset raw (setting?_congr hsettings _ ▸ hsetting)
        · rw [existing_of_given hsetting hgiven] at hnone
          exact absurd hnone (map_some_ne_ok_none _)
      rw [← keyPath_congr hsettings] at hlook
      rw [existing_of_unset hunset, ofFile_of_look_file hlook, Key.ofOctets, dif_pos hlength]
      rfl
  · cases hensure

/-- What becomes of the files when the key is asked for with leave to make it: nothing, or
directories, or directories and then the key file. -/
theorem files_of_ensure (host : Host) :
    (ensure.perform host).2.deployment.files = host.deployment.files ∨
      existing host.deployment = .ok none ∧ ∃ made, host.deployment.files.Grows made ∧
        ((ensure.perform host).2.deployment.files = made ∨
          made.write host.deployment.keyPath (host.random.draw Aead.keyLength).1 ownerOnly =
            .ok (ensure.perform host).2.deployment.files) := by
  rw [perform_ensure]
  split
  · exact .inl rfl
  · next hnone =>
      refine .inr ⟨hnone, _, FileTree.grows_withDirectory host.deployment.files
        host.deployment.keyPath.parent, ?_⟩
      rw [perform_create]
      obtain ⟨made, fault⟩ :=
        host.deployment.files.withDirectory host.deployment.keyPath.parent
      cases fault with
      | some fault => exact .inl rfl
      | none =>
          cases hwritten : made.write host.deployment.keyPath
              (host.random.draw Aead.keyLength).1 ownerOnly with
          | error fault => simp [hwritten, Host.withFiles]
          | ok written => simp [hwritten, Host.withFiles]
  · exact .inl rfl

theorem grounded_ensure (hgrounded : host.deployment.files.Grounded) :
    (ensure.perform host).2.deployment.files.Grounded := by
  rcases files_of_ensure host with hsame | ⟨-, made, hmade, hsame | hwritten⟩
  · rwa [hsame]
  · rw [hsame]
    exact hmade.grounded hgrounded
  · exact (hmade.grounded hgrounded).write hwritten

/-- Asking for the key with leave to make it only adds to the files, where the key path is
steady. -/
theorem grows_ensure (hgrounded : host.deployment.files.Grounded)
    (hsteady : host.deployment.files.Steady host.deployment.keyPath) :
    host.deployment.files.Grows (ensure.perform host).2.deployment.files := by
  rcases files_of_ensure host with hsame | ⟨hnone, made, hmade, hsame | hwritten⟩
  · rw [hsame]
    exact FileTree.grows_accumulates.refl _
  · rwa [hsame]
  · exact hmade.write hgrounded hsteady (look_ne_ok_of_existing hnone) hwritten

/-! ## The two ways agree -/

/-- Whether the directories above the key file can be made, and then the key file. -/
def CanCreate (deployment : Deployment) : Prop :=
  ∃ files location, deployment.files.withDirectory deployment.keyPath.parent = (files, none) ∧
    files.locate deployment.keyPath = .ok location ∧ files.node? location ≠ some .directory

theorem perform_create_of_canCreate (hcan : CanCreate host.deployment) :
    (create.perform host).1 = .ok (host.random.draw Aead.keyLength).1 := by
  obtain ⟨files, location, hdirectory, hlocate, hnode⟩ := hcan
  have hwritten : files.write host.deployment.keyPath (host.random.draw Aead.keyLength).1
      ownerOnly = .ok _ := FileTree.write_eq_ok_iff.mpr ⟨location, hlocate, hnode, rfl⟩
  rw [perform_create, hdirectory]
  simp only [hwritten]

/-- Where a lookup fails before it looks for a file to make, both ways fail with it. -/
theorem perform_of_existing_error {failure : Failure}
    (hrefused : existing host.deployment = .error failure) :
    current.perform host = (.error failure, host) ∧
      ensure.perform host = (.error failure, host) := by
  rw [perform_current, perform_ensure, hrefused]
  exact ⟨rfl, rfl⟩

theorem perform_of_bad_setting {raw : Text}
    (hsetting : host.deployment.setting? "ACTIONSEAL_KEY" = some raw) (hgiven : raw.strip ≠ [])
    (hbad : ∀ key, Key.decode raw ≠ .ok key) :
    ∃ fault, current.perform host = (.error (.keyMaterial fault), host) ∧
      ensure.perform host = (.error (.keyMaterial fault), host) := by
  cases hread : Key.decode raw with
  | ok key => exact absurd hread (hbad key)
  | error failure =>
      obtain ⟨fault, rfl⟩ := Key.decode_error hread
      refine ⟨fault, perform_of_existing_error ?_⟩
      rw [existing_of_given hsetting hgiven, hread]
      rfl

theorem perform_of_bad_file (hunset : Unset host.deployment)
    (hlook : host.deployment.files.look host.deployment.keyPath = .ok (.file octets mode))
    (hlength : octets.length ≠ Aead.keyLength) :
    current.perform host = (.error (.keyMaterial .wrongLength), host) ∧
      ensure.perform host = (.error (.keyMaterial .wrongLength), host) := by
  refine perform_of_existing_error ?_
  rw [existing_of_unset hunset, ofFile_of_look_file hlook, Key.ofOctets, dif_neg hlength]
  rfl

/-- Nothing is made where the key path leads to something already. -/
theorem ensure_of_look {node : Node}
    (hlook : host.deployment.files.look host.deployment.keyPath = .ok node) :
    (ensure.perform host).2 = host := by
  rw [perform_ensure]
  split
  · rfl
  · next hnone => exact absurd hlook (look_ne_ok_of_existing hnone node)
  · rfl

theorem ensure_of_current (hcurrent : (current.perform host).1 = .ok key) :
    ensure.perform host = (.ok key.octets, host) := by
  rw [perform_current] at hcurrent
  rw [perform_ensure]
  split at hcurrent
  · cases hcurrent
    rfl
  · cases hcurrent
  · cases hcurrent

/-- How the two ways to ask for the key agree. To ask only for the key that there is changes
nothing, and where that gives a key, to ask with leave to make one gives the same key and changes
nothing either, draws included. Whatever key was given or made with that leave is the answer to all
lookups that follow, as long as the settings and the key file are left alone. A setting that is no
key, or in want of a setting a key file that is none, makes both fail for the key material and
change nothing. A file that the key path leads to is not changed. Grounded files stay grounded, and
where the key path is steady nothing in them is changed: they are only added to. Where there is no
key and one can be made, one is made from the octets drawn. -/
theorem lookups_agree (host : Host)
    (hdraw : (host.random.draw Aead.keyLength).1.length = Aead.keyLength) :
    (current.perform host).2 = host ∧
    (∀ key, (current.perform host).1 = .ok key → ensure.perform host = (.ok key.octets, host)) ∧
    (∀ octets later answers last, ensure.perform host = (.ok octets, later) →
      Lookups later answers last → ∀ answer ∈ answers, answer = .ok octets) ∧
    (∀ raw, host.deployment.setting? "ACTIONSEAL_KEY" = some raw → raw.strip ≠ [] →
      (∀ key, Key.decode raw ≠ .ok key) →
        ∃ fault, current.perform host = (.error (.keyMaterial fault), host) ∧
          ensure.perform host = (.error (.keyMaterial fault), host)) ∧
    (∀ octets mode, Unset host.deployment →
      host.deployment.files.look host.deployment.keyPath = .ok (.file octets mode) →
      octets.length ≠ Aead.keyLength →
        current.perform host = (.error (.keyMaterial .wrongLength), host) ∧
          ensure.perform host = (.error (.keyMaterial .wrongLength), host)) ∧
    (∀ octets mode,
      host.deployment.files.look host.deployment.keyPath = .ok (.file octets mode) →
        (ensure.perform host).2 = host) ∧
    (host.deployment.files.Grounded →
      (ensure.perform host).2.deployment.files.Grounded ∧
        (host.deployment.files.Steady host.deployment.keyPath →
          host.deployment.files.Grows (ensure.perform host).2.deployment.files)) ∧
    (Unset host.deployment → host.deployment.files.holds host.deployment.keyPath = .ok false →
      CanCreate host.deployment →
        (ensure.perform host).1 = .ok (host.random.draw Aead.keyLength).1) := by
  refine ⟨?_, fun key hcurrent => ensure_of_current hcurrent, ?_,
    fun raw hsetting hgiven hbad => perform_of_bad_setting hsetting hgiven hbad,
    fun octets mode hunset hlook hlength => perform_of_bad_file hunset hlook hlength,
    fun octets mode hlook => ensure_of_look hlook,
    fun hgrounded => ⟨grounded_ensure hgrounded, grows_ensure hgrounded⟩, ?_⟩
  · rw [perform_current]
  · intro octets later answers last hensure hlookups
    obtain ⟨key, rfl, hkey⟩ := existing_of_ensure hdraw hensure
    exact hlookups.answers_eq hkey
  · intro hunset hholds hcan
    rw [perform_ensure, existing_of_unset hunset, ofFile_of_holds_false hholds]
    exact perform_create_of_canCreate hcan

/-- A host on which nothing has happened yet, with settings and with one file in its working
directory. -/
def hostWith (settings : List (String × String)) (name : String) (octets : Octets) : Host :=
  { Host.untouched with
    deployment :=
      { environment := settings.map fun entry => (Text.of entry.1, Text.of entry.2)
        files := ⟨FileTree.put ⟨.working 0, [Text.of name]⟩ (.file octets readable)
          FileTree.empty.nodes⟩
        components := []
        isExporting := false } }

theorem grounded_hostWith (settings : List (String × String)) (name : String) (octets : Octets) :
    (hostWith settings name octets).deployment.files.Grounded :=
  FileTree.grounded_empty.put rfl nofun

/-- Where the key file and its directory are missing, the key is made from the octets drawn, the
other file stays, and whoever asks next gets the same key. A setting that is no base64 and a key
file that is too short make both ways fail. -/
theorem lookups_agree_sample :
    (∃ later, ensure.perform (hostWith [("ACTIONSEAL_KEY_FILE", "keys/k")] "other" [7]) =
        (.ok (List.replicate 32 0), later) ∧
      later.deployment.files.node? ⟨.working 0, [Text.of "other"]⟩ = some (.file [7] readable) ∧
      (Lookup.current.operation.perform later).1 = .ok (List.replicate 32 0)) ∧
    (∃ fault, (ensure.perform (hostWith [("ACTIONSEAL_KEY", "not*base64")] "other" [7])).1 =
      .error (.keyMaterial fault)) ∧
    (ensure.perform (hostWith [("ACTIONSEAL_KEY_FILE", "k")] "k" [7])).1 =
      .error (.keyMaterial .wrongLength) := by
  refine ⟨?_, ?_, ?_⟩
  · obtain ⟨-, -, hlookups, -, -, -, hgrows, hmade⟩ :=
      lookups_agree (hostWith [("ACTIONSEAL_KEY_FILE", "keys/k")] "other" [7]) rfl
    have hensure := hmade nofun rfl ⟨_, _, rfl, rfl, by decide⟩
    have hgrown := (hgrows (grounded_hostWith _ _ _)).2 (FileTree.isSteady_of_plain (by decide))
    refine ⟨_, Prod.ext hensure rfl, hgrown.kept _ _ rfl, ?_⟩
    exact hlookups _ _ _ _ (Prod.ext hensure rfl) (.asked .current (.none _)) _
      List.mem_cons_self
  · obtain ⟨-, -, -, hsetting, -⟩ :=
      lookups_agree (hostWith [("ACTIONSEAL_KEY", "not*base64")] "other" [7]) rfl
    obtain ⟨fault, -, hensure⟩ := hsetting (Text.of "not*base64") rfl (by decide) nofun
    exact ⟨fault, congrArg Prod.fst hensure⟩
  · obtain ⟨-, -, -, -, hfile, -⟩ :=
      lookups_agree (hostWith [("ACTIONSEAL_KEY_FILE", "k")] "k" [7]) rfl
    exact congrArg Prod.fst (hfile [7] readable nofun rfl (by decide)).2

/-- A host whose setting gives a key and whose key file is too short. -/
def overruled : Host :=
  hostWith [("ACTIONSEAL_KEY", "AAAAAAAAAAAAAAAAAAAAAAAAAAAAAAAAAAAAAAAAAAA="),
    ("ACTIONSEAL_KEY_FILE", "k")] "k" [7]

/-- A host whose key path steps up from a missing directory, and then on to a file with a key. -/
def detoured : Host :=
  hostWith [("ACTIONSEAL_KEY_FILE", "a/../b")] "b" (List.replicate 32 0xFF)

/-- What cannot be said of all hosts. A key file that is too short makes neither way fail where the
setting gives a key. And a file with a key is written over where the key path leads to it only once
the missing directory is made. -/
theorem lookups_not_always_agree :
    (overruled.deployment.files.look overruled.deployment.keyPath = .ok (.file [7] readable) ∧
      (current.perform overruled).1.map Key.octets = .ok (List.replicate 32 0) ∧
      (ensure.perform overruled).1 = .ok (List.replicate 32 0)) ∧
    detoured.deployment.files.read (FilePath.ofText (Text.of "b")) =
      .ok (List.replicate 32 0xFF) ∧
    (ensure.perform detoured).1 = .ok (List.replicate 32 0) ∧
    (ensure.perform detoured).2.deployment.files.read (FilePath.ofText (Text.of "b")) =
      .ok (List.replicate 32 0) ∧
    (ensure.perform detoured).2.deployment.files.read detoured.deployment.keyPath =
      .ok (List.replicate 32 0) :=
  ⟨⟨rfl, rfl, rfl⟩, rfl, rfl, rfl, rfl⟩

end KeyFile

end SealedCall
