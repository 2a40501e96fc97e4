import UbixOS.Pkg.Confined
import UbixOS.Ubpkg.Tar

/-! The modes that an install gives: the reader refuses set-id bits in the headers of the archive,
but the modes come from the manifest. -/
namespace UbixOS.Pkg

open Library (Prog Fallible)
open Library Library.Files Library.Prog Only Safe

variable {file : Archive} {m : PkgManifest}

lemma honest (c : Call β) (s : State) : answers c s ((exec c).run s).1 ((exec c).run s).2 := .inl rfl

def Call.modes : {β : Type} → Call β → List Nat
  | _, .mkdir _ mode | _, .create _ mode | _, .chmod _ mode => [mode]
  | _, _ => []

def SETID : Nat := 0o6000

def Unset {β : Type} (c : Call β) : Prop := ∀ mode ∈ c.modes, mode &&& SETID = 0

def PkgManifest.Unset (m : PkgManifest) : Prop := ∀ e ∈ m.entries, e.type ≠ .link → e.mode &&& SETID = 0

instance (m : PkgManifest) : Decidable m.Unset := inferInstanceAs (Decidable (∀ e ∈ m.entries, _))

lemma unset_of_none (none : c.modes = []) : Unset c := by
  intro mode inside
  simp [none] at inside

lemma unset_mode (is : c.modes = [mode]) (unset : mode &&& SETID = 0) : Unset c := by
  intro mode' inside
  rw [is] at inside
  rw [List.mem_singleton.mp inside]
  exact unset

lemma Placing.unset (placing : Placing A m.toManifest c) (unset : m.Unset) : Unset c := by
  cases placing with
  | parent | create => exact unset_mode rfl (by decide)
  | dir member type | chmod member type => exact unset_mode rfl (unset _ member (by simp [type]))
  | write | close | rename | symlink | unlink | lstat | openJournal | appendJournal => exact unset_of_none rfl

lemma Locking.unset (locking : Locking A c) : Unset c := by
  cases locking with
  | dir | create => exact unset_mode rfl (by decide)
  | write | close | unlink => exact unset_of_none rfl

lemma Staging.unset (staging : Staging name c) : Unset c := by
  cases staging <;> exact unset_of_none rfl

lemma Erasing.unset (erasing : Erasing name c) : Unset c := by
  cases erasing <;> exact unset_of_none rfl

lemma look_unset (looks : c.mutates = false) : Unset c := by
  cases c with
  | lstat | readJournal | installed | readFile | readFiles | check => exact unset_of_none rfl
  | _ => cases looks

lemma recover_unset {env : Env} : (journalRecover env.removing).Only A Unset :=
  recover_only look_unset (fun _ => unset_of_none rfl) (fun _ => unset_of_none rfl) Staging.unset Erasing.unset
    (unset_of_none rfl)

lemma addPackage_unset (unset : m.Unset) : (addPackage host file txt m).Only A Unset := by
  have begins : (journalBegin addVerb m.name).Only A Unset :=
    bind (perform (unset_of_none rfl)) fun _ => perform (unset_of_none rfl)
  have places : (do
      extractAll host.toEnv.removing m.toManifest file.ending file.members []
      record (file.package txt m) : Code Unit).Only A Unset :=
    bind (extractAll_only.mono fun placing => placing.unset unset) fun _ =>
      record_only Staging.unset (unset_of_none rfl)
  refine bind (perform (look_unset rfl)) fun _ => bind begins fun _ => bind places.attempt fun r => ?_
  cases r with
  | ok => exact Only.bind (Only.perform (unset_of_none rfl)).attempt fun _ => trivial
  | error e => exact bind recover_unset.attempt fun _ => trivial

lemma add_unset (unset : ∀ txt m, file.manifest = .ok txt → manifestParse txt = some m → m.Unset) :
    ((Command.add signature file).code host).Only A Unset := by
  have body : (addBody host signature file).Only A Unset := by
    rw [addBody.eq_def]
    refine bind (makeDirs_only fun d _ _ => unset_mode rfl (by decide)) fun _ => bind recover_unset fun _ => ?_
    cases signature with
    | error e => trivial
    | ok =>
      cases manifest : file.manifest with
      | error e => trivial
      | ok txt =>
        dsimp only
        split
        next => trivial
        next m parsed => exact addPackage_unset (unset txt m manifest parsed)
  refine bind (lockTake_only.mono Locking.unset) fun fd => bind body.attempt fun r => ?_
  refine bind (lockDrop_only.mono Locking.unset) fun _ => ?_
  cases r <;> trivial

/-- The entries of the archive's manifest are in the tree. -/
def Placed (env : Env) (file : Archive) (s : State) : Prop :=
  ∃ txt m, file.manifest = .ok txt ∧ manifestParse txt = some m ∧ ∀ e ∈ m.entries, e.Stands env s.tree

lemma install_places (passed : Passed host m s) : (install env (file.package txt m)).Safe answers (fun _ => True)
    (ends (fun _ s' => ∀ e ∈ m.entries, e.Stands env s'.tree) fun _ => True) (s.begin m.name) := by
  have admitted := passed.admitted
  have good : Good env s.tree m.toManifest False [] [] none s.tree := begin_good admitted
  have placed : (do
      extractAll env m.toManifest file.ending file.members []
      record (file.package txt m) : Code Unit).Safe answers (fun _ => True)
        (ends (fun _ => Committed env s.tree m.toManifest False) (Open s.tree m.toManifest)) (s.begin m.name) := by
    refine seq (extract_safe (fun _ _ => trivial) admitted (begin_ready.mpr passed.fresh) good (fun never => never.elim)
      List.nodup_nil nofun) fun _ u ready => ?_
    exact record_safe (fun _ _ => trivial) rfl (fun _ _ => trivial) ready
  rw [install]
  refine inspect placed fun r u post => ?_
  cases r with
  | ok =>
    refine inspect (Q := fun _ s' => s'.tree = u.tree) (perform trivial fun r s' answer =>
      ⟨trivial,?_⟩) fun _ s' same => ⟨trivial,?_⟩
    · exact answers_still rfl answer
    intro e member
    rw [same]
    exact post.added.stands member
  | error e => exact inspect (top _ _) fun _ _ _ => ⟨trivial,trivial⟩

lemma begin_places : (journalBegin addVerb name).Safe answers (fun _ => True)
    (ends (fun _ s' => s' = s.begin name) fun _ => True) s := by
  rw [journalBegin]
  refine seq (Q := fun _ s' => s' = { s with journal := some [] }) (perform trivial fun r s' answer => ⟨trivial,?_⟩) ?_
  · rcases answer with ran | ⟨-,⟨e,rfl⟩,-⟩
    · cases ran
      rfl
    · trivial
  rintro - s' rfl
  refine perform trivial fun r s' answer => ⟨trivial,?_⟩
  rcases answer with ran | ⟨-,⟨e,rfl⟩,-⟩
  · cases ran
    rfl
  · trivial

lemma addPackage_places : (addPackage host file txt m).Safe answers (fun _ => True)
    (ends (fun _ s' => ∀ e ∈ m.entries, e.Stands host.toEnv.removing s'.tree) fun _ => True) s := by
  rw [addPackage]
  refine seq (Q := fun _ s' => s' = s ∧ Passed host m s) (perform trivial fun r s' answer => ⟨trivial,?_⟩) ?_
  · obtain ⟨ran,rfl⟩ := answers_look rfl answer
    cases r with
    | error => trivial
    | ok => exact ⟨rfl,Host.preflight_passed (congrArg Prod.fst ran)⟩
  · rintro - s' ⟨rfl,passed⟩
    refine seq begin_places ?_
    rintro - s'' rfl
    exact install_places passed

lemma addBody_places : (addBody host signature file).Safe answers (fun _ => True)
    (ends (fun _ => Placed host.toEnv.removing file) fun _ => True) s := by
  have free : ∀ (x : Code Unit) (s : State), x.Safe answers (fun _ => True) (ends (fun _ _ => True) fun _ => True) s :=
    fun x s => (top x s).mono fun r _ _ => by cases r <;> trivial
  rw [addBody.eq_def]
  refine seq (free _ _) fun _ s₁ _ => seq (free _ _) fun _ s₂ _ => ?_
  cases signature with
  | error e => exact ⟨trivial,trivial⟩
  | ok =>
    cases manifest : file.manifest with
    | error e => exact ⟨trivial,trivial⟩
    | ok txt =>
      dsimp only
      split
      next => exact ⟨trivial,trivial⟩
      next m parsed =>
        refine addPackage_places.mono fun r s' post => ?_
        cases r with
        | error => trivial
        | ok => exact ⟨txt,m,manifest,parsed,post⟩

/-- An install gives no set-id bit, from whatever state and with whatever failures, if the manifest
in the archive has none; and a package that is installed has its files with the modes of the
manifest. -/
theorem add_setid (stream : Bytes) (overrun : Errno) (host : Host) (signature : Except Errno Unit) (s : State) :
    ((∀ txt m, (Archive.read (.add stream overrun)).manifest = .ok txt → manifestParse txt = some m → m.Unset) →
      ∀ {β : Type} (c : Call β) u v,
        ((Command.add signature (.read (.add stream overrun))).code host).Makes answers c u v s → Unset c) ∧
    ∀ s', ((addBody host signature (.read (.add stream overrun))).interp exec).run s = (.ok (),s') →
      ∃ txt m, (Archive.read (.add stream overrun)).manifest = .ok txt ∧ manifestParse txt = some m ∧
        ∀ e ∈ m.entries, e.type = .file → ∃ data, s'.tree.find e.path.val = some (.file e.mode data) := by
  refine ⟨fun unset β c u v made => ?_,fun s' ran => ?_⟩
  · exact (add_unset (A := fun _ _ => True) unset).makes (fun _ => trivial) made
  have places : (addBody host signature (.read (.add stream overrun))).Safe answers _ _ s := addBody_places
  have ended := places.interp honest
  rw [ran] at ended
  obtain ⟨txt,m,manifest,parsed,stands⟩ := ended
  refine ⟨txt,m,manifest,parsed,fun e member type => ?_⟩
  have here := stands e member
  rw [MEntry.Stands,if_neg (by simp [type])] at here
  obtain ⟨node,found,fits⟩ := here
  cases node with
  | file mode data =>
    obtain ⟨-,rfl,-⟩ := fits
    exact ⟨data,found⟩
  | dir mode | link target => exact absurd (type.symm.trans fits.1) (by decide)

namespace Hidden

def path : Bytes := ascii "usr/local/a"

/-- One file, with this mode. -/
def manifest (mode : Bytes) : Bytes :=
  ascii "name: a\nversion: 1\narch: aarch64\nabi: 3\nfile: " ++ mode ++ ascii " 1 " ++
    hexEncode (List.replicate 32 7) ++ ascii " usr/local/a\n"

def packed (mode : Bytes) : Bytes :=
  Ubpkg.tarHeader 48 manifestName [] 0o644 (manifest mode).length 0 ++ manifest mode ++
    Ubpkg.tarPad (manifest mode).length ++ Ubpkg.tarHeader 48 path [] 0o755 1 0 ++ [120] ++ Ubpkg.tarPad 1 ++
    List.replicate 1024 0

def machine : Host := { Rooted.machine with arch := ascii "aarch64", sha256 := fun _ => List.replicate 32 7 }

def ended (mode : Bytes) : Except Errno Unit × State :=
  (((Command.add (.ok ()) (.read (.add (packed mode) .EINVAL))).code machine).interp exec).run Rooted.system

end Hidden

theorem add_setid_plain : (Hidden.ended (ascii "0755")).1 = .ok () ∧ ∀ {β : Type} (c : Call β) u v,
    ((Command.add (.ok ()) (.read (.add (Hidden.packed (ascii "0755")) .EINVAL))).code Hidden.machine).Makes answers
      c u v Rooted.system → Unset c := by
  refine ⟨by decide +kernel,(add_setid _ _ _ _ _).1 fun txt m read parsed => ?_⟩
  have unset : ((Archive.read (.add (Hidden.packed (ascii "0755")) .EINVAL)).manifest.toOption.bind manifestParse).all
      (fun m => decide m.Unset) = true := by
    decide +kernel
  simpa [read,parsed,Except.toOption] using unset

/-- A mode that the reader would refuse in a header comes through the manifest. -/
theorem manifest_mode_installed : (Hidden.ended (ascii "4755")).1 = .ok () ∧
    (Hidden.ended (ascii "4755")).2.tree.find (usrLocal ++ [[97]]) = some (.file 0o4755 [120]) ∧
    0o4755 &&& SETID ≠ 0 := by
  decide +kernel

end UbixOS.Pkg
