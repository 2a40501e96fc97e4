import UbixOS.Pkg.Depends

/-! What the database says about the files: the list of a package that has just been installed, and
the owners of a path. -/
namespace UbixOS.Pkg

open Library Library.Files Library.Prog Function List

def Records.files (records : Records) (n : Name) : List FRec :=
    (((records n).bind (·.get .files)).bind readFlist).getD []

def Records.base (records : Records) : List FRec := (((records baseName).bind (·.get .manifest)).bind readFlist).getD []

def Records.installed (records : Records) (n : Name) : Prop :=
    nameIsValid n = true ∧ ((records n).bind (·.get .manifest)).isSome

open Records (installed files base)

lemma files_record (s : State) (n : Name) : Records.files s.record n = s.files n := rfl

/-- No file or link has two owners. -/
structure Apart (records : Records) : Prop where
  packages : ∀ {n n'}, records.installed n → records.installed n' → n ≠ n' →
    ∀ p ∈ owned (records.files n), p ∉ owned (records.files n')
  base : ∀ {n}, records.installed n → ∀ p ∈ owned (records.files n), p ∉ owned records.base

/-- The list of the manifest is read back as it is. -/
def Faithful (m : PkgManifest) : Prop :=
    (writeFiles m.toManifest).length ≤ PKG_MANIFEST_MAX ∧ ∀ e ∈ m.entries, e.Legible

instance (e : MEntry) : Decidable e.Legible := inferInstanceAs (Decidable (_ → ¬_))

instance (m : PkgManifest) : Decidable (Faithful m) := inferInstanceAs (Decidable (_ ∧ ∀ e ∈ m.entries, _))

variable {s s' t : State}

lemma installed_iff : s.installed n = true ↔ ((s.record n).bind (·.get .manifest)).isSome := by
  simp only [State.installed,decide_eq_true_eq]
  cases s.record n with
  | none => simp
  | some r => simp [Record.get]

lemma Fewer.installed (fewer : Fewer old new) (there : installed new n) : installed old n := by
  refine ⟨there.1,?_⟩
  rcases fewer n .manifest with same | gone
  · exact same ▸ there.2
  · simp [Records.installed,gone] at there

lemma Fewer.files (fewer : Fewer old new) (listed : p ∈ owned (Records.files new n)) :
    p ∈ owned (Records.files old n) := by
  rcases fewer n .files with same | gone
  · rwa [Records.files,same] at listed
  · simp [Records.files,gone,owned] at listed

lemma Fewer.base (fewer : Fewer old new) (listed : p ∈ owned (Records.base new)) : p ∈ owned (Records.base old) := by
  rcases fewer baseName .manifest with same | gone
  · rwa [Records.base,same] at listed
  · simp [Records.base,gone,owned] at listed

lemma apart_erase (apart : Apart old) (fewer : Fewer old new) : Apart new :=
  ⟨fun there there' other p listed listed' => apart.packages (fewer.installed there) (fewer.installed there') other p
    (fewer.files listed) (fewer.files listed'),
    fun there p listed listed' => apart.base (fewer.installed there) p (fewer.files listed) (fewer.base listed')⟩

lemma mem_owned {entries : List MEntry} (listed : p ∈ owned (entries.map MEntry.frec)) :
    ∃ e ∈ entries, e.path.val = p := by
  simp only [owned,mem_map,mem_filter] at listed
  obtain ⟨f,⟨⟨e,member,rfl⟩,-⟩,rfl⟩ := listed
  exact ⟨e,member,rfl⟩

lemma mem_owners (lists : Lists host s.record) (loaded : host.owners s = some own) :
    (∀ n, installed s.record n → ∀ p ∈ owned (files s.record n), p ∈ own) ∧ ∀ p ∈ owned (base s.record), p ∈ own := by
  rw [Host.owners,Option.map_eq_some_iff] at loaded
  obtain ⟨all,read,rfl⟩ := loaded
  refine ⟨fun n there p listed => mem_append_left _ ?_,fun p listed => mem_append_right _ listed⟩
  have member : n ∈ host.list s := by
    simp only [Host.list,mem_filter,Bool.and_eq_true]
    exact ⟨lists n there.2,there.1,installed_iff.mpr there.2⟩
  obtain ⟨fl,inside,found⟩ := (Text.mapM_mem read).2 _ member
  have files : files s.record n = fl := by
    rw [files_record,State.files,found]
    rfl
  exact mem_flatten.mpr ⟨owned fl,mem_map_of_mem inside,files ▸ listed⟩

lemma Passed.unowned (passed : Passed host m s) :
    ∃ own, host.owners s = some own ∧ ∀ e ∈ m.entries, e.path.val ∉ own := by
  obtain ⟨own,loaded,each⟩ := passed.entries
  refine ⟨own,loaded,fun e member => ?_⟩
  have checked := each e member
  rw [checkEntry] at checked
  split_ifs at checked with inside link way taken full
  exact taken

lemma files_update : files (update old name (some r)) n =
    if n = name then (r.files.bind readFlist).getD [] else files old n := by
  split
  next same =>
    subst same
    simp [files,Record.get]
  next other => simp [files,other]

lemma apart_commit (lists : Lists host s.record) (apart : Apart s.record) (passed : Passed host m s)
    (parsed : manifestParse txt = some m)
    (faithful : Faithful m) : Apart (update s.record m.name (some ⟨some txt,some (writeFiles m.toManifest)⟩)) := by
  obtain ⟨own,loaded,free⟩ := passed.unowned
  obtain ⟨installed,base⟩ := mem_owners lists loaded
  have read := (readFlist_write (manifestParse_accepted parsed)).mpr faithful
  have files : ∀ n, files (update s.record m.name (some ⟨some txt,some (writeFiles m.toManifest)⟩)) n =
      if n = m.name then m.entries.map MEntry.frec else files s.record n := by
    intro n
    rw [files_update]
    simp [read]
  have old : ∀ {n}, Records.installed (update s.record m.name (some ⟨some txt,some (writeFiles m.toManifest)⟩)) n →
    n ≠ m.name →
      Records.installed s.record n := fun {n} there other => by simpa [Records.installed,other] using there
  have new {p} (listed : p ∈ owned (m.entries.map MEntry.frec)) : p ∉ own := by
    obtain ⟨e,member,rfl⟩ := mem_owned listed
    exact free e member
  have same : Records.base (update s.record m.name (some ⟨some txt,some (writeFiles m.toManifest)⟩)) =
    Records.base s.record := by
    have other : baseName ≠ m.name := by
      intro name
      have valid := passed.valid
      rw [← name] at valid
      exact absurd valid (by decide)
    simp [Records.base,other]
  refine ⟨fun {n n'} there there' other p listed listed' => ?_,fun {n} there p listed listed' => ?_⟩
  · rw [files] at listed listed'
    split_ifs at listed listed' with first second second
    · exact other (first.trans second.symm)
    · exact new listed (installed _ (old there' second) p listed')
    · exact new listed' (installed _ (old there first) p listed)
    · exact apart.packages (old there first) (old there' second) other p listed listed'
  · rw [files] at listed
    rw [same] at listed'
    split_ifs at listed with first
    · exact new listed (base p listed')
    · exact apart.base (old there first) p listed listed'

lemma apart_law : Law Apart (fun _ _ => True) fun _ _ m => Faithful m where
  erase apart _ fewer _ := ⟨apart_erase apart fewer,trivial⟩
  free _ _ _ := trivial
  commit lists apart passed parsed faithful := apart_commit lists apart passed parsed faithful
  fewer _ faithful := faithful

lemma any_law : Law (fun _ => True) (fun _ _ => True) fun _ _ _ => True where
  erase _ _ _ _ := ⟨trivial,trivial⟩
  free _ _ _ := trivial
  commit _ _ _ _ _ := trivial
  fewer _ _ := trivial

/-- After a successful install the list in the database is the manifest's exactly if it can be read
back as it is; and if this holds of every package that commands try to install, no path comes to
have two owners, in any state that they lead to. -/
theorem database_describes (host : Host) (signature : Except Errno Unit) (file : Archive) (s t : State) :
    (Lists host s.record → (((Command.add signature file).code host).interp exec).run s = (.ok (),t) →
      ∃ txt m, file.manifest = .ok txt ∧ manifestParse txt = some m ∧
        (t.flist m.name = some (m.entries.map MEntry.frec) ↔ Faithful m)) ∧
    (Apart s.record → Managed (fun u command => command.Fits (fun _ _ m => Faithful m) u.record) s t →
    Apart t.record) := by
  refine ⟨fun lists ran => ?_,fun apart managed => ?_⟩
  · have fits : (Command.add signature file).Fits (fun _ _ _ => True) s.record := fun _ _ _ _ => trivial
    have ended := (command_keeps any_law lists fits (fun _ _ _ => trivial) ⟨trivial,fun _ _ => trivial⟩).interp honest
    rw [ran] at ended
    obtain ⟨-,txt,m,manifest,parsed,entered⟩ := ended
    refine ⟨txt,m,manifest,parsed,?_⟩
    rw [Faithful,← readFlist_write (manifestParse_accepted parsed),State.flist,entered]
    rfl
  · exact (managed.kept apart_law (fun fits => fits) (fun _ _ _ _ => trivial) ⟨apart,fun _ _ => trivial⟩).holds

namespace Arrowed

/-- A link `usr/local/x`; in the manifest `more` follows this path. -/
def manifest (more : Bytes) : Bytes :=
  ascii "name: a\nversion: 1\narch: aarch64\nabi: 3\nlink: usr/local/x" ++ more ++ ascii " -> t\n"

/-- `name` is the name of the link in the archive. -/
def packed (more name : Bytes) : Bytes :=
  Ubpkg.tarHeader 48 manifestName [] 0o644 (manifest more).length 0 ++ manifest more ++
    Ubpkg.tarPad (manifest more).length ++ Ubpkg.tarHeader 50 name (ascii "t") 0o777 0 0 ++ replicate 1024 0

def file (more name : Bytes) : Archive := .read (.add (packed more name) .EINVAL)

def ended (more name : Bytes) : Except Errno Unit × State :=
  (((Command.add (.ok ()) (file more name)).code Paired.machine).interp exec).run Rooted.system

def plainFile : Archive := file [] (ascii "usr/local/x")

def plainEnd : State := (ended [] (ascii "usr/local/x")).2

/-- A path that ends in ` ->`, with a NUL behind it. -/
def arrowFile : Archive := file (ascii " ->" ++ [0]) (ascii "usr/local/x ->")

def arrowEnd : Except Errno Unit × State := ended (ascii " ->" ++ [0]) (ascii "usr/local/x ->")

end Arrowed

lemma managed_once {command : Command} (ran : (((command.code host).interp exec).run s).2 = t)
    (lists : Lists host s.record) (fits : command.Fits (fun _ _ m => Faithful m) s.record) :
    Managed (fun u command => command.Fits (fun _ _ m => Faithful m) u.record) s t :=
  .next .start lists fits (ran ▸ cut_interp honest _ _)

open Arrowed in
theorem database_describes_link : (∃ txt m, plainFile.manifest = .ok txt ∧ manifestParse txt = some m ∧
      plainEnd.flist m.name = some (m.entries.map MEntry.frec)) ∧ Apart plainEnd.record := by
  have faithful : (plainFile.manifest.toOption.bind manifestParse).all (fun m => decide (Faithful m)) = true := by
    decide +kernel
  have each txt m (read : plainFile.manifest = .ok txt) (parsed : manifestParse txt = some m) : Faithful m := by
    simpa [read,parsed,Except.toOption] using faithful
  have nothing n : ¬Records.installed Rooted.system.record n := fun there => by
    simpa [Paired.empty] using there.2
  have described := database_describes Paired.machine (.ok ()) plainFile Rooted.system plainEnd
  have done : (ended [] (ascii "usr/local/x")).1 = .ok () := by decide +kernel
  have ran : ended [] (ascii "usr/local/x") = (.ok (),plainEnd) := by rw [plainEnd,← done]
  rw [ended,← plainFile] at ran
  obtain ⟨txt,m,read,parsed,exact_⟩ := described.1 Paired.lists_system ran
  refine ⟨⟨txt,m,read,parsed,exact_.mpr (each txt m read parsed)⟩,described.2 ?_ ?_⟩
  · exact ⟨fun there => by simp [nothing] at there,fun there => by simp [nothing] at there⟩
  · have fits : (Command.add (.ok ()) plainFile).Fits (fun _ _ m => Faithful m) Rooted.system.record := each
    exact managed_once (by rw [ran]) Paired.lists_system fits

/-- The installed link is not the one that the list names. -/
theorem list_unfaithful : Arrowed.arrowEnd.1 = .ok () ∧
    (Arrowed.arrowFile.manifest.toOption.bind manifestParse).any
      (fun m => m.entries.map (fun e => e.path.val) = [usrLocal ++ [ascii "x ->"]]) = true ∧
    Arrowed.arrowEnd.2.tree.find (usrLocal ++ [ascii "x ->"]) = some (.link (ascii "t")) ∧
    (Arrowed.arrowEnd.2.flist [97]).any
      (fun fl => fl.map (fun f => f.path.val) = [usrLocal ++ [ascii "x"]]) = true := by
  decide +kernel

end UbixOS.Pkg
