import UbixOS.Pkg.Database
import UbixOS.Pkg.SetId

/-! The dependencies and the conflicts of the installed packages. -/
namespace UbixOS.Pkg

open Library Library.Files Library.Prog Rooted Host

def Has (records : Records) (n : Name) (m : PkgManifest) : Prop :=
  nameIsValid n = true ∧ (((records n).bind (·.get .manifest)).bind readable).bind manifestParse = some m

/-- Every installed package has what it depends on, and nothing that it is in conflict with. -/
structure Consistent (records : Records) : Prop where
  read : ∀ {n}, nameIsValid n = true → ((records n).bind (·.get .manifest)).isSome → ∃ m, Has records n m
  depends : ∀ {n m}, Has records n m → ∀ dep ∈ m.depends, ∃ m', Has records dep.name m' ∧
    dep.satisfied m'.version = true
  conflicts : ∀ {n m}, Has records n m → ∀ dep ∈ m.conflicts, dep.name ≠ n → ∀ m', Has records dep.name m' →
    dep.satisfied m'.version = false

def Spare (records : Records) (name : Name) : Prop :=
    ∀ n m, Has records n m → n ≠ name → ∀ dep ∈ m.depends, dep.name ≠ name

/-- The package depends on proper names, and no installed package is in conflict with it. -/
structure Agrees (records : Records) (m : PkgManifest) : Prop where
  names : ∀ dep ∈ m.depends, nameIsValid dep.name = true
  welcome : ∀ n m', Has records n m' → ∀ dep ∈ m'.conflicts, dep.name = m.name → dep.satisfied m.version = false

variable {host : Host} {s t : State}

lemma Has.unique (has : Has old n m) (has' : Has old n m') : m = m' := Option.some.inj (has.2.symm.trans has'.2)

lemma Has.of_fewer (fewer : Fewer old new) (has : Has new n m) : Has old n m := by
  refine ⟨has.1,?_⟩
  rcases fewer n .manifest with same | gone
  · exact same ▸ has.2
  · simp [Has,gone] at has

lemma Has.of_same (same : new n = old n) (has : Has old n m) : Has new n m := by
  rw [Has,same]
  exact has

lemma readManifest_valid (valid : nameIsValid n = true) :
    host.readManifest s n = (((s.record n).bind (·.get .manifest)).bind readable).bind manifestParse := by
  simp only [nameIsValid,decide_eq_true_eq] at valid
  obtain ⟨some_,dot,-,-,bytes⟩ := valid
  have one : n.splitOn Tree.slash = [n] := List.splitOn_eq_singleton fun slash => (bytes _ slash).1 rfl
  have plain : n ≠ Tree.dot := by
    rintro rfl
    exact dot rfl
  have kept : (n.splitOn Tree.slash).filter (fun part => part ≠ [] ∧ part ≠ Tree.dot) = [n] := by simp [one,some_,plain]
  have up : n ≠ Tree.dotdot := by
    rintro rfl
    exact dot rfl
  have staged : ¬ascii ".new-" <+: n := by
    rintro ⟨rest,rfl⟩
    exact dot rfl
  rw [readManifest,manifestText,kept]
  simp only [if_neg up,if_neg staged]
  rfl

lemma Has.read (has : Has s.record n m) : host.readManifest s n = some m := (readManifest_valid has.1).trans has.2

lemma Has.installed (has : Has s.record n m) : s.installed n = true := by
  cases record : s.record n with
  | none => simp [Has,record] at has
  | some r =>
    cases manifest : r.manifest with
    | none =>
      have reads : r.get .manifest = none := manifest
      simp [Has,record,reads] at has
    | some txt => simp [State.installed,record,manifest]

lemma mem_list (lists : Lists host s.record) (has : Has s.record n m) : n ∈ host.list s := by
  have there := has.installed
  have named : n ∈ host.names := by
    refine lists n ?_
    simp only [State.installed,decide_eq_true_eq] at there
    obtain ⟨r,found,manifest⟩ := there
    rw [found]
    exact manifest
  simp only [list,List.mem_filter,Bool.and_eq_true]
  exact ⟨named,has.1,there⟩

lemma spare_of_unneeded (lists : Lists host s.record) (unneeded : host.unneeded name s = .ok ()) :
    Spare s.record name := by
  intro n m has other dep member same
  rw [Host.unneeded] at unneeded
  split at unneeded
  next => cases unneeded
  next none =>
    apply none
    simp only [Host.findDependent,decide_eq_true_eq]
    exact ⟨n,mem_list lists has,other,m,has.read,dep,member,same⟩

lemma consistent_erase (consistent : Consistent old) (spare : Spare old name) (fewer : Fewer old new)
    (others : ∀ n, n ≠ name → new n = old n) :
    Consistent new ∧ Spare new name := by
  have back : ∀ {n m}, Has new n m → Has old n m := Has.of_fewer fewer
  refine ⟨⟨fun {n} valid there => ?_,fun {n m} has dep member => ?_,fun has dep member other m' has' => ?_⟩,
    fun n m has => spare n m (back has)⟩
  · rcases fewer n .manifest with same | gone
    · obtain ⟨m,has⟩ := consistent.read valid (same ▸ there)
      exact ⟨m,valid,by rw [same]; exact has.2⟩
    · simp [gone] at there
  · obtain ⟨m',has',fits⟩ := consistent.depends (back has) dep member
    by_cases same : dep.name = name
    · -- Then it is the package itself that depends on its name.
      obtain rfl : n = name := by
        by_contra other
        exact spare n m (back has) other dep member same
      rw [same] at has' ⊢
      exact ⟨m,has,(back has).unique has' ▸ fits⟩
    · exact ⟨m',has'.of_same (others _ same),fits⟩
  · exact consistent.conflicts (back has) dep member other m' (back has')

lemma has_update (valid : nameIsValid name = true) (parsed : (r.manifest.bind readable).bind manifestParse = some m) :
    Has (Function.update old name (some r)) n m' ↔ n = name ∧ m' = m ∨ n ≠ name ∧ Has old n m' := by
  by_cases same : n = name
  · subst same
    have reads : r.get .manifest = r.manifest := rfl
    simp [Has,valid,reads,parsed,eq_comm]
  · simp [Has,same]

lemma consistent_commit (consistent : Consistent s.record) (passed : Passed host m s)
    (parsed : manifestParse txt = some m)
    (short : txt.length ≤ PKG_MANIFEST_MAX) (agrees : Agrees s.record m) :
    Consistent (Function.update s.record m.name (some ⟨some txt,some (writeFiles m.toManifest)⟩)) := by
  have reads : ((some txt).bind readable).bind manifestParse = some m := by
    simp [readable,Nat.not_lt_of_le short,parsed]
  have has : ∀ {n m'}, Has (Function.update s.record m.name (some ⟨some txt,some (writeFiles m.toManifest)⟩)) n m' ↔
      n = m.name ∧ m' = m ∨ n ≠ m.name ∧ Has s.record n m' := has_update passed.valid reads
  have apart : ∀ {n m'}, Has s.record n m' → n ≠ m.name := by
    rintro n m' old rfl
    exact absurd old.installed (by simp [passed.fresh])
  refine ⟨fun {n} valid there => ?_,fun {n m'} new dep member => ?_,fun {n m'} new dep member other m'' new' => ?_⟩
  · by_cases same : n = m.name
    · exact ⟨m,has.mpr (.inl ⟨same,rfl⟩)⟩
    · obtain ⟨m',old⟩ := consistent.read valid (by simpa [same] using there)
      exact ⟨m',has.mpr (.inr ⟨same,old⟩)⟩
  · rcases has.mp new with ⟨rfl,rfl⟩ | ⟨-,old⟩
    · have provided := passed.depends dep member
      simp only [Host.provided,decide_eq_true_eq] at provided
      obtain ⟨m'',read,fits⟩ := provided
      rw [readManifest_valid (agrees.names dep member)] at read
      have old : Has s.record dep.name m'' := ⟨agrees.names dep member,read⟩
      exact ⟨m'',has.mpr (.inr ⟨apart old,old⟩),fits⟩
    · obtain ⟨m'',old',fits⟩ := consistent.depends old dep member
      exact ⟨m'',has.mpr (.inr ⟨apart old',old'⟩),fits⟩
  rcases has.mp new with ⟨rfl,rfl⟩ | ⟨apart,old⟩
  · rcases has.mp new' with ⟨same,-⟩ | ⟨-,old'⟩
    · exact absurd same other
    cases fits : dep.satisfied m''.version with
    | false => rfl
    | true =>
      have refused := passed.conflicts dep member
      have provided : host.provided s dep = true := by
        simp only [Host.provided,decide_eq_true_eq]
        exact ⟨m'',old'.read,fits⟩
      simp [provided] at refused
  · rcases has.mp new' with ⟨same,rfl⟩ | ⟨-,old'⟩
    · exact agrees.welcome n m' old dep member same
    · exact consistent.conflicts old dep member other m'' old'

lemma consistent_law : Law Consistent Spare fun records txt m => txt.length ≤ PKG_MANIFEST_MAX ∧ Agrees records m where
  erase := consistent_erase
  free lists _ unneeded := spare_of_unneeded lists unneeded
  commit _ consistent passed parsed fit := consistent_commit consistent passed parsed fit.1 fit.2
  fewer less fit := ⟨fit.1,fit.2.names,fun n m' has => fit.2.welcome n m' (has.of_fewer less)⟩

/-- A command without `--force`, and a package that agrees with those that are installed. -/
structure Agreeable (s : State) (command : Command) : Prop where
  read : command.Read
  unforced : command.unforced = true
  agrees : command.Fits (fun records _ m => Agrees records m) s.record

lemma Agreeable.fits (agreeable : Agreeable s command) :
    command.Fits (fun records txt m => txt.length ≤ PKG_MANIFEST_MAX ∧ Agrees records m) s.record := by
  cases command with
  | add signature file =>
    intro txt m manifest parsed
    obtain ⟨stream,overrun,rfl⟩ := agreeable.read
    exact ⟨read_length manifest,agreeable.agrees txt m manifest parsed⟩
  | del => trivial

/-- From the empty database, with commands that agree with what is installed, the dependencies and
the conflicts are respected in every state. -/
theorem installed_consistent (empty : ∀ n, nameIsValid n = true → s.record n = none) (managed : Managed Agreeable s t) :
    Consistent t.record := by
  have none_ : ∀ {n m}, ¬Has s.record n m := fun {n m} has => by simp [Has,empty n has.1] at has
  have kept : Kept Consistent Spare s := by
    refine ⟨⟨fun {n} valid there => ?_,fun has => (none_ has).elim,fun has => (none_ has).elim⟩,fun _ _ n m has =>
      (none_ has).elim⟩
    simp [empty n valid] at there
  refine (managed.kept consistent_law (fun agreeable => agreeable.fits) (fun agreeable forced => ?_) kept).holds
  simp [agreeable.unforced] at forced

/-- With packages of these names, no other name comes into the database. -/
lemma listed_law (names : List Name) :
    Law (fun records => ∀ n, ((records n).bind (·.get .manifest)).isSome → n ∈ names) (fun _ _ => True) fun _ _ m =>
      m.name ∈ names where
  erase {old new _} listed _ fewer _ := by
    refine ⟨fun n there => ?_,trivial⟩
    rcases fewer n .manifest with same | gone
    · exact listed n (same ▸ there)
    · simp [gone] at there
  free _ _ _ := trivial
  commit {host s txt m} _ listed _ _ fit n there := by
    by_cases same : n = m.name
    · exact same ▸ fit
    · exact listed n (by simpa [same] using there)
  fewer _ fit := fit

namespace Paired

def packed (rest : Bytes) : Bytes :=
  let manifest := rest ++ ascii "version: 1\narch: aarch64\nabi: 3\n"
  Ubpkg.tarHeader 48 manifestName [] 0o644 manifest.length 0 ++ manifest ++ Ubpkg.tarPad manifest.length ++
    List.replicate 1024 0

def machine : Host := { Rooted.machine with arch := ascii "aarch64", names := [[97],[98]] }

def add (rest : Bytes) : Command := .add (.ok ()) (.read (.add (packed rest) .EINVAL))

def added (rest : Bytes) (s : State) : State := ((((add rest).code machine).interp exec).run s).2

def first : State := added (ascii "name: a\n") system
def both : State := added (ascii "name: b\ndepends: a >= 1\n") first

/-- `a`, which is in conflict with `b`, and then `b`. -/
def warned : State := added (ascii "name: a\nconflicts: b\n") system
def hostile : State := added (ascii "name: b\n") warned

/-- The manifest of the archive, when it is the text `txt` and describes `m`. -/
def manifest (rest : Bytes) : Option PkgManifest :=
    (Archive.read (.add (packed rest) .EINVAL)).manifest.toOption.bind manifestParse

lemma manifest_eq (read : (Archive.read (.add (packed rest) .EINVAL)).manifest = .ok txt)
    (parsed : manifestParse txt = some m) : manifest rest = some m := by simp [manifest,read,parsed,Except.toOption]

lemma empty (n : Name) : system.record n = none := rfl

lemma lists_added (named : ∀ m ∈ manifest rest, m.name ∈ machine.names) (lists : Lists machine s.record) :
    Lists machine (added rest s).record := by
  have kept : Kept (fun records => ∀ n, ((records n).bind (·.get .manifest)).isSome →
    n ∈ machine.names) (fun _ _ => True) s := ⟨lists,fun _ _ => trivial⟩
  have fits : (add rest).Fits (fun _ _ m => m.name ∈ machine.names) s.record :=
    fun txt m read parsed => named m (manifest_eq read parsed)
  exact ((command_keeps (listed_law machine.names) lists fits (fun _ _ _ => trivial) kept).cut kept
    (fun _ _ keeps => keeps) (cut_interp honest _ _)).holds

lemma added_managed (managed : Managed ok s t) (lists : Lists machine t.record)
    (fit : ok t (add rest)) : Managed ok s (added rest t) :=
  .next managed lists fit (cut_interp honest ((add rest).code machine) t)

lemma add_read (rest : Bytes) : (add rest).Read ∧ (add rest).unforced = true := ⟨⟨_,_,rfl⟩,rfl⟩

lemma lists_system : Lists machine system.record := fun n there => by simp [empty] at there

lemma lists_first : Lists machine first.record := by
  refine lists_added ?_ lists_system
  decide +kernel

lemma lists_warned : Lists machine warned.record := by
  refine lists_added ?_ lists_system
  decide +kernel

lemma first_quiet (has : Has first.record n m) : m.conflicts = [] := by
  have each : ∀ n ∈ machine.names, ∀ m ∈ (((first.record n).bind (·.get .manifest)).bind readable).bind manifestParse,
    m.conflicts = [] := by
    decide +kernel
  have there : ((first.record n).bind (·.get .manifest)).isSome := by
    cases found : (first.record n).bind (·.get .manifest) with
    | none => simp [Has,found] at has
    | some txt => rfl
  exact each n (lists_first n there) m has.2

lemma managed_both : Managed Agreeable system both := by
  have one : ∀ m ∈ manifest (ascii "name: a\n"), ∀ dep ∈ m.depends, nameIsValid dep.name = true := by decide +kernel
  have two : ∀ m ∈ manifest (ascii "name: b\ndepends: a >= 1\n"), ∀ dep ∈ m.depends,
      nameIsValid dep.name = true := by
    decide +kernel
  refine added_managed (added_managed .start lists_system ⟨(add_read _).1,(add_read _).2,fun txt m read parsed =>
    ?_⟩) lists_first
    ⟨(add_read _).1,(add_read _).2,fun txt m read parsed => ?_⟩
  · exact ⟨one m (manifest_eq read parsed),fun n m' has => by simp [Has,empty] at has⟩
  · exact ⟨two m (manifest_eq read parsed),fun n m' has => by simp [first_quiet has]⟩

end Paired

theorem installed_consistent_both :
    Paired.both.installed [97] = true ∧ Paired.both.installed [98] = true ∧ Consistent Paired.both.record :=
  ⟨by decide +kernel,by decide +kernel,installed_consistent (fun n _ => Paired.empty n) Paired.managed_both⟩

/-- An install does not ask the installed packages what they are in conflict with. -/
theorem conflict_installed : (∀ n, Rooted.system.record n = none) ∧
    Managed (fun _ command => command.Read ∧ command.unforced = true) Rooted.system Paired.hostile ∧
    (∃ m m' dep, Has Paired.hostile.record [97] m ∧ Has Paired.hostile.record [98] m' ∧
      dep ∈ m.conflicts ∧ dep.name = [98] ∧ dep.satisfied m'.version = true) ∧ ¬Consistent Paired.hostile.record := by
  have clash : ∃ m m' dep, Has Paired.hostile.record [97] m ∧ Has Paired.hostile.record [98] m' ∧
      dep ∈ m.conflicts ∧ dep.name = [98] ∧ dep.satisfied m'.version = true := by
    have found : ((((Paired.hostile.record [97]).bind (·.get .manifest)).bind readable).bind manifestParse).any
      (fun m =>
        ((((Paired.hostile.record [98]).bind (·.get .manifest)).bind readable).bind manifestParse).any fun m' =>
          m.conflicts.any fun dep => dep.name = [98] && dep.satisfied m'.version) = true := by decide +kernel
    obtain ⟨m,read,found⟩ := (Option.any_eq_true _ _).mp found
    obtain ⟨m',read',found⟩ := (Option.any_eq_true _ _).mp found
    obtain ⟨dep,member,fits⟩ := List.any_eq_true.mp found
    simp only [Bool.and_eq_true,decide_eq_true_eq] at fits
    exact ⟨m,m',dep,⟨by decide +kernel,read⟩,⟨by decide +kernel,read'⟩,member,fits⟩
  refine ⟨Paired.empty,?_,clash,fun consistent => ?_⟩
  · exact Paired.added_managed
      (Paired.added_managed .start Paired.lists_system (Paired.add_read _)) Paired.lists_warned (Paired.add_read _)
  obtain ⟨m,m',dep,has,has',member,name,fits⟩ := clash
  have refused := consistent.conflicts has dep member (by simp [name]) m' (name ▸ has')
  simp [fits] at refused

end UbixOS.Pkg
