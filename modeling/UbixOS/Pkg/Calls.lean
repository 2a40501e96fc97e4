import UbixOS.Pkg.Commands

/-! The calls that the commands can make, part by part. -/
namespace UbixOS.Pkg

open Library (Prog Fallible)
open Library Library.Files Library.Prog Only Obeys List

/-- A call of `extract_all`. What is written to is a file that it has created. -/
inductive Placing (A : {β : Type} → Call β → Except Errno β → Prop) (m : Manifest) : {β : Type} → Call β → Prop
  | parent {e : MEntry} {d r : Path} (member : e ∈ m.entries) (split : e.path.val = d ++ r) (more : r ≠ [])
    (some_ : d ≠ []) : Placing A m (.mkdir d 0o755)
  | dir {e : MEntry} (member : e ∈ m.entries) (type : e.type = .dir) : Placing A m (.mkdir e.path.val e.mode)
  | create {e : MEntry} (member : e ∈ m.entries) : Placing A m (.create (temp e.path.val) 0o600)
  | write {e : MEntry} {fd : Path × Name} {data : Bytes} (member : e ∈ m.entries)
    (opened : A (.create (temp e.path.val) 0o600) (.ok fd)) : Placing A m (.write fd data)
  | close {fd : Path × Name} : Placing A m (.close fd)
  | chmod {e : MEntry} (member : e ∈ m.entries) (type : e.type = .file) : Placing A m (.chmod (temp e.path.val) e.mode)
  | rename {e : MEntry} (member : e ∈ m.entries) : Placing A m (.rename (temp e.path.val) e.path.val)
  | symlink {e : MEntry} {target : Bytes} (member : e ∈ m.entries) (type : e.type = .link) :
    Placing A m (.symlink target e.path.val)
  | unlink {e : MEntry} (member : e ∈ m.entries) : Placing A m (.unlink (temp e.path.val))
  | lstat {p : Path} : Placing A m (.lstat p)
  | openJournal : Placing A m .openJournal
  | appendJournal {line : Bytes} : Placing A m (.appendJournal line)

/-- A call of `lock_take` or `lock_drop`. -/
inductive Locking (A : {β : Type} → Call β → Except Errno β → Prop) : {β : Type} → Call β → Prop
  | dir {d : Path} (above : d <+: varLock) (some_ : d ≠ []) : Locking A (.mkdir d 0o755)
  | create : Locking A (.create lockPath 0o644)
  | write {fd : Path × Name} {data : Bytes} (opened : A (.create lockPath 0o644) (.ok fd)) : Locking A (.write fd data)
  | close {fd : Path × Name} : Locking A (.close fd)
  | unlink : Locking A (.unlink lockPath)

variable {env : Env}
  {J : State → Prop}

lemma journalNote_only : (journalNote tag p).Only A (Placing A m) := by
  rw [journalNote]
  split
  next => trivial
  next => exact bind (perform .openJournal) fun _ => perform .appendJournal

section Member
variable {m : Manifest} {me : MEntry} (member : me ∈ m.entries)
include member

lemma makeParents_only (above : ∀ d ∈ ds, d ∈ parents me.path.val) :
    (makeParents ds).Only A (Placing A m) := by
  induction ds with
  | nil => trivial
  | cons d ds ih =>
    obtain ⟨some_,r,split,more⟩ := (mem_parents me.path.property.2.1).mp (above d mem_cons_self)
    have rest := ih fun d inside => above d (mem_cons_of_mem _ inside)
    rw [makeParents]
    refine Only.bind (Only.perform (.parent member split more some_)).attempt fun r => ?_
    split
    next => exact Only.bind journalNote_only fun _ => rest
    next => exact rest
    next => trivial

lemma writeAll_only (opened : A (.create (temp me.path.val) 0o600) (.ok fd)) :
    (writeAll fd chunks broken).Only A (Placing A m) := by
  induction chunks with
  | nil => cases broken <;> trivial
  | cons chunk chunks ih => exact bind (perform (.write member opened)) fun _ => ih

lemma placeFile_only (type : me.type = .file) (path : e.path = me.path) :
    (placeFile env e me filled closed).Only A (Placing A m) := by
  rw [placeFile.eq_def]
  split
  next => trivial
  next => trivial
  next =>
    split
    next => trivial
    next =>
      rw [path]
      exact bind (perform (.chmod member type)) fun _ => perform (.rename member)

lemma extractFile_only (type : me.type = .file) (path : e.path = me.path) :
    (extractFile env e me).Only A (Placing A m) := by
  rw [extractFile]
  split
  swap
  next => trivial
  next =>
    rw [path]
    refine Only.bind (makeParents_only member fun d inside => inside) fun _ => Only.bind journalNote_only fun _ => ?_
    refine Only.next (.create member) fun fd opened => Only.bind (writeAll_only member opened).attempt fun filled => ?_
    refine Only.bind (Only.perform .close).attempt fun closed =>
      Only.bind (placeFile_only member type path).attempt fun r => ?_
    split
    next => trivial
    next => exact Only.bind (Only.perform (.unlink member)).attempt fun _ => trivial

lemma extractMember_only (path : e.path = me.path) (types : e.type = me.type) :
    (extractMember env e me).Only A (Placing A m) := by
  have parents : (makeParents (parents e.path.val)).Only A (Placing A m) := by
    rw [path]
    exact makeParents_only member fun d inside => inside
  rw [extractMember.eq_def]
  cases type : e.type with
  | file => exact extractFile_only member (types.symm.trans type) path
  | dir =>
    refine Only.bind (Only.perform .lstat).attempt fun r => ?_
    split
    next => trivial
    next =>
      refine Only.bind parents fun _ => Only.bind journalNote_only fun _ => ?_
      rw [path]
      exact Only.perform (.dir member (types.symm.trans type))
  | link =>
    dsimp only
    split
    next => trivial
    next =>
      refine Only.bind parents fun _ => Only.bind journalNote_only fun _ => ?_
      rw [path]
      exact Only.perform (.symlink member (types.symm.trans type))

end Member

lemma extractAll_only : (extractAll env m ending members seen).Only A (Placing A m) := by
  induction members generalizing seen with
  | nil =>
    cases ending with
    | some err => trivial
    | none =>
      simp only [extractAll]
      split <;> trivial
  | cons e members ih =>
    rw [extractAll]
    split
    next => trivial
    next me found =>
      obtain ⟨member,same⟩ := find_some found
      split
      swap
      next => trivial
      next fits =>
        simp only [Member.fits,decide_eq_true_eq] at fits
        exact bind (extractMember_only member (Subtype.ext same.symm) fits.2.1) fun _ => ih

lemma makeEach_only (each : ∀ d ∈ ds, P (.mkdir d 0o755)) : (makeEach ds).Only A P := by
  induction ds with
  | nil => trivial
  | cons d ds ih =>
    have rest := ih fun d inside => each d (mem_cons_of_mem _ inside)
    rw [makeEach]
    refine bind (perform (each d mem_cons_self)).attempt fun r => ?_
    split
    next => exact rest
    next => exact rest
    next => trivial

lemma makeDirs_only (each : ∀ d, d <+: p → d ≠ [] → P (.mkdir d 0o755)) : (makeDirs p).Only A P := by
  refine makeEach_only fun d inside => each d ((mem_inits _ _).mp (mem_of_mem_tail inside)) ?_
  rintro rfl
  cases p with
  | nil | cons a p => simp at inside

lemma lockTries_only : (lockTries host tries).Only A (Locking A) := by
  induction tries with
  | nil => trivial
  | cons alive tries ih =>
    rw [lockTries]
    refine inspect .create fun r kind => ?_
    cases r with
    | ok fd => exact Only.bind (Only.perform (.write kind)).attempt fun _ => trivial
    | error err =>
      cases err with
      | EEXIST =>
        cases alive with
        | true => trivial
        | false => exact Only.bind (Only.perform .unlink).attempt fun _ => ih
      | _ => trivial

lemma lockTake_only : (lockTake host).Only A (Locking A) :=
  bind (makeDirs_only fun _ above some_ => .dir above some_) fun _ => lockTries_only

lemma lockDrop_only : (lockDrop fd).Only A (Locking A) :=
  Only.bind (Only.perform .close).attempt fun _ => Only.bind (Only.perform .unlink).attempt fun _ => trivial

lemma locked_rule
    (lock : ∀ {β : Type} {c : Call β} {r s s'}, Locking A c → answers c s r s' → J s → A c r ∧ G c s s' ∧ J s')
    (drop : ∀ {result} {β : Type} {c : Call β} {r s s'}, Locking A c → answers c s r s' → Q result s → G c s s' ∧
    Q result s')
    (failed : ∀ {e s}, J s → Q (.error e) s) (inner : ∀ {s}, J s → body.Obeys answers G Q s) (here : J s) :
    (locked host body).Obeys answers G Q s := by
  rw [locked]
  refine bind (lockTake_only.obeys here lock) (fun fd s₁ here₁ => ?_) fun _ _ here => failed here
  refine inspect (inner here₁) fun result s₂ here₂ => ?_
  have each : ∀ {c : Call Unit} {s}, Locking A c → Q result s → (perform c).Obeys answers G (fun _ => Q result) s :=
    fun kind here => perform fun _ _ answer => drop kind answer here
  have dropped : (lockDrop fd).Obeys answers G (fun r s => r = .ok () ∧ Q result s) s₂ :=
    inspect (each .close here₂) fun _ s₃ here₃ => inspect (each .unlink here₃) fun _ s₄ here₄ => ⟨rfl,here₄⟩
  refine bind dropped (fun _ s₄ post => ?_) fun _ _ wrong => nomatch wrong.1
  cases result <;> exact post.2

lemma answers_look (looks : c.mutates = false) (answer : answers c s r s') : (exec c).run s = (r,s) ∧ s' = s := by
  rcases answer with ran | ⟨mutates,-⟩
  · have same : ((exec c).run s).2 = s := by
      cases c with
      | lstat | readJournal | installed | readFile | readFiles | check => rfl
      | _ => cases looks
    rw [ran] at same
    subst same
    exact ⟨ran,rfl⟩
  · rw [looks] at mutates
    cases mutates

lemma answers_elsewhere (none : c.about = Option.none) (answer : answers c s r s') :
    s'.record = s.record ∧ s'.staging = s.staging := by
  rcases answer with ran | ⟨-,-,rfl⟩
  swap
  · exact ⟨rfl,rfl⟩
  have whole : ((exec c).run s).2.record = s.record ∧ ((exec c).run s).2.staging = s.staging := by
    cases c with
    | mkdir | write | chmod | rename | symlink | unlink | rmdir =>
      simp [exec,run_onTree]
    | create =>
      simp only [exec]
      split <;> exact ⟨rfl,rfl⟩
    | mkdirStaging | openStaging | writeStaging | unlinkStaging | rmdirStaging | renameStaging
    | unlinkRecord | rmdirRecord =>
      cases none
    | _ => exact ⟨rfl,rfl⟩
  rwa [ran] at whole

def header (txt : Bytes) : Option (Bool × Name) := (lines txt).head?.bind parseHeader

lemma recover_rule (looks : ∀ {β : Type} {c : Call β}, c.mutates = false → G c s s) (quiet : Q (.ok ()) s)
    (long : Q (.error .EFBIG) s)
    (ended : journalEnd.Obeys answers G Q s)
    (undone : ∀ txt name, s.journal = some txt → header txt = some (true,name) → s.installed name = false → (do
      rollback env (notes txt).reverse
      dropStaging name
      journalEnd : Code Unit).Obeys answers G Q s)
    (removed : ∀ txt name, s.journal = some txt → header txt = some (false,name) → (do
      env.remove name
      journalEnd : Code Unit).Obeys answers G Q s) : (journalRecover env).Obeys answers G Q s := by
  have look : ∀ {β : Type} {c : Call β}, c.mutates = false →
      (perform c).Obeys answers G (fun r s' => (exec c).run s = (r,s) ∧ s' = s) s := by
    refine fun is => perform fun r s' answer => ?_
    obtain ⟨ran,rfl⟩ := answers_look is answer
    exact ⟨looks is,ran,rfl⟩
  rw [journalRecover]
  refine inspect (look rfl) ?_
  rintro r s' ⟨ran,rfl⟩
  simp only [exec] at ran
  cases journal : s'.journal with
  | none =>
    rw [journal] at ran
    cases ran
    exact quiet
  | some txt =>
    rw [journal] at ran
    dsimp only at ran
    split at ran
    next =>
      cases ran
      exact long
    next =>
      cases ran
      dsimp only
      split
      next => exact ended
      next name head =>
        refine bind (look (c := .installed name) rfl) ?_ fun _ _ wrong => by cases wrong.1
        rintro a s'' ⟨same,rfl⟩
        cases same
        cases there : s''.installed name with
        | true => exact ended
        | false => exact undone txt name journal head there
      next name head => exact removed txt name journal head

section only
variable {P : {β : Type} → Call β → Prop} (looks : ∀ {β : Type} {c : Call β}, c.mutates = false → P c)
    (unlinks : ∀ p, P (.unlink p))
  (rmdirs : ∀ p, P (.rmdir p))

include unlinks rmdirs in
lemma rollback_only : (rollback env ns).Only A P := by
  induction ns with
  | nil => trivial
  | cons n ns ih =>
    refine bind ?_ fun _ => ih
    rw [undo]
    cases n.tag with
    | D => exact bind (perform (rmdirs _)).attempt fun _ => trivial
    | F | T =>
      refine bind (perform (unlinks _)).attempt fun _ => ?_
      split
      next => exact bind (perform (unlinks _)).attempt fun _ => trivial
      next => trivial

include looks in
lemma clearWay_only : (clearWay ds).Only A P := by
  induction ds with
  | nil => trivial
  | cons d ds ih =>
    refine inspect (looks rfl) fun r _ => ?_
    split
    next => trivial
    next => trivial
    next => exact ih
    next => trivial
    next => exact ih

include looks in
lemma unmodified_only : (unmodified env f).Only A P := by
  refine inspect (looks rfl) fun r _ => ?_
  split <;> trivial

include looks unlinks rmdirs

lemma delFile_only : (delFile env force f).Only A P := by
  have gone : ∀ {c : Call Unit} {k : Nat}, P c → (do
      let _ ← (perform c).attempt
      ret k : Code Nat).Only A P := fun here => bind (perform here).attempt fun _ => trivial
  refine bind (clearWay_only looks) fun clear => ?_
  split
  swap
  next => trivial
  next =>
    refine inspect (looks rfl) fun r _ => ?_
    split
    next => trivial
    next =>
      split
      next => exact gone (rmdirs _)
      next =>
        split
        next => exact gone (unlinks _)
        next => trivial
      next =>
        refine bind ?_ fun fits => ?_
        · split
          next => trivial
          next => exact unmodified_only looks
        · split
          next => exact gone (unlinks _)
          next => trivial

lemma delFiles_only : (delFiles env name force).Only A P := by
  have each fs : (delAll env force fs).Only A P := by
    induction fs with
    | nil => trivial
    | cons f fs ih => exact bind (delFile_only looks unlinks rmdirs) fun _ => bind ih fun _ => trivial
  refine inspect (looks rfl) fun r _ => ?_
  split
  next => trivial
  next =>
    split
    next => trivial
    next => exact each _

lemma recover_only (stages : ∀ {name : Name} {β : Type} {c : Call β}, Staging name c → P c)
    (erases : ∀ {name : Name} {β : Type} {c : Call β}, Erasing name c → P c) (ended : P .unlinkJournal) :
    (journalRecover env.removing).Only A P := by
  have overrun : journalEnd.Only A P := bind (perform ended).attempt fun _ => trivial
  refine inspect (looks rfl) fun r _ => ?_
  split
  next => trivial
  next => trivial
  next =>
    split
    next => exact overrun
    next =>
      refine bind (perform (looks rfl)) fun there => ?_
      split
      next => exact overrun
      next => exact bind (rollback_only unlinks rmdirs) fun _ => bind (dropStaging_only.mono stages) fun _ => overrun
    next =>
      refine bind (bind (delFiles_only looks unlinks rmdirs) fun _ => ?_) fun _ => overrun
      exact bind (dbRemove_only.mono erases).attempt fun _ => trivial

end only

lemma record_only (stages : ∀ {β : Type} {c : Call β}, Staging pkg.manifest.name c → P c)
    (commit : P (.renameStaging pkg.manifest.name)) : (record pkg).Only A P := by
  have rest : (do
      writeStaged pkg.manifest.name .manifest pkg.manifestText
      writeStaged pkg.manifest.name .files pkg.filesText
      perform (.renameStaging pkg.manifest.name) : Code Unit).Only A P := by
    have each leaf data : (writeStaged pkg.manifest.name leaf data).Only A P :=
      bind (perform (stages .openLeaf)) fun _ => perform (stages .write)
    exact bind (each _ _) fun _ => bind (each _ _) fun _ => perform commit
  refine inspect (stages .mkdir) fun r _ => ?_
  split
  next => exact rest
  next => exact rest
  next => trivial

end UbixOS.Pkg
