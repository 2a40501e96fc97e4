import UbixOS.Pkg.Calls

/-! Where the calls of the package tool act: under `usr/local`, in the database and on the lock. -/
namespace UbixOS.Pkg

open Library (Prog Fallible)
open Library Library.Files Library.Prog Function List Tree

def journalPath : Path := varDbPkg ++ [ascii ".journal"]
def stagingPath (name : Name) : Path := varDbPkg ++ [ascii ".new-" ++ name]
def recordPath (name : Name) : Path := varDbPkg ++ [name]

def Leaf.name : Leaf → Name
  | .manifest => ascii "MANIFEST"
  | .files => ascii "FILES"

/-- The paths at which a call changes something. -/
def Call.targets : {β : Type} → Call β → List Path
  | _, .mkdir p _ | _, .create p _ | _, .chmod p _ | _, .symlink _ p | _, .unlink p | _, .rmdir p => [p]
  | _, .write fd _ => [fd.1 ++ [fd.2]]
  | _, .rename p q => [p,q]
  | _, .appendJournal _ | _, .unlinkJournal | _, .truncJournal => [journalPath]
  | _, .mkdirStaging name | _, .rmdirStaging name => [stagingPath name]
  | _, .openStaging name leaf | _, .writeStaging name leaf _ | _, .unlinkStaging name leaf =>
    [stagingPath name ++ [leaf.name]]
  | _, .renameStaging name => [stagingPath name,recordPath name]
  | _, .unlinkRecord name leaf => [recordPath name ++ [leaf.name]]
  | _, .rmdirRecord name => [recordPath name]
  | _, .lstat _ | _, .close _ | _, .openJournal | _, .readJournal | _, .installed _ | _, .readFile _ | _,
    .readFiles _ | _, .check _ => []

def Under (p : Path) : Prop := usrLocal <+: p ∨ varDbPkg <+: p ∨ varLock <+: p

instance (p : Path) : Decidable (Under p) := inferInstanceAs (Decidable (_ ∨ _ ∨ _))

/-- If the call changes anything, it does so in its place, which no link leads to. -/
def Confined {β : Type} (c : Call β) (s s' : State) : Prop := s' ≠ s → ∀ p ∈ c.targets, s.tree.Plain p ∧ Under p

/-- The directories are there, and nothing in the database is a link. -/
structure Ground (t : Tree) : Prop where
  dirs : ∀ d ∈ [usr,varDbPkg,varLock], ∃ mode, t.find d = some (.dir mode)
  database : ∀ {q target}, varDbPkg <+: q → t.find q ≠ some (.link target)

variable {env : Env} {t u : Tree}

/-- What is above a directory is no link. -/
lemma dir_above (dir : t.find p = some (.dir mode)) (above : q <+: p) (target : Bytes) :
    t.find q ≠ some (.link target) := by
  obtain ⟨r,rfl⟩ := above
  intro link
  by_cases last : r = []
  · rw [last,append_nil,link] at dir
    cases dir
  obtain ⟨mode',found⟩ := above (t := t) (p := q) (r := r) (by simp [dir]) last
  rw [link] at found
  cases found

lemma Ground.plain (ground : Ground t) (some_ : r ≠ []) (proper : ∀ n ∈ r, n ≠ [] ∧ n ≠ dot ∧ n ≠ dotdot) :
    t.Plain (varDbPkg ++ r) := by
  have names : ∀ n ∈ varDbPkg, n ≠ [] ∧ n ≠ dot ∧ n ≠ dotdot := by decide
  refine ⟨by simp [some_],fun n inside => (mem_append.mp inside).elim (names n) (proper n),
    fun {q b target} split more => ?_⟩
  have first : q <+: varDbPkg ++ r := ⟨b,split.symm⟩
  rcases prefix_or_prefix_of_prefix first (prefix_append varDbPkg r) with above | below
  · obtain ⟨mode,dir⟩ := ground.dirs varDbPkg (by simp)
    exact dir_above dir above target
  · exact ground.database below

lemma valid_proper (valid : nameIsValid name = true) : name ≠ [] ∧ name ≠ dot ∧ name ≠ dotdot := by
  simp only [nameIsValid,decide_eq_true_eq] at valid
  refine ⟨valid.1,?_,?_⟩ <;>
  · rintro rfl
    exact valid.2.1 rfl

lemma leaf_proper (leaf : Leaf) : leaf.name ≠ [] ∧ leaf.name ≠ dot ∧ leaf.name ≠ dotdot := by
  cases leaf <;> decide

lemma staging_proper (name : Name) :
    ascii ".new-" ++ name ≠ [] ∧ ascii ".new-" ++ name ≠ dot ∧ ascii ".new-" ++ name ≠ dotdot := by
  refine ⟨?_,?_,?_⟩ <;>
  · intro same
    have length := congrArg length same
    simp [ascii,dot,dotdot] at length

/-- A call on the database acts in its place. -/
lemma database_confined (ground : Ground t) (c : Call β) (still : c.touches = false)
    (valid : ∀ n ∈ c.about, nameIsValid n = true) :
    ∀ p ∈ c.targets, t.Plain p ∧ Under p := by
  have within : ∀ {r : Path}, r ≠ [] → (∀ n ∈ r, n ≠ [] ∧ n ≠ dot ∧ n ≠ dotdot) → t.Plain (varDbPkg ++ r) ∧
    Under (varDbPkg ++ r) :=
    fun some_ proper => ⟨ground.plain some_ proper,.inr (.inl (prefix_append _ _))⟩
  have one : ∀ {a : Name}, (a ≠ [] ∧ a ≠ dot ∧ a ≠ dotdot) → t.Plain (varDbPkg ++ [a]) ∧ Under (varDbPkg ++ [a]) :=
    fun proper => within (by simp) (by simpa using proper)
  have two {a : Name} {leaf : Leaf} (proper : (a ≠ [] ∧ a ≠ dot ∧ a ≠ dotdot)) :
      t.Plain (varDbPkg ++ [a] ++ [leaf.name]) ∧ Under (varDbPkg ++ [a] ++ [leaf.name]) := by
    exact within (by simp) (by simpa using ⟨proper,leaf_proper leaf⟩)
  intro p inside
  cases c with
  | mkdir | create | write | chmod | rename | symlink | unlink | rmdir => cases still
  | lstat | close | openJournal | readJournal | installed | readFile | readFiles | check => cases inside
  | appendJournal | unlinkJournal | truncJournal =>
    rw [mem_singleton.mp inside]
    exact one (by decide)
  | mkdirStaging | rmdirStaging =>
    rw [mem_singleton.mp inside]
    exact one (staging_proper _)
  | openStaging | writeStaging | unlinkStaging =>
    rw [mem_singleton.mp inside]
    exact two (staging_proper _)
  | renameStaging name =>
    rcases mem_pair.mp inside with rfl | rfl
    · exact one (staging_proper _)
    · exact one (valid_proper (valid name rfl))
  | unlinkRecord name =>
    rw [mem_singleton.mp inside]
    exact two (valid_proper (valid name rfl))
  | rmdirRecord name =>
    rw [mem_singleton.mp inside]
    exact one (valid_proper (valid name rfl))

/-- A note that a rollback may follow. -/
def Note.Local (n : Note) (t : Tree) : Prop := t.Plain n.path ∧ usrLocal <+: n.path ∧ (n.tag ≠ .D → usrLocal ≠ n.path)

/-- What the commands rely on: the directories, and the paths that a pending journal and the lists
of the installed packages name. -/
structure Tame (s : State) : Prop where
  ground : Ground s.tree
  pending : ∀ {txt name n}, s.journal = some txt → header txt = some (true,name) → n ∈ notes txt → n.Local s.tree
  files : ∀ {name f}, f ∈ s.files name → usrLocal <+: f.path.val

def Acts {β : Type} (c : Call β) (s s' : State) : Prop := Confined c s s' ∧ Tame s'

lemma Tame.acts (tame : Tame s) : Acts c s s := ⟨fun changed => absurd rfl changed,tame⟩

lemma Plain.update (plain : t.Plain q) (set : u.find = update t.find p x)
    (noLink : ∀ target, x ≠ some (.link target)) : u.Plain q := by
  refine ⟨plain.some_name,plain.proper,fun {a r target} split more => ?_⟩
  by_cases same : a = p
  · rw [set,same,update_self]
    exact noLink target
  · rw [set,update_of_ne same]
    exact plain.no_link split more

lemma Tame.update (tame : Tame s) (set : u.find = update s.tree.find p x)
    (noLink : ∀ target, x ≠ some (.link target)) (apart : ∀ d ∈ [usr,varDbPkg,varLock], d ≠ p) :
    Tame { s with tree := u } := by
  refine ⟨⟨fun d inside => ?_,fun {q target} below => ?_⟩,fun journal head inside => ?_,tame.files⟩
  · rw [set,update_of_ne (apart d inside)]
    exact tame.ground.dirs d inside
  · by_cases same : q = p
    · rw [set,same,update_self]
      exact noLink target
    · rw [set,update_of_ne same]
      exact tame.ground.database below
  · obtain ⟨plain,under⟩ := tame.pending journal head inside
    exact ⟨Plain.update plain set noLink,under⟩

lemma apart_local (inside : usrLocal <+: p) : ∀ d ∈ [usr,varDbPkg,varLock], d ≠ p := by
  have none : ∀ d ∈ [usr,varDbPkg,varLock], ¬usrLocal <+: d := by decide
  rintro d listed rfl
  exact none d listed inside

lemma tree_acts (is : exec c = onTree change)
    (targets : ∀ p ∈ c.targets, s.tree.Plain p ∧ Under p)
    (after : ∀ u, change s.tree = .ok u → Tame { s with tree := u }) (tame : Tame s)
    (answer : answers c s r s') : Acts c s s' := by
  rcases answers_tree is answer with ⟨u,changed,-,rfl⟩ | ⟨-,rfl⟩
  · exact ⟨fun _ => targets,after u changed⟩
  · exact tame.acts

lemma take_acts {call : Tree → Except Errno Tree} (is : exec c = onTree call)
    (removes : Tree.Removes p call) (targets : c.targets = [p]) (plain : s.tree.Plain p) (under : usrLocal <+: p)
    (tame : Tame s)
    (answer : answers c s r s') : Acts c s s' := by
  refine tree_acts is ?_ (fun u gone => ?_) tame answer
  · simp only [targets,mem_singleton]
    rintro _ rfl
    exact ⟨plain,.inl under⟩
  · exact tame.update (removes plain gone) nofun (apart_local under)

/-- The descriptor of a file that is created is its place. -/
def Opens : {β : Type} → Call β → Except Errno β → Prop
  | _, .create p _, .ok fd => fd.1 ++ [fd.2] = p
  | _, _, _ => True

lemma create_opens (plain : s.tree.Plain p) (answer : answers (.create p mode) s r s') :
    Opens (.create p mode) r ∧
      (s' = s ∨ ∃ u, s' = { s with tree := u } ∧ u.find = update s.tree.find p (some (.file mode []))) := by
  rcases answers_create answer with ⟨u,place,located,made,rfl,rfl⟩ | ⟨⟨e,rfl⟩,rfl⟩
  · obtain ⟨place',located',-,set⟩ := make_ok made
    rw [plain.path located'] at set
    exact ⟨plain.path located,.inr ⟨u,rfl,set⟩⟩
  · exact ⟨trivial,.inl rfl⟩

lemma Ground.keeps (ground : Ground s.tree) (listed : q ∈ [usr,varDbPkg,varLock])
    (above : d <+: q) (some_ : d ≠ []) (answer : answers (.mkdir d mode) s r s') : s' = s ∧ r ≠ .ok () := by
  obtain ⟨mode,dir⟩ := ground.dirs q listed
  have names : ∀ q ∈ [usr,varDbPkg,varLock], ∀ n ∈ q, n ≠ [] ∧ n ≠ dot ∧ n ≠ dotdot := by decide
  have there : s.tree.find d ≠ none := by
    obtain ⟨rest,rfl⟩ := above
    by_cases last : rest = []
    · rw [last,append_nil] at dir
      simp [dir]
    · obtain ⟨mode',found⟩ := above (t := s.tree) (p := d) (r := rest) (by simp [dir]) last
      simp [found]
  have plain : s.tree.Plain d := by
    refine ⟨some_,fun n inside => names q listed n (above.subset inside),fun {a b target} split _ => ?_⟩
    exact dir_above dir ((prefix_append a b).trans (split ▸ above)) target
  rcases answers_tree (exec_mkdir d _) answer with ⟨u,made,-,-⟩ | ⟨⟨e,rfl⟩,rfl⟩
  · obtain ⟨place,located,free,-⟩ := make_ok made
    rw [plain.path located] at free
    exact absurd free there
  · exact ⟨rfl,nofun⟩

lemma Ground.lock (ground : Ground t) : t.Plain lockPath := by
  obtain ⟨mode,dir⟩ := ground.dirs varLock (by simp)
  exact plain_of_dir (by decide) dir

lemma under_lock : Under lockPath := .inr (.inr (prefix_append _ _))

lemma apart_lock : ∀ d ∈ [usr,varDbPkg,varLock], d ≠ lockPath := by decide

lemma locking_acts (call : Locking Opens c) (answer : answers c s r s') (tame : Tame s) :
    Opens c r ∧ Acts c s s' ∧ Tame s' := by
  have both : Acts c s s' → Acts c s s' ∧ Tame s' := fun acts => ⟨acts,acts.2⟩
  cases call with
  | dir above some_ =>
    obtain ⟨rfl,-⟩ := tame.ground.keeps (by simp) above some_ answer
    exact ⟨trivial,both tame.acts⟩
  | create =>
    obtain ⟨opened,rfl | ⟨u,rfl,set⟩⟩ := create_opens tame.ground.lock answer
    · exact ⟨opened,both tame.acts⟩
    refine ⟨opened,both ⟨fun _ p inside => ?_,tame.update set nofun apart_lock⟩⟩
    rw [mem_singleton.mp inside]
    exact ⟨tame.ground.lock,under_lock⟩
  | @write fd data opened =>
    have path : fd.1 ++ [fd.2] = lockPath := opened
    refine ⟨trivial,both (tree_acts (exec_write fd data) (fun p inside => ?_) (fun u written => ?_) tame answer)⟩
    · rw [mem_singleton.mp inside,path]
      exact ⟨tame.ground.lock,under_lock⟩
    obtain ⟨mode,old,-,set⟩ := append_ok written
    rw [path] at set
    exact tame.update set nofun apart_lock
  | close =>
    have same : s' = s := by
      rcases answer with ran | ⟨-,-,rfl⟩
      · cases ran
        rfl
      · rfl
    subst same
    exact ⟨trivial,both tame.acts⟩
  | unlink =>
    refine ⟨trivial,both (tree_acts (exec_unlink lockPath) (fun p inside => ?_) (fun u gone => ?_) tame answer)⟩
    · rw [mem_singleton.mp inside]
      exact ⟨tame.ground.lock,under_lock⟩
    · exact tame.update (removes_unlink tame.ground.lock gone) nofun apart_lock

/-- A call that adds nothing to the journal or to the records. -/
inductive Easy (name : Name) : {β : Type} → Call β → Prop
  | look {β : Type} {c : Call β} (looks : c.mutates = false) : Easy name c
  | staging {β : Type} {c : Call β} (staging : Staging name c) : Easy name c
  | erasing {β : Type} {c : Call β} (erasing : Erasing name c) : Easy name c
  | truncJournal : Easy name .truncJournal
  | unlinkJournal : Easy name .unlinkJournal

lemma Tame.other (tame : Tame s) (tree : s'.tree = s.tree)
    (journal : s'.journal = s.journal ∨ s'.journal = none ∨ s'.journal = some [])
    (files : ∀ name, s'.files name = s.files name ∨ s'.files name = []) : Tame s' := by
  refine ⟨tree ▸ tame.ground,fun {txt name n} pending head inside => ?_,fun {name f} inside => ?_⟩
  · rw [tree]
    rcases journal with same | none | blank
    · exact tame.pending (same ▸ pending) head inside
    · simp [none] at pending
    rw [blank] at pending
    cases pending
    cases head
  · rcases files name with same | none
    · exact tame.files (same ▸ inside)
    · simp [none] at inside

lemma Easy.tame (easy : Easy name c) (answer : answers c s r s') (tame : Tame s) : Tame s' := by
  cases easy with
  | look looks =>
    obtain ⟨-,rfl⟩ := answers_look looks answer
    exact tame
  | staging staging =>
    obtain ⟨dirs,rfl⟩ := staging.rest answer
    exact tame.other rfl (.inl rfl) fun _ => .inl rfl
  | erasing erasing =>
    have files := erasing.files answer
    rcases erasing.fewer answer with rfl | ⟨rec,rfl,-⟩
    · exact tame
    · exact tame.other rfl (.inl rfl) files
  | truncJournal =>
    rcases answer with ran | ⟨-,-,rfl⟩
    · cases ran
      exact tame.other rfl (.inr (.inr rfl)) fun _ => .inl rfl
    · exact tame
  | unlinkJournal =>
    rcases answer with ran | ⟨-,-,rfl⟩
    · cases ran
      exact tame.other rfl (.inr (.inl rfl)) fun _ => .inl rfl
    · exact tame

lemma Easy.still (easy : Easy name c) : c.touches = false ∧ ∀ n ∈ c.about, n = name := by
  cases easy with
  | look looks =>
    cases c with
    | lstat | readJournal | installed | readFile | readFiles | check => exact ⟨rfl,(by intros; contradiction)⟩
    | _ => cases looks
  | staging staging => cases staging <;> exact ⟨rfl,by simp [Call.about]⟩
  | erasing erasing => cases erasing <;> exact ⟨rfl,by simp [Call.about]⟩
  | truncJournal | unlinkJournal => exact ⟨rfl,(by intros; contradiction)⟩

lemma Easy.acts (easy : Easy name c) (valid : nameIsValid name = true)
    (answer : answers c s r s') (tame : Tame s) : Acts c s s' ∧ Tame s' := by
  have after := easy.tame answer tame
  obtain ⟨still,about⟩ := easy.still
  refine ⟨⟨fun _ => database_confined tame.ground c still fun n inside => ?_,after⟩,after⟩
  rw [about n inside]
  exact valid

lemma journalEnd_acts (tame : Tame s) : journalEnd.Obeys answers Acts (fun _ => Tame) s := by
  have one : journalEnd.Only (fun _ _ => True) (Easy [97]) :=
    Only.bind (Only.perform .unlinkJournal).attempt fun _ => trivial
  exact one.obeys tame fun easy answer tame => ⟨trivial,easy.acts (by decide +kernel) answer tame⟩

lemma dropStaging_acts (valid : nameIsValid name = true) (tame : Tame s) :
    (dropStaging name).Obeys answers Acts (fun _ => Tame) s :=
  (dropStaging_only (A := fun _ _ => True)).obeys tame fun staging answer tame =>
    ⟨trivial,(Easy.staging staging).acts valid answer tame⟩

lemma dbRemove_acts (valid : nameIsValid name = true) (tame : Tame s) :
    (dbRemove name).Obeys answers Acts (fun _ => Tame) s :=
  (dbRemove_only (A := fun _ _ => True)).obeys tame fun erasing answer tame =>
    ⟨trivial,(Easy.erasing erasing).acts valid answer tame⟩

lemma temp_local (under : usrLocal <+: p) (inner : usrLocal ≠ p) : usrLocal <+: temp p := by
  obtain ⟨r,rfl⟩ := under
  obtain ⟨q,l,rfl⟩ := (eq_nil_or_concat' r).resolve_left fun none => inner (by simp [none])
  rw [← append_assoc,temp_split]
  exact prefix_append _ _

lemma removed_acts {call : Tree → Except Errno Tree} (is : exec c = onTree call) (removes : Tree.Removes p call)
    (targets : c.targets = [p]) (plain : s.tree.Plain p) (under : usrLocal <+: p) (tame : Tame s) :
    (perform c).Obeys answers Acts (fun _ s' => Tame s' ∧ Tree.Sub s'.tree s.tree) s := by
  refine Obeys.perform fun r s' answer => ?_
  have acts := take_acts is removes targets plain under tame answer
  refine ⟨acts,acts.2,?_⟩
  rcases answers_tree is answer with ⟨u,gone,-,rfl⟩ | ⟨-,rfl⟩
  · have sub := removes.sub plain
    rwa [gone] at sub
  · exact fun _ _ found => found

lemma undo_acts (noted : n.Local s.tree) (tame : Tame s) :
    (undo env n).Obeys answers Acts (fun _ s' => Tame s' ∧ Tree.Sub s'.tree s.tree) s := by
  obtain ⟨plain,under,inner⟩ := noted
  rw [undo]
  cases tag : n.tag with
  | D =>
    exact Obeys.inspect (removed_acts (exec_rmdir n.path) removes_rmdir rfl plain under tame) fun _ _ after => after
  | F | T =>
    refine Obeys.inspect (removed_acts (exec_unlink n.path) removes_unlink rfl plain under tame) ?_
    rintro - s' ⟨tame',sub⟩
    split
    swap
    next => exact ⟨tame',sub⟩
    next =>
      have beside := temp_local under (inner (by simp [tag]))
      refine Obeys.inspect (removed_acts (exec_unlink (temp n.path)) removes_unlink rfl
        (plain_temp (plain.sub sub)) beside tame') ?_
      rintro - s'' ⟨tame'',sub'⟩
      exact ⟨tame'',sub'.trans sub⟩

lemma rollback_acts (noted : ∀ n ∈ ns, n.Local s.tree) (tame : Tame s) :
    (rollback env ns).Obeys answers Acts (fun _ => Tame) s := by
  induction ns generalizing s with
  | nil => exact tame
  | cons n ns ih =>
    refine Obeys.bind (undo_acts (noted n mem_cons_self) tame) ?_ fun _ _ after => after.1
    rintro - s' ⟨tame',sub⟩
    refine ih (fun k inside => ?_) tame'
    obtain ⟨plain,rest⟩ := noted k (mem_cons_of_mem _ inside)
    exact ⟨plain.sub sub,rest⟩

/-- The files of a package go; nothing else of the state is different. -/
lemma delFiles_acts {force : Bool} (tame : Tame s) :
    (delFiles env name force).Obeys answers Acts (fun _ => Tame) s := by
  have whole {u} (shrunk : Shrunk s u) (ground : Ground u.tree) : Tame u := by
    refine ⟨ground,fun pending head inside => ?_,fun inside => ?_⟩
    · rw [shrunk.rest] at pending
      obtain ⟨plain,rest⟩ := tame.pending pending head inside
      exact ⟨plain.sub shrunk.sub,rest⟩
    · rw [shrunk.rest] at inside
      exact tame.files inside
  have listed : (delFiles env name force).Obeys answers
    (Rule name (Removal (fun _ _ => True) (s.files name)) (Shrunk s)) (Ends s) s :=
    delFiles_obeys (fun _ _ _ => trivial) (fun more first => first.trans more) (.inl rfl)
      (.refl s) fun _ _ _ _ _ _ _ => trivial
  have ruled := listed.invariant (I := fun u => Shrunk s u ∧ Ground u.tree) ⟨.refl s,tame.ground⟩ ?_
  · refine (ruled.mono (fun {β c r t u} answer rule => ?_)).weaken fun r u post => whole post.2.1 post.2.2
    obtain ⟨rule,⟨before,ground⟩,after,ground'⟩ := rule
    refine ⟨fun changed p inside => ?_,whole after ground'⟩
    cases touches : c.touches with
    | false =>
      have same := answers_still touches answer
      exact absurd (by rw [after.rest,before.rest,same]) changed
    | true =>
      cases rule.tree touches with
      | dir listed plain | file listed plain fit =>
        rw [mem_singleton.mp inside]
        exact ⟨plain,.inl (tame.files listed)⟩
  · intro β c r t u answer here rule
    refine ⟨rule.after,?_⟩
    cases touches : c.touches with
    | false =>
      rw [answers_still touches answer]
      exact here.2
    | true =>
      cases rule.tree touches with
      | dir listed plain =>
        exact (take_acts (exec_rmdir _) removes_rmdir rfl plain (tame.files listed)
          (whole here.1 here.2) answer).2.ground
      | file listed plain fit =>
        exact (take_acts (exec_unlink _) removes_unlink rfl plain (tame.files listed)
          (whole here.1 here.2) answer).2.ground

lemma header_valid (head : header txt = some (verb,name)) : nameIsValid name = true := by
  obtain ⟨line,-,parsed⟩ := Option.bind_eq_some_iff.mp head
  simp only [parseHeader] at parsed
  split at parsed
  next valid =>
    cases parsed
    exact valid.2
  next => cases parsed

lemma recover_acts (tame : Tame s) : (journalRecover env.removing).Obeys answers Acts (fun _ => Tame) s := by
  refine recover_rule (fun _ => tame.acts) tame tame (journalEnd_acts tame)
    (fun txt name journal head _ => ?_) fun txt name journal head => ?_
  · refine Obeys.bind (rollback_acts (fun n inside => ?_) tame) (fun _ _ tame => ?_) fun _ _ tame => tame
    · exact tame.pending journal head (mem_reverse.mp inside)
    · exact Obeys.bind (dropStaging_acts (header_valid head) tame)
        (fun _ _ tame => journalEnd_acts tame) fun _ _ tame => tame
  · refine Obeys.bind (Q := fun _ => Tame) ?_ (fun _ _ tame => journalEnd_acts tame) fun _ _ tame => tame
    refine Obeys.bind (delFiles_acts tame) (fun _ _ tame => ?_) fun _ _ tame => tame
    exact Obeys.inspect (dbRemove_acts (header_valid head) tame) fun _ _ tame => tame

section install
variable (admitted : Admitted base m) (ground : Ground base)
  (inside : ∀ e ∈ m.entries, usrLocal <+: e.path.val ∧ usrLocal ≠ e.path.val)

include ground inside in
/-- What is missing above an entry is under `usr/local`. -/
lemma missing_local (member : e ∈ m.entries) (split : e.path.val = d ++ r) (some_ : d ≠ [])
    (none : base.find d = none) :
    usrLocal <+: d := by
  have above : d <+: e.path.val := ⟨r,split.symm⟩
  rcases prefix_or_prefix_of_prefix (inside e member).1 above with below | short
  · exact below
  have each : ∀ d ∈ usrLocal.inits, d = [] ∨ d = usr ∨ d = usrLocal := by decide
  rcases each d ((mem_inits _ _).mpr short) with rfl | rfl | rfl
  · exact absurd rfl some_
  · obtain ⟨mode,dir⟩ := ground.dirs usr (by simp)
    simp [dir] at none
  · exact prefix_rfl

include ground inside in
lemma Core.grounded (core : Core base m ks t) : Ground t := by
  refine ⟨fun d listed => ?_,fun {q target} below link => ?_⟩
  · obtain ⟨mode,dir⟩ := ground.dirs d listed
    exact ⟨mode,core.intact dir⟩
  cases old : base.find q with
  | none =>
    obtain ⟨e,member,-,rfl⟩ := core.links old link
    rcases prefix_or_prefix_of_prefix below (inside e member).1 with first | first
    · exact absurd first (by decide)
    · exact absurd first (by decide)
  | some node =>
    rw [core.intact old] at link
    exact ground.database below (old.trans link)

include admitted ground inside

/-- Before its end an install leaves what every command relies on. -/
lemma Open.tame (under : Open base m s) (valid : nameIsValid m.name = true)
    (files : ∀ {name f}, f ∈ s.files name → usrLocal <+: f.path.val) :
    Tame s := by
  obtain ⟨ks,held,core⟩ := under
  refine ⟨core.grounded ground inside,fun {txt name n} pending head listed => ?_,files⟩
  have safe n (listed : n ∈ ks.reverse) : Safe n.path := core.safe (mem_reverse.mp listed)
  obtain rfl : addJournal m.name ks.reverse = txt := Option.some.inj (held.1.symm.trans pending)
  rw [notes_addJournal valid safe] at listed
  have noted := mem_reverse.mp listed
  obtain ⟨e,member,r,split⟩ := core.named noted
  refine ⟨core.plain admitted noted,missing_local ground inside member split (core.safe noted).2.1 (core.new noted),
    fun tag => ?_⟩
  obtain ⟨e',member',path,-⟩ := core.files noted tag
  rw [← path]
  exact (inside e' member').2

/-- A call of the extraction acts at an entry, beside one, or above one. -/
lemma Placing.confined (placing : Placing Opens m c) (answer : answers c s r s')
    (under : Open base m s) : Confined c s s' := by
  obtain ⟨ks,held,core⟩ := under
  have entry : ∀ {e}, e ∈ m.entries → s.tree.Plain e.path.val ∧ Under e.path.val :=
    fun member => ⟨core.plain_entry admitted member,.inl (inside _ member).1⟩
  have beside : ∀ {e}, e ∈ m.entries → s.tree.Plain (temp e.path.val) ∧ Under (temp e.path.val) :=
    fun member => ⟨plain_temp (core.plain_entry admitted member),
      .inl (temp_local (inside _ member).1 (inside _ member).2)⟩
  intro changed p target
  cases placing with
  | @parent e d r member split more some_ =>
    rw [mem_singleton.mp target]
    have plain := plain_above admitted core member split some_
    rcases answers_tree (exec_mkdir d _) answer with ⟨u,made,-,-⟩ | ⟨-,same⟩
    · obtain ⟨place,located,free,-⟩ := make_ok made
      rw [plain.path located] at free
      exact ⟨plain,.inl (missing_local ground inside member split some_ (core.fresh free))⟩
    · exact absurd same changed
  | dir member | symlink member => exact mem_singleton.mp target ▸ entry member
  | create member | chmod member | unlink member => exact mem_singleton.mp target ▸ beside member
  | @write e fd data member opened =>
    have path : fd.1 ++ [fd.2] = temp e.path.val := opened
    rw [mem_singleton.mp target,path]
    exact beside member
  | rename member =>
    rcases mem_pair.mp target with rfl | rfl
    · exact beside member
    · exact entry member
  | close | lstat | openJournal => cases target
  | appendJournal =>
    exact database_confined (core.grounded ground inside) (.appendJournal _) rfl (by simp [Call.about]) p target

omit ground inside in
lemma Placing.opens (placing : Placing Opens m c) (answer : answers c s r s')
    (under : Open base m s) : Opens c r := by
  obtain ⟨ks,held,core⟩ := under
  cases placing with
  | create member => exact (create_opens (plain_temp (core.plain_entry admitted member)) answer).1
  | _ => trivial

end install

variable {file : Archive}

lemma Placing.about (placing : Placing A m c) : c.about = none := by
  cases placing <;> rfl

/-- The extraction, from the journal that has just been begun. -/
lemma extract_acts (passed : Passed host pm s) (tame : Tame s) :
    (extractAll env pm.toManifest ending members []).Obeys answers Acts (fun _ => Tame) (s.begin pm.name) := by
  have admitted := passed.admitted
  have inside := passed.inside
  have good : Good env s.tree pm.toManifest False [] [] none s.tree := begin_good admitted
  have safe : (extractAll env pm.toManifest ending members []).Safe answers (Open s.tree pm.toManifest) _
    (s.begin pm.name) :=
    extract_safe (fun _ under => under) admitted (begin_ready.mpr passed.fresh) good
      (fun never => never.elim) nodup_nil nofun
  have calls := (extractAll_only (A := Opens)).safe safe (fun placing answer under =>
    placing.opens admitted answer under)
    (G := fun c t u => Confined c t u ∧ Open s.tree pm.toManifest u ∧ u.record = t.record)
    fun placing answer under after =>
      ⟨placing.confined admitted tame.ground inside answer under,after,(answers_elsewhere placing.about answer).1⟩
  have ruled := calls.invariant (I := fun u => u.record = s.record) rfl fun _ same rule => rule.2.2.trans same
  have whole {u} (under : Open s.tree pm.toManifest u) (same : u.record = s.record) : Tame u := by
    refine under.tame admitted tame.ground inside passed.valid fun {name f} listed => ?_
    rw [State.files,State.flist,same] at listed
    exact tame.files listed
  refine (ruled.mono fun _ rule => ⟨rule.1.1,whole rule.1.2.1 rule.2.2⟩).weaken fun r u post => ?_
  cases r with
  | ok =>
    obtain ⟨⟨done,⟨ks,held,good⟩,-⟩,same⟩ := post
    exact whole ⟨ks,held,good.toCore⟩ same
  | error => exact whole post.1 post.2

lemma record_acts (parsed : manifestParse txt = some pm) (passed : Passed host pm s) (tame : Tame s') :
    (record (file.package txt pm)).Obeys answers Acts (fun _ => Tame) s' := by
  have whole : ∀ {r : Except Errno Unit} {u : State}, ends (fun _ => Tame) Tame r u ↔ Tame u :=
    fun {r} => by cases r <;> exact Iff.rfl
  refine (record_rule (J := Tame) (K := Tame) (fun staging answer tame =>
    (Easy.staging staging).acts passed.valid answer tame)
    (fun {r s s'} answer tame staged => ?_) tame).weaken fun _ _ => whole.mp
  have after : Tame s' := by
    rcases answers_rename answer with ⟨rec,found,-,rfl⟩ | ⟨-,rfl⟩
    · refine ⟨tame.ground,tame.pending,fun {name f} listed => ?_⟩
      by_cases same : name = pm.name
      · obtain rfl := Option.some.inj (found.symm.trans staged)
        cases read : readFlist (writeFiles pm.toManifest) with
        | none => simp [State.files,State.flist,same,Archive.package,read] at listed
        | some fl =>
          have member : f ∈ fl := by simpa [State.files,State.flist,same,Archive.package,read] using listed
          exact readFlist_inside (manifestParse_accepted parsed) (by decide +kernel)
            (by decide +kernel) passed.inside read member
      · have old : f ∈ s.files name := by simpa [State.files,State.flist,Archive.package,same] using listed
        exact tame.files old
    · exact tame
  refine ⟨⟨fun _ => database_confined tame.ground _ rfl fun n inside => ?_,after⟩,whole.mpr after⟩
  obtain rfl : pm.name = n := Option.some.inj inside
  exact passed.valid

lemma install_acts (parsed : manifestParse txt = some pm) (passed : Passed host pm s) (tame : Tame s) :
    (install env.removing (file.package txt pm)).Obeys answers Acts (fun _ => Tame) (s.begin pm.name) := by
  refine Obeys.inspect (Q := fun _ => Tame) ?_ fun r u tame => ?_
  · exact Obeys.bind (extract_acts passed tame) (fun _ u tame => record_acts parsed passed tame) fun _ _ tame => tame
  cases r with
  | ok => exact journalEnd_acts tame
  | error e => exact Obeys.inspect (recover_acts tame) fun _ _ tame => tame

lemma header_begun (valid : nameIsValid name = true) : header (addVerb ++ name ++ [newline]) = some (true,name) ∧
    notes (addVerb ++ name ++ [newline]) = [] := by
  have text : addVerb ++ name ++ [newline] = addJournal name [] := by simp [addJournal]
  rw [text]
  exact ⟨header_addJournal valid (by simp),notes_addJournal valid (by simp)⟩

lemma begin_acts (tame : Tame s) (after : Tame { s with journal := some (verb ++ name ++ [newline]) }) :
    (journalBegin verb name).Obeys answers Acts
      (ends (fun _ s' => s' = { s with journal := some (verb ++ name ++ [newline]) }) Tame) s := by
  refine Obeys.bind (Q := ends (fun _ s' => s' = { s with journal := some [] } ∧ Tame s') Tame)
    (Obeys.perform fun r s' answer => ?_) ?_
    fun _ _ failed => failed
  · have easy : Easy [97] .truncJournal := .truncJournal
    have acts := easy.acts (by decide +kernel) answer tame
    refine ⟨acts.1,?_⟩
    rcases answer with ran | ⟨-,⟨e,rfl⟩,-⟩
    · cases ran
      exact ⟨rfl,acts.2⟩
    · exact acts.2
  rintro - s₁ ⟨rfl,tame₁⟩
  refine Obeys.perform fun r s₂ answer => ?_
  have place : ∀ {s'}, Tame s' → Acts (.appendJournal (verb ++ name ++ [newline])) { s with journal := some [] } s' :=
    fun tame' => ⟨fun _ => database_confined tame₁.ground _ rfl (by simp [Call.about]),tame'⟩
  rcases answer with ran | ⟨-,⟨e,rfl⟩,rfl⟩
  · cases ran
    exact ⟨place after,rfl⟩
  · exact ⟨place tame₁,tame₁⟩

lemma look_acts (looks : c.mutates = false) (tame : Tame s) :
    (perform c).Obeys answers Acts (fun r s' => (exec c).run s = (r,s) ∧ s' = s) s := by
  refine Obeys.perform fun r s' answer => ?_
  obtain ⟨ran,rfl⟩ := answers_look looks answer
  exact ⟨tame.acts,ran,rfl⟩

lemma addPackage_acts (parsed : manifestParse txt = some pm) (tame : Tame s) :
    (addPackage host file txt pm).Obeys answers Acts (fun _ => Tame) s := by
  refine Obeys.bind (look_acts rfl tame) ?_ fun _ _ same => same.2 ▸ tame
  rintro ⟨⟩ s' ⟨ran,rfl⟩
  have passed : Passed host pm s' := Host.preflight_passed (congrArg Prod.fst ran)
  have begun : Tame (s'.begin pm.name) := by
    refine ⟨tame.ground,fun {txt name n} pending head inside => ?_,tame.files⟩
    cases pending
    rw [(header_begun passed.valid).2] at inside
    cases inside
  refine Obeys.bind (begin_acts tame begun) ?_ fun _ _ failed => failed
  rintro - s'' rfl
  exact install_acts parsed passed tame

lemma addBody_acts (tame : Tame s) : (addBody host signature file).Obeys answers Acts (fun _ => Tame) s := by
  have dirs : (makeDirs varDbPkg).Only (fun _ _ => True) fun {β} (c : Call β) =>
      ∀ {r s s'}, answers c s r s' → Tame s → s' = s := by
    refine makeDirs_only fun d above some_ r s s' answer tame => ?_
    exact (tame.ground.keeps (by simp) above some_ answer).1
  refine Obeys.bind (dirs.obeys tame fun keeps answer tame => ?_) (fun _ _ tame => ?_) fun _ _ tame => tame
  · obtain rfl := keeps answer tame
    exact ⟨trivial,tame.acts,tame⟩
  refine Obeys.bind (recover_acts tame) (fun _ _ tame => ?_) fun _ _ tame => tame
  cases signature with
  | error e => exact tame
  | ok =>
    cases file.manifest with
    | error e => exact tame
    | ok txt =>
      dsimp only
      split
      next => exact tame
      next m parsed => exact addPackage_acts parsed tame

lemma delBody_acts (valid : nameIsValid name = true)
    (asks : ∀ {s}, Tame s → needed.Obeys answers Acts (fun _ => Tame) s) (tame : Tame s) :
    (delBody env needed force name).Obeys answers Acts (fun _ => Tame) s := by
  refine Obeys.bind (recover_acts tame) (fun _ s₁ tame₁ => ?_) fun _ _ tame => tame
  refine Obeys.bind (Q := fun _ => Tame) (Obeys.perform fun r s' answer => ?_)
    (fun there s₂ tame₂ => ?_) fun _ _ tame => tame
  · obtain ⟨-,rfl⟩ := answers_look rfl answer
    exact ⟨tame₁.acts,tame₁⟩
  cases there with
  | false => exact tame₂
  | true =>
    have rest : ∀ {s}, Tame s → (do
        journalBegin delVerb name
        let _ ← delFiles env name force
        dbRemove name
        journalEnd : Code Unit).Obeys answers Acts (fun _ => Tame) s := by
      intro s tame
      have begun : Tame { s with journal := some (delVerb ++ name ++ [newline]) } := by
        refine ⟨tame.ground,fun {txt name n} pending head inside => ?_,tame.files⟩
        cases pending
        rw [header,header_del valid] at head
        cases head
      refine Obeys.bind (begin_acts tame begun) ?_ fun _ _ failed => failed
      rintro - s' rfl
      refine Obeys.bind (delFiles_acts begun) (fun _ _ tame => ?_) fun _ _ tame => tame
      exact Obeys.bind (dbRemove_acts valid tame) (fun _ _ tame => journalEnd_acts tame) fun _ _ tame => tame
    cases force with
    | true => exact rest tame₂
    | false => exact Obeys.bind (asks tame₂) (fun _ _ tame => rest tame) fun _ _ tame => tame

lemma command_acts {command : Command} (tame : Tame s) : (command.code host).Obeys answers Acts (fun _ => Tame) s := by
  cases command with
  | add signature file =>
    exact locked_rule locking_acts (fun kind answer tame => (locking_acts kind answer tame).2)
      (fun tame => tame) addBody_acts tame
  | del force name =>
    rw [Command.code]
    split
    swap
    next => exact tame
    next valid =>
      refine locked_rule locking_acts (fun kind answer tame => (locking_acts kind answer tame).2) (fun tame => tame)
        (delBody_acts valid fun {s} tame => ?_) tame
      exact (look_acts rfl tame).weaken fun _ _ same => same.2 ▸ tame

/-- The states that commands lead to, each of which may be cut off at any point. -/
inductive Reached (s : State) : State → Prop
  | start : Reached s s
  | next {t u : State} {host : Host} {command : Command} : Reached s t → (command.code host).Cut answers t u →
    Reached s u

lemma Reached.tame {t : State} (tame : Tame s) (reached : Reached s t) : Tame t := by
  induction reached with
  | start => exact tame
  | next _ cut ih => exact (command_acts ih).cut ih (fun _ _ acts => acts.2) cut

/-- Whatever the commands do stays under `usr/local`, in the database or at the lock, through no
link, as long as this holds of what the journal and the lists name at the start. -/
theorem commands_confined (tame : Tame s) {t : State} (reached : Reached s t) (command : Command) {β : Type}
    (c : Call β) (u v : State)
    (made : (command.code host).Makes answers c u v t) : Confined c u v :=
  ((command_acts (reached.tame tame)).makes made).1

namespace Rooted

def passwd : Path := [ascii "etc",ascii "passwd"]

def system : State := (((do
  makeDirs usr
  makeDirs varDbPkg
  makeDirs varLock : Code Unit).interp exec).run Small.state).2

/-- The same with a journal that names `etc/passwd`. -/
def planted : State :=
  { (((do
      makeDirs [ascii "etc"]
      let _ ← perform (.create passwd 0o644) : Code Unit).interp exec).run system).2 with
    journal := some (ascii "add x\nF etc/passwd\n") }

def machine : Host := { Small.world with
  arch := []
  names := []
  elsewhere := fun _ => none
  pid := []
  alive := (false,false) }

def inside : State := (((lockTake machine).interp exec).run planted).2

lemma tame : Tame system := by
  refine ⟨⟨fun d listed => ?_,fun {q target} _ link => ?_⟩,fun pending => ?_,fun {name f} listed => ?_⟩
  · simp only [mem_cons,not_mem_nil,or_false] at listed
    rcases listed with rfl | rfl | rfl
    all_goals exact ⟨0o755,by decide +kernel⟩
  · have dirs : ∀ q ∈ system.tree.nodes.keys, (system.tree.find q).any Node.isDir = true := by decide +kernel
    have there := dirs q (Finmap.mem_keys.mpr (mem_iff.mpr (by simp [link])))
    simp [link,Node.isDir] at there
  · have quiet : system.journal = none := by decide +kernel
    simp [quiet] at pending
  · have empty : system.record = fun _ => none := rfl
    simp [State.files,State.flist,empty] at listed

end Rooted

theorem commands_confined_system :
    Tame Rooted.system ∧ ∀ (host : Host) (command : Command) {β : Type} (c : Call β) (u v : State),
    (command.code host).Makes answers c u v Rooted.system → Confined c u v :=
  ⟨Rooted.tame,fun _ command _ c u v made => commands_confined Rooted.tame .start command c u v made⟩

/-- The rollback of a pending install follows whatever the journal names. -/
theorem journal_escapes :
    ∃ u v, ((Command.del false [97]).code Rooted.machine).Makes answers (.unlink Rooted.passwd) u v Rooted.planted ∧
    u.tree.find Rooted.passwd = some (.file 0o644 []) ∧ v.tree.find Rooted.passwd = none ∧
      ¬Confined (.unlink Rooted.passwd) u v := by
  have honest : ∀ {β : Type} (c : Call β) s, answers c s ((exec c).run s).1 ((exec c).run s).2 := fun _ _ => .inl rfl
  have gone : ((exec (.unlink Rooted.passwd)).run Rooted.inside).2.tree.find Rooted.passwd = none := by decide +kernel
  have there : Rooted.inside.tree.find Rooted.passwd = some (.file 0o644 []) := by decide +kernel
  refine ⟨Rooted.inside,((exec (.unlink Rooted.passwd)).run Rooted.inside).2,?_,there,gone,fun confined => ?_⟩
  · have takes : ∃ fd, ((lockTake Rooted.machine).interp exec).run Rooted.planted = (.ok fd,Rooted.inside) :=
      ⟨(varLock,ascii "pkg.lock"),Prod.ext (by decide +kernel) rfl⟩
    obtain ⟨fd,ran⟩ := takes
    rw [Command.code,if_pos (by decide +kernel),locked]
    refine makes_bind honest ran (Makes.bind (Makes.attempt (Makes.bind ?_)))
    have reads : ((perform Call.readJournal).attempt.interp exec).run Rooted.inside =
        (.ok (.ok (ascii "add x\nF etc/passwd\n")),Rooted.inside) :=
      Prod.ext (by decide +kernel) rfl
    have asks : ((perform (Call.installed [120])).interp exec).run Rooted.inside = (.ok false,Rooted.inside) :=
      Prod.ext (by decide +kernel) rfl
    have listed : (notes (ascii "add x\nF etc/passwd\n")).reverse = [⟨.F,Rooted.passwd⟩] := by decide +kernel
    rw [journalRecover]
    refine makes_bind honest reads ?_
    have header : (lines (ascii "add x\nF etc/passwd\n")).head?.bind parseHeader = some (true,[120]) := by
      decide +kernel
    simp only [header]
    refine makes_bind honest asks ?_
    rw [listed]
    exact Makes.bind (.now (.inl rfl))
  · have under := (confined (fun same => ?_) Rooted.passwd (by simp [Call.targets])).2
    · revert under
      decide
    rw [same] at gone
    rw [gone] at there
    cases there

end UbixOS.Pkg
