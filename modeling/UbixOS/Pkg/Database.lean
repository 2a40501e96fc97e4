import UbixOS.Pkg.Calls
import UbixOS.Pkg.Archive

/-! What the commands do to the database, for any property of the records: a package is added when
it has passed the checks, and a record goes when its removal has been begun. -/
namespace UbixOS.Pkg

open Library (Prog Fallible)
open Library Library.Files Library.Prog Function

abbrev Records := Name → Option Record

def Fewer (old new : Records) : Prop :=
    ∀ n leaf, (new n).bind (·.get leaf) = (old n).bind (·.get leaf) ∨ (new n).bind (·.get leaf) = none

def Lists (host : Host) (records : Records) : Prop := ∀ n, ((records n).bind (·.get .manifest)).isSome → n ∈ host.names

variable {env : Env} {file : Archive} {m : PkgManifest}

lemma Fewer.refl (old : Records) : Fewer old old := fun _ _ => .inl rfl

lemma Fewer.trans (first : Fewer old new) (second : Fewer new last) : Fewer old last := by
  intro n leaf
  rcases second n leaf with same | gone
  · rw [same]
    exact first n leaf
  · exact .inr gone

lemma Lists.fewer (lists : Lists host old) (fewer : Fewer old new) : Lists host new := by
  intro n there
  rcases fewer n .manifest with same | gone
  · exact lists n (same ▸ there)
  · simp [gone] at there

lemma Erasing.records (erasing : Erasing name c) (answer : answers c s res s') :
    Fewer s.record s'.record ∧ (∀ n, n ≠ name → s'.record n = s.record n) ∧ s'.journal = s.journal := by
  rcases erasing.fewer answer with rfl | ⟨rec,rfl,each⟩
  · exact ⟨.refl _,fun _ _ => rfl,rfl⟩
  refine ⟨fun n leaf => ?_,fun n other => by simp [other],rfl⟩
  by_cases same : n = name
  · subst same
    simpa using each leaf
  · exact .inl (by simp [same])

/-- A call that changes neither the records nor the journal. -/
def Silent {β : Type} (c : Call β) : Prop :=
    ∀ {r s s'}, answers c s r s' → s'.record = s.record ∧ s'.journal = s.journal

lemma silent_tree (is : exec c = onTree change) : Silent c := by
  intro r s s' answer
  rcases answers_tree is answer with ⟨u,-,-,rfl⟩ | ⟨-,rfl⟩ <;> exact ⟨rfl,rfl⟩

lemma silent_look (looks : c.mutates = false) : Silent c := by
  intro r s s' answer
  obtain ⟨-,rfl⟩ := answers_look looks answer
  exact ⟨rfl,rfl⟩

lemma silent_create : Silent (.create p mode) := by
  intro r s s' answer
  rcases answers_create answer with ⟨u,place,-,-,-,rfl⟩ | ⟨-,rfl⟩ <;> exact ⟨rfl,rfl⟩

lemma silent_close : Silent (.close fd) := by
  intro r s s' answer
  rcases answer with ran | ⟨-,-,rfl⟩
  · cases ran
    exact ⟨rfl,rfl⟩
  · exact ⟨rfl,rfl⟩

lemma silent_openJournal : Silent .openJournal := by
  intro r s s' answer
  rcases answer with ran | ⟨-,-,rfl⟩
  · cases ran
    exact ⟨rfl,rfl⟩
  · exact ⟨rfl,rfl⟩

lemma Staging.silent (staging : Staging name c) : Silent c := by
  intro r s s' answer
  obtain ⟨dirs,rfl⟩ := staging.rest answer
  exact ⟨rfl,rfl⟩

lemma Locking.silent (locking : Locking A c) : Silent c := by
  cases locking with
  | dir => exact silent_tree (exec_mkdir _ _)
  | create => exact silent_create
  | write => exact silent_tree (exec_write _ _)
  | close => exact silent_close
  | unlink => exact silent_tree (exec_unlink _)

lemma header_line (clean : newline ∉ verb ++ name ∧ 0 ∉ verb ++ name) :
    header (verb ++ name ++ [newline] ++ rest) = parseHeader (verb ++ name) := by
  have front : cstr (verb ++ name ++ [newline] ++ rest) = verb ++ name ++ newline :: cstr rest := by
    rw [cstr,List.append_assoc,List.takeWhile_append_of_pos]
    · simp [cstr,newline]
    intro b inside
    have other : b ≠ 0 := by
      rintro rfl
      exact clean.2 inside
    simpa using other
  rw [header,lines,front,Text.head_splitLines clean.1]
  rfl

lemma header_started (valid : nameIsValid name = true) :
    header (addVerb ++ name ++ [newline] ++ rest) = some (true,name) := by
  rw [header_line (header_clean valid)]
  exact parseHeader_add valid

/-- A property `D` of the records that an install keeps if the package is fit, and so does the removal
of a record that may go. -/
structure Law (D : Records → Prop) (N : Records → Name → Prop) (Fit : Records → Bytes → PkgManifest → Prop) : Prop where
  erase : ∀ {old new name}, D old → N old name → Fewer old new → (∀ n, n ≠ name → new n = old n) → D new ∧ N new name
  free : ∀ {host : Host} {s name}, Lists host s.record → D s.record → host.unneeded name s = .ok () → N s.record name
  commit : ∀ {host : Host} {s txt m}, Lists host s.record → D s.record → Passed host m s →
    manifestParse txt = some m → Fit s.record txt m →
    D (update s.record m.name (some ⟨some txt,some (writeFiles m.toManifest)⟩))
  fewer : ∀ {old new txt m}, Fewer old new → Fit old txt m → Fit new txt m

/-- The records have the property, and the one that a pending removal is about may go. -/
structure Kept (D : Records → Prop) (N : Records → Name → Prop) (s : State) : Prop where
  holds : D s.record
  pending : ∀ {txt name}, s.journal = some txt → header txt = some (false,name) → N s.record name

def Keeps (D : Records → Prop) (N : Records → Name → Prop) {β : Type} (_ : Call β) (_ s' : State) : Prop := Kept D N s'

/-- A condition on the records and the journal only, which the property is part of. -/
structure Still (D : Records → Prop) (N : Records → Name → Prop) (I : State → Prop) : Prop where
  kept : ∀ {s}, I s → Kept D N s
  same : ∀ {s s' : State}, s'.record = s.record → s'.journal = s.journal → I s → I s'

section pass
variable {x : Code α}

lemma Kept.same (kept : Kept D N s) (records : s'.record = s.record) (journal : s'.journal = s.journal) :
    Kept D N s' := by
  refine ⟨records ▸ kept.holds,fun pending head => ?_⟩
  rw [records]
  exact kept.pending (journal ▸ pending) head

lemma Kept.ended (kept : Kept D N s) : Kept D N { s with journal := none } := ⟨kept.holds,nofun⟩

lemma still_and {R : Records → Prop} : Still D N fun s => Kept D N s ∧ R s.record :=
  ⟨And.left,fun records journal here => ⟨here.1.same records journal,records ▸ here.2⟩⟩

lemma Still.step (still : Still D N I) (silent : Silent c) (answer : answers c s r s')
    (here : I s) : Keeps D N c s s' ∧ I s' := by
  obtain ⟨records,journal⟩ := silent answer
  have after := still.same records journal here
  exact ⟨still.kept after,after⟩

lemma Still.obeys (still : Still D N I) (only : x.Only (fun _ _ => True) P)
    (silent : ∀ {β : Type} {c : Call β}, P c → Silent c) (here : I s) :
    x.Obeys answers (Keeps D N) (fun _ => I) s :=
  only.obeys here fun kind answer here => ⟨trivial,still.step (silent kind) answer here⟩

lemma unlinkJournal_answers (answer : answers .unlinkJournal s r s') : s' = s ∨ s' = { s with journal := none } := by
  rcases answer with ran | ⟨-,-,rfl⟩
  · simp only [exec] at ran
    cases journal : s.journal with
    | none | some txt =>
      rw [journal] at ran
      cases ran
      exact .inr rfl
  · exact .inl rfl

lemma journalEnd_keeps {R : Records → Prop} (here : Kept D N s ∧ R s.record) :
    journalEnd.Obeys answers (Keeps D N) (fun r u => r = .ok () ∧ Kept D N u ∧ R u.record) s := by
  refine Obeys.inspect (Q := fun _ u => Kept D N u ∧ R u.record) (Obeys.perform fun r s' answer => ?_) fun _ _ here =>
    ⟨rfl,here⟩
  rcases unlinkJournal_answers answer with rfl | rfl
  · exact ⟨here.1,here⟩
  · exact ⟨here.1.ended,here.1.ended,here.2⟩

lemma delFiles_keeps (still : Still D N I) (here : I s) :
    (delFiles env name force).Obeys answers (Keeps D N) (fun _ => I) s :=
  still.obeys (delFiles_only (P := Silent) silent_look (fun _ => silent_tree (exec_unlink _)) fun _ =>
    silent_tree (exec_rmdir _)) (fun silent => silent) here

/-- The removal of a record is under way. -/
structure Erases (D : Records → Prop) (N : Records → Name → Prop) (old : Records) (name : Name) (s : State) : Prop where
  holds : D s.record
  may : N s.record name
  own : ∀ {txt n}, s.journal = some txt → header txt = some (false,n) → n = name
  fewer : Fewer old s.record

lemma Erases.kept (erases : Erases D N old name s) : Kept D N s :=
  ⟨erases.holds,fun pending head => erases.own pending head ▸ erases.may⟩

lemma still_erases : Still D N (Erases D N old name) := by
  refine ⟨Erases.kept,fun {s s'} records journal here => ?_⟩
  refine ⟨records ▸ here.holds,records ▸ here.may,fun pending head => here.own (journal ▸ pending) head,
    records ▸ here.fewer⟩

lemma dbRemove_keeps (law : Law D N Fit) (here : Erases D N old name s) :
    (dbRemove name).Obeys answers (Keeps D N) (fun _ => Erases D N old name) s := by
  refine (dbRemove_only (A := fun _ _ => True)).obeys here fun {β c r s s'} erasing answer here => ?_
  obtain ⟨fewer,others,journal⟩ := erasing.records answer
  obtain ⟨holds,may⟩ := law.erase here.holds here.may fewer others
  have after : Erases D N old name s' :=
    ⟨holds,may,fun pending head => here.own (journal ▸ pending) head,here.fewer.trans fewer⟩
  exact ⟨trivial,after.kept,after⟩

lemma recover_keeps (law : Law D N Fit) (kept : Kept D N s) :
    (journalRecover env.removing).Obeys answers (Keeps D N) (fun _ u => Kept D N u ∧ Fewer s.record u.record) s := by
  have here : Kept D N s ∧ Fewer s.record s.record := ⟨kept,.refl _⟩
  have overrun : ∀ {u}, Kept D N u ∧ Fewer s.record u.record →
    journalEnd.Obeys answers (Keeps D N) (fun _ u => Kept D N u ∧ Fewer s.record u.record) u :=
    fun here => (journalEnd_keeps (R := fun records => Fewer s.record records) here).weaken fun _ _ post => post.2
  have still : Still D N fun u => Kept D N u ∧ Fewer s.record u.record :=
    still_and (R := fun records => Fewer s.record records)
  refine recover_rule (fun _ => kept) here here (overrun here)
    (fun txt name journal head _ => ?_) fun txt name journal head => ?_
  · refine Obeys.bind (still.obeys (rollback_only (P := Silent) (fun _ => silent_tree (exec_unlink _)) fun _ =>
      silent_tree (exec_rmdir _))
      (fun silent => silent) here) (fun _ _ here => ?_) fun _ _ here => here
    exact Obeys.bind (still.obeys dropStaging_only (fun staging => staging.silent) here)
      (fun _ _ here => overrun here) fun _ _ here => here
  have erases : Erases D N s.record name s := by
    refine ⟨kept.holds,kept.pending journal head,fun {txt' n} pending other => ?_,.refl _⟩
    cases journal.symm.trans pending
    cases head.symm.trans other
    rfl
  have removed : (env.removing.remove name).Obeys answers (Keeps D N) (fun _ => Erases D N s.record name) s :=
    Obeys.bind (delFiles_keeps still_erases erases) (fun _ _ erases =>
      Obeys.inspect (dbRemove_keeps law erases) fun _ _ erases => erases)
      fun _ _ erases => erases
  exact Obeys.bind removed (fun _ _ erases => overrun ⟨erases.kept,erases.fewer⟩) fun _ _ erases =>
    ⟨erases.kept,erases.fewer⟩

/-- The journal of the install is open, and the records are as they were. -/
structure Begun (D : Records → Prop) (name : Name) (old : Records) (s : State) : Prop where
  holds : D s.record
  same : s.record = old
  journal : ∃ rest, s.journal = some (addVerb ++ name ++ [newline] ++ rest)

lemma kept_of_add (valid : nameIsValid name = true) (holds : D s.record)
    (journal : s.journal = some (addVerb ++ name ++ [newline] ++ rest)) : Kept D N s := by
  refine ⟨holds,fun pending head => ?_⟩
  cases journal.symm.trans pending
  cases (header_started valid).symm.trans head

lemma still_begun (valid : nameIsValid name = true) : Still D N (Begun D name old) := by
  refine ⟨fun begun => ?_,fun records journal begun =>
    ⟨records ▸ begun.holds,records.trans begun.same,journal ▸ begun.journal⟩⟩
  obtain ⟨rest,journal⟩ := begun.journal
  exact kept_of_add valid begun.holds journal

def Entered (txt : Bytes) (m : PkgManifest) (s : State) : Prop :=
    s.record m.name = some ⟨some txt,some (writeFiles m.toManifest)⟩

lemma Placing.keeps (placing : Placing A m.toManifest c) (answer : answers c s r s')
    (valid : nameIsValid name = true) (begun : Begun D name old s) : Keeps D N c s s' ∧ Begun D name old s' := by
  have silent : Silent c → Keeps D N c s s' ∧ Begun D name old s' :=
    fun silent => (still_begun valid).step silent answer begun
  cases placing with
  | parent | dir => exact silent (silent_tree (exec_mkdir _ _))
  | create => exact silent silent_create
  | write => exact silent (silent_tree (exec_write _ _))
  | close => exact silent silent_close
  | chmod => exact silent (silent_tree (exec_chmod _ _))
  | rename => exact silent (silent_tree (exec_rename _ _))
  | symlink => exact silent (silent_tree (exec_symlink _ _))
  | unlink => exact silent (silent_tree (exec_unlink _))
  | lstat => exact silent (silent_look rfl)
  | openJournal => exact silent silent_openJournal
  | @appendJournal line =>
    have after : Begun D name old s' := by
      rcases answer with ran | ⟨-,-,rfl⟩
      · obtain ⟨rest,journal⟩ := begun.journal
        cases ran
        exact ⟨begun.holds,begun.same,rest ++ line,by simp [journal]⟩
      · exact begun
    exact ⟨(still_begun valid).kept after,after⟩

lemma extract_keeps (valid : nameIsValid m.name = true) (begun : Begun D m.name old s) :
    (extractAll env m.toManifest ending members []).Obeys answers (Keeps D N) (fun _ => Begun D m.name old) s :=
  (extractAll_only (A := fun _ _ => True)).obeys begun fun placing answer begun =>
    ⟨trivial,placing.keeps answer valid begun⟩

section
variable (law : Law D N Fit) (lists : Lists host t.record) (passed : Passed host m t)
    (parsed : manifestParse txt = some m) (fit : Fit t.record txt m) (begun : Begun D m.name t.record s)
include law lists passed parsed fit begun

lemma record_keeps :
    (record (file.package txt m)).Obeys answers (Keeps D N)
    (ends (fun _ u => Kept D N u ∧ Entered txt m u) (Begun D m.name t.record)) s := by
  refine record_rule (fun staging answer begun => (still_begun passed.valid).step staging.silent answer begun)
    (fun {r s s'} answer begun staged => ?_) begun
  rcases answers_rename answer with ⟨rec,found,rfl,rfl⟩ | ⟨⟨e,rfl⟩,rfl⟩
  · cases found.symm.trans staged
    obtain ⟨rest,journal⟩ := begun.journal
    have holds := law.commit lists (begun.same ▸ begun.holds) passed parsed fit
    have kept : Kept D N { s with
        staging := update s.staging m.name none
        record := update s.record m.name (some ⟨some txt,some (writeFiles m.toManifest)⟩) } :=
      kept_of_add passed.valid (begun.same.symm ▸ holds) journal
    exact ⟨kept,kept,update_self ..⟩
  · exact ⟨(still_begun passed.valid).kept begun,begun⟩

lemma install_keeps : (install env.removing (file.package txt m)).Obeys answers (Keeps D N)
      (ends (fun _ u => Kept D N u ∧ Entered txt m u) (Kept D N)) s := by
  have kept : ∀ {u}, Begun D m.name t.record u → Kept D N u := (still_begun passed.valid).kept
  rw [install]
  refine Obeys.inspect (Q := ends (fun _ u => Kept D N u ∧ Entered txt m u) (Kept D N)) ?_ fun r u post => ?_
  · refine Obeys.bind (extract_keeps passed.valid begun) (fun _ u begun => ?_) fun _ _ begun => kept begun
    refine (record_keeps law lists passed parsed fit begun).weaken fun r u post => ?_
    cases r with
    | ok => exact post
    | error => exact kept post
  cases r with
  | ok =>
    refine (journalEnd_keeps (R := fun records => records m.name = _) post).weaken fun r u post => ?_
    rw [post.1]
    exact post.2
  | error e => exact Obeys.inspect (recover_keeps law post) fun _ _ post => post.1

end

lemma begin_keeps (kept : Kept D N s) (after : Kept D N { s with journal := some (verb ++ name ++ [newline]) }) :
    (journalBegin verb name).Obeys answers (Keeps D N)
      (ends (fun _ s' => s' = { s with journal := some (verb ++ name ++ [newline]) }) (Kept D N)) s := by
  have empty : Kept D N { s with journal := some [] } := ⟨kept.holds,fun pending head => by cases pending; cases head⟩
  rw [journalBegin]
  refine Obeys.bind (Q := ends (fun _ s' => s' = { s with journal := some [] }) (Kept D N))
    (Obeys.perform fun r s' answer => ?_) ?_
    fun _ _ failed => failed
  · rcases answer with ran | ⟨-,⟨e,rfl⟩,rfl⟩
    · cases ran
      exact ⟨empty,rfl⟩
    · exact ⟨kept,kept⟩
  rintro - s₁ rfl
  refine Obeys.perform fun r s₂ answer => ?_
  rcases answer with ran | ⟨-,⟨e,rfl⟩,rfl⟩
  · cases ran
    exact ⟨after,rfl⟩
  · exact ⟨empty,empty⟩

lemma look_keeps (looks : c.mutates = false) (kept : Kept D N s) :
    (perform c).Obeys answers (Keeps D N) (fun r s' => (exec c).run s = (r,s) ∧ s' = s) s := by
  refine Obeys.perform fun r s' answer => ?_
  obtain ⟨ran,rfl⟩ := answers_look looks answer
  exact ⟨kept,ran,rfl⟩

/-- The command's package is fit for these records. -/
def Command.Fits (Fit : Records → Bytes → PkgManifest → Prop) (records : Records) : Command → Prop
  | .add _ file => ∀ txt m, file.manifest = .ok txt → manifestParse txt = some m → Fit records txt m
  | .del .. => True

/-- What a successful command has left behind. -/
def Command.Left : Command → State → Prop
  | .add _ file, s => ∃ txt m, file.manifest = .ok txt ∧ manifestParse txt = some m ∧ Entered txt m s
  | .del .., _ => True

lemma Command.Left.same {command : Command} (left : command.Left s) (records : s'.record = s.record) :
    command.Left s' := by
  cases command with
  | add signature file =>
    obtain ⟨txt,m,read,parsed,entered⟩ := left
    refine ⟨txt,m,read,parsed,?_⟩
    rw [Entered,records]
    exact entered
  | del => trivial

lemma addBody_keeps (law : Law D N Fit) (lists : Lists host s.record)
    (fits : (Command.add signature file).Fits Fit s.record) (kept : Kept D N s) :
    (addBody host signature file).Obeys answers (Keeps D N)
    (ends (fun _ u => Kept D N u ∧ (Command.add signature file).Left u) (Kept D N)) s := by
  have still : Still D N fun u => Kept D N u ∧ Fewer s.record u.record :=
    still_and (R := fun records => Fewer s.record records)
  have dirs : (makeDirs varDbPkg).Only (fun _ _ => True) Silent :=
    makeDirs_only fun _ _ _ => silent_tree (exec_mkdir _ _)
  rw [addBody.eq_def]
  refine Obeys.bind (still.obeys dirs (fun silent => silent) ⟨kept,.refl _⟩)
    (fun _ s₁ here₁ => ?_) fun _ _ here => here.1
  refine Obeys.bind (recover_keeps law here₁.1) (fun _ s₂ here₂ => ?_) fun _ _ here => here.1
  have fewer : Fewer s.record s₂.record := here₁.2.trans here₂.2
  cases signature with
  | error e => exact here₂.1
  | ok =>
    cases read : file.manifest with
    | error e => exact here₂.1
    | ok txt =>
      dsimp only
      split
      next => exact here₂.1
      next m parsed =>
        rw [addPackage]
        refine Obeys.bind (look_keeps rfl here₂.1) ?_ fun _ _ same => same.2 ▸ here₂.1
        rintro ⟨⟩ s₃ ⟨ran,rfl⟩
        have passed : Passed host m s₃ := Host.preflight_passed (congrArg Prod.fst ran)
        have begun : Begun D m.name s₃.record { s₃ with journal := some (addVerb ++ m.name ++ [newline]) } :=
          ⟨here₂.1.holds,rfl,[],by simp⟩
        refine Obeys.bind (begin_keeps here₂.1 ((still_begun passed.valid).kept begun)) ?_ fun _ _ failed => failed
        · rintro - s₄ rfl
          refine (install_keeps law (lists.fewer fewer) passed parsed
            (law.fewer fewer (fits txt m read parsed)) begun).weaken fun r u post => ?_
          cases r with
          | ok => exact ⟨post.1,txt,m,read,parsed,post.2⟩
          | error => exact post

lemma delBody_keeps {force : Bool} (law : Law D N Fit) (lists : Lists host s.record)
    (free : force = true → ∀ records name, N records name)
    (valid : nameIsValid name = true) (kept : Kept D N s) :
    (delBody host.toEnv (perform (.check (host.unneeded name))) force name).Obeys answers (Keeps D N)
    (fun _ => Kept D N) s := by
  rw [delBody]
  refine Obeys.bind (recover_keeps law kept) (fun _ s₁ here₁ => ?_) fun _ _ here => here.1
  refine Obeys.bind (look_keeps rfl here₁.1) ?_ fun _ _ same => same.2 ▸ here₁.1
  rintro there s₂ ⟨-,rfl⟩
  cases there with
  | false => exact here₁.1
  | true =>
    have rest : N s₂.record name → (do
        journalBegin delVerb name
        let _ ← delFiles host.toEnv name force
        dbRemove name
        journalEnd : Code Unit).Obeys answers (Keeps D N) (fun _ => Kept D N) s₂ := by
      intro may
      have begun : Erases D N s₂.record name { s₂ with journal := some (delVerb ++ name ++ [newline]) } := by
        refine ⟨here₁.1.holds,may,fun pending head => ?_,.refl _⟩
        cases pending
        cases (header_del valid).symm.trans head
        rfl
      refine Obeys.bind (begin_keeps here₁.1 begun.kept) ?_ fun _ _ failed => failed
      rintro - s₃ rfl
      refine Obeys.bind (delFiles_keeps still_erases begun) (fun _ _ erases => ?_) fun _ _ erases => erases.kept
      refine Obeys.bind (dbRemove_keeps law erases) (fun _ _ erases => ?_) fun _ _ erases => erases.kept
      exact (journalEnd_keeps (R := fun _ => True) ⟨erases.kept,trivial⟩).weaken fun _ _ post => post.2.1
    cases force with
    | true => exact rest (free rfl _ _)
    | false =>
      refine Obeys.bind (look_keeps rfl here₁.1) ?_ fun _ _ same => same.2 ▸ here₁.1
      rintro ⟨⟩ s₃ ⟨ran,rfl⟩
      exact rest (law.free (lists.fewer here₁.2) here₁.1.holds (congrArg Prod.fst ran))

def Command.unforced : Command → Bool
  | .add .. => true
  | .del force _ => !force

lemma command_keeps (law : Law D N Fit) {command : Command} (lists : Lists host s.record)
    (fits : command.Fits Fit s.record)
    (free : command.unforced = false → ∀ records name, N records name) (kept : Kept D N s) :
    (command.code host).Obeys answers (Keeps D N) (ends (fun _ u => Kept D N u ∧ command.Left u) (Kept D N)) s := by
  have still : Still D N fun u => Kept D N u ∧ u.record = s.record := still_and (R := fun records => records = s.record)
  have lock : ∀ {β : Type} {c : Call β} {r : Except Errno β} {u v : State}, Locking (fun _ _ => True) c →
    answers c u r v →
      Kept D N u ∧ u.record = s.record → True ∧ Keeps D N c u v ∧ Kept D N v ∧ v.record = s.record :=
    fun locking answer here => ⟨trivial,still.step locking.silent answer here⟩
  have drop : ∀ {result : Except Errno Unit} {β : Type} {c : Call β} {r : Except Errno β} {u v : State},
    Locking (fun _ _ => True) c → answers c u r v →
      ends (fun _ u => Kept D N u ∧ command.Left u) (Kept D N) result u →
        Keeps D N c u v ∧ ends (fun _ u => Kept D N u ∧ command.Left u) (Kept D N) result v := by
    intro result β c r u v locking answer here
    obtain ⟨records,journal⟩ := locking.silent answer
    cases result with
    | ok =>
      have kept := here.1.same records journal
      exact ⟨kept,kept,here.2.same records⟩
    | error => exact ⟨here.same records journal,here.same records journal⟩
  cases command with
  | add signature file =>
    refine locked_rule lock drop And.left (fun {u} here => ?_) ⟨kept,rfl⟩
    have fits' : (Command.add signature file).Fits Fit u.record := here.2.symm ▸ fits
    exact addBody_keeps law (here.2.symm ▸ lists) fits' here.1
  | del force name =>
    rw [Command.code]
    split
    swap
    next => exact kept
    next valid =>
      refine locked_rule lock drop And.left (fun {u} here => ?_) ⟨kept,rfl⟩
      have free' : force = true → ∀ records name, N records name :=
        fun forced => free (by simp [Command.unforced,forced])
      refine (delBody_keeps law (here.2.symm ▸ lists) free' valid here.1).weaken fun r u kept => ?_
      cases r with
      | ok => exact ⟨kept,trivial⟩
      | error => exact kept

/-- The states that commands with the property `ok` lead to, each of which may be cut off. -/
inductive Managed (ok : State → Command → Prop) (s : State) : State → Prop
  | start : Managed ok s s
  | next {t u : State} {host : Host} {command : Command} : Managed ok s t → Lists host t.record → ok t command →
      (command.code host).Cut answers t u → Managed ok s u

lemma Managed.kept (law : Law D N Fit) (fits : ∀ {t command}, ok t command → command.Fits Fit t.record)
    (free : ∀ {t command}, ok t command → command.unforced = false → ∀ records name, N records name) (kept : Kept D N s)
    (managed : Managed ok s t) : Kept D N t := by
  induction managed with
  | start => exact kept
  | next _ lists fit cut ih =>
    exact (command_keeps law lists (fits fit) (free fit) ih).cut ih (fun _ _ keeps => keeps) cut

end pass

def Command.Read : Command → Prop
  | .add _ file => ∃ stream overrun, file = .read (.add stream overrun)
  | .del .. => True

lemma read_length (read : (Archive.read r).manifest = .ok txt) : txt.length ≤ PKG_MANIFEST_MAX := by
  rw [Archive.read] at read
  split at read
  next => cases read
  next => cases read
  next e r' _ =>
    simp only [Entry.manifest] at read
    split_ifs at read with refused whole
    cases read
    simp
    omega

end UbixOS.Pkg
