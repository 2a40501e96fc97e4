import UbixOS.Pkg.Extract

/-! The end of an install: its record, put in place by one rename. -/
namespace UbixOS.Pkg

open Library (Prog Fallible)
open Library.Files Library.Prog Function Safe List State Only Obeys

variable {env : Env} {pkg : Package} {s s' : State} {I : State → Prop}

/-- The old tree with the entries of the manifest. -/
structure Added (env : Env) (base : Tree) (m : Manifest) (first : Prop) (t : Tree) : Prop where
  intact : ∀ {p node}, base.find p = some node → t.find p = some node
  made : ∀ {p node}, base.find p = none → t.find p = some node → Belongs env m first p node
  stands : ∀ {e}, e ∈ m.entries → e.Stands env t

/-- The package is recorded; the journal may still be there. -/
structure Committed (env : Env) (base : Tree) (m : Manifest) (first : Prop) (s : State) : Prop where
  recorded : s.installed m.name = true
  added : Added env base m first s.tree
  journal : s.journal = none ∨ ∃ ks, s.journal = some (addJournal m.name ks) ∧ ∀ n ∈ ks, Safe n.path

lemma exec_mkdirStaging : exec (.mkdirStaging name) =
    onStaging name fun r => if r.isSome then .error .EEXIST else .ok (some ⟨none,none⟩) := rfl

lemma exec_openStaging : exec (.openStaging name leaf) = onStaging name fun
    | none => .error .ENOENT
    | some r => .ok (some (r.set leaf (some []))) := rfl

lemma exec_writeStaging : exec (.writeStaging name leaf data) = onStaging name fun
    | none => .error .EBADF
    | some r => .ok (some (r.set leaf ((r.get leaf).map (· ++ data)))) := rfl

lemma exec_unlinkStaging : exec (.unlinkStaging name leaf) = onStaging name fun
    | none => .error .ENOENT
    | some r => if (r.get leaf).isSome then .ok (some (r.set leaf none)) else .error .ENOENT := rfl

lemma exec_rmdirStaging : exec (.rmdirStaging name) = onStaging name fun
    | none => .error .ENOENT
    | some r => if r.manifest.isSome ∨ r.files.isSome then .error .ENOTEMPTY else .ok none := rfl

lemma answers_staging (is : exec c = onStaging name change) (answer : answers c s r s') :
    (∃ u, change (s.staging name) = .ok u ∧ r = .ok () ∧ s' = { s with staging := update s.staging name u }) ∨
      (∃ e, r = .error e) ∧ s' = s := by
  rcases answer with done | ⟨-,failed,same⟩
  · rw [is,onStaging] at done
    dsimp only at done
    cases result : change (s.staging name) with
    | ok u =>
      rw [result] at done
      cases done
      exact .inl ⟨u,rfl,rfl,rfl⟩
    | error e =>
      rw [result] at done
      cases done
      exact .inr ⟨⟨e,rfl⟩,rfl⟩
  · exact .inr ⟨failed,same⟩

lemma answers_rename (answer : answers (.renameStaging name) s r s') :
    (∃ rec, s.staging name = some rec ∧ r = .ok () ∧ s' = { s with
        staging := update s.staging name none
        record := update s.record name (some rec) }) ∨ (∃ e, r = .error e) ∧ s' = s := by
  rcases answer with done | ⟨-,failed,same⟩
  · simp only [exec] at done
    split at done
    next =>
      cases done
      exact .inr ⟨⟨_,rfl⟩,rfl⟩
    next rec found =>
      split at done
      all_goals cases done
      · exact .inr ⟨⟨_,rfl⟩,rfl⟩
      · exact .inl ⟨rec,found,rfl,rfl⟩
  · exact .inr ⟨failed,same⟩

def Ready (env : Env) (base : Tree) (m : Manifest) (first : Prop) (s : State) : Prop :=
  ∃ done, Done env base m first done s ∧ ∀ a ∈ m.entries, a.path.val ∈ done

lemma Ready.open (ready : Ready env base m first s) : Open base m s := by
  obtain ⟨done,⟨ks,held,good⟩,-⟩ := ready
  exact ⟨ks,held,good.toCore⟩

lemma Ready.staging {staging : Name → Option Record} (ready : Ready env base m first s) :
    Ready env base m first { s with staging := staging } := ready

lemma Ready.commits (ready : Ready env base m first s) {staging : Name → Option Record} {rec : Record}
    (whole : rec.manifest.isSome) :
    Committed env base m first { s with staging := staging, record := update s.record m.name (some rec) } := by
  obtain ⟨done,⟨ks,held,good⟩,all⟩ := ready
  refine ⟨?_,⟨good.intact,fun new found => good.made new found nofun,fun inside => good.placed inside (all _ inside)⟩,
    .inr ⟨ks.reverse,held.1,fun n inside => good.safe (mem_reverse.mp inside)⟩⟩
  simp [installed,whole]

/-- A call on the directory in which the record is prepared. -/
inductive Staging (name : Name) : {β : Type} → Call β → Prop
  | mkdir : Staging name (.mkdirStaging name)
  | openLeaf {leaf : Leaf} : Staging name (.openStaging name leaf)
  | write {leaf : Leaf} {data : Bytes} : Staging name (.writeStaging name leaf data)
  | unlink {leaf : Leaf} : Staging name (.unlinkStaging name leaf)
  | rmdir : Staging name (.rmdirStaging name)

lemma Staging.rest (staging : Staging name c) (answer : answers c s r s') :
    ∃ dirs, s' = { s with staging := dirs } := by
  have each : ∀ {c : Call Unit} {change : Option Record → Except Errno (Option Record)} {r}, exec c =
    onStaging name change →
      answers c s r s' → ∃ dirs, s' = { s with staging := dirs } := by
    intro c change r is answer
    rcases answers_staging is answer with ⟨u,-,-,rfl⟩ | ⟨-,rfl⟩
    · exact ⟨_,rfl⟩
    · exact ⟨_,rfl⟩
  cases staging with
  | mkdir => exact each exec_mkdirStaging answer
  | openLeaf => exact each exec_openStaging answer
  | write => exact each exec_writeStaging answer
  | unlink => exact each exec_unlinkStaging answer
  | rmdir => exact each exec_rmdirStaging answer

lemma dropStaging_only : (dropStaging name).Only A (Staging name) :=
  Only.bind (Only.perform .unlink).attempt fun _ => Only.bind (Only.perform .unlink).attempt fun _ =>
    Only.bind (Only.perform .rmdir).attempt fun _ => trivial

/-- `record`, for an invariant that the preparation keeps, and a condition on its end. -/
lemma record_rule
    (prepare : ∀ {β : Type} {c : Call β} {r s s'}, Staging pkg.manifest.name c → answers c s r s' → J s →
    G c s s' ∧ J s')
    (commit : ∀ {r s s'}, answers (.renameStaging pkg.manifest.name) s r s' → J s →
      s.staging pkg.manifest.name = some ⟨some pkg.manifestText,some pkg.filesText⟩ →
        G (.renameStaging pkg.manifest.name) s s' ∧ ends (fun _ => K) J r s')
    (here : J s) : (record pkg).Obeys answers G (ends (fun _ => K) J) s := by
  -- What a call on the directory leaves in it.
  have staging : ∀ {c : Call Unit} {change : Option Record → Except Errno (Option Record)} {s}, exec c =
    onStaging pkg.manifest.name change →
      Staging pkg.manifest.name c → J s → (perform c).Obeys answers G
        (ends (fun _ s' => J s' ∧ change (s.staging pkg.manifest.name) = .ok (s'.staging pkg.manifest.name)) J) s := by
    intro c change s is kind here
    refine perform fun r s' answer => ?_
    obtain ⟨rule,after⟩ := prepare kind answer here
    refine ⟨rule,?_⟩
    rcases answers_staging is answer with ⟨u,changed,rfl,rfl⟩ | ⟨⟨e,rfl⟩,rfl⟩
    · exact ⟨after,by simp [changed]⟩
    · exact after
  have staged : ∀ {leaf data s}, J s → (writeStaged pkg.manifest.name leaf data).Obeys answers G
      (ends (fun _ s' => J s' ∧ ∃ r, s.staging pkg.manifest.name = some r ∧
        s'.staging pkg.manifest.name = some (r.set leaf (some data))) J) s := by
    intro leaf data s here
    refine bind (staging exec_openStaging .openLeaf here) ?_ fun _ _ failed => failed
    rintro - s' ⟨here',opened⟩
    refine (staging exec_writeStaging .write here').weaken fun r s'' post => ?_
    cases r with
    | error => exact post
    | ok =>
      obtain ⟨here'',written⟩ := post
      refine ⟨here'',?_⟩
      cases before : s.staging pkg.manifest.name with
      | none => simp [before] at opened
      | some rec =>
        refine ⟨rec,rfl,?_⟩
        simp only [before,Except.ok.injEq] at opened
        rw [← opened] at written
        cases leaf <;> exact (Except.ok.inj written).symm
  have rest : ∀ {s}, J s → (do
      writeStaged pkg.manifest.name .manifest pkg.manifestText
      writeStaged pkg.manifest.name .files pkg.filesText
      perform (.renameStaging pkg.manifest.name) : Code Unit).Obeys answers G (ends (fun _ => K) J) s := by
    intro s here
    refine bind (staged here) ?_ fun _ _ failed => failed
    rintro - s₁ ⟨here₁,r,-,manifest⟩
    refine bind (staged here₁) ?_ fun _ _ failed => failed
    rintro - s₂ ⟨here₂,r',same,files⟩
    refine perform fun result s₃ answer => commit answer here₂ ?_
    rw [manifest] at same
    rw [files,← Option.some.inj same]
    rfl
  have made := staging exec_mkdirStaging .mkdir here
  refine inspect made fun r s' post => ?_
  cases r with
  | ok => exact rest post.1
  | error e =>
    cases e with
    | EEXIST => exact rest post
    | _ => exact post

lemma record_safe (kept : ∀ s, Open base m s → I s) (is : pkg.manifest = m)
    (commit : ∀ s, Committed env base m first s → I s)
    (ready : Ready env base m first s) :
    (record pkg).Safe answers I (ends (fun _ => Committed env base m first) (Open base m)) s := by
  subst is
  have obeys : (record pkg).Obeys answers (fun _ _ t => I t)
      (ends (fun _ => Committed env base pkg.manifest first) (Ready env base pkg.manifest first)) s := by
    refine record_rule (fun kind answer ready => ?_) (fun answer ready whole => ?_) ready
    · obtain ⟨dirs,rfl⟩ := kind.rest answer
      exact ⟨kept _ ready.staging.open,ready.staging⟩
    rcases answers_rename answer with ⟨rec,found,rfl,rfl⟩ | ⟨⟨e,rfl⟩,rfl⟩
    · obtain rfl := Option.some.inj (whole.symm.trans found)
      exact ⟨commit _ (ready.commits rfl),ready.commits rfl⟩
    · exact ⟨kept _ ready.open,ready⟩
  refine (obeys.weaken fun r s' post => ?_).safe (kept _ ready.open)
  cases r with
  | ok => exact post
  | error => exact post.open

lemma header_addJournal (valid : nameIsValid name = true) (safe : ∀ n ∈ ns, Safe n.path) :
    (lines (addJournal name ns)).head?.bind parseHeader = some (true,name) := by
  rw [lines_addJournal valid safe]
  exact parseHeader_add valid

lemma begin_ready : Held m [] (s.begin m.name) ↔ s.installed m.name = false := by
  refine ⟨fun held => held.2,fun new => ⟨?_,new⟩⟩
  simp [begin,addJournal]

lemma begin_good (admitted : Admitted base m) : Good env base m first [] [] none base where
  intact found := found
  ordered := trivial
  safe := nofun
  named := nofun
  files := nofun
  new := nofun
  links new found := by simp [new] at found
  below := nofun
  made new found := by simp [new] at found
  placed := nofun
  undone member file _ node found := by simp [admitted.free member file] at found

/-- The state after the next command has run `journal_recover`. -/
def recovered (env : Env) (s : State) : State := (((journalRecover env).interp exec).run s).2

lemma run_onStaging (change : Option Record → Except Errno (Option Record)) :
    ((onStaging name change).run s).2.tree = s.tree := by
  rw [onStaging]
  dsimp only
  cases change (s.staging name) <;> rfl

namespace Small

def root : Tree where
  nodes := Finmap.singleton [] (.dir 0o755)
  rooted := ⟨_,rfl⟩
  closed := by simp

def path : Rel := ⟨usrLocal ++ [[97]],by decide +kernel⟩

def entry : MEntry where
  type := .file
  mode := 0o644
  size := 1
  sha256 := [7]
  path := path
  target := []

def manifest : Manifest := ⟨[97],[entry],by simp⟩

def member : Member where
  type := .file
  path := path
  link := []
  size := 1
  chunks := [[120]]
  broken := none

def package : Package where
  manifest := manifest
  manifestText := [1]
  filesText := [2]
  members := [member]
  ending := none

def world : Env where
  sha256 _ := [7]
  rootLen := 0
  remove _ := ret ()

def state : State where
  tree := root
  journal := none
  staging _ := none
  record _ := none

end Small

end UbixOS.Pkg
