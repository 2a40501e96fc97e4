import UbixOS.Pkg.Atomic
import UbixOS.Pkg.Files

/-! The removal of a package (usr.sbin/pkg/del.c), and its completion by `journal_recover`. -/
namespace UbixOS.Pkg

open Library (Prog Fallible)
open Library Library.Files Library.Prog Obeys

variable {env : Env} {name : Name} {s s' : State}

/-- `path_through_symlink` finds nothing in the way. -/
def clearWay : List Path → Code Bool
  | [] => ret true
  | d :: rest => do
    match ← (perform (Call.lstat d)).attempt with
    | .ok (.link _) | .ok (.file ..) => ret false
    | .ok (.dir _) => clearWay rest
    | .error .ENOENT => ret true
    | .error _ => clearWay rest

def unmodified (env : Env) (f : FRec) : Code Bool := do
  match ← (perform (.readFile f.path.val)).attempt with
  | .ok data => ret (hexEncode (env.sha256 data) = f.hex)
  | .error _ => ret false

/-- One record of `del_files`; the result counts the files that are kept. -/
def delFile (env : Env) (force : Bool) (f : FRec) : Code Nat := do
  if ← clearWay (parents f.path.val) then
    match ← (perform (Call.lstat f.path.val)).attempt with
    | .error _ => ret 0
    | .ok node =>
      match f.type with
      | .dir => do
        let _ ← (perform (.rmdir f.path.val)).attempt
        ret 0
      | .link =>
        match node with
        | .link _ => do
          let _ ← (perform (.unlink f.path.val)).attempt
          ret 0
        | _ => ret 0
      | .file => do
        if ← (if force then ret true else unmodified env f) then
          let _ ← (perform (.unlink f.path.val)).attempt
          ret 0
        else ret 1
  else ret 0

def delAll (env : Env) (force : Bool) : List FRec → Code Nat
  | [] => ret 0
  | f :: rest => do
    let kept ← delFile env force f
    let more ← delAll env force rest
    ret (kept + more)

def delFiles (env : Env) (name : Name) (force : Bool) : Code Nat := do
  match ← (perform (.readFiles name)).attempt with
  | .error _ => ret 0
  | .ok txt =>
    match readFlist txt with
    | none => ret 0
    | some fl => delAll env force fl.reverse

def dbRemove (name : Name) : Code Unit := do
  let _ ← (perform (.unlinkRecord name .files)).attempt
  match ← (perform (.unlinkRecord name .manifest)).attempt with
  | .ok _ | .error .ENOENT => ret ()
  | .error e => fail e
  match ← (perform (.rmdirRecord name)).attempt with
  | .ok _ | .error .ENOENT => ret ()
  | .error e => fail e

/-- The branch of `journal_recover` for an interrupted removal. -/
def Env.removing (env : Env) : Env := { env with
  remove := fun name => do
    let _ ← delFiles env name true
    let _ ← (dbRemove name).attempt }

/-- `journal_begin` for a removal. -/
def journalBegin (verb : Bytes) (name : Name) : Code Unit := do
  perform .truncJournal
  perform (.appendJournal (verb ++ name ++ [newline]))

/-- `cmd_del` in the lock; `needed` is the search for a dependent package. -/
def delBody (env : Env) (needed : Code Unit) (force : Bool) (name : Name) : Code Unit := do
  journalRecover env.removing
  if ← perform (.installed name) then
    if force then ret () else needed
    journalBegin delVerb name
    let _ ← delFiles env name force
    dbRemove name
    journalEnd
  else fail .ENOENT

/-- `cmd_del` without the lock; `needed` is what the search finds. -/
def cmdDel (env : Env) (needed force : Bool) (name : Name) : Code Unit :=
  if nameIsValid name then delBody env (if needed then fail .EBUSY else ret ()) force name else fail .EINVAL

/-- `db_read_files` -/
def State.flist (s : State) (name : Name) : Option (List FRec) := ((s.record name).bind Record.files).bind readFlist

/-- The list of the package's files, as `del_files` reads it. -/
def State.files (s : State) (name : Name) : List FRec := (s.flist name).getD []

/-- A call by which a removal may change the tree: nothing but the listed paths, reached through
no link, and of the regular files only those that are `ok`. -/
inductive Removal (ok : FRec → Bytes → Prop) (files : List FRec) (t : Tree) : {β : Type} → Call β → Prop
  | dir {r : FRec} (listed : r ∈ files) (plain : t.Plain r.path.val) : Removal ok files t (.rmdir r.path.val)
  | file {r : FRec} (listed : r ∈ files) (plain : t.Plain r.path.val)
      (fit : ∀ mode data, t.find r.path.val = some (.file mode data) → ok r data) :
        Removal ok files t (.unlink r.path.val)

def Call.touches : {β : Type} → Call β → Bool
  | _, .mkdir .. | _, .create .. | _, .write .. | _, .chmod .. | _, .rename .. | _, .symlink .. | _, .unlink _ | _,
    .rmdir _ => true
  | _, _ => false

lemma plain_of_clear (clear : throughSymlink t (parents p) = false) (safe : Safe p) : t.Plain p := by
  refine ⟨safe.2.1,safe.proper,fun {q b target} split more link => ?_⟩
  rcases way_of_clear clear safe split more with none | ⟨mode,dir⟩
  · simp [none] at link
  · simp [dir] at link

/-- Of the state only the tree is different, and it has only lost nodes. -/
structure Shrunk (s s' : State) : Prop where
  rest : s' = { s with tree := s'.tree }
  sub : Tree.Sub s'.tree s.tree

lemma Shrunk.refl (s : State) : Shrunk s s := ⟨rfl,fun _ _ found => found⟩

lemma Shrunk.trans (first : Shrunk s s') (second : Shrunk s' s'') : Shrunk s s'' := by
  refine ⟨?_,second.sub.trans first.sub⟩
  rw [second.rest,first.rest]

def Call.about : {β : Type} → Call β → Option Name
  | _, .mkdirStaging name | _, .openStaging name _ | _, .writeStaging name .. | _, .unlinkStaging name _ | _,
    .rmdirStaging name
  | _, .renameStaging name | _, .unlinkRecord name _ | _, .rmdirRecord name => some name
  | _, _ => none

/-- The rule for the calls of a command: those that may change the tree are of the kind `R`, and
every state has `J`. -/
structure Rule (name : Name) (R : Tree → {β : Type} → Call β → Prop) (J : State → Prop) {β : Type} (c : Call β)
    (s s' : State) :
    Prop where
  tree : c.touches = true → R s.tree c
  record : ∀ n ∈ c.about, n = name
  after : J s'

section
variable {ok : FRec → Bytes → Prop} {J : State → Prop}
    (hashed : ∀ f data, hexEncode (env.sha256 data) = f.hex → ok f data)
  (stable : ∀ {s s'}, Shrunk s s' → J s → J s')

lemma look_obeys (looks : c.mutates = false) (still : c.touches = false ∧ c.about = none) (here : J s)
    (same : ((exec c).run s).2 = s) :
    (perform c).Obeys answers (Rule name (Removal ok fl) J) (fun r s' => r = ((exec c).run s).1 ∧ s' = s) s := by
  refine perform fun r s' answer => ?_
  rcases answer with ran | ⟨mutates,-⟩
  · rw [ran] at same ⊢
    subst same
    exact ⟨⟨fun touches => by simp [still.1] at touches,by simp [still.2],here⟩,rfl,rfl⟩
  · rw [looks] at mutates
    cases mutates

lemma clearWay_obeys (here : J s) : (clearWay ds).Obeys answers (Rule name (Removal ok fl) J)
    (fun r s' => r = .ok (!throughSymlink s.tree ds) ∧ s' = s) s := by
  induction ds with
  | nil => exact ⟨rfl,rfl⟩
  | cons d ds ih =>
    refine inspect (look_obeys rfl ⟨rfl,rfl⟩ here rfl) ?_
    rintro r s' ⟨rfl,rfl⟩
    rw [throughSymlink]
    simp only [exec]
    cases s'.tree.lstat d with
    | ok node =>
      cases node with
      | dir => exact ih
      | file | link => exact ⟨rfl,rfl⟩
    | error e =>
      cases e with
      | ENOENT => exact ⟨rfl,rfl⟩
      | _ => exact ih

include stable

lemma take_obeys {c : Call Unit} {call : Tree → Except Errno Tree} (is : exec c = onTree call)
    (removes : Tree.Removes p call)
    (plain : s.tree.Plain p) (other : c.about = none) (here : J s) (rule : c.touches = true → Removal ok fl s.tree c) :
    (perform c).Obeys answers (Rule name (Removal ok fl) J) (fun _ s' => Shrunk s s') s := by
  refine perform fun r s' answer => ?_
  have shrunk : Shrunk s s' := by
    rcases answers_tree is answer with ⟨u,gone,-,rfl⟩ | ⟨-,rfl⟩
    · refine ⟨rfl,?_⟩
      have sub := removes.sub plain
      rwa [gone] at sub
    · exact .refl _
  exact ⟨⟨rule,by simp [other],stable shrunk here⟩,shrunk⟩

/-- It ends properly, with a smaller tree. -/
def Ends {α : Type} (s : State) (r : Except Errno α) (s' : State) : Prop := (∃ a, r = .ok a) ∧ Shrunk s s'

lemma dir_obeys (listed : r ∈ fl) (plain : s.tree.Plain r.path.val) (here : J s) :
    (do let _ ← (perform (.rmdir r.path.val)).attempt
        ret 0 : Code Nat).Obeys answers (Rule name (Removal ok fl) J) (Ends s) s :=
  inspect (take_obeys stable (exec_rmdir _) Tree.removes_rmdir plain rfl here fun _ => .dir listed plain)
    fun _ _ shrunk => ⟨⟨0,rfl⟩,shrunk⟩

lemma unlink_obeys (listed : r ∈ fl) (plain : s.tree.Plain r.path.val) (here : J s)
    (fit : ∀ mode data, s.tree.find r.path.val = some (.file mode data) → ok r data) :
    (do let _ ← (perform (.unlink r.path.val)).attempt
        ret 0 : Code Nat).Obeys answers (Rule name (Removal ok fl) J) (Ends s) s :=
  inspect (take_obeys stable (exec_unlink _) Tree.removes_unlink plain rfl here fun _ => .file listed plain fit)
    fun _ _ shrunk => ⟨⟨0,rfl⟩,shrunk⟩

omit stable in
include hashed in
lemma unmodified_obeys (plain : s.tree.Plain r.path.val) (here : J s) :
    (unmodified env r).Obeys answers (Rule name (Removal ok fl) J)
    (fun res s' => s' = s ∧ (res = .ok false ∨
      res = .ok true ∧ ∀ mode data, s.tree.find r.path.val = some (.file mode data) → ok r data)) s := by
  refine inspect (look_obeys rfl ⟨rfl,rfl⟩ here rfl) ?_
  rintro res s' ⟨rfl,rfl⟩
  simp only [exec]
  cases status : s'.tree.lstat r.path.val with
  | error e => exact ⟨rfl,.inl rfl⟩
  | ok node =>
    cases node with
    | dir mode | link target => exact ⟨rfl,.inl rfl⟩
    | file mode data =>
      refine ⟨rfl,?_⟩
      by_cases same : hexEncode (env.sha256 data) = r.hex
      · refine .inr ⟨by simp [same],fun mode' data' found => ?_⟩
        have now := plain.lstat status
        rw [found] at now
        cases now
        exact hashed r data same
      · exact .inl (by simp [same])

include hashed in
lemma file_obeys (listed : r ∈ fl) (plain : s.tree.Plain r.path.val) (here : J s)
    (whole : force = true → ∀ mode data, s.tree.find r.path.val = some (.file mode data) → ok r data) :
    (do if ← (if force then ret true else unmodified env r) then
          let _ ← (perform (.unlink r.path.val)).attempt
          ret 0
        else ret 1 : Code Nat).Obeys answers (Rule name (Removal ok fl) J) (Ends s) s := by
  cases force with
  | true => exact unlink_obeys stable listed plain here (whole rfl)
  | false =>
    refine bind (unmodified_obeys hashed plain here) ?_ ?_
    · rintro a s' ⟨rfl,kept | ⟨same,fit⟩⟩
      · cases kept
        exact ⟨⟨1,rfl⟩,.refl _⟩
      · cases same
        exact unlink_obeys stable listed plain here fit
    · rintro e s' ⟨-,kept | ⟨same,-⟩⟩
      · cases kept
      · cases same

include hashed in
lemma delFile_obeys (listed : r ∈ fl) (here : J s)
    (whole : force = true → r.type = .file → ∀ mode data, s.tree.find r.path.val = some (.file mode data) → ok r data) :
    (delFile env force r).Obeys answers (Rule name (Removal ok fl) J) (Ends s) s := by
  refine bind (clearWay_obeys here) ?_ fun _ _ wrong => nomatch wrong.1
  rintro a s' ⟨same,rfl⟩
  obtain rfl : a = !throughSymlink s'.tree (parents r.path.val) := Except.ok.inj same
  cases clear : throughSymlink s'.tree (parents r.path.val) with
  | true => exact ⟨⟨0,rfl⟩,.refl _⟩
  | false =>
    have plain : s'.tree.Plain r.path.val := plain_of_clear clear r.path.property
    refine inspect (look_obeys rfl ⟨rfl,rfl⟩ here rfl) ?_
    rintro res s'' ⟨rfl,rfl⟩
    simp only [exec]
    cases status : s''.tree.lstat r.path.val with
    | error e => exact ⟨⟨0,rfl⟩,.refl _⟩
    | ok node =>
      cases type : r.type with
      | dir => exact dir_obeys stable listed plain here
      | link =>
        cases node with
        | link target =>
          refine unlink_obeys stable listed plain here fun mode data found => ?_
          have now := plain.lstat status
          rw [found] at now
          cases now
        | dir mode | file mode data => exact ⟨⟨0,rfl⟩,.refl _⟩
      | file => exact file_obeys hashed stable listed plain here fun forced => whole forced type

include hashed in
lemma delAll_obeys (listed : ∀ r ∈ rs, r ∈ fl) (here : J s)
    (whole : force = true → ∀ r ∈ fl, r.type = .file → ∀ mode data, s.tree.find r.path.val = some (.file mode data) →
    ok r data) :
    (delAll env force rs).Obeys answers (Rule name (Removal ok fl) J) (Ends s) s := by
  induction rs generalizing s with
  | nil => exact ⟨⟨0,rfl⟩,.refl _⟩
  | cons r rs ih =>
    have member := listed r List.mem_cons_self
    rw [delAll]
    refine bind (delFile_obeys hashed stable member here fun forced => whole forced r member) ?_ fun _ _ wrong =>
      nomatch wrong.1
    rintro kept s' ⟨-,shrunk⟩
    have rest := ih (fun f inside => listed f (List.mem_cons_of_mem _ inside)) (stable shrunk here)
      fun forced f inside type mode data found => whole forced f inside type mode data (shrunk.sub _ _ found)
    refine bind rest ?_ fun _ _ wrong => nomatch wrong.1
    rintro more s'' ⟨-,shrunk'⟩
    exact ⟨⟨_,rfl⟩,shrunk.trans shrunk'⟩

include hashed in
lemma delFiles_obeys (same : s.files name = fl ∨ s.files name = []) (here : J s)
    (whole : force = true → ∀ r ∈ fl, r.type = .file → ∀ mode data, s.tree.find r.path.val = some (.file mode data) →
    ok r data) :
    (delFiles env name force).Obeys answers (Rule name (Removal ok fl) J) (Ends s) s := by
  refine inspect (look_obeys rfl ⟨rfl,rfl⟩ here rfl) ?_
  rintro res s' ⟨rfl,rfl⟩
  simp only [exec]
  cases record : (s'.record name).bind Record.files with
  | none => exact ⟨⟨0,rfl⟩,.refl _⟩
  | some txt =>
    by_cases long : txt.length > PKG_MANIFEST_MAX
    · simp only [if_pos long]
      exact ⟨⟨0,rfl⟩,.refl _⟩
    simp only [if_neg long]
    cases read : readFlist txt with
    | none => exact ⟨⟨0,rfl⟩,.refl _⟩
    | some list =>
      have is : s'.files name = list := by simp [State.files,State.flist,record,read]
      refine delAll_obeys hashed stable (fun f inside => ?_) here whole
      rcases same with whole | none
      · rw [← whole,is]
        exact List.mem_reverse.mp inside
      · rw [is] at none
        simp [none] at inside

end

/-- A pending journal, if it can be read at all, is about the removal of this package. -/
def Own (name : Name) (s : State) : Prop :=
  ∀ txt, s.journal = some txt → (lines txt).head?.bind parseHeader = none ∨
    (lines txt).head?.bind parseHeader = some (false,name)

def State.removing (s : State) : Prop :=
    ∃ txt name, s.journal = some txt ∧ (lines txt).head?.bind parseHeader = some (false,name)

/-- What holds in every state of the removal of a package with the list `fl`. -/
def Stays (name : Name) (fl : List FRec) (s : State) : Prop := Own name s ∧ (s.files name = fl ∨ s.files name = [])

lemma Stays.shrunk (shrunk : Shrunk s s') (stays : Stays name fl s) : Stays name fl s' := by
  rw [shrunk.rest]
  exact stays

lemma Stays.journal (stays : Stays name fl s) {journal : Option Bytes} (own : Own name { s with journal := journal }) :
    Stays name fl { s with journal := journal } := ⟨own,stays.2⟩

lemma answers_record (is : exec c = onRecord name change) (answer : answers c s res s') :
    s' = s ∨ ∃ r, change (s.record name) = .ok r ∧ s' = { s with record := Function.update s.record name r } := by
  rcases answer with done | ⟨-,-,same⟩
  · rw [is,onRecord] at done
    dsimp only at done
    cases result : change (s.record name) with
    | ok r =>
      rw [result] at done
      cases done
      exact .inr ⟨r,rfl,rfl⟩
    | error e =>
      rw [result] at done
      cases done
      exact .inl rfl
  · exact .inl same

lemma exec_unlinkRecord : exec (.unlinkRecord name leaf) = onRecord name fun
    | none => .error .ENOENT
    | some r => if (r.get leaf).isSome then .ok (some (r.set leaf none)) else .error .ENOENT := rfl

lemma exec_rmdirRecord : exec (.rmdirRecord name) = onRecord name fun
    | none => .error .ENOENT
    | some r => if r.manifest.isSome ∨ r.files.isSome then .error .ENOTEMPTY else .ok none := rfl

/-- A call of `db_remove`. -/
inductive Erasing (name : Name) : {β : Type} → Call β → Prop
  | unlink {leaf : Leaf} : Erasing name (.unlinkRecord name leaf)
  | rmdir : Erasing name (.rmdirRecord name)

lemma dbRemove_only : (dbRemove name).Only A (Erasing name) := by
  have last : (do
      match ← (perform (.rmdirRecord name)).attempt with
      | .ok _ | .error .ENOENT => ret ()
      | .error e => fail e : Code Unit).Only A (Erasing name) := by
    refine Only.inspect .rmdir fun r _ => ?_
    split <;> trivial
  refine Only.bind (Only.perform .unlink).attempt fun _ => Only.inspect .unlink fun r _ => ?_
  split
  next => exact last
  next => exact last
  next => trivial

lemma Erasing.fewer (erasing : Erasing name c) (answer : answers c s res s') :
    s' = s ∨ ∃ rec : Option Record, s' = { s with record := Function.update s.record name rec } ∧
      ∀ leaf, rec.bind (·.get leaf) = (s.record name).bind (·.get leaf) ∨ rec.bind (·.get leaf) = none := by
  cases erasing with
  | @unlink leaf =>
    rcases answers_record exec_unlinkRecord answer with rfl | ⟨rec,changed,rfl⟩
    · exact .inl rfl
    refine .inr ⟨rec,rfl,fun other => ?_⟩
    cases old : s.record name with
    | none => simp [old] at changed
    | some r =>
      simp only [old] at changed
      split at changed
      next =>
        cases changed
        cases leaf <;> cases other <;> first | exact .inl rfl | exact .inr rfl
      next => cases changed
  | rmdir =>
    rcases answers_record exec_rmdirRecord answer with rfl | ⟨rec,changed,rfl⟩
    · exact .inl rfl
    refine .inr ⟨rec,rfl,fun other => .inr ?_⟩
    cases old : s.record name with
    | none => simp [old] at changed
    | some r =>
      simp only [old] at changed
      split at changed
      next => cases changed
      next =>
        cases changed
        rfl

lemma Erasing.files (erasing : Erasing name c) (answer : answers c s res s') (n : Name) :
    s'.files n = s.files n ∨ s'.files n = [] := by
  rcases erasing.fewer answer with rfl | ⟨rec,rfl,fewer⟩
  · exact .inl rfl
  by_cases same : n = name
  · subst same
    have here : (rec.bind Record.files) = (s.record n).bind Record.files ∨ rec.bind Record.files = none := fewer .files
    rcases here with kept | gone
    · exact .inl (by simp [State.files,State.flist,kept])
    · exact .inr (by simp [State.files,State.flist,gone])
  · exact .inl (by simp [State.files,State.flist,same])

lemma Erasing.stays (erasing : Erasing name c) (answer : answers c s res s')
    (stays : Stays name fl s) : Stays name fl s' := by
  have list : s'.files name = fl ∨ s'.files name = [] := by
    rcases erasing.files answer name with same | gone
    · rw [same]
      exact stays.2
    · exact .inr gone
  rcases erasing.fewer answer with rfl | ⟨rec,rfl,-⟩
  · exact stays
  · exact ⟨stays.1,list⟩

section
variable {ok : FRec → Bytes → Prop}

lemma dbRemove_obeys (stays : Stays name fl s) :
    (dbRemove name).Obeys answers (Rule name (Removal ok fl) (Stays name fl)) (fun _ => Stays name fl) s := by
  refine (dbRemove_only (A := fun _ _ => True)).obeys stays fun erasing answer stays => ⟨trivial,?_⟩
  have after := erasing.stays answer stays
  cases erasing with
  | unlink | rmdir => exact ⟨⟨nofun,by simp [Call.about],after⟩,after⟩

lemma own_none : Own name { s with journal := none } := nofun

lemma journalEnd_obeys (stays : Stays name fl s) :
    journalEnd.Obeys answers (Rule name (Removal ok fl) (Stays name fl)) (fun _ => Stays name fl) s := by
  refine inspect (Q := fun _ => Stays name fl) (perform fun res s' answer => ?_) fun _ _ stays => stays
  have after : Stays name fl s' := by
    rcases answer with ran | ⟨-,-,rfl⟩
    · cases ran
      exact stays.journal own_none
    · exact stays
  exact ⟨⟨nofun,nofun,after⟩,after⟩

lemma own_empty : Own name { s with journal := some [] } := by
  rintro txt same
  cases same
  exact .inl rfl

lemma parseHeader_del (valid : nameIsValid name = true) : parseHeader (delVerb ++ name) = some (false,name) := by
  simp [parseHeader,addVerb,delVerb,valid]

lemma header_del (valid : nameIsValid name = true) :
    (lines (delVerb ++ name ++ [newline])).head?.bind parseHeader = some (false,name) := by
  simp only [nameIsValid,decide_eq_true_eq] at valid
  have clean : newline ∉ delVerb ++ name ∧ 0 ∉ delVerb ++ name := by
    have inner : newline ∉ name ∧ 0 ∉ name :=
      ⟨fun member => absurd (valid.2.2.2.2 _ member).2.1 (by decide),fun member =>
        absurd (valid.2.2.2.2 _ member).2.1 (by decide)⟩
    simpa [delVerb,newline] using inner
  have one : lines (delVerb ++ name ++ [newline]) = [delVerb ++ name] := by
    have read : lines (Text.unlines newline [delVerb ++ name]) = [delVerb ++ name] :=
      lines_unlines (by simpa using clean)
    simpa using read
  rw [one]
  exact parseHeader_del (by simpa [nameIsValid] using valid)

lemma begin_obeys (valid : nameIsValid name = true) (stays : Stays name fl s) :
    (journalBegin delVerb name).Obeys answers (Rule name (Removal ok fl) (Stays name fl))
      (fun _ => Stays name fl) s := by
  refine bind (Q := fun res s' => Stays name fl s' ∧ (res = .ok () → s'.journal = some []))
    (perform fun res s' answer => ?_) ?_
    fun _ _ failed => failed.1
  · have after : Stays name fl s' ∧ (res = .ok () → s'.journal = some []) := by
      rcases answer with ran | ⟨-,⟨e,rfl⟩,rfl⟩
      · cases ran
        exact ⟨stays.journal own_empty,fun _ => rfl⟩
      · exact ⟨stays,nofun⟩
    exact ⟨⟨nofun,nofun,after.1⟩,after⟩
  rintro ⟨⟩ s' ⟨stays,begun⟩
  refine perform fun res s'' answer => ?_
  have after : Stays name fl s'' := by
    rcases answer with ran | ⟨-,-,rfl⟩
    · cases ran
      refine stays.journal fun txt same => .inr ?_
      rw [begun rfl] at same
      cases same
      exact header_del valid
    · exact stays
  exact ⟨⟨nofun,nofun,after⟩,after⟩

variable (hashed : ∀ f data, hexEncode (env.sha256 data) = f.hex → ok f data)
include hashed

lemma recover_obeys (stays : Stays name fl s)
    (whole : s.removing → ∀ r ∈ fl, r.type = .file → ∀ mode data, s.tree.find r.path.val = some (.file mode data) →
    ok r data) :
    (journalRecover env.removing).Obeys answers (Rule name (Removal ok fl) (Stays name fl))
    (fun _ => Stays name fl) s := by
  refine inspect (look_obeys rfl ⟨rfl,rfl⟩ stays rfl) ?_
  rintro res s' ⟨rfl,rfl⟩
  simp only [exec]
  cases journal : s'.journal with
  | none => exact stays
  | some txt =>
    by_cases long : txt.length > PKG_MANIFEST_MAX
    · simp only [if_pos long]
      exact stays
    simp only [if_neg long]
    rcases stays.1 txt journal with none | own
    · rw [none]
      exact journalEnd_obeys stays
    rw [own]
    have removed : (env.removing.remove name).Obeys answers (Rule name (Removal ok fl) (Stays name fl))
      (fun _ => Stays name fl) s' := by
      have files : (delFiles env name true).Obeys answers (Rule name (Removal ok fl) (Stays name fl)) (Ends s') s' :=
        delFiles_obeys hashed Stays.shrunk stays.2 stays fun _ => whole ⟨txt,name,journal,own⟩
      refine bind files ?_ fun _ _ wrong => by rcases wrong with ⟨⟨_,⟨⟩⟩,-⟩
      rintro - s'' ⟨-,shrunk⟩
      exact inspect (dbRemove_obeys (stays.shrunk shrunk)) fun _ _ stays => stays
    exact bind removed (fun _ _ stays => journalEnd_obeys stays) fun _ _ stays => stays

lemma cmdDel_obeys (stays : Stays name fl s) (forced : force = true → ∀ f data, ok f data)
    (whole : s.removing → ∀ r ∈ fl, r.type = .file → ∀ mode data, s.tree.find r.path.val = some (.file mode data) →
    ok r data) :
    (cmdDel env needed force name).Obeys answers (Rule name (Removal ok fl) (Stays name fl))
    (fun _ => Stays name fl) s := by
  rw [cmdDel]
  split
  swap
  next => exact stays
  next valid =>
    refine bind (recover_obeys hashed stays whole) ?_ fun _ _ stays => stays
    intro _ s₁ stays₁
    refine bind (look_obeys rfl ⟨rfl,rfl⟩ stays₁ rfl) ?_ fun _ _ same => same.2 ▸ stays₁
    rintro installed s₂ ⟨-,rfl⟩
    cases installed with
    | false => exact stays₁
    | true =>
      have rest : (do
          journalBegin delVerb name
          let _ ← delFiles env name force
          dbRemove name
          journalEnd : Code Unit).Obeys answers (Rule name (Removal ok fl) (Stays name fl))
          (fun _ => Stays name fl) s₂ := by
        refine bind (begin_obeys valid stays₁) ?_ fun _ _ stays => stays
        intro _ s₃ stays₃
        have files := delFiles_obeys hashed Stays.shrunk stays₃.2 stays₃ fun is r _ _ _ data _ => forced is r data
        refine bind files ?_ fun _ _ wrong => nomatch wrong.1
        rintro - s₄ ⟨-,shrunk⟩
        exact bind (dbRemove_obeys (stays₃.shrunk shrunk)) (fun _ _ stays =>
          journalEnd_obeys stays) fun _ _ stays => stays
      cases force with
      | true => exact rest
      | false =>
        cases needed with
        | true => exact stays₁
        | false => exact rest

end

/-- From `t` to `u` only listed nodes go: a regular file only with its recorded hash, a directory
only when it is empty. -/
def Spares (env : Env) (fl : List FRec) (t u : Tree) : Prop :=
  ∀ p node, t.find p = some node → u.find p = some node ∨ u.find p = none ∧ ∃ r ∈ fl, r.path.val = p ∧
    (∀ mode data, node = .file mode data → hexEncode (env.sha256 data) = r.hex) ∧
      (node.isDir = true → ∀ n, t.find (p ++ [n]) = none)

def Whole (env : Env) (fl : List FRec) (t : Tree) : Prop :=
  ∀ r ∈ fl, r.type = .file → ∀ mode data, t.find r.path.val = some (.file mode data) →
    hexEncode (env.sha256 data) = r.hex

lemma run_onRecord : ((onRecord name change).run s).2.tree = s.tree := by
  rw [onRecord]
  dsimp only
  cases change (s.record name) <;> rfl

lemma exec_still (c : Call β) (still : c.touches = false) : ((exec c).run s).2.tree = s.tree := by
  cases c with
  | mkdir | create | write | chmod | rename | symlink | unlink | rmdir => cases still
  | mkdirStaging | openStaging | writeStaging | unlinkStaging | rmdirStaging => simp only [exec,run_onStaging]
  | unlinkRecord | rmdirRecord => simp only [exec,run_onRecord]
  | renameStaging name =>
    simp only [exec]
    split
    next => rfl
    next =>
      split
      next => rfl
      next => rfl
  | _ => rfl

lemma answers_still (still : c.touches = false) (answer : answers c s res s') : s'.tree = s.tree := by
  rcases answer with ran | ⟨-,-,rfl⟩
  · have tree := exec_still (s := s) c still
    rwa [ran] at tree
  · rfl

lemma Removal.spares
    (rule : c.touches = true → Removal (fun r data => hexEncode (env.sha256 data) = r.hex) fl s.tree c)
    (answer : answers c s res s') :
    Spares env fl s.tree s'.tree := by
  intro p node found
  cases touches : c.touches with
  | false =>
    rw [answers_still touches answer]
    exact .inl found
  | true =>
    cases rule touches with
    | @dir r listed plain =>
      rcases answers_tree (exec_rmdir _) answer with ⟨u,gone,-,rfl⟩ | ⟨-,rfl⟩
      · obtain ⟨place,mode,located,there,empty,set⟩ := Tree.rmdir_ok gone
        rw [plain.path located] at there empty set
        by_cases same : p = r.path.val
        · subst same
          obtain rfl : node = .dir mode := Option.some.inj (found.symm.trans there)
          exact .inr ⟨by simp [set],r,listed,rfl,nofun,fun _ n => not_not.mp fun more =>
            empty n (Tree.mem_iff.mpr more)⟩
        · exact .inl (by simpa [set,same] using found)
      · exact .inl found
    | @file r listed plain fit =>
      rcases answers_tree (exec_unlink _) answer with ⟨u,gone,-,rfl⟩ | ⟨-,rfl⟩
      · obtain ⟨place,node',located,there,file,set⟩ := Tree.unlink_ok gone
        rw [plain.path located] at there set
        by_cases same : p = r.path.val
        · subst same
          obtain rfl : node = node' := Option.some.inj (found.symm.trans there)
          refine .inr ⟨by simp [set],r,listed,rfl,fun mode data is => ?_,fun dir => by simp [file] at dir⟩
          exact fit mode data (is ▸ found)
        · exact .inl (by simpa [set,same] using found)
      · exact .inl found

/-- The recorded hash is what makes a file fit to go. -/
abbrev Recorded (env : Env) (r : FRec) (data : Bytes) : Prop := hexEncode (env.sha256 data) = r.hex

lemma cmdDel_recorded (stays : Stays name fl s) (whole : s.removing → Whole env fl s.tree) :
    (cmdDel env needed false name).Obeys answers (Rule name (Removal (Recorded env) fl) (Stays name fl))
    (fun _ => Stays name fl) s :=
  cmdDel_obeys (fun _ _ same => same) stays (fun forced => nomatch forced) whole

lemma recover_recorded (stays : Stays name fl s) (whole : s.removing → Whole env fl s.tree) :
    (journalRecover env.removing).Obeys answers (Rule name (Removal (Recorded env) fl) (Stays name fl))
    (fun _ => Stays name fl) s :=
  recover_obeys (fun _ _ same => same) stays whole

/-- The states after `pkg del` was cut off, and after later commands whose `journal_recover`,
which may be cut off as well, each found the listed files unchanged. -/
inductive Later (env : Env) (needed : Bool) (name : Name) (s : State) : State → Prop
  | first {t : State} : (cmdDel env needed false name).Cut answers s t → Later env needed name s t
  | next {t u : State} : Later env needed name s t → (t.removing → Whole env (s.files name) t.tree) →
      (journalRecover env.removing).Cut answers t u → Later env needed name s u

lemma Later.stays (own : Own name s) (whole : s.removing → Whole env (s.files name) s.tree)
    (later : Later env needed name s s') : Stays name (s.files name) s' := by
  have here : Stays name (s.files name) s := ⟨own,.inl rfl⟩
  induction later with
  | first cut => exact (cmdDel_recorded here whole).cut here (fun _ _ rule => rule.after) cut
  | next _ whole cut ih => exact (recover_recorded ih whole).cut ih (fun _ _ rule => rule.after) cut

/-- A removal without `--force` spares local changes, also where later commands complete it, as
long as none of those finds a listed file modified. -/
theorem removal_spares {needed : Bool} (own : Own name s) (whole : s.removing → Whole env (s.files name) s.tree) :
    (∀ {β : Type} (c : Call β) t u, (cmdDel env needed false name).Makes answers c t u s →
    Spares env (s.files name) t.tree u.tree) ∧
    ∀ v, Later env needed name s v → (v.removing → Whole env (s.files name) v.tree) →
      ∀ {β : Type} (c : Call β) t u, (journalRecover env.removing).Makes answers c t u v →
        Spares env (s.files name) t.tree u.tree := by
  refine ⟨fun c t u made => ?_,fun v later whole' β c t u made => ?_⟩
  · obtain ⟨res,answer⟩ := made.answer
    exact Removal.spares ((cmdDel_recorded ⟨own,.inl rfl⟩ whole).makes made).tree answer
  · obtain ⟨res,answer⟩ := made.answer
    exact Removal.spares ((recover_recorded (later.stays own whole) whole').makes made).tree answer

namespace Changed

/-- A hash that tells the installed contents from any other. -/
def world : Env := { Small.world with sha256 := fun data => if data = [120] then [7] else [8] }

def package : Package := { Small.package with filesText := writeFiles Small.manifest }

/-- `usr/local/a` has been installed and then written to. -/
def before : State :=
  ((exec (.write (usrLocal,[97]) [121])).run (((install world package).interp exec).run (Small.state.begin [97])).2).2

def halted : State := (((journalBegin delVerb [97]).interp exec).run before).2

/-- `usr/local/a` as it was installed, and the removal cut off when it has begun its journal. -/
def installed : State := (((install world package).interp exec).run (Small.state.begin [97])).2

def begun : State := (((journalBegin delVerb [97]).interp exec).run installed).2

lemma cut_begun (quiet : s.journal = none) (there : s.installed [97] = true)
    (begins : ((journalBegin delVerb [97]).interp exec).run s = (.ok (),t)) :
    (cmdDel world false false [97]).Cut answers s t := by
  have honest : ∀ {β : Type} (c : Call β) s, answers c s ((exec c).run s).1 ((exec c).run s).2 := fun _ _ => .inl rfl
  have recovers : ((journalRecover world.removing).interp exec).run s = (.ok (),s) := by
    rw [journalRecover,interp_attempt_bind]
    simp only [exec,quiet]
    rfl
  have asks : ((perform (Call.installed [97]) : Code Bool).interp exec).run s = (.ok true,s) := by
    rw [interp_perform]
    simp only [exec,there]
  rw [cmdDel,if_pos (by decide +kernel)]
  refine cut_bind honest recovers (cut_bind honest asks ?_)
  exact cut_bind (x := ret ()) honest rfl (cut_bind honest begins .here)

lemma own_of_quiet (quiet : s.journal = none) : Own [97] s := fun txt pending => by simp [quiet] at pending

lemma not_removing (quiet : s.journal = none) : ¬s.removing := fun ⟨txt,_,pending,_⟩ => by simp [quiet] at pending

end Changed

open Changed in
theorem removal_spares_changed : before.journal = none ∧
    (∀ {β : Type} (c : Call β) t u, (cmdDel world false false [97]).Makes answers c t u before →
      Spares world (before.files [97]) t.tree u.tree) ∧
    Later world false [97] installed begun ∧ begun.removing ∧
    ∀ {β : Type} (c : Call β) t u, (journalRecover world.removing).Makes answers c t u begun →
      Spares world (installed.files [97]) t.tree u.tree := by
  have quiet : before.journal = none := by decide +kernel
  have calm : installed.journal = none := by decide +kernel
  have later : Later world false [97] installed begun :=
    .first (cut_begun calm (by decide +kernel) (Prod.ext (by decide +kernel) rfl))
  have whole : Whole world (installed.files [97]) begun.tree := by
    have listed : installed.files [97] = [⟨.file,0o644,hexEncode [7],Small.path,none⟩] := by decide +kernel
    have there : begun.tree.find Small.path.val = some (.file 0o644 [120]) := by decide +kernel
    intro r member _ mode data found
    rw [listed] at member
    obtain rfl := List.mem_singleton.mp member
    cases there.symm.trans found
    decide +kernel
  refine ⟨quiet,?_,later,⟨_,[97],rfl,by decide +kernel⟩,?_⟩
  · exact (removal_spares (own_of_quiet quiet) fun removing => absurd removing (not_removing quiet)).1
  · exact (removal_spares (own_of_quiet calm) fun removing => absurd removing (not_removing calm)).2 _ later
      fun _ => whole

/-- A crash after the journal has been begun: the next command removes the modified file, which
the removal itself would have kept. -/
theorem recovery_destroys_change : (cmdDel Changed.world false false [97]).Cut answers Changed.before Changed.halted ∧
    ∃ r ∈ Changed.before.files [97], Changed.before.tree.find r.path.val = some (.file 0o644 [120,121]) ∧
      hexEncode (Changed.world.sha256 [120,121]) ≠ r.hex ∧
      ((((cmdDel Changed.world false false [97]).interp exec).run Changed.before).2.tree.find r.path.val =
        some (.file 0o644 [120,121])) ∧
      (recovered Changed.world.removing Changed.halted).tree.find r.path.val = none :=
  ⟨Changed.cut_begun (by decide +kernel) (by decide +kernel) (Prod.ext (by decide +kernel) rfl),
    ⟨.file,0o644,hexEncode [7],Small.path,none⟩,by decide +kernel,by decide +kernel,by decide +kernel,by decide +kernel,
    by decide +kernel⟩

end UbixOS.Pkg
