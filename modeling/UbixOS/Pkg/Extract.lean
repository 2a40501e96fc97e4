import UbixOS.Pkg.Placed

/-! Every point at which the install may be cut off before its record is in place. -/
namespace UbixOS.Pkg

open Library (Prog Fallible)
open Library.Files Library.Prog Function List Safe

/-- The journal holds these notes, newest first, and the package is not recorded. -/
def Held (m : Manifest) (ks : List Note) (s : State) : Prop :=
  s.journal = some (addJournal m.name ks.reverse) ∧ s.installed m.name = false

/-- The install is not finished, and can be rolled back as far as the journal goes. -/
def Open (base : Tree) (m : Manifest) (s : State) : Prop := ∃ ks, Held m ks s ∧ Core base m ks s.tree

variable {done : List Path}
  {e : Member} {s : State} {I : State → Prop}

/-- Nothing but what lies above `p` is different. -/
def Beside (p : Path) (t u : Tree) : Prop := ∀ q, (∀ r, p = q ++ r → r = []) → u.find q = t.find q

lemma Held.tree (held : Held m ks s) : Held m ks { s with tree := t } := held

section
variable (kept : ∀ s, Open base m s → I s)
include kept

lemma note_safe (held : Held m ks s) (core : Core base m ks s.tree) (more : Core base m (n :: ks) s.tree) :
    (journalNote n.tag n.path).Safe answers I (ends (fun _ s' => Held m (n :: ks) s' ∧
    s'.tree = s.tree) (Open base m)) s := by
  have here : I s := kept s ⟨ks,held,core⟩
  rw [journalNote]
  split
  next => exact ⟨here,ks,held,core⟩
  next =>
    refine seq (Q := fun _ s' => s' = s) (perform here fun r s' answer => ?_) ?_
    · have same : s' = s := by
        rcases answer with ran | ⟨-,-,same⟩
        · cases ran
          rfl
        · exact same
      subst same
      refine ⟨here,?_⟩
      cases r with
      | ok => rfl
      | error => exact ⟨ks,held,core⟩
    rintro - s' rfl
    refine perform here fun r s'' answer => ?_
    rcases answer with ran | ⟨-,⟨err,rfl⟩,rfl⟩
    · cases ran
      have text : (s'.journal.map (· ++ ((⟨n.tag,n.path⟩ : Note).line ++ [newline]))) =
        some (addJournal m.name (n :: ks).reverse) := by
        rw [held.1,reverse_cons,addJournal_append]
        rfl
      have held' : Held m (n :: ks)
        { s' with journal := s'.journal.map (· ++ ((⟨n.tag,n.path⟩ : Note).line ++ [newline])) } :=
        ⟨text,held.2⟩
      exact ⟨kept _ ⟨n :: ks,held',more⟩,held',rfl⟩
    · exact ⟨here,ks,held,core⟩

variable (admitted : Admitted base m)
include admitted

omit kept in
lemma plain_above (core : Core base m ks s.tree) (member : me ∈ m.entries) (split : me.path.val = d ++ r)
    (some_ : d ≠ []) :
    s.tree.Plain d :=
  ⟨some_,fun n inside => me.path.property.proper n (split ▸ mem_append_left r inside),
    fun {q b target} way more => core.no_link admitted member (by rw [split,way,append_assoc]) (by simp [more])⟩

omit kept admitted in
lemma safe_above (safe : Safe p) (split : p = d ++ r) (some_ : d ≠ []) : Safe d := by
  refine ⟨fun n inside => safe.1 n (split ▸ mem_append_left r inside),some_,?_⟩
  have shorter (a b : Path) : (text a).length ≤ (text (a ++ b)).length := by
    induction a with
    | nil => simp [text]
    | cons n a ih =>
      cases a with
      | nil =>
        cases b with
        | nil => simp
        | cons n' b => simp [text]
      | cons n' a =>
        rw [text,text,cons_append,cons_append,intercalate_cons_cons,intercalate_cons_cons]
        simp only [length_append] at ih ⊢
        exact Nat.add_le_add_left ih _
  exact (shorter d r).trans_lt (split ▸ safe.2.2)

omit kept admitted in
lemma Good.note (good : Good env base m first ks done none t) (free : n.tag = .D → t.find n.path = none)
    (new : base.find n.path = none) (safe : Safe n.path) (named : ∃ e ∈ m.entries, ∃ r, e.path.val = n.path ++ r)
    (files : n.tag ≠ .D → ∃ e ∈ m.entries, e.path.val = n.path ∧ e.type ≠ .dir) : Core base m (n :: ks) t := by
  refine { good.toCore with
    ordered := ⟨fun tag k member inside => ?_,good.ordered⟩
    safe := ?_
    named := ?_
    files := ?_
    new := ?_ }
  · obtain ⟨r,split,more⟩ := inside
    obtain ⟨mode,dir⟩ := good.below member split more
    rw [free tag] at dir
    cases dir
  · intro k member
    rcases mem_cons.mp member with rfl | old
    · exact safe
    · exact good.safe old
  · intro k member
    rcases mem_cons.mp member with rfl | old
    · exact named
    · exact good.named old
  · intro k member tag
    rcases mem_cons.mp member with rfl | old
    · exact files tag
    · exact good.files old tag
  · intro k member
    rcases mem_cons.mp member with rfl | old
    · exact new
    · exact good.new old

lemma parents_safe (held : Held m ks s) (good : Good env base m first ks done none s.tree) (member : me ∈ m.entries)
    (chain : ∀ d ∈ ds, d ≠ [] ∧ ∃ r, me.path.val = d ++ r ∧ r ≠ [])
    (listed : first → ∀ a ∈ m.entries, a.type = .dir → (∃ r, me.path.val = a.path.val ++ r ∧ r ≠ []) →
    a.path.val ∈ done) :
    (makeParents ds).Safe answers I
      (ends (fun _ s' => (∃ ks', Held m ks' s' ∧ Good env base m first ks' done none s'.tree) ∧
        Beside me.path.val s.tree s'.tree)
        (Open base m)) s := by
  induction ds generalizing ks s with
  | nil => exact ⟨kept s ⟨ks,held,good.toCore⟩,⟨ks,held,good⟩,fun _ _ => rfl⟩
  | cons d ds ih =>
    have rest : ∀ d ∈ ds, d ≠ [] ∧ ∃ r, me.path.val = d ++ r ∧ r ≠ [] :=
      fun d' inside => chain d' (mem_cons_of_mem _ inside)
    obtain ⟨some_,r,split,more⟩ := chain d mem_cons_self
    have here : I s := kept s ⟨ks,held,good.toCore⟩
    have next : ∀ {ks' s'}, Held m ks' s' → Good env base m first ks' done none s'.tree →
      Beside me.path.val s.tree s'.tree →
        (makeParents ds).Safe answers I
          (ends (fun _ s'' => (∃ ks', Held m ks' s'' ∧ Good env base m first ks' done none s''.tree) ∧
          Beside me.path.val s.tree s''.tree) (Open base m)) s' := by
      intro ks' s' held' good' beside
      refine (ih held' good' rest).mono fun r s'' post => ?_
      cases r with
      | ok => exact ⟨post.1,fun q apart => (post.2 q apart).trans (beside q apart)⟩
      | error => exact post
    refine inspect (Q := fun r s' => (∃ u, s.tree.make d (.dir 0o755) = .ok u ∧ r = .ok () ∧
      s' = { s with tree := u }) ∨
      (∃ e, r = .error e) ∧ s' = s) (perform here fun r s' answer => ?_) fun r s' cases_ => ?_
    · have effect := answers_tree (exec_mkdir ..) answer
      refine ⟨?_,effect⟩
      rcases effect with ⟨u,made,-,rfl⟩ | ⟨-,rfl⟩
      · obtain ⟨place,located,free,set⟩ := Tree.make_ok made
        exact kept _ ⟨ks,held,good.toCore.set (good.fresh free) set nofun⟩
      · exact here
    rcases cases_ with ⟨u,made,rfl,rfl⟩ | ⟨⟨err,rfl⟩,rfl⟩
    · obtain ⟨place,located,free,set⟩ := Tree.make_ok made
      have plain := plain_above admitted good.toCore member split some_
      have path := plain.path located
      rw [path] at free set
      have core : Core base m ks u := good.toCore.set (good.fresh free) set nofun
      have noted : Core base m (⟨.D,d⟩ :: ks) s.tree :=
        good.note (fun _ => free) (good.fresh free) (safe_above me.path.property split some_) ⟨me,member,r,split⟩
          (fun tag => absurd rfl tag)
      have noted' : Core base m (⟨.D,d⟩ :: ks) u := noted.set (good.fresh free) set nofun
      refine seq (note_safe kept (n := ⟨.D,d⟩) (held.tree (t := u)) core noted') ?_
      rintro - s' ⟨held',tree⟩
      refine next held' ?_ fun q apart => ?_
      rotate_left
      · rw [tree,set,update_of_ne]
        rintro rfl
        exact more (apart r split)
      rw [tree]
      refine good.add free set noted' (fun n inside => ?_) (fun _ => .inr ⟨⟨me,member,r,split,more⟩,rfl,?_⟩)
        (fun q inside => .inl inside) (fun q inside => inside) (fun a inside same listed' => ?_)
        (fun _ _ _ _ _ => .inl rfl)
      · rcases mem_cons.mp inside with rfl | old
        · exact .inr fun a b way inner => Tree.Place.above (path.trans way) inner
        · exact .inl old
      · intro order a inside same type
        have old := good.placed inside (listed order a inside type ⟨r,by rw [same,split],more⟩)
        rw [MEntry.Stands,if_pos type,same] at old
        obtain ⟨mode,found⟩ := old
        simp [free] at found
      · have old := good.placed inside (same ▸ listed')
        exact old.mono fun node found => by simp [same,free] at found
    · split
      next impossible => cases impossible
      next => exact bind (Q := fun r s'' => r = .ok () ∧ s'' = s') ⟨here,rfl,rfl⟩
                (fun _ _ _ same => by
                  obtain ⟨-,rfl⟩ := same
                  exact next held good fun _ _ => rfl) (fun _ _ _ same => by cases same.1)
      next => exact ⟨here,ks,held,good.toCore⟩

/-- What a member leaves behind: it is in place. -/
def Done (env : Env) (base : Tree) (m : Manifest) (first : Prop) (done : List Path) (s : State) : Prop :=
  ∃ ks, Held m ks s ∧ Good env base m first ks done none s.tree

lemma made_done (held : Held m (n :: ks) s) (good : Good env base m first ks done none s.tree)
    (noted : Core base m (n :: ks) s.tree) (member : me ∈ m.entries) (names : n.path = me.path.val)
    (made : s.tree.make me.path.val node = .ok u)
    (fits : me.Fits env node) :
    I { s with tree := u } ∧ Done env base m first (me.path.val :: done) { s with tree := u } := by
  obtain ⟨place,located,free,set⟩ := Tree.make_ok made
  have placed := (good.toCore.plain_entry admitted member).path located
  rw [placed] at free set
  have core : Core base m (n :: ks) u := by
    refine noted.set (good.fresh free) set fun target link => ⟨me,member,?_,rfl⟩
    cases link
    exact fits.1
  refine ⟨kept _ ⟨_,held.tree,core⟩,_,held.tree,?_⟩
  refine good.add free set core (fun k inside => ?_) (fun _ => .inl ⟨me,member,rfl,fits⟩)
    (fun q inside => (mem_cons.mp inside).symm)
    (fun q inside => mem_cons_of_mem _ inside) (fun a inside same _ => ?_)
      (fun a inside _ same out => absurd mem_cons_self out)
  · rcases mem_cons.mp inside with rfl | old
    · exact .inr fun a b way inner => Tree.Place.above ((placed.trans names.symm).trans way) inner
    · exact .inl old
  obtain rfl : a = me := inj_on_of_nodup_map m.distinct inside member (Subtype.ext same)
  rw [MEntry.Stands]
  split
  next type =>
    cases node with
    | dir mode => exact ⟨mode,by rw [set,update_self]⟩
    | file | link => simp [MEntry.Fits,type] at fits
  next => exact ⟨node,by rw [set,update_self],fits⟩

section member
variable (member : me ∈ m.entries) (path : e.path = me.path) (undone : me.path.val ∉ done)
  (listed : first → ∀ a ∈ m.entries, a.type = .dir → (∃ r, me.path.val = a.path.val ++ r ∧ r ≠ []) → a.path.val ∈ done)
include member path undone listed

omit path undone in
/-- Up to the note in the journal, all members are treated alike. -/
lemma noted_safe (held : Held m ks s) (good : Good env base m first ks done none s.tree) (tag : Tag) {x : Code Unit}
    (free : tag = .D → s.tree.find me.path.val = none) (file : tag ≠ .D → me.type ≠ .dir)
    (rest : ∀ {ks s}, Held m (⟨tag,me.path.val⟩ :: ks) s → Good env base m first ks done none s.tree →
      Core base m (⟨tag,me.path.val⟩ :: ks) s.tree → I s → x.Safe answers I (ends R (Open base m)) s) :
    (makeParents (parents me.path.val) >>= fun _ => journalNote tag me.path.val >>= fun _ => x).Safe answers I
      (ends R (Open base m)) s := by
  refine seq (parents_safe kept admitted held good member (fun d => (mem_parents me.path.property.2.1).mp) listed) ?_
  rintro - s₁ ⟨⟨ks₁,held₁,good₁⟩,beside⟩
  have free₁ : tag = .D → s₁.tree.find me.path.val = none := fun dir =>
    (beside _ fun r split => by simpa using split).trans (free dir)
  have new : base.find me.path.val = none := by
    by_cases dir : tag = .D
    · exact good₁.fresh (free₁ dir)
    · exact admitted.free member (file dir)
  have noted : Core base m (⟨tag,me.path.val⟩ :: ks₁) s₁.tree :=
    good₁.note free₁ new me.path.property ⟨me,member,[],by simp⟩ fun other => ⟨me,member,rfl,file other⟩
  refine seq (note_safe kept (n := ⟨tag,me.path.val⟩) held₁ good₁.toCore noted) ?_
  rintro - s₂ ⟨held₂,tree⟩
  rw [← tree] at good₁ noted
  exact rest held₂ good₁ noted (kept s₂ ⟨_,held₂,noted⟩)

omit undone in
lemma link_safe (held : Held m ks s) (good : Good env base m first ks done none s.tree) (type : me.type = .link)
    (is : e.type = .link) : (extractMember env e me).Safe answers I
      (ends (fun _ => Done env base m first (me.path.val :: done)) (Open base m)) s := by
  rw [extractMember,is]
  dsimp only
  split
  next => exact ⟨kept s ⟨ks,held,good.toCore⟩,ks,held,good.toCore⟩
  next target =>
    rw [path]
    refine noted_safe kept admitted member listed held good .F nofun (by simp [type]) fun held' good' noted here => ?_
    refine perform here fun r s' answer => ?_
    rcases answers_tree (exec_symlink ..) answer with ⟨u,made,rfl,rfl⟩ | ⟨⟨err,rfl⟩,rfl⟩
    · exact made_done kept admitted held' good' noted member rfl made ⟨type,by simpa using target⟩
    · exact ⟨here,_,held',noted⟩

lemma dir_safe (held : Held m ks s) (good : Good env base m first ks done none s.tree) (type : me.type = .dir)
    (is : e.type = .dir) : (extractMember env e me).Safe answers I
      (ends (fun _ => Done env base m first (me.path.val :: done)) (Open base m)) s := by
  have here : I s := kept s ⟨ks,held,good.toCore⟩
  have plain : s.tree.Plain me.path.val := good.toCore.plain_entry admitted member
  rw [extractMember,is]
  rw [path]
  refine inspect (Q := fun r s' => r = s.tree.lstat me.path.val ∧ s' = s) (perform here fun r s' answer => ?_) ?_
  · obtain ⟨rfl,rfl⟩ := answers_lstat answer
    exact ⟨here,rfl,rfl⟩
  rintro r s' ⟨rfl,rfl⟩
  cases result : s'.tree.lstat me.path.val with
  | ok node =>
    obtain ⟨place,located,found⟩ := Tree.lstat_ok.mp result
    rw [plain.path located] at found
    have dir : ∃ mode, s'.tree.find me.path.val = some (.dir mode) := by
      rcases admitted.dirs member with new | ⟨mode,old⟩
      · rcases good.made new found nofun with ⟨a,inside,same,fits⟩ | ⟨-,rfl,-⟩
        · obtain rfl : a = me := inj_on_of_nodup_map m.distinct inside member (Subtype.ext same)
          cases node with
          | dir mode => exact ⟨mode,found⟩
          | file | link => simp [MEntry.Fits,type] at fits
        · exact ⟨_,found⟩
      · exact ⟨mode,good.intact old⟩
    refine ⟨here,ks,held,{ good with placed := fun {a} inside listed' => ?_, undone := fun {a} inside file out => ?_ }⟩
    · rcases mem_cons.mp listed' with same | old
      · obtain rfl : a = me := inj_on_of_nodup_map m.distinct inside member (Subtype.ext same)
        rw [MEntry.Stands,if_pos type]
        exact dir
      · exact good.placed inside old
    · exact good.undone inside file fun old => out (mem_cons_of_mem _ old)
  | error err =>
    have free : s'.tree.find me.path.val = none := by
      by_contra there
      obtain ⟨place,located⟩ := plain.place there
      obtain ⟨node,found⟩ := Option.ne_none_iff_exists'.mp there
      have ok := Tree.lstat_ok.mpr ⟨place,located,(plain.path located).symm ▸ found⟩
      rw [result] at ok
      cases ok
    refine noted_safe kept admitted member listed held good .D (fun _ => free)
      (absurd rfl) fun held' good' noted here' => ?_
    refine perform here' fun r s' answer => ?_
    rcases answers_tree (exec_mkdir ..) answer with ⟨u,made,rfl,rfl⟩ | ⟨⟨err,rfl⟩,rfl⟩
    · exact made_done kept admitted held' good' noted member rfl made ⟨type,rfl⟩
    · exact ⟨here',_,held',noted⟩

/-- The file is under way: what has been written of it is beside its place. -/
structure Writing (env : Env) (base : Tree) (m : Manifest) (first : Prop) (ks : List Note) (done : List Path)
    (p : Path) (node : Node)
    (s : State) : Prop where
  held : Held m ks s
  good : Good env base m first ks done (some p) s.tree
  found : s.tree.find p = some node
  new : base.find p = none
  unplaced : ∀ e ∈ m.entries, e.path.val ∈ done → e.path.val ≠ p

omit kept admitted member path undone listed in
lemma Writing.open (writing : Writing env base m first ks done p node s) : Open base m s :=
  ⟨ks,writing.held,writing.good.toCore⟩

omit kept admitted member path undone listed in
lemma Writing.rewrite (writing : Writing env base m first ks done p (.file mode data) s)
    (set : u.find = update s.tree.find p (some (.file mode' data'))) :
    Writing env base m first ks done p (.file mode' data') { s with tree := u } where
  held := writing.held.tree
  good := writing.good.rewrite (fun _ dir => by simp [writing.found] at dir) (fun _ link => by cases link) writing.new
    writing.unplaced set
  found := by
    rw [set,update_self]
  new := writing.new
  unplaced := writing.unplaced

omit admitted member path undone listed in
lemma write_safe (fd_path : fd.1 ++ [fd.2] = p) (writing : Writing env base m first ks done p (.file mode data) s) :
    (writeAll fd chunks broken).Safe answers I
      (ends (fun _ s' => Writing env base m first ks done p (.file mode (data ++ chunks.flatten)) s')
        (Open base m)) s := by
  induction chunks generalizing data s with
  | nil =>
    cases broken with
    | none =>
      rw [flatten_nil,append_nil]
      exact ⟨kept s writing.open,writing⟩
    | some err => exact ⟨kept s writing.open,writing.open⟩
  | cons chunk chunks ih =>
    refine seq (Q := fun _ s' => Writing env base m first ks done p (.file mode (data ++ chunk)) s')
      (perform (kept s writing.open) fun r s' answer => ?_) fun _ s' writing' => ?_
    · rcases answers_tree (exec_write ..) answer with ⟨u,written,rfl,rfl⟩ | ⟨⟨err,rfl⟩,rfl⟩
      · obtain ⟨mode',old,found,set⟩ := Tree.append_ok written
        rw [fd_path] at found set
        obtain ⟨rfl,rfl⟩ : mode' = mode ∧ old = data := by simpa [writing.found,eq_comm] using found
        have writing' := writing.rewrite set
        exact ⟨kept _ writing'.open,writing'⟩
      · exact ⟨kept _ writing.open,writing.open⟩
    · have rest := ih writing'
      rwa [append_assoc,← flatten_cons] at rest

omit listed path in
lemma Writing.place (writing : Writing env base m first ks done (temp me.path.val) node s)
    (type : me.type = .file) (moved : s.tree.rename (temp me.path.val) me.path.val = .ok u) (fits : me.Fits env node) :
    I { s with tree := u } ∧ Done env base m first (me.path.val :: done) { s with tree := u } := by
  have plain : s.tree.Plain me.path.val := writing.good.toCore.plain_entry admitted member
  obtain ⟨source,target,inner,located,located',found,notDir,effect⟩ := Tree.rename_ok moved
  rw [(plain_temp plain).path located] at found effect
  rw [plain.path located'] at notDir effect
  obtain rfl : node = inner := Option.some.inj (writing.found.symm.trans found)
  obtain ⟨q,l,split⟩ := plain.split
  have apart : temp me.path.val ≠ me.path.val := by
    rw [split,temp_split]
    intro same
    have lengths := congrArg (map length) same
    simp [suffix] at lengths
  obtain ⟨-,set⟩ : _ ∧ _ := effect.resolve_left fun same => apart same.1
  have fileNode : ∃ mode data, node = .file mode data := by
    cases node with
    | file mode data => exact ⟨mode,data,rfl⟩
    | dir | link => simp [MEntry.Fits,type] at fits
  obtain ⟨mode,data,rfl⟩ := fileNode
  have free : s.tree.find me.path.val = none := by
    cases there : s.tree.find me.path.val with
    | none => rfl
    | some other =>
      rcases writing.good.undone member (by simp [type]) undone other there with dir | same
      · cases other with
        | dir mode => exact absurd there (notDir mode)
        | file | link => cases dir
      · exact absurd (Option.some.inj same) apart
  have other {q} (here : q ≠ me.path.val) (beside : q ≠ temp me.path.val) : u.find q = s.tree.find q := by
    rw [set,update_of_ne beside,update_of_ne here]
  have gone : u.find (temp me.path.val) = none := by rw [set,update_self]
  have there : u.find me.path.val = some (.file mode data) := by
    rw [set,update_of_ne apart.symm,update_self]
  have grows {q inner} (old : s.tree.find q = some inner) (beside : q ≠ temp me.path.val) : u.find q = some inner := by
    rw [other (fun same => by simp [same,free] at old) beside,old]
  have core : Core base m ks u := by
    refine { writing.good.toCore with intact := fun {q inner} old => ?_, links := fun {q target} new link => ?_ }
    · refine grows (writing.good.intact old) fun same => ?_
      rw [same,writing.new] at old
      cases old
    by_cases here : q = me.path.val
    · rw [here,there] at link
      cases link
    by_cases beside : q = temp me.path.val
    · rw [beside,gone] at link
      cases link
    · exact writing.good.links new (other here beside ▸ link)
  refine ⟨kept _ ⟨ks,writing.held.tree,core⟩,ks,writing.held.tree,
    { core with below := ?_, made := ?_, placed := ?_, undone := ?_ }⟩
  · intro n d r inside way more
    obtain ⟨mode',dir⟩ := writing.good.below inside way more
    refine ⟨mode',grows dir fun same => ?_⟩
    rw [same,writing.found] at dir
    cases dir
  · intro q inner new old _
    by_cases here : q = me.path.val
    · rw [here,there] at old
      obtain rfl := Option.some.inj old
      exact .inl ⟨me,member,here.symm,fits⟩
    · have beside : q ≠ temp me.path.val := fun same => by simp [same,gone] at old
      rw [other here beside] at old
      exact writing.good.made new old fun same => beside (Option.some.inj same).symm
  · intro a inside listed'
    rcases mem_cons.mp listed' with same | old
    · obtain rfl : a = me := inj_on_of_nodup_map m.distinct inside member (Subtype.ext same)
      rw [MEntry.Stands,if_neg (by simp [type])]
      exact ⟨_,there,fits⟩
    · exact (writing.good.placed inside old).mono fun inner found => grows found (writing.unplaced a inside old)
  · intro a inside file out inner old
    have here : a.path.val ≠ me.path.val := fun same => out (by simp [same])
    have beside : a.path.val ≠ temp me.path.val := fun same => by simp [same,gone] at old
    rw [other here beside] at old
    refine (writing.good.undone inside file (fun listed' =>
      out (mem_cons_of_mem _ listed')) inner old).imp id fun same => ?_
    exact absurd (Option.some.inj same).symm beside

omit listed in
lemma place_safe (type : me.type = .file)
    (writing : filled = .ok () → Writing env base m first ks done (temp me.path.val) (.file mode e.chunks.flatten) s)
    (stopped : Open base m s) :
    (placeFile env e me filled closed).Safe answers I
      (ends (fun _ => Done env base m first (me.path.val :: done)) (Open base m)) s := by
  have here : I s := kept s stopped
  rw [placeFile.eq_def]
  split
  next => exact ⟨here,stopped⟩
  next => exact ⟨here,stopped⟩
  next =>
    split
    next => exact ⟨here,stopped⟩
    next checked =>
      have under := writing rfl
      rw [path]
      refine seq (Q := fun _ s' => Writing env base m first ks done (temp me.path.val)
        (.file me.mode e.chunks.flatten) s')
        (perform here fun r s' answer => ?_) fun _ s' under' => ?_
      · rcases answers_tree (exec_chmod ..) answer with ⟨u,changed,rfl,rfl⟩ | ⟨⟨err,rfl⟩,rfl⟩
        · obtain ⟨place,old,data,located,found,set⟩ := Tree.chmod_ok changed
          rw [(plain_temp (under.good.toCore.plain_entry admitted member)).path located] at found set
          obtain ⟨rfl,rfl⟩ : mode = old ∧ e.chunks.flatten = data := by simpa [under.found] using found
          have under' := under.rewrite set
          exact ⟨kept _ under'.open,under'⟩
        · exact ⟨here,stopped⟩
      · refine perform (kept s' under'.open) fun r s'' answer => ?_
        rcases answers_tree (exec_rename ..) answer with ⟨u,moved,rfl,rfl⟩ | ⟨⟨err,rfl⟩,rfl⟩
        · rw [not_or,not_not,not_not] at checked
          exact under'.place kept admitted member undone type moved ⟨type,rfl,checked.1,checked.2⟩
        · exact ⟨kept _ under'.open,under'.open⟩

lemma file_safe (held : Held m ks s) (good : Good env base m first ks done none s.tree) (type : me.type = .file)
    (is : e.type = .file) : (extractMember env e me).Safe answers I
      (ends (fun _ => Done env base m first (me.path.val :: done)) (Open base m)) s := by
  have here : I s := kept s ⟨ks,held,good.toCore⟩
  rw [extractMember,is]
  dsimp only
  rw [extractFile]
  split
  swap
  next => exact ⟨here,ks,held,good.toCore⟩
  next =>
    rw [path]
    refine noted_safe kept admitted member listed held good .F (by simp)
      (by simp [type]) fun {ks₁ s₂} held₂ good₁ noted here₂ => ?_
    have plain : s₂.tree.Plain me.path.val := good₁.toCore.plain_entry admitted member
    refine seq (Q := fun fd s' => fd.1 ++ [fd.2] = temp me.path.val ∧
      Writing env base m first (⟨.F,me.path.val⟩ :: ks₁) done (temp me.path.val) (.file 0o600 []) s')
      (perform here₂ fun r s₃ answer => ?_) ?_
    · rcases answers_create answer with ⟨u,place,located,made,rfl,rfl⟩ | ⟨⟨err,rfl⟩,rfl⟩
      · obtain ⟨place',located',free,set⟩ := Tree.make_ok made
        have placed := (plain_temp plain).path located
        have placed' := (plain_temp plain).path located'
        rw [placed'] at free set
        have core : Core base m (⟨.F,me.path.val⟩ :: ks₁) u := noted.set (good₁.fresh free) set (by simp)
        have unplaced : ∀ a ∈ m.entries, a.path.val ∈ done → a.path.val ≠ temp me.path.val := by
          intro a inside old same
          have stands := good₁.placed inside old
          rw [MEntry.Stands,same,free] at stands
          split at stands <;> simp at stands
        have writing : Writing env base m first (⟨.F,me.path.val⟩ :: ks₁) done (temp me.path.val) (.file 0o600 [])
          { s₂ with tree := u } := by
          refine ⟨held₂.tree,?_,by rw [set,update_self],good₁.fresh free,unplaced⟩
          refine good₁.add free set core (fun n inside => ?_) (fun other => absurd rfl other)
            (fun q inside => .inl inside)
            (fun q inside => inside) (fun a inside same listed' => absurd same (unplaced a inside (same ▸ listed')))
            (fun _ _ _ _ _ => .inr rfl)
          rcases mem_cons.mp inside with rfl | old
          · refine .inr fun a b way inner => ?_
            obtain ⟨q,l,split⟩ := plain.split
            obtain ⟨b',l',rfl⟩ := (eq_nil_or_concat' b).resolve_left inner
            have dir : q = a ++ b' := by
              rw [split,← append_assoc] at way
              exact (append_inj' way rfl).1
            exact Tree.Place.above (p := a) (r := b' ++ [l ++ suffix])
              (placed.trans (by rw [split,temp_split,dir,append_assoc])) (by simp)
          · exact .inl old
        exact ⟨kept _ writing.open,placed,writing⟩
      · exact ⟨here₂,_,held₂,noted⟩
    rintro fd s₃ ⟨fd_path,writing⟩
    refine inspect (write_safe kept fd_path writing) fun filled s₄ filled' => ?_
    have stopped : Open base m s₄ := by
      cases filled with
      | ok => exact filled'.open
      | error => exact filled'
    refine inspect (Q := fun _ s' => s' = s₄) (perform (kept s₄ stopped) fun r s₅ answer => ?_) ?_
    · rcases answer with ran | ⟨-,-,rfl⟩
      · cases ran
        exact ⟨kept _ stopped,rfl⟩
      · exact ⟨kept _ stopped,rfl⟩
    rintro closed s₅ rfl
    have under : filled = .ok () → Writing env base m first (⟨.F,me.path.val⟩ :: ks₁) done (temp me.path.val)
        (.file 0o600 e.chunks.flatten) s₅ := by
      rintro rfl
      exact filled'
    refine inspect (place_safe kept admitted member path undone type under stopped) fun placed s₆ post => ?_
    cases placed with
    | ok =>
      obtain ⟨ks₆,held₆,good₆⟩ := post
      exact ⟨kept _ ⟨ks₆,held₆,good₆.toCore⟩,ks₆,held₆,good₆⟩
    | error err =>
      -- What is left of the file is taken away.
      obtain ⟨ks₆,held₆,core₆⟩ := post
      refine inspect (Q := fun _ => Open base m) (perform (kept _ ⟨ks₆,held₆,core₆⟩) fun r s₇ answer =>
        ?_) fun r s₇ overrun => ?_
      · rcases answers_tree (exec_unlink ..) answer with ⟨u,unlinked,-,rfl⟩ | ⟨-,rfl⟩
        · have gone := Tree.removes_unlink (plain_temp (core₆.plain_entry admitted member)) unlinked
          have core₇ : Core base m ks₆ u := core₆.set writing.new gone (by simp)
          exact ⟨kept _ ⟨ks₆,held₆.tree,core₇⟩,ks₆,held₆.tree,core₇⟩
        · exact ⟨kept _ ⟨ks₆,held₆,core₆⟩,ks₆,held₆,core₆⟩
      · exact ⟨kept _ overrun,overrun⟩

end member
/-- Every directory that is an entry comes before the members inside it. -/
def DirsFirst (m : Manifest) (members : List Member) (done : List Path) : Prop :=
  ∀ a ∈ m.entries, a.type = .dir → ∀ before e after, members = before ++ e :: after →
    (∃ r, e.path.val = a.path.val ++ r ∧ r ≠ []) → a.path.val ∈ done ∨ ∃ e' ∈ before, e'.path.val = a.path.val

omit kept admitted in
lemma DirsFirst.tail (order : DirsFirst m (e :: members) done) : DirsFirst m members (e.path.val :: done) := by
  intro a inside type before e' after split below
  rcases order a inside type (e :: before) e' after (by rw [split,cons_append]) below with old | ⟨e'',earlier,same⟩
  · exact .inl (mem_cons_of_mem _ old)
  rcases mem_cons.mp earlier with rfl | rest
  · exact .inl (by simp [same])
  · exact .inr ⟨e'',rest,same⟩

lemma extract_safe (held : Held m ks s)
    (good : Good env base m first ks done none s.tree) (order : first → DirsFirst m members done) (nodup : done.Nodup)
    (known : ∀ p ∈ done, ∃ a ∈ m.entries, a.path.val = p) :
    (extractAll env m ending members done).Safe answers I
      (ends (fun _ s' => ∃ done', Done env base m first done' s' ∧
        ∀ a ∈ m.entries, a.path.val ∈ done') (Open base m)) s := by
  have here : ∀ {ks done s}, Held m ks s → Good env base m first ks done none s.tree → I s :=
    fun held good => kept _ ⟨_,held,good.toCore⟩
  induction members generalizing ks done s with
  | nil =>
    cases ending with
    | some e => exact ⟨here held good,ks,held,good.toCore⟩
    | none =>
      simp only [extractAll]
      split
      next => exact ⟨here held good,ks,held,good.toCore⟩
      next whole =>
        refine ⟨here held good,done,⟨ks,held,good⟩,fun a inside => ?_⟩
        -- As many distinct paths as there are entries.
        have sub : done ⊆ m.entries.map fun a => a.path.val := by
          intro p listed
          obtain ⟨a,inside,same⟩ := known p listed
          exact mem_map.mpr ⟨a,inside,same⟩
        have length : (m.entries.map fun a => a.path.val).length ≤ done.length := by simp [not_not.mp whole]
        exact ((nodup.subperm sub).perm_of_length_le length).mem_iff.mpr (mem_map.mpr ⟨a,inside,rfl⟩)
  | cons e members ih =>
    rw [extractAll]
    split
    next => exact ⟨here held good,ks,held,good.toCore⟩
    next me found =>
      obtain ⟨member,same⟩ := find_some found
      split
      swap
      next => exact ⟨here held good,ks,held,good.toCore⟩
      next fits =>
        simp only [Member.fits,decide_eq_true_eq] at fits
        obtain ⟨unseen,types,-⟩ := fits
        have path : e.path = me.path := Subtype.ext same.symm
        have undone : me.path.val ∉ done := same ▸ unseen
        have listed : first → ∀ a ∈ m.entries, a.type = .dir → (∃ r, me.path.val = a.path.val ++ r ∧ r ≠ []) →
          a.path.val ∈ done := by
          intro ordered a inside type below
          rcases order ordered a inside type [] e members rfl (path ▸ below) with old | ⟨_,impossible,-⟩
          · exact old
          · cases impossible
        have one : (extractMember env e me).Safe answers I
            (ends (fun _ => Done env base m first (me.path.val :: done)) (Open base m)) s := by
          cases type : me.type with
          | file => exact file_safe kept admitted member path undone listed held good type (types.trans type)
          | dir => exact dir_safe kept admitted member path undone listed held good type (types.trans type)
          | link => exact link_safe kept admitted member path listed held good type (types.trans type)
        refine seq one ?_
        rintro - s' ⟨ks',held',good'⟩
        rw [path]
        refine ih held' good' (fun ordered => path ▸ (order ordered).tail)
          (nodup_cons.mpr ⟨undone,nodup⟩) fun p inside => ?_
        rcases mem_cons.mp inside with rfl | old
        · exact ⟨me,member,rfl⟩
        · exact known p old

end
end UbixOS.Pkg
