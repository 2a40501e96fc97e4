import UbixOS.Library.Crash
import UbixOS.Pkg.Journal

/-! What an install has done to the tree at each of its calls. The journal names what it is about
to make, save for the directories of `make_parents`, which are noted after they have been made. -/
namespace UbixOS.Pkg

open Library (Prog Fallible)
open Library.Files Library.Prog Function List

variable {m : Manifest} {base t u : Tree}
  {e : MEntry}

lemma Safe.proper (safe : Safe p) : ∀ n ∈ p, n ≠ [] ∧ n ≠ Tree.dot ∧ n ≠ Tree.dotdot :=
  fun n member => ⟨(safe.1 n member).1,(safe.1 n member).2.1,(safe.1 n member).2.2.1⟩

lemma plain_of_dir (proper : ∀ n ∈ p ++ [l], n ≠ [] ∧ n ≠ Tree.dot ∧ n ≠ Tree.dotdot)
    (dir : t.find p = some (.dir mode)) : t.Plain (p ++ [l]) := by
  refine ⟨by simp,proper,fun {q r target} split more link => ?_⟩
  obtain ⟨b,l',rfl⟩ := (eq_nil_or_concat' r).resolve_left more
  rw [← append_assoc] at split
  have above : p = q ++ b := (append_inj' split rfl).1
  by_cases last : b = []
  · rw [above,last,append_nil,link] at dir
    cases dir
  obtain ⟨mode',found⟩ := Tree.above (t := t) (p := q) (r := b) (by rw [← above,dir]; simp) last
  rw [link] at found
  cases found

lemma lstat_find (plain : t.Plain (p ++ [l])) (dir : t.find p = some (.dir mode)) :
    t.lstat (p ++ [l]) = match t.find (p ++ [l]) with
      | none => .error .ENOENT
      | some node => .ok node := by
  obtain ⟨place,located⟩ := plain.located dir
  rw [Tree.lstat,located]
  cases found : t.find (p ++ [l]) <;> simp only [plain.path located,found]

lemma throughSymlink_way
    (proper : ∀ n ∈ p ++ (a ++ b), n ≠ [] ∧ n ≠ Tree.dot ∧ n ≠ Tree.dotdot) (dir : t.find p = some (.dir mode))
    (clear : throughSymlink t ((a ++ b).inits.tail.map (p ++ ·)) = false) :
    t.find (p ++ a) = none ∨ ∃ mode, t.find (p ++ a) = some (.dir mode) := by
  induction a generalizing p mode with
  | nil => exact .inr ⟨mode,by simpa using dir⟩
  | cons l a ih =>
    have split r : p ++ l :: r = p ++ [l] ++ r := by simp
    have plain : t.Plain (p ++ [l]) := plain_of_dir (fun n member => proper n (by
      rw [cons_append,split]
      exact mem_append_left _ member)) dir
    have inits : (l :: (a ++ b)).inits.tail.map (p ++ ·) = (p ++ [l]) :: (a ++ b).inits.tail.map (p ++ [l] ++ ·) := by
      rw [inits_cons,tail_cons]
      cases a ++ b <;> simp [map_map,Function.comp_def]
    rw [cons_append,inits,throughSymlink,lstat_find plain dir] at clear
    rw [split]
    cases found : t.find (p ++ [l]) with
    | none =>
      left
      by_contra there
      by_cases last : a = []
      · rw [last,append_nil] at there
        exact there found
      obtain ⟨mode,above⟩ := Tree.above there last
      rw [found] at above
      cases above
    | some node =>
      rw [found] at clear
      cases node with
      | file | link => simp at clear
      | dir mode' => exact ih (by rwa [cons_append,split] at proper) found clear

structure Admitted (base : Tree) (m : Manifest) : Prop where
  way : ∀ {e d r}, e ∈ m.entries → e.path.val = d ++ r → r ≠ [] → base.find d = none ∨
    ∃ mode, base.find d = some (.dir mode)
  free : ∀ {e}, e ∈ m.entries → e.type ≠ .dir → base.find e.path.val = none
  dirs : ∀ {e}, e ∈ m.entries → base.find e.path.val = none ∨ ∃ mode, base.find e.path.val = some (.dir mode)
  no_link : ∀ {e a r}, e ∈ m.entries → a ∈ m.entries → e.path.val = a.path.val ++ r → r ≠ [] → a.type ≠ .link

lemma mem_parents (some_ : p ≠ []) : d ∈ parents p ↔ d ≠ [] ∧ ∃ r, p = d ++ r ∧ r ≠ [] := by
  obtain ⟨q,l,rfl⟩ := (eq_nil_or_concat' p).resolve_left some_
  have inits : d ∈ q.inits.tail ↔ d ≠ [] ∧ d <+: q := by
    rw [← mem_inits]
    cases q with
    | nil => simp
    | cons l q =>
      rw [inits_cons,tail_cons,mem_cons]
      refine ⟨fun member => ⟨?_,.inr member⟩,fun member => member.2.resolve_left member.1⟩
      obtain ⟨r,-,rfl⟩ := mem_map.mp member
      simp
  rw [parents,dropLast_concat,inits]
  refine and_congr_right fun _ => ⟨fun ⟨b,split⟩ => ⟨b ++ [l],by simp [← split],by simp⟩,fun ⟨r,split,more⟩ => ?_⟩
  obtain ⟨b,l',rfl⟩ := (eq_nil_or_concat' r).resolve_left more
  rw [← append_assoc] at split
  exact ⟨b,(append_inj' split rfl).1.symm⟩

lemma find_entry (member : e ∈ m.entries) : m.find e.path.val = some e := by
  rw [Manifest.find]
  cases found : m.entries.find? fun a => a.path.val = e.path.val with
  | none => exact absurd (find?_eq_none.mp found e member) (by simp)
  | some a =>
    have same : a.path = e.path := Subtype.ext (by simpa using find?_some found)
    have inside := mem_of_find?_eq_some found
    exact congrArg some (inj_on_of_nodup_map m.distinct inside member same)

lemma find_some (found : m.find p = some a) : a ∈ m.entries ∧ a.path.val = p :=
  ⟨mem_of_find?_eq_some found,by simpa using find?_some found⟩

lemma way_of_clear (clear : throughSymlink base (parents p) = false) (safe : Safe p) (split : p = d ++ r)
    (more : r ≠ []) : base.find d = none ∨ ∃ mode, base.find d = some (.dir mode) := by
  obtain ⟨mode,root⟩ := base.rooted
  obtain ⟨b,l,rfl⟩ := (eq_nil_or_concat' r).resolve_left more
  have last : p.dropLast = d ++ b := by rw [split,← append_assoc,dropLast_concat]
  rw [parents,last] at clear
  have found := throughSymlink_way (t := base) (p := []) (a := d) (b := b)
    (fun n member => safe.proper n (by
      rw [split,← append_assoc]
      exact mem_append_left _ (by simpa using member))) root (by simpa [Function.comp_def] using clear)
  simpa using found

lemma occupied_find (free : occupied base e = false) (path : e.path.val = p ++ [l])
    (found : base.find e.path.val = some node) : e.type = .dir ∧ node.isDir = true := by
  obtain ⟨mode,dir⟩ : ∃ mode, base.find p = some (.dir mode) := Tree.parent (n := l) (by rw [← path,found]; simp)
  have plain : base.Plain (p ++ [l]) := plain_of_dir (path ▸ e.path.property.proper) dir
  rw [occupied,path,lstat_find plain dir,← path,found] at free
  simpa using free

lemma admitted_of_clear (links : ∀ e ∈ m.entries, ∀ d ∈ parents e.path.val, ∀ a ∈ m.find d, a.type ≠ .link)
    (clear : ∀ e ∈ m.entries, throughSymlink base (parents e.path.val) = false)
    (free : ∀ e ∈ m.entries, occupied base e = false) : Admitted base m := by
  have last (e : MEntry) : ∃ q l, e.path.val = q ++ [l] :=
    (eq_nil_or_concat' e.path.val).resolve_left e.path.property.2.1
  refine ⟨fun {e d r} member split more => ?_,fun {e} member file => ?_,fun {e} member => ?_,
    fun {e a r} member inside split more => ?_⟩
  · exact way_of_clear (clear e member) e.path.property split more
  · obtain ⟨q,l,split⟩ := last e
    cases found : base.find e.path.val with
    | none => rfl
    | some node => exact absurd (occupied_find (free e member) split found).1 file
  · obtain ⟨q,l,split⟩ := last e
    cases found : base.find e.path.val with
    | none => exact .inl rfl
    | some node =>
      have dir := (occupied_find (free e member) split found).2
      cases node with
      | dir mode => exact .inr ⟨mode,rfl⟩
      | file | link => cases dir
  · exact links e member _ ((mem_parents e.path.property.2.1).mpr ⟨a.path.property.2.1,r,split,more⟩) a
      (find_entry inside)

/-- What holds of the tree and the journal at every point; the notes are newest first. -/
structure Core (base : Tree) (m : Manifest) (ks : List Note) (t : Tree) : Prop where
  intact : ∀ {p node}, base.find p = some node → t.find p = some node
  ordered : Ordered ks
  safe : ∀ {n}, n ∈ ks → Safe n.path
  named : ∀ {n}, n ∈ ks → ∃ e ∈ m.entries, ∃ r, e.path.val = n.path ++ r
  files : ∀ {n}, n ∈ ks → n.tag ≠ .D → ∃ e ∈ m.entries, e.path.val = n.path ∧ e.type ≠ .dir
  new : ∀ {n}, n ∈ ks → base.find n.path = none
  links : ∀ {p target}, base.find p = none → t.find p = some (.link target) → ∃ e ∈ m.entries, e.type = .link ∧
    e.path.val = p

section
variable (core : Core base m ks t)
include core

lemma Core.no_link (admitted : Admitted base m) (member : e ∈ m.entries)
    (split : e.path.val = d ++ r) (more : r ≠ []) : t.find d ≠ some (.link target) := by
  intro link
  rcases admitted.way member split more with new | ⟨mode,dir⟩
  · obtain ⟨a,inside,type,path⟩ := core.links new link
    subst path
    exact admitted.no_link member inside split more type
  · rw [core.intact dir] at link
    cases link

lemma Core.plain (admitted : Admitted base m) (member : n ∈ ks) : t.Plain n.path := by
  obtain ⟨e,inside,r,path⟩ := core.named member
  refine ⟨(core.safe member).2.1,(core.safe member).proper,fun {q b target} split more => ?_⟩
  exact core.no_link admitted inside (by rw [path,split,append_assoc]) (by simp [more])

lemma Core.plain_entry (admitted : Admitted base m) (member : e ∈ m.entries) : t.Plain e.path.val :=
  ⟨e.path.property.2.1,e.path.property.proper,fun split more => core.no_link admitted member split more⟩

lemma Core.set (new : base.find p = none) (set : u.find = update t.find p x)
    (kind : ∀ target, x = some (.link target) → ∃ e ∈ m.entries, e.type = .link ∧ e.path.val = p) :
    Core base m ks u := by
  refine { core with intact := fun {q node} old => ?_, links := fun {q target} fresh link => ?_ }
  · have other : q ≠ p := by
      rintro rfl
      simp [new] at old
    rw [set,update_of_ne other]
    exact core.intact old
  by_cases same : q = p
  · subst same
    rw [set,update_self] at link
    exact kind target link
  · rw [set,update_of_ne same] at link
    exact core.links fresh link

lemma Core.fresh (none : t.find p = none) : base.find p = Option.none := by
  cases old : base.find p with
  | none => rfl
  | some node => simp [core.intact old] at none

end

/-- The node is what the manifest asks for. -/
def MEntry.Fits (env : Env) (e : MEntry) : Node → Prop
  | .file mode data => e.type = .file ∧ mode = e.mode ∧ data.length = e.size ∧ env.sha256 data = e.sha256
  | .link target => e.type = .link ∧ target = e.target
  | .dir mode => e.type = .dir ∧ mode = e.mode

def MEntry.Stands (env : Env) (e : MEntry) (t : Tree) : Prop :=
  if e.type = .dir then ∃ mode, t.find e.path.val = some (.dir mode)
  else ∃ node, t.find e.path.val = some node ∧ e.Fits env node

/-- What the install may have made: an entry of the manifest, or a directory above one. Where
the archive has its directories `first`, such a directory is not itself an entry. -/
def Belongs (env : Env) (m : Manifest) (first : Prop) (p : Path) (node : Node) : Prop :=
  (∃ e ∈ m.entries, e.path.val = p ∧ e.Fits env node) ∨
    (∃ e ∈ m.entries, ∃ r, e.path.val = p ++ r ∧ r ≠ []) ∧ node = .dir 0o755 ∧
      (first → ∀ e ∈ m.entries, e.path.val = p → e.type ≠ .dir)

/-- Between two members: `done` are in place, and a file may be under way at `tmp`. -/
structure Good (env : Env) (base : Tree) (m : Manifest) (first : Prop) (ks : List Note) (done : List Path)
    (tmp : Option Path)
    (t : Tree) : Prop extends Core base m ks t where
  below : ∀ {n d r}, n ∈ ks → n.path = d ++ r → r ≠ [] → ∃ mode, t.find d = some (.dir mode)
  made : ∀ {p node}, base.find p = none → t.find p = some node → tmp ≠ some p → Belongs env m first p node
  placed : ∀ {e}, e ∈ m.entries → e.path.val ∈ done → e.Stands env t
  undone : ∀ {e}, e ∈ m.entries → e.type ≠ .dir → e.path.val ∉ done → ∀ node ∈ t.find e.path.val, node.isDir = true ∨
    tmp = some e.path.val

lemma MEntry.Stands.mono (stands : e.Stands env t)
    (more : ∀ node, t.find e.path.val = some node → u.find e.path.val = some node) :
    e.Stands env u := by
  rw [MEntry.Stands] at stands ⊢
  split
  next dir =>
    rw [if_pos dir] at stands
    exact stands.imp fun mode found => more _ found
  next file =>
    rw [if_neg file] at stands
    exact stands.imp fun node found => ⟨more _ found.1,found.2⟩

lemma Good.add (good : Good env base m first ks done none t) (free : t.find p = none)
    (set : u.find = update t.find p (some node)) (core : Core base m ks' u)
    (notes : ∀ n ∈ ks', n ∈ ks ∨ ∀ d r, n.path = d ++ r → r ≠ [] → ∃ mode, t.find d = some (.dir mode))
    (belongs : tmp ≠ some p → Belongs env m first p node) (fewer : ∀ q, q ∈ done' → q ∈ done ∨ q = p)
    (more : ∀ q, q ∈ done → q ∈ done')
    (stands : ∀ e ∈ m.entries, e.path.val = p → p ∈ done' → e.Stands env u)
    (undone : ∀ e ∈ m.entries, e.type ≠ .dir → e.path.val = p → p ∉ done' → node.isDir = true ∨ tmp = some p) :
    Good env base m first ks' done' tmp u := by
  have grows {q inner} (found : t.find q = some inner) : u.find q = some inner := by
    have other : q ≠ p := by
      rintro rfl
      simp [free] at found
    rw [set,update_of_ne other,found]
  refine { core with below := ?_, made := ?_, placed := ?_, undone := ?_ }
  · intro n d r member split some_
    rcases notes n member with old | above
    · exact (good.below old split some_).imp fun mode found => grows found
    · exact (above d r split some_).imp fun mode found => grows found
  · intro q inner new found other
    by_cases same : q = p
    · subst same
      rw [set,update_self] at found
      exact Option.some.inj found ▸ belongs other
    · rw [set,update_of_ne same] at found
      exact good.made new found nofun
  · intro e member inside
    rcases fewer _ inside with old | here
    · exact (good.placed member old).mono fun node found => grows found
    · exact stands e member here (here ▸ inside)
  · intro e member file outside inner found
    by_cases same : e.path.val = p
    · rw [same,set,update_self] at found
      rw [same] at outside ⊢
      exact Option.some.inj found ▸ undone e member file same outside
    · rw [set,update_of_ne same] at found
      exact (good.undone member file (fun old => outside (more _ old)) inner found).imp id nofun

lemma Good.rewrite (good : Good env base m first ks done (some p) t)
    (notDir : ∀ mode, t.find p ≠ some (.dir mode)) (noLink : ∀ target, node ≠ .link target) (new : base.find p = none)
    (unplaced : ∀ e ∈ m.entries, e.path.val ∈ done → e.path.val ≠ p) (set : u.find = update t.find p (some node)) :
    Good env base m first ks done (some p) u := by
  have other {q} (ne : q ≠ p) : u.find q = t.find q := by rw [set,update_of_ne ne]
  have core : Core base m ks u :=
    good.toCore.set new set fun target link => absurd (Option.some.inj link) (noLink target)
  refine { core with below := ?_, made := ?_, placed := ?_, undone := ?_ }
  · intro n d r member split more
    obtain ⟨mode,found⟩ := good.below member split more
    refine ⟨mode,?_⟩
    rw [other]
    · exact found
    · rintro rfl
      exact notDir mode found
  · intro q inner fresh found apart
    have ne : q ≠ p := fun same => apart (by rw [same])
    rw [other ne] at found
    exact good.made fresh found apart
  · intro e member inside
    exact (good.placed member inside).mono fun node found => by rwa [other (unplaced e member inside)]
  · intro e member type outside inner found
    by_cases same : e.path.val = p
    · exact .inr (by rw [same])
    · rw [other same] at found
      exact good.undone member type outside inner found

/-- A call that only looks tells the truth; any other may fail, and then does nothing. -/
def Call.mutates : {β : Type} → Call β → Bool
  | _, .lstat _ | _, .readJournal | _, .installed _ | _, .readFile _ | _, .readFiles _ | _, .check _ => false
  | _, _ => true

def answers {β : Type} (c : Call β) (s : State) (r : Except Errno β) (s' : State) : Prop :=
  (exec c).run s = (r,s') ∨ c.mutates = true ∧ (∃ e, r = .error e) ∧ s' = s

lemma answers_tree (is : exec c = onTree change) (answer : answers c s r s') :
    (∃ u, change s.tree = .ok u ∧ r = .ok () ∧ s' = { s with tree := u }) ∨ (∃ e, r = .error e) ∧ s' = s := by
  rcases answer with done | ⟨-,failed,same⟩
  · rw [is,onTree] at done
    dsimp only at done
    cases result : change s.tree with
    | ok u =>
      rw [result] at done
      cases done
      exact .inl ⟨u,rfl,rfl,rfl⟩
    | error e =>
      rw [result] at done
      cases done
      exact .inr ⟨⟨e,rfl⟩,rfl⟩
  · exact .inr ⟨failed,same⟩

lemma answers_lstat (answer : answers (.lstat p) s r s') : r = s.tree.lstat p ∧ s' = s := by
  rcases answer with done | ⟨looks,-⟩
  · cases done
    exact ⟨rfl,rfl⟩
  · cases looks

lemma answers_create (answer : answers (.create p mode) s r s') :
    (∃ u place, s.tree.locate p = .ok place ∧ s.tree.make p (.file mode []) = .ok u ∧ r = .ok (place.dir,place.leaf) ∧
      s' = { s with tree := u }) ∨ (∃ e, r = .error e) ∧ s' = s := by
  rcases answer with done | ⟨-,failed,same⟩
  · simp only [exec] at done
    split at done
    next place u located made =>
      cases done
      exact .inl ⟨u,place,located,made,rfl,rfl⟩
    all_goals
      cases done
      exact .inr ⟨⟨_,rfl⟩,rfl⟩
  · exact .inr ⟨failed,same⟩

end UbixOS.Pkg
