import UbixOS.Library.WriteBack
import UbixOS.Vmm.Shmap

/-! The bytes of a shared mapping are held by its entry, then by the call that releases it, and
reach the file before anybody lets go of them. -/
namespace UbixOS.Vmm.Shmap

open Library Library.WriteBack Function

variable {w : World} {e m : Entry}

/-- Where the mapping keeps a byte of the file, from its byte `done` on. -/
def Entry.place (env : Env) (e : Entry) (done : Nat) (k : Nat × Nat) : Option (Nat × Nat) :=
  if k.1 = e.file ∧ e.foff + done ≤ k.2 ∧ k.2 < e.foff + e.len then some (env.space e.pid,e.va + (k.2 - e.foff))
    else none

lemma Entry.place_eq_some : e.place env done k = some a ↔
    k.1 = e.file ∧ e.foff + done ≤ k.2 ∧ k.2 < e.foff + e.len ∧ a = (env.space e.pid,e.va + (k.2 - e.foff)) := by
  rw [Entry.place]
  split
  next inside => simp [inside,eq_comm]
  next outside =>
    refine ⟨nofun,fun inside => absurd ⟨inside.1,inside.2.1,inside.2.2.1⟩ outside⟩

lemma Entry.place_mono (le : done ≤ later) (held : e.place env later k = some a) : e.place env done k = some a := by
  obtain ⟨file,low,high,same⟩ := Entry.place_eq_some.mp held
  exact Entry.place_eq_some.mpr ⟨file,by omega,high,same⟩

lemma Entry.place_end (le : e.len ≤ done) : e.place env done k = none :=
  if_neg (by omega)

/-- Who holds bytes: the slots of the table, and the tasks that write a released mapping. -/
inductive Holder where
  | slot (i : Fin slots)
  | task (t : Tid)
  deriving DecidableEq

def Phase.place (env : Env) : Phase → Nat × Nat → Option (Nat × Nat)
  | .write c m _ done, k => if c.release then m.place env done k else none
  | _, _ => none

def World.holding (env : Env) (w : World) : Holder → Nat × Nat → Option (Nat × Nat)
  | .slot i, k => if (w.table i).active = .free then none else (w.table i).place env 0 k
  | .task t, k => (w.phase t).place env k

open World (holding start goto unback)

lemma holding_slot (held : w.holding env (.slot i) k = some a) :
    (w.table i).active ≠ .free ∧ (w.table i).place env 0 k = some a := by
  rw [holding] at held
  split at held
  next => cases held
  next used => exact ⟨used,held⟩

lemma slot_holding (used : (w.table i).active ≠ .free) (held : (w.table i).place env 0 k = some a) :
    w.holding env (.slot i) k = some a := (if_neg used).trans held

def Phase.flush : Phase → Option Flush
  | .search c | .write c _ _ _ => some c
  | _ => none

def Phase.Releases (p : Phase) (e : Entry) : Prop :=
  ∃ c, p.flush = some c ∧ c.release = true ∧ (c.whole ∨ e.Overlaps c.lo c.hi)

def Phase.Syncs (p : Phase) : Prop := ∃ c, p.flush = some c ∧ c.release = false

/-- A call in progress is about to write the byte: its entry is still to be found, or written. -/
def World.AtWork (env : Env) (w : World) (k : Nat × Nat) : Prop :=
  (∃ i a, w.holding env (.slot i) k = some a ∧ (w.phase (w.table i).pid).Releases (w.table i)) ∨
    ∃ t a, w.holding env (.task t) k = some a

def inUse (table : Fin slots → Entry) : List Entry :=
  (List.finRange slots).filterMap fun i =>
    if (table i).active = .free then none else some { table i with active := .used }

/-- The pages of the mapping are there. -/
def World.Resident (env : Env) (w : World) (e : Entry) : Prop :=
  ∀ n < e.len, w.present (env.space e.pid) ((e.va + n) / PAGE_SIZE) = true

/-- The conditions under which nothing is lost: the mapped file is found again by its name; no two
mappings share bytes of a file or pages; nobody stores to pages that are being unmapped; no range
wraps at 2^64; and `munmap` and the last exit cover whole mappings, made by the same thread. -/
def Orderly (env : Env) (w : World) : Event → Prop
  | .mmap t va len foff f path =>
    env.lookup (path.take (pathSize - 1)) = some f ∧ pageDown va + len < 2^64 ∧
      (∀ s o, foff ≤ o → o < foff + len → w.holding env s (f,o) = none) ∧
      ∀ s k n, pageDown va ≤ n → n < pageDown va + pageUp len → w.holding env s k ≠ some (env.space t,n)
  | .store t n _ => ∀ s k, w.holding env s k = some (env.space t,n) → w.backed (env.space t) n ≠ none
  | .munmap t va len => va + len < 2^64 - 1 ∧ ∀ i, (w.table i).active ≠ .free →
    env.space (w.table i).pid = env.space t →
      (w.table i).Overlaps va (top va len) →
      (w.table i).pid = t ∧ va ≤ (w.table i).va ∧ (w.table i).va + (w.table i).len ≤ pageUp (top va len)
  | .exit t true => ∀ i, (w.table i).active ≠ .free → env.space (w.table i).pid = env.space t → (w.table i).pid = t
  | _ => True

structure Sound (env : Env) (initial : Nat → Nat → UInt8) (w : World) : Prop where
  kept : Kept (w.holding env) (uncurry w.file) (uncurry w.ideal) (uncurry w.mem)
  entry : ∀ {i}, (w.table i).active ≠ .free →
    env.lookup (w.table i).path = some (w.table i).file ∧ (w.table i).va % PAGE_SIZE = 0 ∧
      w.Resident env (w.table i) ∧ (w.table i).va + (w.table i).len < 2^64
  writing : ∀ {t c m f done}, w.phase t = .write c m f done → f = some m.file ∧ m.pid = t ∧ w.Resident env m ∧
    (c.release = false → ∃ i, (w.table i).active ≠ .free ∧ (w.table i).pid = t ∧
      (w.table i).place env 0 = m.place env 0)
  marked : ∀ {i}, (w.table i).active = .visited → (w.phase (w.table i).pid).Syncs
  covered : ∀ {space n k}, w.backed space n = some k → ∃ i, w.holding env (.slot i) k = some (space,n)
  mapped : ∀ {i}, (w.phase (w.table i).pid).Releases (w.table i) ∨
    ∀ {k a}, w.holding env (.slot i) k = some a → w.backed a.1 a.2 = some k
  cleared : ∀ {i k a}, (w.phase (w.table i).pid).Releases (w.table i) → w.holding env (.slot i) k = some a →
    w.backed a.1 a.2 = none
  touched : ∀ {s k a}, w.holding env s k = some a → w.touched k.1 k.2 = true
  untouched : ∀ {f o}, w.touched f o = false → w.file f o = initial f o ∧ w.ideal f o = initial f o
  ledger : w.entered.Perm (w.released ++ inUse w.table)

lemma Sound.start (env : Env) (file : Nat → Nat → UInt8) : Sound env file (World.start file) where
  kept := by
    have none : (World.start file).holding env = fun _ _ => none := by
      funext s k
      cases s <;> rfl
    rw [none]
    exact Kept.start _ _
  entry := fun used => absurd rfl used
  writing := nofun
  marked := nofun
  covered := nofun
  mapped := .inr fun held => absurd rfl (holding_slot held).1
  cleared := fun _ held => absurd rfl (holding_slot held).1
  touched := by
    intro s k a held
    cases s with
    | slot i => exact absurd rfl (holding_slot held).1
    | task t => cases held
  untouched := fun _ => ⟨rfl,rfl⟩
  ledger := by
    have none : inUse (World.start file).table = [] := by simp [inUse,World.start]
    rw [none]
    exact .refl _

lemma slots_split (i : Fin slots) : (List.finRange slots).Perm (i :: (List.finRange slots).erase i) :=
  List.perm_cons_erase (List.mem_finRange i)

lemma update_rest (table : Fin slots → Entry) (e : Entry) (member : j ∈ (List.finRange slots).erase i) :
    update table i e j = table j :=
  update_of_ne ((List.nodup_finRange slots).mem_erase_iff.mp member).1 ..

lemma inUse_enter (free : (table i).active = .free) (used : e.active ≠ .free) :
    (inUse (update table i e)).Perm ({ e with active := .used } :: inUse table) := by
  have new := (slots_split i).filterMap fun j =>
    if (update table i e j).active = .free then none else some { update table i e j with active := Active.used }
  have old := (slots_split i).filterMap fun j =>
    if (table j).active = .free then none else some { table j with active := Active.used }
  rw [List.filterMap_cons] at new old
  simp only [update_self,used,free,if_true,if_false] at new old
  refine new.trans (.trans ?_ (old.symm.cons _))
  refine .of_eq (congrArg _ (List.filterMap_congr fun j member => ?_))
  rw [update_rest table e member]

def Entry.Like (e e' : Entry) : Prop := ∃ x, e' = { e with active := x } ∧ (x = .free ↔ e.active = .free)

lemma Entry.Like.refl (e : Entry) : e.Like e := ⟨e.active,rfl,.rfl⟩

section remark

variable {table : Fin slots → Entry} (like : ∀ i, (w.table i).Like (table i))
include like

lemma remark_holding : { w with table := table }.holding env = w.holding env := by
  funext s k
  cases s with
  | task t => rfl
  | slot i =>
    obtain ⟨x,same,free⟩ := like i
    simp only [holding,same,free]
    rfl

lemma remark_inUse : inUse table = inUse w.table := by
  refine List.filterMap_congr fun i _ => ?_
  obtain ⟨x,same,free⟩ := like i
  simp only [same,free]

lemma Sound.remark (sound : Sound env initial w)
    (marked : ∀ i, (table i).active = .visited → (w.phase (w.table i).pid).Syncs) :
    Sound env initial { w with table := table } := by
  have same : { w with table := table }.holding env = w.holding env := remark_holding like
  have pid i : (table i).pid = (w.table i).pid := by
    obtain ⟨x,eq,-⟩ := like i
    rw [eq]
  have used i : (table i).active ≠ .free ↔ (w.table i).active ≠ .free := by
    obtain ⟨x,eq,free⟩ := like i
    rw [eq]
    exact not_congr free
  have releases i p : Phase.Releases p (table i) ↔ p.Releases (w.table i) := by
    obtain ⟨x,eq,-⟩ := like i
    rw [eq]
    rfl
  refine ⟨same ▸ sound.kept,fun {i} inUse => ?_,fun at_ => ?_,fun {i} mark => pid i ▸ marked i mark,?_,?_,?_,?_,
    sound.untouched,?_⟩
  · obtain ⟨x,eq,-⟩ := like i
    have old := sound.entry ((used i).mp inUse)
    simp only [eq]
    exact old
  · obtain ⟨file,owner,resident,source⟩ := sound.writing at_
    refine ⟨file,owner,resident,fun sync => ?_⟩
    obtain ⟨i,inUse,owned,place⟩ := source sync
    refine ⟨i,(used i).mpr inUse,(pid i).trans owned,?_⟩
    obtain ⟨x,eq,-⟩ := like i
    simp only [eq]
    exact place
  · rw [same]
    exact sound.covered
  · intro i
    rw [same,releases i,pid i]
    exact sound.mapped
  · intro i
    rw [same,releases i,pid i]
    exact sound.cleared
  · rw [same]
    exact sound.touched
  · rw [remark_inUse like]
    exact sound.ledger

end remark

lemma holding_goto (env : Env) (w : World) (t : Tid) (p : Phase) :
    (w.goto t p).holding env = update (w.holding env) (.task t) (p.place env) := by
  funext s k
  cases s with
  | slot i => rw [update_of_ne (by simp)]; rfl
  | task u =>
    by_cases same : u = t
    · subst same
      simp [holding,goto]
    · rw [update_of_ne (by simpa using same)]
      simp [holding,goto,same]

lemma holding_update (env : Env) (w' : World) (table : w'.table = update w.table i e) (phase : w'.phase = w.phase) :
    w'.holding env = update (w.holding env) (.slot i) fun k => if e.active = .free then none else e.place env 0 k := by
  funext s k
  cases s with
  | task v =>
    rw [update_of_ne (by simp),holding,phase]
    rfl
  | slot j =>
    by_cases same : j = i
    · subst same
      simp [holding,table]
    · rw [update_of_ne (by simpa using same)]
      simp [holding,table,same]

lemma flush_goto (same : p.flush = (w.phase t).flush) (v : Tid) :
    (update w.phase t p v).flush = (w.phase v).flush := by
  by_cases self : v = t
  · rw [self,update_self,same]
  · rw [update_of_ne self]

lemma holding_goto_same (same : p.place env = (w.phase t).place env) : (w.goto t p).holding env = w.holding env := by
  rw [holding_goto,same]
  exact update_eq_self (.task t) (w.holding env)

section

variable {p : Phase} (sound : Sound env initial w) (same : p.place env = (w.phase t).place env)
  (writing : ∀ {c m f done}, p = .write c m f done → f = some m.file ∧ m.pid = t ∧ w.Resident env m ∧
    (c.release = false → ∃ i, (w.table i).active ≠ .free ∧ (w.table i).pid = t ∧
    (w.table i).place env 0 = m.place env 0))
  (marked : ∀ {i}, (w.table i).active = .visited → (w.table i).pid = t → p.Syncs)
include sound same writing marked

/-- A task moves on, and some addresses may stop being mapped; nobody gives or takes bytes. -/
lemma Sound.moves
    (less : ∀ {space n k}, b space n = some k → w.backed space n = some k)
    (mapped : ∀ {i}, (update w.phase t p (w.table i).pid).Releases (w.table i) ∨
      ∀ {k a}, w.holding env (.slot i) k = some a → b a.1 a.2 = some k)
    (cleared : ∀ {i k a}, (update w.phase t p (w.table i).pid).Releases (w.table i) →
      w.holding env (.slot i) k = some a → b a.1 a.2 = none) :
    Sound env initial ({ w with backed := b }.goto t p) := by
  have holds : ({ w with backed := b }.goto t p).holding env = w.holding env :=
    holding_goto_same (w := { w with backed := b }) same
  refine ⟨holds ▸ sound.kept,sound.entry,fun {u _ _ _ _} at_ => ?_,fun {i} mark => ?_,?_,?_,?_,?_,sound.untouched,
    sound.ledger⟩
  · by_cases self : u = t
    · subst self
      exact writing (by simpa [goto] using at_)
    · exact sound.writing (by simpa [goto,self] using at_)
  · by_cases self : (w.table i).pid = t
    · have syncs := marked mark self
      simpa [goto,self] using syncs
    · have syncs := sound.marked mark
      simpa [goto,self] using syncs
  · intro space n k from_
    rw [holds]
    exact sound.covered (less from_)
  · rw [holds]
    exact mapped
  · rw [holds]
    exact cleared
  · rw [holds]
    exact sound.touched

lemma Sound.steps (releases : ∀ {i}, (w.table i).active ≠ .free → (w.table i).pid = t →
      (p.Releases (w.table i) ↔ (w.phase t).Releases (w.table i))) : Sound env initial (w.goto t p) := by
  have still {i} (used : (w.table i).active ≠ .free) :
      ((update w.phase t p (w.table i).pid).Releases (w.table i) ↔ (w.phase (w.table i).pid).Releases (w.table i)) := by
    by_cases self : (w.table i).pid = t
    · rw [self,update_self,releases used self]
    · rw [update_of_ne self]
  refine sound.moves same writing marked id ?_ ?_
  · intro i
    by_cases used : (w.table i).active = .free
    · exact .inr fun held => absurd used (holding_slot held).1
    · rw [still used]
      exact sound.mapped
  · intro i k a release held
    exact sound.cleared ((still (holding_slot held).1).mp release) held

end

lemma not_releases_idle (idle : w.phase t = .idle) (e : Entry) : ¬(w.phase t).Releases e := by
  rintro ⟨c,flush,-⟩
  rw [idle] at flush
  cases flush

lemma Sound.unmarked (sound : Sound env initial w) (idle : w.phase t = .idle) (mark : (w.table i).active = .visited) :
    (w.table i).pid ≠ t := by
  rintro rfl
  obtain ⟨c,flush,-⟩ := sound.marked mark
  rw [idle] at flush
  cases flush

lemma idle_place (idle : w.phase t = .idle) : (Phase.search c).place env = (w.phase t).place env := by
  rw [idle]
  rfl

lemma Sound.still_cleared (sound : Sound env initial w) {b : Nat → Nat → Option (Nat × Nat)}
    (less : ∀ {space n k}, b space n = some k → w.backed space n = some k)
    (release : (w.phase (w.table i).pid).Releases (w.table i)) (held : w.holding env (.slot i) k = some a) :
    b a.1 a.2 = none := by
  cases still : b a.1 a.2 with
  | none => rfl
  | some k =>
    have was := less still
    rw [sound.cleared release held] at was
    cases was

lemma pageUp_le {n m : Nat} (aligned : m % PAGE_SIZE = 0) (le : n ≤ m) : pageUp n ≤ m := by
  rw [pageUp,PAGE_SIZE] at *
  omega

section
variable (sound : Sound env initial w) (idle : w.phase t = .idle)
include sound idle

lemma Sound.munmap {va len : Nat} (orderly : Orderly env w (.munmap t va len)) :
    Sound env initial ((w.unback (env.space t) va (pageUp (top va len))).goto t
      (.search ⟨va,top va len,true,false⟩)) := by
  have inside : ∀ {n}, va ≤ n → n < pageUp (top va len) →
      (w.unback (env.space t) va (pageUp (top va len))).backed (env.space t) n = none := by
    intro n low high
    simp [unback,low,high]
  have outside : ∀ {space n}, ¬(space = env.space t ∧ va ≤ n ∧ n < pageUp (top va len)) →
      (w.unback (env.space t) va (pageUp (top va len))).backed space n = w.backed space n := by
    intro space n out
    by_cases same : space = env.space t
    · subst same
      simp only [unback,update_self]
      exact if_neg fun region => out ⟨rfl,region⟩
    · exact congrFun (update_of_ne same ..) n
  have less : ∀ {space n k}, (w.unback (env.space t) va (pageUp (top va len))).backed space n = some k →
      w.backed space n = some k := by
    intro space n k some
    by_cases region : space = env.space t ∧ va ≤ n ∧ n < pageUp (top va len)
    · obtain ⟨rfl,low,high⟩ := region
      rw [inside low high] at some
      cases some
    · rwa [outside region] at some
  refine sound.moves (b := (w.unback (env.space t) va (pageUp (top va len))).backed) (idle_place idle) nofun
    (fun mark self => absurd self (sound.unmarked idle mark)) less ?_ ?_
  · intro i
    by_cases free : (w.table i).active = .free
    · exact .inr fun held => absurd free (holding_slot held).1
    by_cases reach : env.space (w.table i).pid = env.space t ∧ (w.table i).Overlaps va (top va len)
    · obtain ⟨self,-⟩ := orderly.2 i free reach.1 reach.2
      rw [self,update_self]
      exact .inl ⟨_,rfl,rfl,.inr reach.2⟩
    rcases sound.mapped (i := i) with release | mapped
    · have other : (w.table i).pid ≠ t := fun self => not_releases_idle idle _ (self ▸ release)
      rw [update_of_ne other]
      exact .inl release
    -- An entry out of reach keeps its pages: it starts on a page boundary.
    refine .inr fun {k a} held => ?_
    obtain ⟨-,low,high,rfl⟩ := Entry.place_eq_some.mp (holding_slot held).2
    rw [outside,mapped held]
    rintro ⟨space,above,below⟩
    refine reach ⟨space,fun apart => ?_⟩
    rw [Nat.mod_eq_of_lt (sound.entry free).2.2.2] at apart
    rcases apart with before | behind
    · omega
    · have up := pageUp_le (sound.entry free).2.1 behind
      omega
  · intro i k a release held
    by_cases self : (w.table i).pid = t
    · rw [self,update_self] at release
      obtain ⟨c,flush,-,wanted⟩ := release
      obtain rfl := Option.some.inj flush
      have overlaps : (w.table i).Overlaps va (top va len) := by simpa using wanted
      obtain ⟨-,low,high⟩ := orderly.2 i (holding_slot held).1 (self ▸ rfl) overlaps
      obtain ⟨-,above,below,rfl⟩ := Entry.place_eq_some.mp (holding_slot held).2
      rw [self]
      exact inside (by omega) (by omega)
    · rw [update_of_ne self] at release
      exact sound.still_cleared less release held

lemma Sound.exit (orderly : Orderly env w (.exit t true)) :
    Sound env initial ({ w with backed := update w.backed (env.space t) fun _ => none }.goto t
      (.search ⟨0,0,true,true⟩)) := by
  have outside : ∀ {space}, space ≠ env.space t →
      update w.backed (env.space t) (fun _ => none) space = w.backed space := fun ne => update_of_ne ne ..
  have less : ∀ {space n k}, update w.backed (env.space t) (fun _ => none) space n = some k →
      w.backed space n = some k := by
    intro space n k some
    by_cases same : space = env.space t
    · subst same
      simp at some
    · rwa [outside same] at some
  refine sound.moves (idle_place idle) nofun (fun mark self => absurd self (sound.unmarked idle mark)) less ?_ ?_
  · intro i
    by_cases free : (w.table i).active = .free
    · exact .inr fun held => absurd free (holding_slot held).1
    by_cases space : env.space (w.table i).pid = env.space t
    · rw [orderly i free space,update_self]
      exact .inl ⟨_,rfl,rfl,.inl rfl⟩
    rw [update_of_ne fun self => space (congrArg _ self)]
    refine sound.mapped.imp id fun mapped {k a} held => ?_
    obtain ⟨-,-,-,rfl⟩ := Entry.place_eq_some.mp (holding_slot held).2
    rw [outside space]
    exact mapped held
  · intro i k a release held
    by_cases self : (w.table i).pid = t
    · obtain ⟨-,-,-,rfl⟩ := Entry.place_eq_some.mp (holding_slot held).2
      simp [self]
    · rw [update_of_ne self] at release
      exact sound.still_cleared less release held

lemma Sound.leaves (place : p.place env = fun _ => none)
    (nowrite : ∀ c m f done, p ≠ .write c m f done) (releases : ∀ e, ¬p.Releases e) :
    Sound env initial (w.goto t p) := by
  refine sound.steps ?_ (fun eq => absurd eq (nowrite _ _ _ _))
    (fun mark self => absurd self (sound.unmarked idle mark))
    fun _ _ => iff_of_false (releases _) (not_releases_idle idle _)
  rw [place,idle]
  rfl

end

end UbixOS.Vmm.Shmap
