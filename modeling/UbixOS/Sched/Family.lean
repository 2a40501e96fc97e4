import UbixOS.Sched.Exit

/-! Over every run: each task is in one place from its creation until it is freed, links
to parents never dangle, and the status of an exited task is returned once. -/
namespace UbixOS.Sched.Exit

open Library Function List Exit Kernel

inductive Place
  | listed
  | deleted
  | held (p : Tid)
  | freed
  deriving DecidableEq

namespace World

/-- Where a task is: on `taskList`, on `delList`, owned by a caller of `sched_free_task`, or freed. -/
def lies (w : World) (t : Tid) : Place → Prop
  | .listed => t ∈ w.kernel.taskList
  | .deleted => t ∈ w.kernel.delList
  | .held p => ∃ unlinked, w.call p = .freeTask t unlinked
  | .freed => t ∈ w.freed

def born (w : World) (t : Tid) : Prop := 0 < t ∧ t < w.kernel.nextID

/-- A task that nobody is creating right now; ids start at 1. -/
def settled (w : World) (t : Tid) : Prop := t ≠ 0 ∧ ∀ p linked, w.call p ≠ .fork t linked

@[simp] lemma enter_self (w : World) (p : Tid) (call : Call) : (w.enter p call).call p = call := by simp [enter]

lemma enter_other (w : World) (call : Call) (apart : q ≠ p) : (w.enter p call).call q = w.call q := by
  simp [enter,apart]

end World

/-- Conditions on events that are not part of creation, exit and collection. A thread pinned as idle does not
create or end tasks, and a task that exits is marked as running on its CPU. -/
def Allowed (w : World) : Act → Prop
  | .kernel e => (e = .newTask ∨ (∃ c, e = .apEntry c) ∨ Regular w.kernel e) ∧
      ∀ t, touches w.kernel e t → w.settled t
  | .linkChild c _ => ∀ p, w.kernel.current c = some p → ∀ d, w.kernel.idle d ≠ some p
  | .zombie c => ∀ p, w.kernel.current c = some p → w.kernel.mayStop p
  | _ => True

/-- Every task is in one place, and one that has left the list has exited and left its CPU. -/
structure Places (w : World) : Prop where
  first : 0 < w.kernel.nextID
  nodup : w.kernel.taskList.Nodup
  dels : w.kernel.delList.Nodup
  frees : w.freed.Nodup
  place : ∀ t a b, w.lies t a → w.lies t b → a = b
  born : ∀ t a, w.lies t a → w.born t
  somewhere : ∀ t, w.born t → ∃ a, w.lies t a
  gone : ∀ t, w.born t → t ∉ w.kernel.taskList → w.finished t = true ∧ w.onCpu t = false

structure Calls (w : World) : Prop where
  exited : ∀ t, w.finished t = true ↔ w.call t = .exited
  caller : ∀ t, w.call t ≠ .user → w.born t
  embryo : ∀ p t linked, w.call p = .fork t linked → t ∈ w.kernel.taskList ∧ w.kernel.embryo t ∧ w.call t = .user
  single : ∀ p q t b b', w.call p = .fork t b → w.call q = .fork t b' → p = q

/-- A listed task's parent is a task that is not freed, and an exited task other than init is the parent of
threads of its own group only. -/
structure Links (w : World) : Prop where
  parent : ∀ t ∈ w.kernel.taskList, ∀ p, w.parent t = some p → w.born p ∧ p ∉ w.freed
  unlinked : ∀ p t, w.call p = .freeTask t true → ∀ u ∈ w.kernel.taskList, w.parent u ≠ some t
  threads : ∀ t ∈ w.kernel.taskList, ∀ p, w.parent t = some p → p ≠ 1 →
    w.call p = .endTask true ∨ w.call p = .exited → (w.kernel.task t).tgid = (w.kernel.task p).tgid

/-- What was returned is what the child exited with, to its parent; a task that left the list otherwise has no
live parent. -/
structure Returns (w : World) : Prop where
  status : ∀ t, w.exits t = if w.finished t then some (w.status t) else none
  returned : ∀ r ∈ w.returned, w.born r.child ∧ r.child ∉ w.kernel.taskList ∧
    w.exits r.child = some r.status ∧ w.parent r.child = some r.parent
  once : (w.returned.map Return.child).Nodup
  orphan : ∀ t, w.born t → t ∉ w.kernel.taskList →
    (∃ r ∈ w.returned, r.child = t) ∨ ∀ p, w.parent t = some p → w.finished p = true

structure Family (w : World) : Prop where
  places : Places w
  calls : Calls w
  links : Links w
  returns : Returns w

section Kernel

variable {w : World}

lemma lies_kernel (taskList : s.taskList = w.kernel.taskList) (delList : s.delList = w.kernel.delList) (t : Tid)
    (a : Place) : World.lies { w with kernel := s } t a ↔ w.lies t a := by
  cases a with
  | listed => simp only [World.lies,taskList]
  | deleted => simp only [World.lies,delList]
  | held p | freed => rfl

lemma Places.same (places : Places w) (nextID : w'.kernel.nextID = w.kernel.nextID)
    (taskList : w'.kernel.taskList = w.kernel.taskList) (delList : w'.kernel.delList = w.kernel.delList)
    (freed : w'.freed = w.freed) (lies : ∀ t a, w'.lies t a ↔ w.lies t a)
    (gone : ∀ t, t ∉ w.kernel.taskList → w.finished t = true → w.onCpu t = false →
      w'.finished t = true ∧ w'.onCpu t = false) : Places w' where
  first := nextID ▸ places.first
  nodup := taskList ▸ places.nodup
  dels := delList ▸ places.dels
  frees := freed ▸ places.frees
  place t a b first second := places.place t a b ((lies t a).mp first) ((lies t b).mp second)
  born t a here := by
    have known := places.born t a ((lies t a).mp here)
    rwa [World.born,nextID]
  somewhere t known := by
    rw [World.born,nextID] at known
    obtain ⟨a,here⟩ := places.somewhere t known
    exact ⟨a,(lies t a).mpr here⟩
  gone t known outside := by
    rw [World.born,nextID] at known
    rw [taskList] at outside
    obtain ⟨exited,off⟩ := places.gone t known outside
    exact gone t outside exited off

lemma Places.tame (places : Places w) (tame : Tame x w.kernel s) : Places { w with kernel := s } := by
  refine places.same tame.nextID tame.taskList tame.delList rfl (lies_kernel tame.taskList tame.delList)
    fun t _ exited off => ⟨(tame.finished t).trans exited,(tame.task t).off exited off⟩

lemma Calls.tame (calls : Calls w) (tame : Tame x w.kernel s) (settled : ∀ t, x t → w.settled t) :
    Calls { w with kernel := s } where
  exited t := by
    have same : World.finished { w with kernel := s } t = w.finished t := tame.finished t
    rw [same]
    exact calls.exited t
  caller t busy := by
    rw [World.born,tame.nextID]
    exact calls.caller t busy
  embryo p t linked creating := by
    obtain ⟨listed,new,user⟩ := calls.embryo p t linked creating
    refine ⟨tame.taskList ▸ listed,tame.fresh t (fun touched => ?_) new,user⟩
    exact (settled t touched).2 p linked creating
  single := calls.single

lemma Links.fewer (links : Links w) (listed : ∀ u ∈ w'.kernel.taskList, u ∈ w.kernel.taskList)
    (nextID : w'.kernel.nextID = w.kernel.nextID) (freed : w'.freed = w.freed)
    (parent : ∀ t p, w'.parent t = some p → w.parent t = some p)
    (tgid : ∀ t, (w'.kernel.task t).tgid = (w.kernel.task t).tgid)
    (freeing : ∀ p t, w'.call p = .freeTask t true → w.call p = .freeTask t true)
    (ended : ∀ p, w'.call p = .endTask true ∨ w'.call p = .exited → w.call p = .endTask true ∨ w.call p = .exited) :
    Links w' := by
  refine ⟨fun t here p link => ?_,fun p t done u here link => ?_,fun t here p link other overrun => ?_⟩
  · rw [World.born,nextID,freed]
    exact links.parent t (listed t here) p (parent t p link)
  · exact links.unlinked p t (freeing p t done) u (listed u here) (parent u t link)
  · rw [tgid,tgid]
    exact links.threads t (listed t here) p (parent t p link) other (ended p overrun)

lemma Returns.same (returns : Returns w) (nextID : w'.kernel.nextID = w.kernel.nextID)
    (taskList : w'.kernel.taskList = w.kernel.taskList) (returned : w'.returned = w.returned)
    (status : ∀ t, w'.exits t = if w'.finished t then some (w'.status t) else none)
    (left : ∀ t ∉ w.kernel.taskList, w'.exits t = w.exits t ∧ w'.parent t = w.parent t)
    (finished : ∀ t, w.finished t = true → w'.finished t = true) : Returns w' := by
  refine ⟨status,fun r member => ?_,returned ▸ returns.once,fun t known outside => ?_⟩
  · rw [returned] at member
    obtain ⟨known,outside,exits,link⟩ := returns.returned r member
    rw [World.born,nextID,taskList,(left _ outside).1,(left _ outside).2]
    exact ⟨known,outside,exits,link⟩
  · rw [World.born,nextID] at known
    rw [taskList] at outside
    rw [returned,(left t outside).2]
    exact (returns.orphan t known outside).imp_right fun orphan p link => finished p (orphan p link)

lemma Links.tame (links : Links w) (tame : Tame x w.kernel s) : Links { w with kernel := s } :=
  links.fewer (fun _ listed => tame.taskList ▸ listed) tame.nextID rfl
    (fun t _ link => (tame.task t).parent.symm.trans link)
    (fun t => (tame.task t).tgid) (fun _ _ => id) fun _ => id

lemma Returns.tame (returns : Returns w) (tame : Tame x w.kernel s) : Returns { w with kernel := s } := by
  have finished : ∀ t, World.finished { w with kernel := s } t = w.finished t := tame.finished
  refine returns.same tame.nextID tame.taskList rfl (fun t => ?_)
    (fun t _ => ⟨rfl,(tame.task t).parent⟩) fun t exited => ?_
  · rw [finished]
    exact returns.status t
  · rw [finished,exited]

lemma Family.tame (family : Family w) (tame : Tame x w.kernel s) (settled : ∀ t, x t → w.settled t) :
    Family { w with kernel := s } :=
  ⟨family.places.tame tame,family.calls.tame tame settled,family.links.tame tame,family.returns.tame tame⟩

lemma Places.move (places : Places w) (w' : World) (t : Tid) (source target : Place) (was : w.lies t source)
    (nextID : w'.kernel.nextID = w.kernel.nextID)
    (moved : ∀ u a, w'.lies u a ↔ w.lies u a ∧ ¬(u = t ∧ a = source) ∨ u = t ∧ a = target) :
    (∀ u a b, w'.lies u a → w'.lies u b → a = b) ∧ (∀ u a, w'.lies u a → w'.born u) ∧
      ∀ u, w'.born u → ∃ a, w'.lies u a := by
  have now {a} (here : w'.lies t a) : a = target := by
    rcases (moved t a).mp here with ⟨there,apart⟩ | ⟨-,same⟩
    · exact absurd ⟨rfl,places.place t a source there was⟩ apart
    · exact same
  have other {u a} (apart : u ≠ t) : (w'.lies u a ↔ w.lies u a) := by simp [moved,apart]
  refine ⟨fun u a b first second => ?_,fun u a here => ?_,fun u known => ?_⟩
  all_goals by_cases same : u = t
  · subst same
    exact (now first).trans (now second).symm
  · exact places.place u a b ((other same).mp first) ((other same).mp second)
  · subst same
    rw [World.born,nextID]
    exact places.born u source was
  · rw [World.born,nextID]
    exact places.born u a ((other same).mp here)
  · exact ⟨target,(moved u target).mpr (.inr ⟨same,rfl⟩)⟩
  · rw [World.born,nextID] at known
    obtain ⟨a,here⟩ := places.somewhere u known
    exact ⟨a,(other same).mpr here⟩

lemma lies_held_enter (call : Call) (u q : Tid) :
    (w.enter p call).lies u (.held q) ↔ if q = p then ∃ b, call = .freeTask u b else w.lies u (.held q) := by
  by_cases same : q = p
  · subst same
    simp [World.lies]
  · simp [World.lies,w.enter_other call same,same]

lemma mem_unlisted {l : List Tid} {u : Tid} : u ∈ l.filter (· ≠ t) ↔ u ∈ l ∧ u ≠ t := by simp

lemma Places.unlisted (places : Places w) (exited : w.finished t = true) (off : w.onCpu t = false) {u : Tid}
    (known : w.born u)
    (outside : u ∉ w.kernel.taskList.filter (· ≠ t)) : w.finished u = true ∧ w.onCpu u = false := by
  by_cases same : u = t
  · subst same
    exact ⟨exited,off⟩
  · exact places.gone u known fun member => outside (mem_unlisted.mpr ⟨member,same⟩)

lemma Calls.unlisted (calls : Calls w) (exited : w.finished t = true) {p u : Tid} {linked : Bool}
    (creating : w.call p = .fork u linked) :
    u ∈ w.kernel.taskList.filter (· ≠ t) ∧ w.kernel.embryo u ∧ w.call u = .user := by
  obtain ⟨member,new,user⟩ := calls.embryo p u linked creating
  refine ⟨mem_unlisted.mpr ⟨member,?_⟩,new,user⟩
  rintro rfl
  rw [World.finished,new.1] at exited
  cases exited

lemma Family.collect (family : Family w) (listed : t ∈ w.kernel.taskList) (exited : w.finished t = true)
    (off : w.onCpu t = false) (orphan : ∀ p, w.parent t = some p → w.finished p = true) :
    Family { w with kernel := { w.kernel with
      taskList := w.kernel.taskList.filter (· ≠ t), delList := t :: w.kernel.delList } } := by
  obtain ⟨places,calls,links,returns⟩ := family
  have fresh : t ∉ w.kernel.delList := fun there => nomatch places.place t .deleted .listed there listed
  have moved := places.move { w with kernel := { w.kernel with
      taskList := w.kernel.taskList.filter (· ≠ t), delList := t :: w.kernel.delList } } t .listed .deleted
      listed rfl fun u a => ?_
  · refine ⟨⟨places.first,places.nodup.filter _,nodup_cons.mpr ⟨fresh,places.dels⟩,places.frees,moved.1,moved.2.1,
      moved.2.2,
        fun u => places.unlisted exited off⟩,
      ⟨calls.exited,calls.caller,fun p u linked => calls.unlisted exited,calls.single⟩,
      links.fewer (fun u member => (mem_unlisted.mp member).1) rfl rfl (fun _ _ => id) (fun _ => rfl)
        (fun _ _ => id) fun _ => id,
      ⟨returns.status,fun r member => ?_,returns.once,?_⟩⟩
    · obtain ⟨known,outside,rest⟩ := returns.returned r member
      exact ⟨known,fun inside => outside (mem_unlisted.mp inside).1,rest⟩
    intro u known outside
    by_cases same : u = t
    · subst same
      exact .inr orphan
    · exact returns.orphan u known fun member => outside (mem_unlisted.mpr ⟨member,same⟩)
  · cases a with
    | listed | held | freed => simp [World.lies]
    | deleted => simp [World.lies,or_comm]

lemma Family.pass (pass : Pass x w.kernel s) (settled : ∀ t, x t → w.settled t) (family : Family w) :
    Family { w with kernel := s } := by
  generalize shape : w.kernel = s₀ at pass
  induction pass generalizing w with
  | tame tame =>
    subst shape
    exact family.tame tame settled
  | collect listed exited off orphan =>
    subst shape
    exact family.collect listed exited off orphan
  | @trans _ s' _ _ _ first second =>
    exact second (w := { w with kernel := s' }) settled (first settled family shape) rfl

lemma Family.born (family : Family w) (born : Born w.kernel s) (unborn : w.kernel.state w.kernel.nextID = .new) :
    Family { w with kernel := s } := by
  obtain ⟨places,calls,links,returns⟩ := family
  have old {t} (known : w.born t) : t ≠ w.kernel.nextID := Nat.ne_of_lt known.2
  have later {t} (known : w.born t) : World.born { w with kernel := s } t :=
    ⟨known.1,born.nextID ▸ Nat.lt_succ_of_lt known.2⟩
  have split {t} (known : World.born { w with kernel := s } t) : t = w.kernel.nextID ∨ w.born t := by
    obtain ⟨positive,bound⟩ := known
    rw [born.nextID] at bound
    exact (Nat.lt_succ_iff_lt_or_eq.mp bound).symm.imp_right fun bound => ⟨positive,bound⟩
  have finished t : World.finished { w with kernel := s } t = w.finished t := by
    by_cases new : t = w.kernel.nextID
    · subst new
      rw [World.finished,World.finished,unborn]
      exact born.alive
    · rw [World.finished,state,born.other t new]
      rfl
  have lies t a : World.lies { w with kernel := s } t a ↔ (t = w.kernel.nextID ∧ a = .listed) ∨ w.lies t a := by
    cases a with
    | listed => simp [World.lies,born.taskList]
    | deleted => simp [World.lies,born.delList]
    | held p | freed => simp [World.lies]
  have fresh : ∀ a, ¬w.lies w.kernel.nextID a := fun a here => Nat.lt_irrefl _ (places.born _ a here).2
  have linked {u q} (listed : u ∈ s.taskList) (link : (s.task u).parent = some q) :
      u ∈ w.kernel.taskList ∧ w.parent u = some q ∧ w.born u := by
    rw [born.taskList] at listed
    rcases mem_cons.mp listed with rfl | listed
    · rw [born.parent] at link
      cases link
    have known := places.born u .listed listed
    rw [born.other u (old known)] at link
    exact ⟨listed,link,known⟩
  have left {u} (known : World.born { w with kernel := s } u) (outside : u ∉ s.taskList) :
      w.born u ∧ u ∉ w.kernel.taskList := by
    rw [born.taskList] at outside
    rcases split known with rfl | known
    · exact absurd mem_cons_self outside
    · exact ⟨known,fun member => outside (mem_cons_of_mem _ member)⟩
  refine ⟨⟨?_,?_,?_,places.frees,fun t a b first second => ?_,fun t a here => ?_,fun t known => ?_,
    fun t known outside => ?_⟩,
    ⟨fun t => ?_,fun t busy => later (calls.caller t busy),fun p t linked creating => ?_,calls.single⟩,
    ⟨fun t listed p link => ?_,fun p t freeing u listed link => ?_,fun t listed p link other ended => ?_⟩,
    ⟨fun t => ?_,fun r member => ?_,returns.once,fun t known outside => ?_⟩⟩
  · rw [born.nextID]
    exact Nat.succ_pos _
  · rw [born.taskList]
    exact nodup_cons.mpr ⟨fresh .listed,places.nodup⟩
  · rw [born.delList]
    exact places.dels
  · rcases (lies t a).mp first with ⟨new,rfl⟩ | first <;> rcases (lies t b).mp second with ⟨same,rfl⟩ | second
    · rfl
    · exact absurd (new ▸ second) (fresh b)
    · exact absurd (same ▸ first) (fresh a)
    · exact places.place t a b first second
  · rcases (lies t a).mp here with ⟨rfl,-⟩ | here
    · exact ⟨places.first,born.nextID ▸ Nat.lt_succ_self _⟩
    · exact later (places.born t a here)
  · rcases split known with rfl | known
    · exact ⟨.listed,(lies _ _).mpr (.inl ⟨rfl,rfl⟩)⟩
    · obtain ⟨a,here⟩ := places.somewhere t known
      exact ⟨a,(lies t a).mpr (.inr here)⟩
  · obtain ⟨known,outside⟩ := left known outside
    rw [finished,World.onCpu,born.other t (old known)]
    exact places.gone t known outside
  · rw [finished]
    exact calls.exited t
  · obtain ⟨listed,new,user⟩ := calls.embryo p t linked creating
    have known := old (places.born t .listed listed)
    refine ⟨?_,⟨?_,fun c here => ?_⟩,user⟩
    · rw [born.taskList]
      exact mem_cons_of_mem _ listed
    · rw [state,born.other t known]
      exact new.1
    · exact (born.current c t here).elim known (new.2 c)
  · obtain ⟨listed,link,-⟩ := linked listed link
    exact (links.parent t listed p link).imp_left later
  · obtain ⟨listed,link,-⟩ := linked listed link
    exact links.unlinked p t freeing u listed link
  · obtain ⟨listed,link,known⟩ := linked listed link
    rw [born.other t (old known),born.other p (old (links.parent t listed p link).1)]
    exact links.threads t listed p link other ended
  · rw [finished]
    exact returns.status t
  · obtain ⟨known,outside,exits,link⟩ := returns.returned r member
    refine ⟨later known,?_,exits,?_⟩
    · rw [born.taskList]
      exact fun inside => (mem_cons.mp inside).elim (old known) outside
    change (s.task r.child).parent = _
    rw [born.other r.child (old known)]
    exact link
  · obtain ⟨known,outside⟩ := left known outside
    refine (returns.orphan t known outside).imp_right fun orphan p link => ?_
    change (s.task t).parent = some p at link
    rw [born.other t (old known)] at link
    rw [finished]
    exact orphan p link

end Kernel

section Acts

variable {w : World}

lemma Calls.enter (calls : Calls w) (call : Call) (current : w.kernel.current c = some p) (known : w.born p)
    (was : w.call p ≠ .exited) (now : call ≠ .exited)
    (creates : ∀ t b, call = .fork t b → t ∈ w.kernel.taskList ∧ w.kernel.embryo t ∧ w.call t = .user ∧
      ∀ q b', q ≠ p → w.call q ≠ .fork t b') : Calls (w.enter p call) := by
  have other {q} (apart : q ≠ p) : (w.enter p call).call q = w.call q := w.enter_other call apart
  have apart : ∀ {t}, w.kernel.embryo t → t ≠ p := fun new same => new.2 c (same ▸ current)
  refine ⟨fun t => ?_,fun t busy => ?_,fun q t linked creating => ?_,fun q r t b b' first second => ?_⟩
  · by_cases same : t = p
    · subst same
      rw [w.enter_self]
      exact ⟨fun exited => absurd ((calls.exited t).mp exited) was,fun exited => absurd exited now⟩
    · rw [other same]
      exact calls.exited t
  · by_cases same : t = p
    · exact same ▸ known
    · rw [other same] at busy
      exact calls.caller t busy
  · by_cases same : q = p
    · subst same
      rw [w.enter_self] at creating
      obtain ⟨listed,new,user,-⟩ := creates t linked creating
      rw [other (apart new)]
      exact ⟨listed,new,user⟩
    · rw [other same] at creating
      obtain ⟨listed,new,user⟩ := calls.embryo q t linked creating
      rw [other (apart new)]
      exact ⟨listed,new,user⟩
  by_cases left : q = p <;> by_cases right : r = p
  · exact left.trans right.symm
  · subst left
    rw [w.enter_self] at first
    rw [other right] at second
    exact absurd second ((creates t b first).2.2.2 r b' right)
  · subst right
    rw [w.enter_self] at second
    rw [other left] at first
    exact absurd first ((creates t b' second).2.2.2 q b left)
  · rw [other left] at first
    rw [other right] at second
    exact calls.single q r t b b' first second

lemma Links.enter (links : Links w) (call : Call)
    (frees : ∀ t, call = .freeTask t true → ∀ u ∈ w.kernel.taskList, w.parent u ≠ some t)
    (ended : call = .endTask true ∨ call = .exited → ∀ t ∈ w.kernel.taskList, w.parent t = some p → p ≠ 1 →
      (w.kernel.task t).tgid = (w.kernel.task p).tgid) : Links (w.enter p call) := by
  have other {q} (apart : q ≠ p) : (w.enter p call).call q = w.call q := w.enter_other call apart
  refine ⟨links.parent,fun q t freeing => ?_,fun t listed q link init overrun => ?_⟩
  · by_cases same : q = p
    · subst same
      rw [w.enter_self] at freeing
      exact frees t freeing
    · rw [other same] at freeing
      exact links.unlinked q t freeing
  · by_cases same : q = p
    · subst same
      rw [w.enter_self] at overrun
      exact ended overrun t listed link init
    · rw [other same] at overrun
      exact links.threads t listed q link init overrun

/-- Entering or leaving `sched_free_task` apart, a call moves no task. -/
lemma lies_enter (was : ∀ t b, w.call p ≠ .freeTask t b) (now : ∀ t b, call ≠ .freeTask t b) (t : Tid)
    (a : Place) : (w.enter p call).lies t a ↔ w.lies t a := by
  cases a with
  | held q =>
    by_cases same : q = p
    · subst same
      simp [World.lies,now,was]
    · simp [World.lies,w.enter_other call same]
  | _ => rfl

/-- A task goes on to a call that says nothing about exits, frees or links. -/
lemma Family.enter (family : Family w) (call : Call) (current : w.kernel.current c = some p)
    (known : w.born p) (was : w.call p ≠ .exited ∧ ∀ t b, w.call p ≠ .freeTask t b)
    (now : call ≠ .exited ∧ (∀ t b, call ≠ .freeTask t b))
    (ended : call = .endTask true → ∀ t ∈ w.kernel.taskList, w.parent t = some p → p ≠ 1 →
      (w.kernel.task t).tgid = (w.kernel.task p).tgid)
    (creates : ∀ t b, call = .fork t b → t ∈ w.kernel.taskList ∧ w.kernel.embryo t ∧ w.call t = .user ∧
      ∀ q b', q ≠ p → w.call q ≠ .fork t b') : Family (w.enter p call) := by
  obtain ⟨places,calls,links,returns⟩ := family
  refine ⟨places.same rfl rfl rfl rfl (lies_enter was.2 now.2) fun _ _ exited off => ⟨exited,off⟩,
    calls.enter call current known was.1 now.1 creates,
    links.enter call (fun t freeing => absurd freeing (now.2 t true)) fun overrun => ?_,
    returns.1,returns.2,returns.3,returns.4⟩
  exact ended (overrun.resolve_right now.1)

def relink (s : Kernel) (parent : Tid → Option Tid) (tgid : Tid → Nat) : Kernel :=
  { s with task := fun t => { s.task t with parent := parent t, tgid := tgid t } }

lemma Family.relink (family : Family w) (gone : ∀ t, t ∉ w.kernel.taskList → parent t = w.parent t)
    (links : Links { w with kernel := relink w.kernel parent tgid }) :
    Family { w with kernel := relink w.kernel parent tgid } := by
  obtain ⟨places,calls,-,returns⟩ := family
  refine ⟨places.same rfl rfl rfl rfl (fun t a => ?_) fun _ _ exited off => ⟨exited,off⟩,
    ⟨calls.exited,calls.caller,calls.embryo,calls.single⟩,links,
    returns.same rfl rfl rfl returns.status (fun t outside => ⟨rfl,gone t outside⟩) fun _ => id⟩
  cases a <;> rfl

lemma relink_tame (idle : s'.idle = s.idle) (nextID : s'.nextID = s.nextID) (taskList : s'.taskList = s.taskList)
    (delList : s'.delList = s.delList) (current : s'.current = s.current)
    (task : ∀ t, (s'.task t).face = { s.task t with parent := parent t, tgid := tgid t }.face) :
    Tame x (relink s parent tgid) s' := by
  refine ⟨idle,nextID,taskList,delList,fun t => .of (task t),fun t _ new => ?_⟩
  refine ⟨(congrArg (·.2.2.1) (task t)).trans new.1,?_⟩
  rw [current]
  exact new.2

/-- A scan of a list in which each task may get a new parent at its own turn. -/
lemma foldl_relink (moves : Kernel → Tid → Prop) [∀ s t, Decidable (moves s t)] (new : Option Tid)
    (lists : ∀ s t, (f s t).idle = s.idle ∧ (f s t).nextID = s.nextID ∧ (f s t).taskList = s.taskList ∧
      (f s t).delList = s.delList ∧ (f s t).current = s.current)
    (turn : ∀ s t u, ((f s t).task u).face =
      (if u = t ∧ moves s t then new else (s.task u).parent,(s.task u).face.2))
    (again : ∀ s t u, moves (f s t) u ↔ u ≠ t ∧ moves s u) (l : List Tid) (s : Kernel) :
    ((l.foldl f s).idle = s.idle ∧ (l.foldl f s).nextID = s.nextID ∧ (l.foldl f s).taskList = s.taskList ∧
      (l.foldl f s).delList = s.delList ∧ (l.foldl f s).current = s.current) ∧
    ∀ u, ((l.foldl f s).task u).face =
      (if u ∈ l ∧ moves s u then new else (s.task u).parent,(s.task u).face.2) := by
  induction l generalizing s with
  | nil => exact ⟨⟨rfl,rfl,rfl,rfl,rfl⟩,fun u => by simp [Task.face]⟩
  | cons t l ih =>
    obtain ⟨⟨idle,nextID,taskList,delList,current⟩,faces⟩ := ih (f s t)
    obtain ⟨idle',nextID',taskList',delList',current'⟩ := lists s t
    refine ⟨⟨idle.trans idle',nextID.trans nextID',taskList.trans taskList',delList.trans delList',
      current.trans current'⟩,
      fun u => ?_⟩
    have face := turn s t u
    have parent : ((f s t).task u).parent = if u = t ∧ moves s t then new else (s.task u).parent :=
      congrArg Prod.fst face
    have rest : ((f s t).task u).face.2 = (s.task u).face.2 := (congrArg Prod.snd face :)
    rw [foldl_cons,faces u,rest,parent]
    by_cases same : u = t
    · subst same
      simp [again]
    · simp [again,same]

def moves (dying : Tid) (s : Kernel) (t : Tid) : Prop :=
  t ≠ dying ∧ (s.task t).parent = some dying ∧ (s.task t).tgid ≠ (s.task dying).tgid

instance (dying : Tid) (s : Kernel) (t : Tid) : Decidable (moves dying s t) := by
  unfold moves
  infer_instance

lemma adopt_face (init : Option Tid) (dying : Tid) (s : Kernel) (t u : Tid) : ((adopt init dying s t).task u).face =
      (if u = t ∧ moves dying s t then init else (s.task u).parent,(s.task u).face.2) := by
  have posted (s : Kernel) (i : Tid) : ((postBit s i SIGCHLD).task u).face = (s.task u).face := by
    unfold postBit
    rw [s.upd_task]
    split <;> rfl
  have linked : ((s.upd t fun k => { k with parent := init }).task u).face =
      (if u = t then init else (s.task u).parent,(s.task u).face.2) := by
    rw [s.upd_task]
    split <;> rfl
  unfold adopt
  by_cases stays : t = dying ∨ (s.task t).parent ≠ some dying ∨ (s.task t).tgid = (s.task dying).tgid
  · have still : ¬moves dying s t := fun ⟨other,link,group⟩ =>
      stays.elim other fun rest => rest.elim (fun odd => odd link) group
    rw [if_pos stays,if_neg fun both => still both.2]
    rfl
  obtain ⟨other,rest⟩ := not_or.mp stays
  obtain ⟨link,group⟩ := not_or.mp rest
  have goes : moves dying s t := ⟨other,not_not.mp link,group⟩
  rw [if_neg stays]
  simp only [goes,and_true]
  split
  · split
    · rw [posted,linked]
    · exact linked
  · exact linked

lemma moves_congr (parent : (s'.task u).parent = (s.task u).parent)
    (tgid : (s'.task u).tgid = (s.task u).tgid) (group : (s'.task dying).tgid = (s.task dying).tgid) :
    moves dying s' u ↔ moves dying s u := by
  unfold moves
  rw [parent,tgid,group]

lemma adopt_moves (other : init ≠ some dying) (s : Kernel) (t u : Tid) :
    moves dying (adopt init dying s t) u ↔ u ≠ t ∧ moves dying s u := by
  have face := adopt_face init dying s t
  have parent : ((adopt init dying s t).task u).parent = if u = t ∧ moves dying s t then init else (s.task u).parent :=
    (congrArg Prod.fst (face u) :)
  have tgid : ((adopt init dying s t).task u).tgid = (s.task u).tgid := (congrArg (·.2.1) (face u) :)
  have group : ((adopt init dying s t).task dying).tgid = (s.task dying).tgid := (congrArg (·.2.1) (face dying) :)
  by_cases same : u = t
  · subst same
    refine ⟨fun goes => ?_,fun ⟨apart,_⟩ => absurd rfl apart⟩
    by_cases was : moves dying s u
    · rw [if_pos ⟨rfl,was⟩] at parent
      exact absurd (parent.symm.trans goes.2.1) other
    · rw [if_neg fun both => was both.2] at parent
      exact absurd ((moves_congr parent tgid group).mp goes) was
  · rw [if_neg fun both => same both.1] at parent
    rw [moves_congr parent tgid group]
    exact ⟨fun goes => ⟨same,goes⟩,fun both => both.2⟩

def heir (s : Kernel) (dying : Tid) : Option Tid := if 1 ∈ s.taskList ∧ dying ≠ 1 then some 1 else none

lemma heir_some (some : heir s dying = some t) : t = 1 ∧ 1 ∈ s.taskList ∧ dying ≠ 1 := by
  unfold heir at some
  split at some
  next init => exact ⟨(Option.some.inj some).symm,init⟩
  · cases some

def adopted (s : Kernel) (dying t : Tid) : Option Tid :=
  if t ∈ s.taskList ∧ moves dying s t then heir s dying else (s.task t).parent

lemma reparent_tame (s : Kernel) (dying : Tid) :
    Tame x (relink s (adopted s dying) fun t => (s.task t).tgid) (schedReparentChildren s dying) := by
  have other : heir s dying ≠ some dying := fun self => (heir_some self).2.2 (heir_some self).1
  have folded := foldl_relink (moves dying) (heir s dying) (fun s' t => ?_)
    (adopt_face (heir s dying) dying) (adopt_moves other) s.taskList s
  · obtain ⟨⟨idle,nextID,taskList,delList,current⟩,faces⟩ := folded
    exact relink_tame idle nextID taskList delList current faces
  unfold adopt
  split
  · exact ⟨rfl,rfl,rfl,rfl,rfl⟩
  dsimp only
  split
  · split <;> exact ⟨rfl,rfl,rfl,rfl,rfl⟩
  · exact ⟨rfl,rfl,rfl,rfl,rfl⟩

lemma Calls.known (calls : Calls w) (here : w.call p = call) (busy : call ≠ .user) : w.born p :=
  calls.caller p (here ▸ busy)

lemma Places.listed_not_freed (places : Places w) (listed : t ∈ w.kernel.taskList) : t ∉ w.freed :=
  fun freed => nomatch places.place t .listed .freed listed freed

/-- A dying task's children go to init, but for the threads of its group. -/
lemma Family.reparent (family : Family w) (here : w.call p = .endTask false) (current : w.kernel.current c = some p) :
    Family { (w.enter p (.endTask true)) with kernel := schedReparentChildren w.kernel p } := by
  have links : Links { w with kernel := Exit.relink w.kernel (adopted w.kernel p) fun t =>
    (w.kernel.task t).tgid } := by
    refine ⟨fun t listed q link => ?_,fun q t freeing u listed link => ?_,fun t listed q link init overrun => ?_⟩
    · change adopted w.kernel p t = some q at link
      unfold adopted at link
      split at link
      · obtain ⟨rfl,init,-⟩ := heir_some link
        exact ⟨family.places.born _ .listed init,family.places.listed_not_freed init⟩
      · exact family.links.parent t listed q link
    · change adopted w.kernel p u = some t at link
      unfold adopted at link
      split at link
      · obtain ⟨rfl,init,-⟩ := heir_some link
        cases family.places.place 1 .listed (.held q) init ⟨true,freeing⟩
      · exact family.links.unlinked q t freeing u listed link
    · change adopted w.kernel p t = some q at link
      unfold adopted at link
      split at link
      · exact absurd (heir_some link).1 init
      · exact family.links.threads t listed q link init overrun
  have relinked := (family.relink (fun t outside => if_neg fun both => outside both.1) links).enter (p := p)
    (.endTask true)
    current (family.calls.known here nofun) ⟨by rw [here]; nofun,fun _ _ => by rw [here]; nofun⟩ ⟨nofun,nofun⟩
      (fun _ t listed link init => ?_) nofun
  · exact relinked.tame (reparent_tame (x := fun _ => False) w.kernel p) nofun
  change adopted w.kernel p t = some p at link
  unfold adopted at link
  by_cases goes : t ∈ w.kernel.taskList ∧ moves p w.kernel t
  · rw [if_pos goes] at link
    exact absurd (heir_some link).1 init
  rw [if_neg goes] at link
  by_contra group
  refine goes ⟨listed,fun self => group ?_,link,group⟩
  rw [self]

lemma clearParents_tame (s : Kernel) (t : Tid) : Tame x
    (relink s (fun u => if u ∈ s.taskList ∧ (s.task u).parent = some t then none else (s.task u).parent)
      fun u => (s.task u).tgid) (clearParents s t) := by
  have turn : ∀ (s : Kernel) (u v : Tid), ((clearParent t s u).task v).face =
      (if v = u ∧ (s.task u).parent = some t then none else (s.task v).parent,(s.task v).face.2) := fun s u v => by
    unfold clearParent
    by_cases child : (s.task u).parent = some t
    · rw [if_pos child,s.upd_task]
      by_cases same : v = u
      · rw [if_pos same,if_pos ⟨same,child⟩]
        rfl
      · rw [if_neg same,if_neg fun both => same both.1]
        rfl
    · rw [if_neg child,if_neg fun both => child both.2]
      rfl
  have folded := foldl_relink (fun s u => (s.task u).parent = some t) none
    (fun s' u => ?_) turn (fun s u v => ?_) s.taskList s
  · obtain ⟨⟨idle,nextID,taskList,delList,current⟩,faces⟩ := folded
    exact relink_tame idle nextID taskList delList current faces
  · unfold clearParent
    split <;> exact ⟨rfl,rfl,rfl,rfl,rfl⟩
  have parent : ((clearParent t s u).task v).parent = _ := (congrArg Prod.fst (turn s u v) :)
  rw [parent]
  by_cases same : v = u
  · subst same
    by_cases child : (s.task v).parent = some t <;> simp [child]
  · simp [same]

/-- Before `sched_free_task` frees a task, no listed task refers to it any more. -/
lemma Family.clearParents (family : Family w) (here : w.call p = .freeTask t false)
    (current : w.kernel.current c = some p) :
    Family { (w.enter p (.freeTask t true)) with kernel := Exit.clearParents w.kernel t } := by
  let parent := fun u => if u ∈ w.kernel.taskList ∧ (w.kernel.task u).parent =
    some t then none else (w.kernel.task u).parent
  have old u q (link : parent u = some q) : w.parent u = some q := by
    by_cases child : u ∈ w.kernel.taskList ∧ (w.kernel.task u).parent = some t
    · simp [parent,child] at link
    · simp only [parent,if_neg child] at link
      exact link
  have links : Links { w with kernel := Exit.relink w.kernel parent fun u => (w.kernel.task u).tgid } :=
    family.links.fewer (fun _ => id) rfl rfl old (fun _ => rfl) (fun _ _ => id) fun _ => id
  obtain ⟨places,calls,links,returns⟩ := family.relink (fun u outside => if_neg fun both => outside both.1) links
  have relinked : Family (World.enter { w with kernel := Exit.relink w.kernel parent fun u => (w.kernel.task u).tgid } p
      (.freeTask t true)) := by
    refine ⟨places.same rfl rfl rfl rfl (fun u a => ?_) fun _ _ exited off => ⟨exited,off⟩,
      calls.enter _ current (calls.known here nofun) (by rw [here]; nofun) nofun nofun,
        links.enter _ (fun u same v listed link => ?_) nofun,
      ⟨returns.1,returns.2,returns.3,returns.4⟩⟩
    · cases a with
      | held q =>
        by_cases same : q = p
        · subst same
          simp [World.lies,here]
        · simp [World.lies,World.enter_other _ _ same]
      | _ => rfl
    · cases same
      change parent v = some t at link
      have child := old v t link
      have gone : parent v = none := if_pos ⟨listed,child⟩
      rw [gone] at link
      cases link
  exact relinked.tame (clearParents_tame (x := fun _ => False) w.kernel t) nofun

lemma schedZombie_face (s : Kernel) (p t : Tid) : ((schedZombie s p).task t).face =
    if t = p then { s.task t with state := .zombie }.face else (s.task t).face := by
  have frame := dequeue_frame (.refl s) p
  have face : ((rqDequeueLocked s p).task t).face = (s.task t).face := (congrArg Task.face (frame.task t) :)
  change (((rqDequeueLocked s p).setState p .zombie).task t).face = _
  rw [setState,upd_task]
  by_cases same : t = p
  · rw [if_pos same,if_pos same]
    simp only [Task.face,Prod.mk.injEq] at face ⊢
    exact ⟨face.1,face.2.1,trivial,face.2.2.2⟩
  · rw [if_neg same,if_neg same]
    exact face

lemma schedZombie_fields (s : Kernel) (p t : Tid) : ((schedZombie s p).task t).parent = (s.task t).parent ∧
    ((schedZombie s p).task t).tgid = (s.task t).tgid ∧ (schedZombie s p).state t =
    (if t = p then .zombie else s.state t) ∧
    ((schedZombie s p).task t).onCpu = (s.task t).onCpu := by
  have face := schedZombie_face s p t
  split at face <;> rename_i here <;> simp only [Task.face,Prod.mk.injEq] at face <;> simp only [here]
  · exact ⟨here ▸ face.1,here ▸ face.2.1,here ▸ face.2.2.1,here ▸ face.2.2.2.1⟩
  · exact ⟨face.1,face.2.1,face.2.2.1,face.2.2.2.1⟩

lemma schedZombie_lists (s : Kernel) (p : Tid) : (schedZombie s p).nextID = s.nextID ∧
    (schedZombie s p).taskList = s.taskList ∧ (schedZombie s p).delList = s.delList ∧
    (schedZombie s p).current = s.current := by
  have frame := dequeue_frame (.refl s) p
  exact ⟨frame.nextID,(congrArg taskList frame.other :),(congrArg delList frame.other :),frame.current⟩

lemma Calls.alive (calls : Calls w) (here : w.call p = call) (other : call ≠ .exited) : w.finished p = false := by
  cases overrun : w.finished p with
  | false => rfl
  | true => exact absurd (here.symm.trans ((calls.exited p).mp overrun)) other

section
variable (family : Family w)
include family

lemma Family.listed (known : w.born p) (alive : w.finished p = false) : p ∈ w.kernel.taskList := by
  by_contra outside
  have exited := (family.places.gone p known outside).1
  rw [alive] at exited
  cases exited

/-- With `sched_zombie` a task has exited, with the status its fields give. -/
lemma Family.zombie (here : w.call p = .endTask true)
    (current : w.kernel.current c = some p) : Family { (w.enter p .exited) with
      kernel := schedZombie w.kernel p, exits := update w.exits p (some (w.status p)) } := by
  have known := family.calls.known here (by simp)
  have listed := family.listed known (family.calls.alive here (by simp))
  obtain ⟨places,calls,links,returns⟩ := family
  obtain ⟨nextID,taskList,delList,currents⟩ := schedZombie_lists w.kernel p
  have fields := schedZombie_fields w.kernel p
  have finished t : ((schedZombie w.kernel p).state t).finished = (decide (t = p) || w.finished t) := by
    rw [(fields t).2.2.1]
    by_cases same : t = p
    · simp [same,TState.finished]
    · simp [same,World.finished]
  generalize shape : { (w.enter p .exited) with
    kernel := schedZombie w.kernel p, exits := update w.exits p (some (w.status p)) } = w'
  have kernel : w'.kernel = schedZombie w.kernel p := by rw [← shape]
  have call q : w'.call q = if q = p then .exited else w.call q := by
    rw [← shape]
    by_cases same : q = p <;> simp [same,World.enter]
  have was {q x} (now : w'.call q = x) (other : x ≠ .exited) : w.call q = x := by
    rw [call] at now
    split at now
    · exact absurd now.symm other
    · exact now
  have exits t : w'.exits t = if t = p then some (w.status p) else w.exits t := by
    rw [← shape]
    by_cases same : t = p <;> simp [same]
  have same : w'.status = w.status ∧ w'.returned = w.returned ∧ w'.freed = w.freed := by
    rw [← shape]
    exact ⟨rfl,rfl,rfl⟩
  obtain ⟨status,returned,freed⟩ := same
  have born t : w'.born t ↔ w.born t := by simp only [World.born,kernel,nextID]
  have links' t : w'.parent t = w.parent t := by rw [World.parent,kernel,(fields t).1,World.parent]
  have overrun t : w'.finished t = (decide (t = p) || w.finished t) := by rw [World.finished,kernel,finished]
  refine ⟨places.same (by rw [kernel,nextID]) (by rw [kernel,taskList]) (by rw [kernel,delList]) freed (fun t a => ?_)
      fun t outside exited off => ⟨?_,?_⟩,
    ⟨fun t => ?_,fun t busy => ?_,fun q t linked creating => ?_,fun q r t b b' first second => ?_⟩,
    links.fewer (by simp [kernel,taskList]) (by rw [kernel,nextID]) freed (fun t q link => links' t ▸ link)
      (fun t => by rw [kernel,(fields t).2.1]) (fun q t freeing => ?_) fun q ended => ?_,
    returns.same (by rw [kernel,nextID]) (by rw [kernel,taskList]) returned (fun t => ?_)
      (fun t outside => ⟨?_,links' t⟩)
      fun t exited => by rw [overrun,exited,Bool.or_true]⟩
  · rw [← shape]
    refine (lies_kernel (w := w.enter p .exited) taskList delList t a).trans (lies_enter ?_ ?_ t a)
    · rw [here]
      simp
    · simp
  · simp [overrun,exited]
  · rw [World.onCpu,kernel,(fields t).2.2.2]
    exact off
  · rw [overrun,call]
    by_cases same : t = p
    · simp [same]
    · simp only [same]
      exact calls.exited t
  · rw [call] at busy
    rw [born]
    split at busy
    next same => exact same ▸ known
    · exact calls.caller t busy
  · obtain ⟨member,⟨new,idle⟩,user⟩ := calls.embryo q t linked (was creating (by simp))
    have apart : t ≠ p := by
      rintro rfl
      exact idle c current
    rw [kernel,taskList,embryo,(fields t).2.2.1,if_neg apart,currents,call,if_neg apart]
    exact ⟨member,⟨new,idle⟩,user⟩
  · exact calls.single q r t b b' (was first (by simp)) (was second (by simp))
  · exact was freeing (by simp)
  · rw [call] at ended
    split at ended
    next same => exact .inl (same ▸ here)
    · exact ended
  · rw [exits,overrun,status]
    by_cases same : t = p
    · simp [same]
    · simp only [same]
      exact returns.status t
  · rw [exits,if_neg fun same : t = p => outside (same ▸ listed)]

lemma Family.linkChild (toned : w.kernel.Toned) (thread : Bool)
    (here : w.call p = .fork child false) (current : w.kernel.current c = some p)
    (busy : ∀ d, w.kernel.idle d ≠ some p) :
    Family { (w.enter p (.fork child true)) with kernel := Exit.linkChild w.kernel p child thread } := by
  have known := family.calls.known here (by simp)
  have listed := family.listed known (family.calls.alive here (by simp))
  obtain ⟨member,new,user⟩ := family.calls.embryo p child false here
  let parent := update w.parent child (some p)
  let tgid := update (fun t => (w.kernel.task t).tgid) child
    (if thread then (w.kernel.task p).tgid else (w.kernel.task child).tgid)
  have split {t q} (link : parent t = some q) : p = q ∨ t ≠ child ∧ w.parent t = some q := by
    by_cases same : t = child
    · simp only [parent,same,update_self,Option.some.injEq] at link
      exact .inl link
    · simp only [parent,update_of_ne same] at link
      exact .inr ⟨same,link⟩
  have links : Links { w with kernel := Exit.relink w.kernel parent tgid } := by
    refine ⟨fun t inside q link => ?_,fun q t freeing u inside link => ?_,fun t inside q link init overrun => ?_⟩
    · rcases split link with rfl | ⟨-,link⟩
      · exact ⟨known,family.places.listed_not_freed listed⟩
      · exact family.links.parent t inside q link
    · rcases split link with rfl | ⟨-,link⟩
      · cases family.places.place p .listed (.held q) listed ⟨true,freeing⟩
      · exact family.links.unlinked q t freeing u inside link
    change tgid t = tgid q
    rcases split link with rfl | ⟨same,link⟩
    · rw [here] at overrun
      rcases overrun with overrun | overrun <;> cases overrun
    have apart : q ≠ child := by
      rintro rfl
      rw [user] at overrun
      rcases overrun with overrun | overrun <;> cases overrun
    simp only [tgid,update_of_ne same,update_of_ne apart]
    exact family.links.threads t inside q link init overrun
  have outside t (gone : t ∉ w.kernel.taskList) : parent t = w.parent t :=
    update_of_ne (fun same : t = child => gone (by rwa [same])) ..
  have entered := (family.relink outside links).enter (p := p) (.fork child true) current known
    ⟨by rw [here]; simp,fun _ _ => by rw [here]; simp⟩ ⟨(by simp),(by simp)⟩ (by simp) fun t b same => ?_
  · have linked : Tame (fun _ => False) (Exit.relink w.kernel parent tgid)
      (Exit.linkChild w.kernel p child thread) := by
      refine ⟨rfl,rfl,rfl,rfl,fun t => ?_,fun t _ embryo => ⟨?_,embryo.2⟩⟩
      · unfold Exit.linkChild
        rw [w.kernel.upd_task]
        by_cases same : t = child
        · subst same
          rw [if_pos rfl]
          have low := toned.task p
          refine ⟨?_,?_,rfl,fun _ => id,fun own => ⟨low.base,low.base,own.yielding⟩,fun zero => ?_⟩
          · simp [Exit.relink,parent,Task.inherit]
          · simp [Exit.relink,tgid]
          · obtain ⟨d,pinned⟩ := toned.base p zero
            exact absurd pinned (busy d)
        · refine .of ?_
          simp [Exit.relink,parent,tgid,same,World.parent]
      · have still : w.kernel.state t = .new := embryo.1
        unfold Exit.linkChild
        rw [state,w.kernel.upd_task]
        split <;> exact still
    exact entered.tame linked (by simp)
  · cases same
    exact ⟨member,new,user,fun q b' apart creating => apart (family.calls.single q p child b' false creating here)⟩

/-- The child a `wait4` collects leaves the list for the caller, with the status it exited with. -/
lemma Family.reaped {pid : Int} (here : w.call p = .wait4 pid nohang untraced) (current : w.kernel.current c = some p)
    (listed : t ∈ w.kernel.taskList) (child : w.parent t = some p) (exited : w.finished t = true)
    (off : w.onCpu t = false) : Family { (w.enter p (.freeTask t false)) with
      kernel := { w.kernel with taskList := w.kernel.taskList.filter (· ≠ t) }
      returned := ⟨p,t,w.status t⟩ :: w.returned } := by
  obtain ⟨places,calls,links,returns⟩ := family
  have known := calls.known here nofun
  have unreturned : ∀ r ∈ w.returned, r.child ≠ t := fun r member same =>
    (returns.returned r member).2.1 (same ▸ listed)
  have moved := places.move { (w.enter p (.freeTask t false)) with
      kernel := { w.kernel with taskList := w.kernel.taskList.filter (· ≠ t) }
      returned := ⟨p,t,w.status t⟩ :: w.returned } t .listed (.held p) listed rfl fun u a => ?_
  · obtain ⟨calls,links⟩ : Calls (w.enter p (.freeTask t false)) ∧ Links (w.enter p (.freeTask t false)) :=
      ⟨calls.enter _ current known (by rw [here]; nofun) nofun nofun,links.enter _ nofun nofun⟩
    refine ⟨⟨places.first,places.nodup.filter _,places.dels,places.frees,moved.1,moved.2.1,moved.2.2,
        fun u => places.unlisted exited off⟩,
      ⟨calls.exited,calls.caller,fun q u linked => calls.unlisted exited,calls.single⟩,
      links.fewer (fun u member => (mem_unlisted.mp member).1) rfl rfl (fun _ _ => id) (fun _ => rfl)
        (fun _ _ => id) fun _ => id,
      ⟨returns.status,fun r member => ?_,nodup_cons.mpr ⟨fun member => ?_,returns.once⟩,?_⟩⟩
    · rcases mem_cons.mp member with rfl | member
      · refine ⟨places.born t .listed listed,fun inside => (mem_unlisted.mp inside).2 rfl,?_,child⟩
        change w.exits t = _
        rw [returns.status,if_pos exited]
      · obtain ⟨born,outside,rest⟩ := returns.returned r member
        exact ⟨born,fun inside => outside (mem_unlisted.mp inside).1,rest⟩
    · obtain ⟨r,inside,same⟩ := mem_map.mp member
      exact unreturned r inside same
    · intro u born outside
      by_cases same : u = t
      · exact .inl ⟨_,mem_cons_self,same.symm⟩
      refine (returns.orphan u born fun member => outside (mem_unlisted.mpr ⟨member,same⟩)).imp_left ?_
      rintro ⟨r,member,child⟩
      exact ⟨r,mem_cons_of_mem _ member,child⟩
  · cases a with
    | listed | deleted | freed => simp [World.lies,World.enter]
    | held q =>
      refine (lies_held_enter _ u q).trans ?_
      by_cases same : q = p
      · simp [same,World.lies,here,eq_comm]
      · simp [same]

/-- A freed task was owned by the caller, and no listed task refers to it. -/
lemma Family.kfree (here : w.call p = .freeTask t true) (current : w.kernel.current c = some p) :
    Family { (w.enter p .freeDeleted) with freed := t :: w.freed } := by
  obtain ⟨places,calls,links,returns⟩ := family
  have known := calls.known here nofun
  have moved := places.move { (w.enter p .freeDeleted) with freed := t :: w.freed } t (.held p) .freed ⟨true,here⟩ rfl
    fun u a => ?_
  · have unlinked := links.unlinked p t here
    obtain ⟨calls,links⟩ : Calls (w.enter p .freeDeleted) ∧ Links (w.enter p .freeDeleted) :=
      ⟨calls.enter _ current known (by rw [here]; nofun) nofun nofun,links.enter _ nofun nofun⟩
    refine ⟨⟨places.first,places.nodup,places.dels,nodup_cons.mpr ⟨fun freed => ?_,places.frees⟩,moved.1,moved.2.1,
        moved.2.2,places.gone⟩,⟨calls.exited,calls.caller,calls.embryo,calls.single⟩,
      ⟨fun u listed q link => ?_,links.unlinked,links.threads⟩,⟨returns.1,returns.2,returns.3,returns.4⟩⟩
    · cases places.place t .freed (.held p) freed ⟨true,here⟩
    obtain ⟨born,alive⟩ := links.parent u listed q link
    refine ⟨born,fun freed => ?_⟩
    rcases mem_cons.mp freed with rfl | freed
    · exact unlinked u listed link
    · exact alive freed
  · cases a with
    | listed | deleted => simp [World.lies,World.enter]
    | held q =>
      refine (lies_held_enter _ u q).trans ?_
      by_cases same : q = p
      · simp [same,World.lies,here,eq_comm]
      · simp [same]
    | freed => simp [World.lies,or_comm]

lemma Family.getDelTask (here : w.call p = .freeDeleted)
    (current : w.kernel.current c = some p) (dels : w.kernel.delList = t :: rest) :
    Family { (w.enter p (.freeTask t false)) with kernel := { w.kernel with delList := rest } } := by
  obtain ⟨places,calls,links,returns⟩ := family
  have known := calls.known here nofun
  have nodup := places.dels
  rw [dels] at nodup
  obtain ⟨once,nodup⟩ := nodup_cons.mp nodup
  have moved := places.move { (w.enter p (.freeTask t false)) with kernel := { w.kernel with delList := rest } } t
    .deleted (.held p) (by simp [World.lies,dels]) rfl fun u a => ?_
  · obtain ⟨calls,links⟩ : Calls (w.enter p (.freeTask t false)) ∧ Links (w.enter p (.freeTask t false)) :=
      ⟨calls.enter _ current known (by rw [here]; nofun) nofun nofun,links.enter _ nofun nofun⟩
    exact ⟨⟨places.first,places.nodup,nodup,places.frees,moved.1,moved.2.1,moved.2.2,places.gone⟩,
      ⟨calls.exited,calls.caller,calls.embryo,calls.single⟩,⟨links.parent,links.unlinked,links.threads⟩,
      ⟨returns.1,returns.2,returns.3,returns.4⟩⟩
  cases a with
  | listed | freed => simp [World.lies,World.enter]
  | deleted =>
    by_cases same : u = t
    · simp [World.lies,same,once]
    · simp [World.lies,dels,same]
  | held q =>
    refine (lies_held_enter _ u q).trans ?_
    by_cases same : q = p
    · simp [same,World.lies,here,eq_comm]
    · simp [same]

/-- Exit fields are written for live tasks only, so an exited task's status stays. -/
lemma Family.fields (kernel : w'.kernel = w.kernel) (call : w'.call = w.call)
    (exits : w'.exits = w.exits) (returned : w'.returned = w.returned) (freed : w'.freed = w.freed)
    (status : ∀ t, w.finished t = true → w'.status t = w.status t) : Family w' := by
  obtain ⟨k,code,signal,group,calls',exits',returned',freed'⟩ := w'
  subst kernel call exits returned freed
  obtain ⟨places,calls,links,returns⟩ := family
  refine ⟨places.same rfl rfl rfl rfl (fun t a => by cases a <;> rfl) fun _ _ exited off => ⟨exited,off⟩,
    ⟨calls.1,calls.2,calls.3,calls.4⟩,⟨links.1,links.2,links.3⟩,fun t => ?_,returns.2,returns.3,returns.4⟩
  refine (returns.status t).trans ?_
  by_cases overrun : w.finished t = true
  · rw [if_pos overrun]
    exact (congrArg some (status t overrun).symm).trans (if_pos overrun).symm
  · rw [if_neg overrun]
    exact (if_neg overrun).symm

end

end Acts

end UbixOS.Sched.Exit
