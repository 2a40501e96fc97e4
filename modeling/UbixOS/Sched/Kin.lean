import UbixOS.Sched.Finished

/-! What the scheduler leaves alone in a task: its parent and thread group, whether it
has exited, and that a task that has left its CPU after its exit stays off. A pass
of the dispatcher changes the lists of tasks only by collecting dead orphans. -/
namespace UbixOS.Sched

open Library Kernel

/-- Below the realtime priority, and not in the section of `sched_yield` for realtime tasks. -/
structure Task.Toned (k : Task) : Prop where
  priority : k.priority < 31
  base : k.basePriority < 31
  yielding : k.yielding = false

/-- The fields that decide about a task's family, exit and priority. -/
def Task.face (k : Task) : Option Tid × Nat × TState × Bool × Nat × Nat × Bool :=
  (k.parent,k.tgid,k.state,k.onCpu,k.priority,k.basePriority,k.yielding)

structure Alike (k k' : Task) : Prop where
  parent : k'.parent = k.parent
  tgid : k'.tgid = k.tgid
  finished : k'.state.finished = k.state.finished
  off : k.state.finished = true → k.onCpu = false → k'.onCpu = false
  toned : k.Toned → k'.Toned
  base : k'.basePriority = 0 → k.basePriority = 0

namespace Alike

lemma of (same : k'.face = k.face) : Alike k k' := by
  simp only [Task.face,Prod.mk.injEq] at same
  obtain ⟨parent,tgid,state,onCpu,priority,base,yielding⟩ := same
  refine ⟨parent,tgid,by rw [state],fun _ off => onCpu.trans off,fun toned => ⟨?_,?_,?_⟩,base.symm.trans⟩
  · exact priority ▸ toned.priority
  · exact base ▸ toned.base
  · exact yielding.trans toned.yielding

lemma refl (k : Task) : Alike k k := .of rfl

lemma trans (first : Alike k k') (second : Alike k' k'') : Alike k k'' where
  parent := second.parent.trans first.parent
  tgid := second.tgid.trans first.tgid
  finished := second.finished.trans first.finished
  off exited off := second.off (first.finished.trans exited) (first.off exited off)
  toned toned := second.toned (first.toned toned)
  base zero := first.base (second.base zero)

lemma setState (st : TState) (same : st.finished = k.state.finished) : Alike k { k with state := st } :=
  ⟨rfl,rfl,same,fun _ => id,fun toned => ⟨toned.priority,toned.base,toned.yielding⟩,id⟩

lemma tune (same : { k' with priority := k.priority }.face = k.face)
    (low : k.Toned → k'.priority < 31) : Alike k k' := by
  have rest : Alike k { k' with priority := k.priority } := .of same
  exact ⟨rest.parent,rest.tgid,rest.finished,rest.off,
    fun toned => ⟨low toned,(rest.toned toned).base,(rest.toned toned).yielding⟩,rest.base⟩

end Alike

lemma TState.alive_of_asleep {st : TState} (asleep : st.asleep = true) : st.finished = false ∧ st ≠ .new := by
  cases st <;> simp [TState.asleep,TState.finished] at *

/-- A task under construction: no CPU has run it yet. -/
def Kernel.embryo (s : Kernel) (t : Tid) : Prop := s.state t = .new ∧ ∀ c, s.current c ≠ some t

/-- Every task stays as it was in these respects, and one under construction stays so unless it is in `x`. -/
structure Tame (x : Tid → Prop) (s s' : Kernel) : Prop where
  idle : s'.idle = s.idle
  nextID : s'.nextID = s.nextID
  taskList : s'.taskList = s.taskList
  delList : s'.delList = s.delList
  task : ∀ t, Alike (s.task t) (s'.task t)
  fresh : ∀ t, ¬x t → s.embryo t → s'.embryo t

namespace Tame

lemma refl (s : Kernel) : Tame x s s := ⟨rfl,rfl,rfl,rfl,fun _ => .refl _,fun _ _ => id⟩

lemma trans (first : Tame x s s') (second : Tame x s' s'') : Tame x s s'' where
  idle := second.idle.trans first.idle
  nextID := second.nextID.trans first.nextID
  taskList := second.taskList.trans first.taskList
  delList := second.delList.trans first.delList
  task t := (first.task t).trans (second.task t)
  fresh t outside new := second.fresh t outside (first.fresh t outside new)

section
variable (tame : Tame x s s')
include tame

lemma finished (t : Tid) : (s'.state t).finished = (s.state t).finished := (tame.task t).finished

lemma other (task : s''.task = s'.task) (idle : s''.idle = s'.idle)
    (nextID : s''.nextID = s'.nextID) (taskList : s''.taskList = s'.taskList) (delList : s''.delList = s'.delList)
    (current : s''.current = s'.current) : Tame x s s'' := by
  refine tame.trans ⟨idle,nextID,taskList,delList,fun t => ?_,fun t _ => ?_⟩
  · rw [task]
    exact .refl _
  · rw [embryo,embryo,state,state,task,current]
    exact id

lemma frame (frame : Frame s' s'') : Tame x s s'' := by
  refine tame.trans ⟨frame.idle,frame.nextID,(congrArg Kernel.taskList frame.other :),
    (congrArg Kernel.delList frame.other :),fun t => ?_,fun t _ new => ⟨(frame.state t).trans new.1,?_⟩⟩
  · exact .of (congrArg Task.face (frame.task t) :)
  · rw [frame.current]
    exact new.2

lemma enqueue (t : Tid) : Tame x s (rqEnqueueLocked s' t) :=
  tame.frame (enqueue_frame (.refl s') t)

lemma dequeue (t : Tid) : Tame x s (rqDequeueLocked s' t) :=
  tame.frame (dequeue_frame (.refl s') t)

lemma upd (alike : Alike (s'.task t) (f (s'.task t)))
    (fresh : x t ∨ s'.state t ≠ .new ∨ (f (s'.task t)).state = s'.state t) : Tame x s (s'.upd t f) := by
  refine tame.trans ⟨rfl,rfl,rfl,rfl,fun u => ?_,fun u outside new => ?_⟩
  all_goals by_cases same : u = t
  · subst same
    rwa [s'.upd_self]
  · rw [s'.upd_other f same]
    exact .refl _
  · subst same
    refine ⟨?_,new.2⟩
    rw [state_upd_self]
    rcases fresh with inside | old | same
    · exact absurd inside outside
    · exact absurd new.1 old
    · exact same.trans new.1
  · refine ⟨?_,new.2⟩
    rw [state_upd_other s' f same]
    exact new.1

lemma rest (same : ∀ k, (f k).face = k.face) : Tame x s (s'.upd t f) := by
  refine tame.upd (.of (same _)) (.inr (.inr ?_))
  exact (congrArg (·.2.2.1) (same (s'.task t)) :)

lemma updRq (c : Cpu) (f : RunQueue → RunQueue) : Tame x s (s'.updRq c f) :=
  tame.other rfl rfl rfl rfl rfl rfl

lemma setState (st : TState) (same : st.finished = (s'.state t).finished)
    (fresh : x t ∨ s'.state t ≠ .new) : Tame x s (s'.setState t st) :=
  tame.upd (.setState st same) (fresh.imp_right .inl)

lemma makeReady (alive : (s'.state t).finished = false) (fresh : x t ∨ s'.state t ≠ .new) :
    Tame x s (makeReady s' t) := (tame.setState .ready alive.symm fresh).enqueue t

lemma requeue (alike : ∀ k, Alike k (f k)) (state : ∀ k, (f k).state = k.state) : Tame x s (requeue s' t f) := by
  unfold Sched.requeue
  split
  · exact ((tame.dequeue t).upd (alike _) (.inr (.inr (state _)))).enqueue t
  · exact tame.upd (alike _) (.inr (.inr (state _)))

end

end Tame

lemma boost_alike (k : Task) : Alike k k.boost := by
  refine .tune rfl fun toned => ?_
  have := toned.priority
  simp only [Task.boost]
  omega

lemma Tame.calls (x : Tid → Prop) (s : Kernel) : Routine.Calls (Tame x s) where
  aside tame aside := by
    have same {α : Type} (field : Task → α) := congrArg field aside.core
    exact tame.upd (.of (same Task.face)) (.inr (.inr (same Task.state)))
  timers _ _ _ tame := tame.other rfl rfl rfl rfl rfl rfl
  wake tame asleep := tame.makeReady (TState.alive_of_asleep asleep).1 (.inr (TState.alive_of_asleep asleep).2)
  boost tame _ := tame.upd (boost_alike _) (.inr (.inr rfl))
  age {s' t} tame ready below := by
    have frame := dequeue_frame (.refl s') t
    have still : ((rqDequeueLocked s' t).upd t fun k => { k with priority := u8 (k.priority + 1) }).state t =
      .ready := by
      rw [state_upd_self]
      exact (frame.state t).trans ready
    refine ((tame.dequeue t).upd (.tune rfl fun _ => ?_) (.inr (.inr rfl))).makeReady ?_ (.inr ?_)
    · rw [frame.priority]
      simp only [u8]
      omega
    · rw [still]
      rfl
    · rw [still]
      simp
  migrate {_ _ _ t} _ tame _ := by
    exact ((tame.dequeue t).rest fun _ => by rfl).enqueue t
  waking tame _ := tame.other rfl rfl rfl rfl rfl rfl
  account c _ tame := tame.updRq c _

section Calls

lemma schedStop_tame (tame : Tame x s s') (alive : (s'.state t).finished = false) (inside : x t) (sig : Nat) :
    Tame x s (schedStop s' t sig) := by
  have still : ((rqDequeueLocked s' t).state t).finished = false := by
    rwa [(dequeue_frame (.refl s') t).state]
  refine (Tame.calls x s).schedStop ((tame.dequeue t).upd ?_ (.inl inside))
  exact (Alike.setState .stopped still.symm).trans (.of rfl)

lemma schedIoWakeup_tame (tame : Tame x s s') (inside : x t) : Tame x s (schedIoWakeup s' t) := by
  rw [schedIoWakeup_eq]
  split
  next sleeps =>
    refine (tame.upd (boost_alike _) (.inl inside)).makeReady ?_ (.inl inside)
    rw [state_upd_self]
    exact sleeps.2.2
  · exact tame.requeue boost_alike fun _ => rfl

lemma schedReady_tame (tame : Tame x s s') (alive : (s'.state t).finished = false) (inside : x t) :
    Tame x s (schedReady s' t) := by
  unfold schedReady
  split
  · exact tame
  · exact tame.makeReady alive (.inl inside)

lemma schedSleep_tame (tame : Tame x s s') (same : st.finished = (s'.state t).finished) (inside : x t) :
    Tame x s (schedSleep s' t st) := by
  refine (tame.dequeue t).setState st ?_ (.inl inside)
  rwa [(dequeue_frame (.refl s') t).state]

/-! The dispatcher. -/

/-- A task that has exited and is current is still marked, so marking it changes nothing. -/
lemma markOnCpu_tame (placed : Placed s) (c : Cpu) : Tame x s (markOnCpu s c) := by
  unfold markOnCpu
  split
  next t current =>
    refine (Tame.refl s).upd ⟨rfl,rfl,rfl,fun exited off => ?_,?_,id⟩ (.inr (.inr rfl))
    · rcases placed.marked c t current with on | running
      · rw [on] at off
        cases off
      change (s.state t).finished = true at exited
      rw [running] at exited
      cases exited
    · exact fun toned => ⟨toned.priority,toned.base,toned.yielding⟩
  · exact .refl s

lemma expire_alike (base : k.basePriority ≠ 0) : Alike k k.expire := by
  have low : k.Toned → k.decay.priority < 31 := fun toned => by
    have := toned.priority
    have := toned.base
    unfold Task.decay
    split
    · split <;> assumption
    split
    · dsimp only
      split
      · unfold u8
        omega
      · assumption
    · assumption
  refine .tune ?_ low
  unfold Task.expire Task.decay
  split <;> split <;> rfl

lemma preempt_tame (placed : Placed s) (base : ∀ t, (s.task t).basePriority = 0 → ∃ d, s.idle d = some t) :
    Tame x s (preempt s c).2 := by
  unfold preempt
  split
  · exact .refl s
  rename_i t current
  split
  next running =>
    split
    · exact .refl s
    have charged : Tame x s (s.upd t fun k => { k with quantum := k.quantum - 1 }) := (Tame.refl s).rest fun _ => rfl
    dsimp only
    split
    · exact charged
    have decays : (s.task t).basePriority ≠ 0 := fun zero => by
      obtain ⟨d,pinned⟩ := base t zero
      exact running.2 ((placed.pinned d t pinned).2.1 c current ▸ pinned)
    have expired : Tame x s ((s.upd t fun k => { k with quantum := k.quantum - 1 }).upd t Task.expire) := by
      refine charged.upd (expire_alike ?_) (.inr (.inr (decay_state _).1))
      rwa [s.upd_self]
    have still : (((s.upd t fun k => { k with quantum := k.quantum - 1 }).upd t Task.expire).state t) = .running := by
      rw [state_upd_self]
      refine (decay_state _).1.trans ?_
      rw [s.upd_self]
      exact running.1
    refine expired.makeReady ?_ (.inr ?_)
    · rw [still]
      rfl
    · rw [still]
      nofun
  · exact .refl s

lemma switchTo_tame (alive : (s.state next).finished = false) (started : s.state next ≠ .new) :
    Tame x s (switchTo s c next) := by
  have current : Tame x s { s with current := Function.update s.current c (some next) } := by
    refine ⟨rfl,rfl,rfl,rfl,fun _ => .refl _,fun t _ new => ⟨new.1,fun d here => ?_⟩⟩
    by_cases same : d = c
    · subst same
      obtain rfl : next = t := Option.some.inj ((Function.update_self d _ s.current).symm.trans here)
      exact started new.1
    · exact new.2 d ((Function.update_of_ne same _ s.current).symm.trans here)
  have switched := current.upd (t := next) (f := fun k =>
    { k with
      onCpu := true
      lastRunTick := s.sysTicks
      quantum := if k.quantum = 0 then quantumForPriority k.priority else k.quantum
      state := .running }) ⟨rfl,rfl,alive.symm,fun exited => absurd (alive.symm.trans exited) (by simp),
        fun toned => ⟨toned.priority,toned.base,toned.yielding⟩,id⟩ (.inr (.inl started))
  unfold switchTo
  dsimp only
  split
  · exact switched
  · exact switched.updRq _ _

lemma pick_tame (sound : Sound s) (placed : Placed s) : Tame x s (pick s c).2 := by
  unfold pick
  split
  · split
    · exact .refl s
    rename_i i pinned
    split
    · exact .refl s
    · have running := (placed.pinned c i pinned).1
      exact switchTo_tame (by rw [running]; rfl) (by rw [running]; nofun)
  split
  · exact .refl s
  rename_i next head
  have dequeued : Tame x s (rqDequeueLocked s next) := (Tame.refl s).dequeue next
  have ready : (rqDequeueLocked s next).state next = .ready :=
    ((dequeue_frame (.refl s) next).state next).trans (bucket_ready sound head)
  have alive : ((rqDequeueLocked s next).state next).finished = false := by
    rw [ready]
    rfl
  have started : (rqDequeueLocked s next).state next ≠ .new := by
    rw [ready]
    nofun
  dsimp only
  split
  · exact dequeued
  split
  · exact dequeued.makeReady alive (.inr started)
  · exact dequeued.trans (switchTo_tame alive started)

lemma resumeUnlock_tame (s : Kernel) (c : Cpu) : Tame x s (schedResumeUnlock s c) := by
  unfold schedResumeUnlock
  split
  · exact .refl s
  · refine ((Tame.refl s).updRq c _).upd ⟨rfl,rfl,rfl,fun _ _ => rfl,?_,id⟩ (.inr (.inr rfl))
    exact fun toned => ⟨toned.priority,toned.base,toned.yielding⟩

end Calls

/-- No task is realtime, and only pinned idle threads have base priority 0. -/
structure Kernel.Toned (s : Kernel) : Prop where
  task : ∀ t, (s.task t).Toned
  base : ∀ t, (s.task t).basePriority = 0 → ∃ c, s.idle c = some t

/-- Changes of the kinds above, and dead tasks off their CPU without a live parent moving to the delete list. -/
inductive Pass (x : Tid → Prop) : Kernel → Kernel → Prop
  | tame {s s' : Kernel} (tame : Tame x s s') : Pass x s s'
  | collect {s : Kernel} {t : Tid} (listed : t ∈ s.taskList) (exited : (s.state t).finished = true)
      (off : (s.task t).onCpu = false) (orphan : ∀ p, (s.task t).parent = some p → (s.state p).finished = true) :
      Pass x s { s with taskList := s.taskList.filter (· ≠ t), delList := t :: s.delList }
  | trans {s s' s'' : Kernel} (first : Pass x s s') (second : Pass x s' s'') : Pass x s s''

section Passes

lemma Kernel.Toned.tame (toned : s.Toned) (tame : Tame x s s') : s'.Toned where
  task t := (tame.task t).toned (toned.task t)
  base t zero := by
    rw [tame.idle]
    exact toned.base t ((tame.task t).base zero)

lemma Kernel.Toned.pass (toned : s.Toned) (pass : Pass x s s') : s'.Toned := by
  induction pass with
  | tame tame => exact toned.tame tame
  | collect => exact ⟨toned.task,toned.base⟩
  | trans _ _ first second => exact second (first toned)

lemma Pass.fresh (pass : Pass x s s') (outside : ¬x t) (new : s.embryo t) : s'.embryo t := by
  induction pass with
  | tame tame => exact tame.fresh t outside new
  | collect => exact new
  | trans _ _ first second => exact second (first new)

lemma told_tame (x : Tid → Prop) (s : Kernel) (t : Tid) :
    Tame x s (match (s.task t).parent with | none => s | some parent => notifyExit s parent) := by
  split
  · exact .refl s
  · exact (Tame.calls x s).notifyExit (.refl s) _

lemma reapTask_pass (s : Kernel) (listed : t ∈ s.taskList) : Pass x s (reapTask s t) := by
  unfold reapTask
  split
  · exact .tame (.refl s)
  rename_i off
  split
  next zombie =>
    have exited := (told_tame x s t).finished t
    rw [zombie] at exited
    refine .tame ((told_tame x s t).setState .dead exited.symm (.inr fun new => ?_))
    rw [new] at exited
    cases exited
  split
  next dead =>
    refine .collect listed ?_ (by simpa using off) fun p parent => ?_
    · rw [dead.1]
      rfl
    have all := dead.2
    rw [parent] at all
    exact all
  · exact .tame (.refl s)

lemma reapTask_taskList (s : Kernel) (t : Tid) : ∀ u ∈ s.taskList, u ≠ t → u ∈ (reapTask s t).taskList := by
  intro u member apart
  have told := (told_tame (fun _ => True) s t).taskList
  unfold reapTask
  split
  · exact member
  split
  · exact (congrArg (u ∈ ·) told).mpr member
  split
  · exact List.mem_filter.mpr ⟨member,by simpa using apart⟩
  · exact member

/-- The list is walked as it was at the start: a task leaves it only at its own turn. -/
lemma reap_pass {l : List Tid} (nodup : l.Nodup) (listed : ∀ t ∈ l, t ∈ s.taskList) :
    Pass x s (l.foldl reapTask s) := by
  induction l generalizing s with
  | nil => exact .tame (.refl s)
  | cons t l ih =>
    obtain ⟨once,nodup⟩ := List.nodup_cons.mp nodup
    refine .trans (reapTask_pass s (listed t List.mem_cons_self)) (ih nodup fun u member => ?_)
    refine reapTask_taskList s t u (listed u (List.mem_cons_of_mem t member)) ?_
    rintro rfl
    exact once member

lemma maintain_pass (placed : Placed s) (nodup : s.taskList.Nodup) (c : Cpu) : Pass x s (maintain s c) := by
  have before := (Tame.calls x s).beforeReap (markOnCpu_tame placed c) c
  refine .trans (.tame before) (reap_pass ?_ fun _ => id)
  rw [before.taskList]
  exact nodup

lemma Kernel.Toned.lives (toned : s.Toned) (placed : Placed s) : Lives s (.sched c) := by
  intro t current _ unpinned zero
  obtain ⟨d,pinned⟩ := toned.base t zero
  exact absurd ((placed.pinned d t pinned).2.1 c current ▸ pinned) unpinned

lemma schedCommon_pass (steady : Steady s) (toned : s.Toned) (nodup : s.taskList.Nodup) :
    Pass x s (schedCommon s c).2 := by
  have maintained : Pass x s (maintain s c) := maintain_pass steady.placed nodup c
  have kept := maintain_kept steady.sound c
  obtain ⟨marked,onCpu⟩ := steady.placed.markOnCpu c
  have placed := marked.shift (.quiet kept.quiet)
  have charged := charge_sound steady.sound (steady.placed.dispatchOk (c := c) (toned.lives steady.placed))
  obtain ⟨shift,-⟩ := preempt_shift placed fun t here => by
    rw [kept.quiet.onCpu]
    exact onCpu t (kept.quiet.current ▸ here)
  have preempted : Tame x (maintain s c) (preempt (maintain s c) c).2 :=
    preempt_tame placed (toned.pass maintained).base
  unfold schedCommon
  rcases run : preempt (maintain s c) c with ⟨_ | _,s'⟩ <;> rw [run] at preempted shift charged
  · exact .trans maintained (.tame preempted)
  · exact .trans maintained (.tame (preempted.trans (pick_tame charged (placed.shift shift))))

end Passes

/-- The tasks whose state an event overwrites without a test of it. -/
def touches (s : Kernel) : Event → Tid → Prop
  | .ready t | .sleep t _ | .wakeup t | .stop t _ | .ioWakeup t | .setStatus t _ => (· = t)
  | .runWaking i => (s.waking[i]? = some ·)
  | .waitEvent c _ _ _ _ => (s.current c = some ·)
  | _ => fun _ => False

/-- Events that create, end and collect nobody: whoever is readied, put to sleep or stopped is alive, priorities
stay below the realtime one and off 0. -/
def Regular (s : Kernel) : Event → Prop
  | .newTask | .fork _ | .apEntry _ | .dead _ | .zombie _ | .reparent _ | .collect .. => False
  | .sleep t st => Lives s (.sleep t st) ∧ st.finished = false
  | .setStatus t st => Lives s (.setStatus t st) ∧ st.finished = false
  | .piBoost _ pri => pri < 31
  | .setPriority _ pri => 0 < pri ∧ pri < 31
  | .sched _ | .yieldReady _ => True
  | e => Lives s e

section Events

lemma Regular.lives (regular : Regular s e) (placed : Placed s) (toned : s.Toned) : Lives s e := by
  cases e with
  | newTask | fork c | apEntry c | reparent t | collect c want untraced => trivial
  | dead t | zombie t => exact regular.elim
  | sleep t st | setStatus t st => exact regular.1
  | piBoost t pri => exact Nat.lt_succ_of_lt regular
  | setPriority t pri => exact Nat.lt_succ_of_lt regular.2
  | sched c => exact toned.lives placed
  | yieldReady c =>
    intro t _ yields
    rw [(toned.task t).yielding] at yields
    cases yields
  | _ => exact regular

lemma waitMark_tame (alive : (s.state t).finished = false) (inside : x t) (chan : Chan)
    (ticks deadline : UInt32) : Tame x s (waitMark s t chan ticks deadline) := by
  have marked : Tame x s ((rqDequeueLocked s t).upd t fun k => { k with waitChan := some chan }) :=
    ((Tame.refl s).dequeue t).rest fun _ => by rfl
  have still := (marked.finished t).trans alive
  unfold waitMark
  split
  · exact ((Tame.calls x s).calloutReset marked ..).setState .wait still.symm (.inl inside)
  · exact marked.setState .wait still.symm (.inl inside)

lemma waitEvent_pass {x : Tid → Prop} (steady : Steady s) (toned : s.Toned) (nodup : s.taskList.Nodup) {chan : Chan}
    {cond : Bool} (lives : Lives s (.waitEvent c chan cond ticks deadline))
    (inside : ∀ t, s.current c = some t → x t) : Pass x s (schedWaitEventTimeout s c chan cond ticks deadline).2 := by
  unfold schedWaitEventTimeout
  split
  · exact .tame (.refl s)
  rename_i t current
  split
  · exact .tame (.refl s)
  obtain ⟨may,alive⟩ := lives t current
  have marked := waitMark_tame alive (inside t current) chan ticks deadline
  have placed := steady.placed.shift (waitMark_shift (.refl s) may alive chan ticks deadline)
  have known := steady.sound.known_current current
  refine .trans (.tame marked) (schedCommon_pass ⟨?_,placed⟩ (toned.tame marked) ?_)
  · exact waitMark_sound steady.sound known chan ticks deadline
  · rw [marked.taskList]
    exact nodup

lemma step_pass (e : Event) (steady : Steady s) (toned : s.Toned) (nodup : s.taskList.Nodup)
    (regular : Regular s e) : Pass (touches s e) s (step s e) := by
  have same : Tame (touches s e) s s := .refl s
  have lives := regular.lives steady.placed toned
  by_cases small : mild e = true
  · exact .tame ((Tame.calls _ s).step same small)
  unfold step perform
  cases e with
  | newTask | fork c | apEntry c | dead t | zombie t | reparent t | collect c want untraced => exact regular.elim
  | ready t => exact .tame (schedReady_tame same lives.2.2 rfl)
  | sleep t st =>
    obtain ⟨⟨-,-,-,stays⟩,live⟩ := regular
    refine .tame (schedSleep_tame same ?_ rfl)
    cases exited : (s.state t).finished with
    | false => exact live
    | true => exact stays exited
  | wakeup t => exact .tame (same.setState .running lives.2.2.1.symm (.inl rfl))
  | stop t sig => exact .tame (schedStop_tame same lives.2.2 rfl sig)
  | piBoost t pri =>
    refine .tame ?_
    dsimp only [schedPiBoost]
    split
    · exact same.requeue (fun _ => .tune rfl fun _ => regular) fun _ => rfl
    · exact same
  | piRestore t =>
    refine .tame ?_
    dsimp only [schedPiRestore]
    split
    · exact same.requeue (fun _ => .tune rfl fun toned => toned.base) fun _ => rfl
    · exact same
  | ioWakeup t => exact .tame (schedIoWakeup_tame same rfl)
  | setPriority t pri =>
    refine .tame (same.requeue (fun k => ⟨rfl,rfl,rfl,fun _ => id,fun toned => ⟨?_,?_,toned.yielding⟩,?_⟩) fun _ => rfl)
    · exact regular.2
    · exact regular.2
    · exact fun zero => absurd zero (Nat.ne_of_gt regular.1)
  | waitEvent c chan cond ticks deadline => exact waitEvent_pass steady toned nodup lives fun _ => id
  | yieldEnter c =>
    refine .tame ?_
    dsimp only [yieldEnter]
    split
    · exact same
    rename_i t _
    have low := (toned.task t).priority
    refine same.upd (.of ?_) (.inr (.inr rfl))
    simp [Task.face,(toned.task t).yielding,low]
  | yieldReady c =>
    refine .tame (yieldReady_cases same fun t _ yields => ?_)
    rw [(toned.task t).yielding] at yields
    cases yields
  | sched c => exact schedCommon_pass steady toned nodup
  | resumeUnlock c => exact .tame (resumeUnlock_tame s c)
  | setStatus pid st =>
    obtain ⟨⟨-,allowed⟩,live⟩ := regular
    refine .tame (schedSetStatus_cases same (fun dead => ?_) (fun ready => ?_) fun other => ?_)
    · rw [dead] at live
      cases live
    · rw [if_pos ready] at allowed
      exact schedReady_tame same allowed.2 rfl
    · rw [if_neg other] at allowed
      refine schedSleep_tame same ?_ rfl
      cases exited : (s.state pid).finished with
      | false => exact live
      | true => exact allowed.2.2 exited
  | runWaking i =>
    refine .tame ?_
    dsimp only [runWaking]
    split
    · exact same
    next t found => exact schedReady_tame (same.other rfl rfl rfl rfl rfl rfl) (lives t found).2 found
  | tick => exact .tame (same.other rfl rfl rfl rfl rfl rfl)
  | _ => exact absurd rfl small

/-- One more task, without a parent and alive. -/
structure Born (s s' : Kernel) : Prop where
  taskList : s'.taskList = s.nextID :: s.taskList
  delList : s'.delList = s.delList
  nextID : s'.nextID = s.nextID + 1
  idle : ∀ c i, s.idle c = some i → s'.idle c = some i
  current : ∀ c t, s'.current c = some t → t = s.nextID ∨ s.current c = some t
  other : ∀ t, t ≠ s.nextID → s'.task t = s.task t
  parent : (s'.task s.nextID).parent = none
  alive : (s'.state s.nextID).finished = false
  toned : (s'.task s.nextID).Toned
  base : (s'.task s.nextID).basePriority = 0 → ∃ c, s'.idle c = some s.nextID

lemma Kernel.Toned.born (toned : s.Toned) (born : Born s s') : s'.Toned where
  task t := by
    by_cases new : t = s.nextID
    · subst new
      exact born.toned
    · rw [born.other t new]
      exact toned.task t
  base t zero := by
    by_cases new : t = s.nextID
    · subst new
      exact born.base zero
    rw [born.other t new] at zero
    obtain ⟨c,pinned⟩ := toned.base t zero
    exact ⟨c,born.idle c t pinned⟩

lemma schedNewTask_born (s : Kernel) : Born s (schedNewTask s) where
  taskList := rfl
  delList := rfl
  nextID := rfl
  idle _ _ := id
  current _ _ := .inr
  other _ old := schedNewTask_task s old
  parent := by simp [schedNewTask]
  alive := by simp [schedNewTask,state,TState.finished]
  toned := by
    constructor <;> simp [schedNewTask]
  base zero := by
    simp [schedNewTask] at zero

lemma apEntry_born (current : s.current c = none) (idle : s.idle c = none) : Born s (apEntry s c) := by
  have shape : apEntry s c = { (((schedNewTask s).upd s.nextID fun k =>
      { k with priority := 0, basePriority := 0, state := .running }).updRq c fun rq => { rq with online := true }) with
      current := Function.update s.current c (some s.nextID), idle := Function.update s.idle c (some s.nextID) } := by
    unfold apEntry
    rw [if_neg (by simp [current,idle])]
    rfl
  rw [shape]
  refine ⟨rfl,rfl,rfl,fun d i pinned => ?_,fun d t here => ?_,fun t old => ?_,?_,?_,⟨?_,?_,?_⟩,fun _ => ⟨c,?_⟩⟩
  · have apart : d ≠ c := by
      rintro rfl
      rw [idle] at pinned
      cases pinned
    exact (Function.update_of_ne apart ..).trans pinned
  · by_cases same : d = c
    · subst same
      exact .inl (Option.some.inj (here.symm.trans (Function.update_self d _ s.current)))
    · exact .inr ((Function.update_of_ne same _ s.current).symm.trans here)
  · simp only [updRq_task,upd_other _ _ old,schedNewTask_task s old]
  all_goals simp [schedNewTask,state,TState.finished]

end Events

end UbixOS.Sched
