import UbixOS.Sched.Sound

/-! What the dispatcher does to other tasks before it looks at the running one, and
the run-queue invariant over the dispatcher and over every event. -/
namespace UbixOS.Sched

open Library TState Sound

/-- The only changes of state are sleepers made ready and zombies made dead; running tasks are not touched. -/
structure Quiet (s s' : Kernel) : Prop where
  current : s'.current = s.current
  idle : s'.idle = s.idle
  nextID : s'.nextID = s.nextID
  waking : s'.waking = s.waking
  switchingFrom : ∀ c, (s'.rq c).switchingFrom = (s.rq c).switchingFrom
  onCpu : ∀ t, (s'.task t).onCpu = (s.task t).onCpu
  state : ∀ t, s'.state t = s.state t ∨ (s'.state t = .ready ∧ (s.state t).asleep = true) ∨
    (s.state t = .zombie ∧ s'.state t = .dead)
  tuned : ∀ t, s.state t = .running → (s'.task t).priority = (s.task t).priority ∧
    (s'.task t).basePriority = (s.task t).basePriority ∧ (s'.task t).boostQuanta = (s.task t).boostQuanta

namespace Quiet

lemma refl (s : Kernel) : Quiet s s :=
  ⟨rfl,rfl,rfl,rfl,fun _ => rfl,fun _ => rfl,fun _ => .inl rfl,fun _ _ => ⟨rfl,rfl,rfl⟩⟩

lemma running (quiet : Quiet s s') : s'.state t = .running ↔ s.state t = .running := by
  rcases quiet.state t with same | ⟨ready,asleep⟩ | ⟨zombie,dead⟩
  · rw [same]
  · constructor
    · simp [ready]
    · intro run
      simp [run,TState.asleep] at asleep
  · simp [zombie,dead]

lemma trans (first : Quiet s s') (second : Quiet s' s'') : Quiet s s'' where
  current := second.current.trans first.current
  idle := second.idle.trans first.idle
  nextID := second.nextID.trans first.nextID
  waking := second.waking.trans first.waking
  switchingFrom c := (second.switchingFrom c).trans (first.switchingFrom c)
  onCpu t := (second.onCpu t).trans (first.onCpu t)
  state t := by
    have one := first.state t
    have two := second.state t
    rcases one with same | ⟨ready,asleep⟩ | ⟨zombie,dead⟩
    · rwa [same] at two
    · rw [ready] at two
      simp only [TState.asleep] at two
      exact .inr (.inl ⟨by simpa using two,asleep⟩)
    · rw [dead] at two
      exact .inr (.inr ⟨zombie,by simpa [asleep] using two⟩)
  tuned t run := by
    obtain ⟨pri,base,boost⟩ := first.tuned t run
    obtain ⟨pri',base',boost'⟩ := second.tuned t (first.running.mpr run)
    exact ⟨pri'.trans pri,base'.trans base,boost'.trans boost⟩

lemma frame (frame : Frame s s') : Quiet s s' where
  current := frame.current
  idle := frame.idle
  nextID := frame.nextID
  waking := frame.waking
  switchingFrom := frame.switchingFrom
  onCpu := frame.onCpu
  state t := .inl (frame.state t)
  tuned t _ := ⟨frame.priority t,frame.basePriority t,frame.boostQuanta t⟩

section
variable (quiet : Quiet s s')
include quiet

/-- A change of one task, which is not running unless only unscheduled fields change. -/
lemma upd (onCpu : (f (s'.task t)).onCpu = (s'.task t).onCpu)
    (state : (f (s'.task t)).state = s'.state t ∨ ((f (s'.task t)).state = .ready ∧ (s'.state t).asleep = true) ∨
      (s'.state t = .zombie ∧ (f (s'.task t)).state = .dead))
    (tuned : s'.state t = .running → (f (s'.task t)).priority = (s'.task t).priority ∧
      (f (s'.task t)).basePriority = (s'.task t).basePriority ∧ (f (s'.task t)).boostQuanta = (s'.task t).boostQuanta) :
    Quiet s (s'.upd t f) := by
  refine quiet.trans ⟨rfl,rfl,rfl,rfl,fun _ => rfl,fun u => ?_,fun u => ?_,fun u run => ?_⟩
  · by_cases same : u = t
    · subst same
      simpa using onCpu
    · rw [s'.upd_other f same]
  · by_cases same : u = t
    · subst same
      simpa [Kernel.state] using state
    · simp [Kernel.state,s'.upd_other f same]
  · by_cases same : u = t
    · subst same
      simpa using tuned run
    · simp [s'.upd_other f same]

lemma enqueue (t : Tid) : Quiet s (rqEnqueueLocked s' t) :=
  quiet.trans (.frame (enqueue_frame (.refl s') t))

lemma dequeue (t : Tid) : Quiet s (rqDequeueLocked s' t) :=
  quiet.trans (.frame (dequeue_frame (.refl s') t))

lemma makeReady (may : (s'.state t).asleep = true ∨ s'.state t = .ready) : Quiet s (makeReady s' t) := by
  refine (quiet.upd rfl ?_ ?_).enqueue t
  · rcases may with asleep | ready
    · exact .inr (.inl ⟨rfl,asleep⟩)
    · exact .inl ready.symm
  intro run
  rcases may with asleep | ready
  · simp [run,TState.asleep] at asleep
  · simp [run] at ready

lemma other (task : s''.task = s'.task) (rq : s''.rq = s'.rq) (current : s''.current = s'.current)
    (idle : s''.idle = s'.idle) (nextID : s''.nextID = s'.nextID) (waking : s''.waking = s'.waking) : Quiet s s'' :=
  quiet.trans ⟨current,idle,nextID,waking,fun c => by rw [rq],fun t => by rw [task],
    fun t => .inl (by rw [Kernel.state,task]; rfl),fun t _ => by simp [task]⟩

end

lemma routine (s : Kernel) : Routine (Quiet s) where
  aside quiet aside := by
    have same {α : Type} (field : Task → α) := congrArg field aside.core
    exact quiet.upd (same Task.onCpu) (.inl (same Task.state)) fun _ =>
      ⟨same Task.priority,same Task.basePriority,same Task.boostQuanta⟩
  timers _ _ _ quiet := quiet.other rfl rfl rfl rfl rfl rfl
  wake quiet asleep := quiet.makeReady (.inl asleep)
  boost quiet asleep := quiet.upd rfl (.inl rfl) fun run => by simp [run,TState.asleep] at asleep
  age {s' t} quiet ready _ := by
    have still := ((dequeue_frame (.refl s') t).state t).trans ready
    refine ((quiet.dequeue t).upd rfl (.inl rfl) fun run => ?_).makeReady (.inr ?_)
    · cases still.symm.trans run
    · rwa [state_upd_self]
  migrate {_ _ _ t} _ quiet _ := by
    exact ((quiet.dequeue t).upd rfl (.inl rfl) fun _ => ⟨rfl,rfl,rfl⟩).enqueue t

end Quiet

/-- A step of the maintenance pass keeps the queues and only wakes or buries. -/
structure Kept (s s' : Kernel) : Prop where
  sound : Sound s'
  quiet : Quiet s s'

lemma Kept.routine (s : Kernel) : Routine (Kept s) where
  aside kept aside := ⟨calls.aside kept.sound aside,(Quiet.routine s).aside kept.quiet aside⟩
  timers _ _ _ kept := ⟨calls.timers _ _ _ kept.sound,(Quiet.routine s).timers _ _ _ kept.quiet⟩
  wake kept asleep := ⟨calls.wake kept.sound asleep,(Quiet.routine s).wake kept.quiet asleep⟩
  boost kept asleep := ⟨calls.boost kept.sound asleep,(Quiet.routine s).boost kept.quiet asleep⟩
  age kept ready below := ⟨calls.age kept.sound ready below,(Quiet.routine s).age kept.quiet ready below⟩
  migrate c kept found := ⟨calls.migrate c kept.sound found,(Quiet.routine s).migrate c kept.quiet found⟩

section Pass

lemma bury_kept (kept : Kept s s') (exited : (s'.state t).finished = true) : Kept s (s'.setState t .dead) := by
  have off : (s'.task t).onRq = false := kept.sound.off fun ready => by simp [ready,finished] at exited
  have known : t < s'.nextID := kept.sound.known fun new => by simp [new,finished] at exited
  refine ⟨kept.sound.setState off known .dead,?_⟩
  refine kept.quiet.upd rfl ?_ fun run => ?_
  · simp only [finished,Bool.or_eq_true,beq_iff_eq] at exited
    rcases exited with zombie | dead
    · exact .inr (.inr ⟨zombie,rfl⟩)
    · exact .inl dead.symm
  · simp [run,finished] at exited

lemma reapTask_kept (s' : Kernel) (t : Tid) (kept : Kept s s') : Kept s (reapTask s' t) := by
  unfold reapTask
  split
  · exact kept
  split
  next zombie =>
    split
    · exact bury_kept kept (by simp [zombie,finished])
    rename_i parent _
    refine bury_kept ((Kept.routine s).notifyExit kept parent) ?_
    rcases ((Quiet.routine s').notifyExit (.refl s') parent).state t with same | ⟨-,asleep⟩ | ⟨-,dead⟩
    · simp [same,zombie,finished]
    · simp [zombie,TState.asleep] at asleep
    · simp [dead,finished]
  split
  · constructor
    · exact kept.sound.congr rfl (fun _ => ⟨rfl,rfl,rfl⟩) rfl kept.sound.born
    · exact kept.quiet.other rfl rfl rfl rfl rfl rfl
  · exact kept

lemma maintain_kept (sound : Sound s) (c : Cpu) : Kept (markOnCpu s c) (maintain s c) := by
  have marked : Kept (markOnCpu s c) (markOnCpu s c) := by
    refine ⟨?_,.refl _⟩
    unfold markOnCpu
    split
    · exact sound.updRest ⟨rfl,rfl,rfl,rfl,rfl,rfl,rfl⟩
    · exact sound
  exact Routine.foldl reapTask_kept ((Kept.routine _).beforeReap marked c) _

end Pass

end UbixOS.Sched
