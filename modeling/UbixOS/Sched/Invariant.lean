import UbixOS.Sched.Maintain

/-! The run-queue invariant over the dispatcher and over every run: which calls keep
it, and a run of legal calls that breaks it. -/
namespace UbixOS.Sched

open Library Function Kernel Sound

/-- The CPU's pinned idle thread is running, and the task it charges has a priority its decay keeps in range. -/
structure DispatchOk (s : Kernel) (c : Cpu) : Prop where
  idle : ∀ i, s.idle c = some i → s.state i = .running
  decay : ∀ t, s.current c = some t → s.state t = .running → s.idle c ≠ some t →
    (s.task t).basePriority = 0 → (s.task t).priority = 1 → 0 < (s.task t).boostQuanta

lemma decay_range {k : Task} (priority : k.priority < 32) (base : k.basePriority < 32)
    (safe : k.basePriority = 0 → k.priority = 1 → 0 < k.boostQuanta) :
    k.decay.priority < 32 ∧ k.decay.basePriority < 32 := by
  unfold Task.decay
  split
  · split
    · exact ⟨base,base⟩
    · exact ⟨priority,base⟩
  split
  · refine ⟨?_,base⟩
    by_cases higher : u8 (k.priority + 254) > k.basePriority
    · simp only [if_pos higher]
      simp only [u8] at *
      omega
    · simpa only [if_neg higher]
  · exact ⟨priority,base⟩

lemma decay_state (k : Task) : k.decay.state = k.state ∧ k.decay.onRq = k.onRq := by
  unfold Task.decay
  split <;> split <;> exact ⟨rfl,rfl⟩

section Dispatch

lemma Sound.known_current (sound : Sound s) (current : s.current c = some t) : t < s.nextID :=
  sound.born t (.inl ⟨c,current⟩)

lemma preempt_sound (sound : Sound s) (decay : ∀ t, s.current c = some t → s.state t = .running →
      s.idle c ≠ some t → (s.task t).basePriority = 0 → (s.task t).priority = 1 → 0 < (s.task t).boostQuanta) :
    Sound (preempt s c).2 := by
  unfold preempt
  split
  · exact sound
  rename_i t current
  split
  next running =>
    have off : (s.task t).onRq = false := sound.off (by simp [running.1])
    split
    · exact sound
    have charged : Sound (s.upd t fun k => { k with quantum := k.quantum - 1 }) :=
      sound.updRest ⟨rfl,rfl,rfl,rfl,rfl,rfl,rfl⟩
    dsimp only
    split
    · exact charged
    refine Sound.makeReady (charged.upd ?_ (by simp [off]) ?_ fun large => ?_) (sound.known_current current)
    · exact (decay_state _).2
    · refine decay_range (charged.range t).1 (charged.range t).2 ?_
      simpa using decay t current running.1 running.2
    · exact absurd large (Nat.not_le.mpr (sound.known_current current))
  · exact sound

lemma switchTo_sound (sound : Sound s) (off : (s.task t).onRq = false) (known : t < s.nextID) :
    Sound (switchTo s c t) := by
  have moved : Sound { s with current := update s.current c (some t) } := by
    refine sound.congr rfl (fun _ => ⟨rfl,rfl,rfl⟩) rfl fun u reference => ?_
    rcases reference with ⟨d,here⟩ | elsewhere
    · by_cases same : d = c
      · subst same
        simp only [update_self,Option.some.injEq] at here
        exact here ▸ known
      · simp only [update_of_ne same] at here
        exact sound.born u (.inl ⟨d,here⟩)
    · exact sound.born u (.inr elsewhere)
  have running : Sound ((({ s with current := update s.current c (some t) } : Kernel)).upd t fun k =>
      { k with
        onCpu := true
        lastRunTick := s.sysTicks
        quantum := if k.quantum = 0 then quantumForPriority k.priority else k.quantum
        state := .running }) :=
    moved.upd rfl (by simp [off]) (sound.range t) fun large => absurd large (Nat.not_le.mpr known)
  unfold switchTo
  dsimp only
  split
  · exact running
  refine running.congr rfl (fun d => ?_) rfl running.born
  rw [updRq_rq]
  split <;> exact ⟨rfl,rfl,rfl⟩

lemma bucket_ready (sound : Sound s) (head : (s.rq c).bucket p = some t) : s.state t = .ready := by
  obtain ⟨q,queued⟩ := sound.queued
  have ring := queued.ring c p
  rw [head] at ring
  exact sound.ready t ((queued.member t c p).mp ring.head_mem).1

lemma pick_sound (sound : Sound s) (idle : ∀ i, s.idle c = some i → s.state i = .running) : Sound (pick s c).2 := by
  unfold pick
  split
  · split
    · exact sound
    rename_i i pinned
    split
    · exact sound
    · refine switchTo_sound sound (sound.off ?_) (sound.born i (.inr (.inl ⟨c,pinned⟩)))
      simp [idle i pinned]
  split
  · exact sound
  rename_i next head
  have known : next < (rqDequeueLocked s next).nextID := by
    rw [(dequeue_frame (.refl s) next).nextID]
    exact sound.known_of_ready (bucket_ready sound head)
  dsimp only
  split
  · exact sound.dequeue next
  split
  · exact (sound.dequeue next).makeReady known
  · exact switchTo_sound (sound.dequeue next) (sound.dequeued next) known

lemma markOnCpu_state (s : Kernel) (c : Cpu) (t : Tid) : (markOnCpu s c).state t = s.state t := by
  unfold markOnCpu state
  split
  · rw [upd_task]
    split <;> rfl
  · rfl

lemma markOnCpu_fields (s : Kernel) (c : Cpu) :
    (markOnCpu s c).current = s.current ∧ (markOnCpu s c).idle = s.idle := by
  unfold markOnCpu
  split <;> exact ⟨rfl,rfl⟩

lemma markOnCpu_tuned (s : Kernel) (c : Cpu) (t : Tid) : ((markOnCpu s c).task t).priority = (s.task t).priority ∧
      ((markOnCpu s c).task t).basePriority = (s.task t).basePriority ∧
      ((markOnCpu s c).task t).boostQuanta = (s.task t).boostQuanta := by
  unfold markOnCpu
  split
  · rw [upd_task]
    split <;> exact ⟨rfl,rfl,rfl⟩
  · exact ⟨rfl,rfl,rfl⟩

lemma preempt_idle (s : Kernel) (c : Cpu) : (preempt s c).2.idle = s.idle ∧
    ∀ i, s.idle c = some i → (preempt s c).2.state i = s.state i := by
  unfold preempt
  split
  · exact ⟨rfl,fun _ _ => rfl⟩
  rename_i t current
  split
  next running =>
    have apart : ∀ i, s.idle c = some i → i ≠ t := fun i pinned same => running.2 (same ▸ pinned)
    split
    · exact ⟨rfl,fun _ _ => rfl⟩
    dsimp only
    split
    · refine ⟨rfl,fun i pinned => ?_⟩
      rw [state_upd_other s _ (apart i pinned)]
    refine ⟨(makeReady_fields _ t).2.1,fun i pinned => ?_⟩
    rw [makeReady_state_other _ (apart i pinned),state_upd_other _ _ (apart i pinned),
      state_upd_other _ _ (apart i pinned)]
  · exact ⟨rfl,fun _ _ => rfl⟩

lemma charge_sound (sound : Sound s) (ok : DispatchOk s c) : Sound (preempt (maintain s c) c).2 := by
  have kept := maintain_kept sound c
  refine preempt_sound kept.sound fun t here run other => ?_
  have ran := kept.quiet.running.mp run
  obtain ⟨priority,base,boost⟩ := kept.quiet.tuned t ran
  obtain ⟨priority',base',boost'⟩ := markOnCpu_tuned s c t
  rw [kept.quiet.current,(markOnCpu_fields s c).1] at here
  rw [kept.quiet.idle,(markOnCpu_fields s c).2] at other
  rw [priority,base,boost,priority',base',boost']
  exact ok.decay t here ((markOnCpu_state s c t).symm.trans ran) other

lemma schedCommon_sound (sound : Sound s) (ok : DispatchOk s c) : Sound (schedCommon s c).2 := by
  have kept := maintain_kept sound c
  have charged := charge_sound sound ok
  unfold schedCommon
  split
  next s' shape => rwa [shape] at charged
  rename_i s' shape
  obtain ⟨same,pinnedState⟩ := preempt_idle (maintain s c) c
  rw [shape] at charged same pinnedState
  refine pick_sound charged fun i pinned => ?_
  rw [same] at pinned
  rw [pinnedState i pinned,kept.quiet.running,markOnCpu_state]
  rw [kept.quiet.idle,(markOnCpu_fields s c).2] at pinned
  exact ok.idle i pinned

end Dispatch

/-- When an event keeps the run queues: it names an existing task, gives a priority in range, marks no queued
task `RUNNING`, and dispatches from a CPU whose pinned idle thread runs and whose task can decay. -/
def Keeps (s : Kernel) : Event → Prop
  | .ready t | .dead t | .sleep t _ | .zombie t | .stop t _ | .ioWakeup t | .setStatus t _ => t < s.nextID
  | .wakeup t => t < s.nextID ∧ (s.task t).onRq = false
  | .piBoost _ pri | .setPriority _ pri => pri < 32
  | .sched c => DispatchOk s c
  | .waitEvent c _ _ _ _ => ∀ i, s.idle c = some i → s.state i = .running ∧ s.current c ≠ some i
  | _ => True

section Events

lemma schedNewTask_sound (sound : Sound s) : Sound (schedNewTask s) := by
  have off : (s.task s.nextID).onRq = false := sound.off (by simp [sound.unborn s.nextID le_rfl])
  have fresh : Sound (s.upd s.nextID fun _ => { tgid := s.nextID, lastRunTick := s.sysTicks }) :=
    sound.upd off.symm (by simp [off]) ⟨(by decide : 12 < 32),(by decide : 12 < 32)⟩ fun _ => rfl
  exact ⟨fresh.queued.imp fun q queued => queued.congr ⟨fun _ => rfl,fun _ _ => ⟨rfl,rfl,rfl,rfl⟩,
      fun _ => rfl,fun _ => rfl,fun _ => rfl⟩,fresh.ready,fresh.range,
    fun t large => fresh.unborn t (Nat.le_of_succ_le large),fun t reference =>
      Nat.lt_succ_of_lt (sound.born t reference)⟩

lemma procFork_sound (sound : Sound s) (c : Cpu) : Sound (procFork s c) := by
  unfold procFork
  split
  · exact sound
  rename_i p _
  have created := schedNewTask_sound sound
  have off : ((schedNewTask s).task s.nextID).onRq = false := by simp [schedNewTask]
  refine created.upd rfl (by simp [off]) ?_ fun large => ?_
  · exact ⟨(sound.range p).2,(sound.range p).2⟩
  · exact absurd large (Nat.not_le.mpr (Nat.lt_succ_self _))

lemma apEntry_sound (sound : Sound s) (c : Cpu) : Sound (apEntry s c) := by
  unfold apEntry
  split
  · exact sound
  have off : ((schedNewTask s).task s.nextID).onRq = false := by simp [schedNewTask]
  have started : Sound ((schedNewTask s).upd s.nextID fun k =>
      { k with priority := 0, basePriority := 0, state := .running }) :=
    (schedNewTask_sound sound).upd rfl (by simp [off]) ⟨(by decide : 0 < 32),(by decide : 0 < 32)⟩ fun large =>
      absurd large (Nat.not_le.mpr (Nat.lt_succ_self _))
  refine started.congr rfl (fun d => ?_) rfl fun t reference => ?_
  · rw [updRq_rq]
    split <;> exact ⟨rfl,rfl,rfl⟩
  have here (f : Cpu → Option Tid) d : update f c (some s.nextID) d = some t → t = s.nextID ∨ f d = some t := by
    by_cases same : d = c
    · subst same
      simp only [update_self,Option.some.injEq]
      exact fun equal => .inl equal.symm
    · rw [update_of_ne same]
      exact .inr
  rcases reference with ⟨d,current⟩ | ⟨d,idle⟩ | waking
  · rcases here _ d current with rfl | before
    · exact Nat.lt_succ_self _
    · exact started.born t (.inl ⟨d,before⟩)
  · rcases here _ d idle with rfl | before
    · exact Nat.lt_succ_self _
    · exact started.born t (.inr (.inl ⟨d,before⟩))
  · exact started.born t (.inr (.inr waking))

lemma waitMark_sound (sound : Sound s) (known : t < s.nextID) (chan : Chan) (ticks deadline : UInt32) :
    Sound (waitMark s t chan ticks deadline) := by
  have frame := dequeue_frame (.refl s) t
  have waiting : Sound ((rqDequeueLocked s t).upd t fun k => { k with waitChan := some chan }) :=
    (sound.dequeue t).updRest ⟨rfl,rfl,rfl,rfl,rfl,rfl,rfl⟩
  have off : (((rqDequeueLocked s t).upd t fun k => { k with waitChan := some chan }).task t).onRq = false := by
    simpa using sound.dequeued t
  unfold waitMark
  split
  · exact (calls.calloutReset waiting _ t _).setState off (frame.nextID ▸ known) .wait
  · exact waiting.setState off (frame.nextID ▸ known) .wait

lemma waitMark_eq (s : Kernel) (t : Tid) (chan : Chan) (ticks deadline : UInt32) :
    ∃ callouts, waitMark s t chan ticks deadline =
      { ((rqDequeueLocked s t).upd t fun k => { k with waitChan := some chan }).setState t .wait with
        callouts := callouts } := by
  unfold waitMark
  split <;> exact ⟨_,rfl⟩

lemma waitMark_other (s : Kernel) (t : Tid) (chan : Chan) (ticks deadline : UInt32) :
    (waitMark s t chan ticks deadline).current = s.current ∧ (waitMark s t chan ticks deadline).idle = s.idle ∧
      (waitMark s t chan ticks deadline).state t = .wait ∧
      ∀ u ≠ t, (waitMark s t chan ticks deadline).state u = s.state u := by
  have frame := dequeue_frame (.refl s) t
  obtain ⟨callouts,shape⟩ := waitMark_eq s t chan ticks deadline
  rw [shape]
  refine ⟨frame.current,frame.idle,?_,fun u apart => ?_⟩
  · exact state_setState_self _ t .wait
  · have kept : ∀ k : Kernel, ({ k with callouts := callouts } : Kernel).state u = k.state u := fun _ => rfl
    rw [kept,Kernel.setState,state_upd_other _ _ apart,state_upd_other _ _ apart,frame.state]

lemma waitMark_dispatchOk (current : s.current c = some t)
    (busy : ∀ i, s.idle c = some i → s.state i = .running ∧ s.current c ≠ some i) :
    DispatchOk (waitMark s t chan ticks deadline) c := by
  obtain ⟨sameCurrent,sameIdle,waits,others⟩ := waitMark_other s t chan ticks deadline
  refine ⟨fun i pinned => ?_,fun u here run => ?_⟩
  · rw [sameIdle] at pinned
    obtain ⟨run,other⟩ := busy i pinned
    have apart : i ≠ t := fun same => other (same ▸ current)
    rwa [others i apart]
  · rw [sameCurrent,current] at here
    rw [← Option.some.inj here,waits] at run
    cases run

lemma schedWaitEventTimeout_sound (sound : Sound s)
    (busy : ∀ i, s.idle c = some i → s.state i = .running ∧ s.current c ≠ some i) (chan : Chan) (cond : Bool)
    (ticks deadline : UInt32) :
    Sound (schedWaitEventTimeout s c chan cond ticks deadline).2 := by
  unfold schedWaitEventTimeout
  split
  · exact sound
  rename_i t current
  split
  · exact sound
  exact schedCommon_sound (waitMark_sound sound (sound.known_current current) chan ticks deadline)
    (waitMark_dispatchOk current busy)

lemma step_sound (s : Kernel) (e : Event) (sound : Sound s) (keeps : Keeps s e) : Sound (step s e) := by
  by_cases small : mild e = true
  · exact calls.step sound small
  unfold step perform
  cases e with
  | newTask => exact schedNewTask_sound sound
  | fork c => exact procFork_sound sound c
  | apEntry c => exact apEntry_sound sound c
  | ready t => exact schedReady_sound sound keeps
  | dead t => exact schedSleep_sound sound keeps .dead
  | sleep t st => exact schedSleep_sound sound keeps st
  | wakeup t => exact sound.setState keeps.2 keeps.1 .running
  | zombie t => exact schedZombie_sound sound keeps
  | stop t sig => exact schedStop_sound sound keeps sig
  | piBoost t pri =>
    dsimp only [schedPiBoost]
    split
    · exact sound.requeue (priority_tune keeps)
    · exact sound
  | piRestore t =>
    dsimp only [schedPiRestore]
    split
    · exact sound.requeue restore_tune
    · exact sound
  | ioWakeup t => exact schedIoWakeup_sound sound keeps
  | setPriority t pri => exact sound.requeue (setPriority_tune keeps)
  | waitEvent c chan cond ticks deadline =>
    exact schedWaitEventTimeout_sound sound keeps chan cond ticks deadline
  | yieldEnter c =>
    dsimp only [yieldEnter]
    split
    · exact sound
    · exact sound.updRest ⟨rfl,rfl,rfl,rfl,rfl,rfl,rfl⟩
  | yieldReady c =>
    refine yieldReady_cases sound fun t current _ => ?_
    exact (sound.updRest ⟨rfl,rfl,rfl,rfl,rfl,rfl,rfl⟩).makeReady (sound.known_current current)
  | sched c => exact schedCommon_sound sound keeps
  | resumeUnlock c =>
    dsimp only [schedResumeUnlock]
    split
    · exact sound
    have saved : Sound (s.updRq c fun rq => { rq with switchingFrom := none }) :=
      rq_sound sound (fun _ => by exact ⟨rfl,rfl,rfl⟩) c
    exact saved.updRest ⟨rfl,rfl,rfl,rfl,rfl,rfl,rfl⟩
  | setStatus pid st =>
    refine schedSetStatus_cases sound (fun _ => ?_) (fun _ => schedReady_sound sound keeps) fun _ => ?_
    · exact schedSleep_sound sound keeps .dead
    · exact schedSleep_sound sound keeps st
  | runWaking i =>
    dsimp only [runWaking]
    split
    · exact sound
    rename_i t found
    refine schedReady_sound (waking_sound sound _ fun u member => ?_) ?_
    · exact sound.born u (.inr (.inr (List.mem_of_mem_eraseIdx member)))
    · exact sound.born t (.inr (.inr (List.mem_of_getElem? found)))
  | reparent dying =>
    exact Routine.foldl (calls.adopt (fun _ sound => sound.updRest ⟨rfl,rfl,rfl,rfl,rfl,rfl,rfl⟩) _ dying) sound _
  | collect c want untraced =>
    dsimp only [waitFindChild]
    split
    · exact sound
    split
    · exact sound
    split
    · exact sound.congr rfl (fun _ => ⟨rfl,rfl,rfl⟩) rfl sound.born
    · exact sound.updRest ⟨rfl,rfl,rfl,rfl,rfl,rfl,rfl⟩
  | tick => exact sound.congr rfl (fun _ => ⟨rfl,rfl,rfl⟩) rfl sound.born
  | _ => exact absurd rfl small

end Events

lemma boot_sound (acctPerCpu : Bool) : Sound (boot acctPerCpu) := by
  have off t : ((boot acctPerCpu).task t).onRq = false := by
    simp only [boot]
    split <;> rfl
  refine ⟨⟨fun _ _ => [],?_,?_,?_,?_,?_,?_⟩,?_,?_,?_,?_⟩
  · exact fun _ _ => .empty _
  · simp [off]
  · simp [off]
  · simp [boot]
  · exact fun _ _ _ => rfl
  · simp [boot]
  · simp [off]
  · intro t
    simp only [boot]
    split <;> decide
  · intro t large
    have : t ≠ 1 := by
      rintro rfl
      exact absurd large (by decide : ¬2 ≤ 1)
    simp [boot,state,this]
  rintro t (⟨c,current⟩ | ⟨c,idle⟩ | waking)
  · simp only [boot] at current
    split at current
    · cases current
      exact (by decide : 1 < 2)
    · cases current
  · cases idle
  · cases waking

/-- In every run whose events keep their conditions, every state reached has its tasks linked exactly where
`on_rq`, `rq_cpu` and `priority` say, with the masks and the load counters to match. -/
theorem run_queues_consistent (acctPerCpu : Bool) (events : List Event)
    (legal : Run.Legal step Keeps (boot acctPerCpu) events) :
    ∃ q, Queued (Run.after step (boot acctPerCpu) events) q :=
  (legal.invariant (fun s e => step_sound s e) (boot_sound acctPerCpu)).queued

theorem run_queues_consistent_boost : ∃ q, Queued (Run.after step (boot true)
    [.newTask,.ready 2,.piBoost 2 20,.sched 0]) q := by
  refine run_queues_consistent true _ ⟨trivial,(by decide : 2 < 3),(by decide : 20 < 32),⟨?_,?_⟩,trivial⟩
  · intro i pinned
    cases pinned
  intro t current
  cases current
  intro _ _ base
  cases base

/-- A task woken between `sched_sleep` and its own `sched_wakeup` is queued and `RUNNING`, so a boost moves it
to a bucket it is not linked in; and a base-0 task at priority 1 decays to priority 255. -/
theorem run_queues_inconsistent : (¬∃ q, Queued (Run.after step (boot true)
      [.sleep 1 .uninterruptible,.ready 1,.wakeup 1,.piBoost 1 20]) q) ∧
    ¬∃ q, Queued (Run.after step (boot true)
      [.newTask,.setPriority 2 0,.ready 2,.piBoost 2 1,.sleep 1 .wait,.sched 0,.yieldEnter 0,.sched 0]) q := by
  constructor
  · rintro ⟨q,queued⟩
    have ring := queued.ring 0 20
    have linked := (queued.member 1 0 20).mpr ⟨by decide +kernel,by decide +kernel,by decide +kernel⟩
    rw [(show (((Run.after step (boot true) [.sleep 1 .uninterruptible,.ready 1,.wakeup 1,.piBoost 1 20]).rq 0).bucket
      20) = none by decide +kernel)] at ring
    rw [ring.nil_of_none] at linked
    cases linked
  · rintro ⟨q,queued⟩
    have linked := (queued.member 2 0 255).mpr ⟨by decide +kernel,by decide +kernel,by decide +kernel⟩
    rw [queued.range 0 255 (by decide)] at linked
    cases linked

end UbixOS.Sched
