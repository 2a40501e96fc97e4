import UbixOS.Sched.Invariant

/-! A finished task stays finished, and a running task is current on one CPU: the
invariant on current tasks, idle threads and unfinished switches behind both. -/
namespace UbixOS.Sched

open Library Kernel Run

/-- Where running tasks are. A current task is marked on-CPU or still running, and the task a CPU is switching
from is nobody's current task until its mark is cleared. -/
structure Placed (s : Kernel) : Prop where
  running : ∀ t, s.state t = .running → (∃ c, s.current c = some t) ∨ ∃ c, s.idle c = some t
  unique : ∀ c d t, s.current c = some t → s.current d = some t → d = c
  marked : ∀ c t, s.current c = some t → (s.task t).onCpu = true ∨ s.state t = .running
  pinned : ∀ c i, s.idle c = some i → s.state i = .running ∧ (∀ d, s.current d = some i → d = c) ∧
    (∀ d, s.idle d = some i → d = c) ∧ ∀ d, (s.rq d).switchingFrom = some i → d = c
  saving : ∀ c x, (s.rq c).switchingFrom = some x → (s.task x).onCpu = true ∧ x < s.nextID ∧
    (∀ d, s.current d ≠ some x) ∧ ∀ d, (s.rq d).switchingFrom = some x → d = c

/-- No task starts to run; one that stops is not pinned and, if current, is marked; the finished stay so. -/
structure Shift (s s' : Kernel) : Prop where
  current : s'.current = s.current
  idle : s'.idle = s.idle
  nextID : s'.nextID = s.nextID
  switchingFrom : ∀ c, (s'.rq c).switchingFrom = (s.rq c).switchingFrom
  onCpu : ∀ t, (s'.task t).onCpu = (s.task t).onCpu
  started : ∀ t, s'.state t = .running → s.state t = .running
  stopped : ∀ t, s.state t = .running → s'.state t ≠ .running →
    (∀ c, s.idle c ≠ some t) ∧ ∀ c, s.current c = some t → (s.task t).onCpu = true
  finished : ∀ t, (s.state t).finished = true → (s'.state t).finished = true

namespace Shift

lemma refl (s : Kernel) : Shift s s :=
  ⟨rfl,rfl,rfl,fun _ => rfl,fun _ => rfl,fun _ => id,fun _ run other => absurd run other,fun _ => id⟩

lemma trans (first : Shift s s') (second : Shift s' s'') : Shift s s'' where
  current := second.current.trans first.current
  idle := second.idle.trans first.idle
  nextID := second.nextID.trans first.nextID
  switchingFrom c := (second.switchingFrom c).trans (first.switchingFrom c)
  onCpu t := (second.onCpu t).trans (first.onCpu t)
  started t run := first.started t (second.started t run)
  stopped t run other := by
    by_cases still : s'.state t = .running
    · have later := second.stopped t still other
      rwa [first.idle,first.current,first.onCpu] at later
    · exact first.stopped t run still
  finished t exited := second.finished t (first.finished t exited)

lemma quiet (quiet : Quiet s s') : Shift s s' where
  current := quiet.current
  idle := quiet.idle
  nextID := quiet.nextID
  switchingFrom := quiet.switchingFrom
  onCpu := quiet.onCpu
  started t := quiet.running.mp
  stopped t run other := absurd (quiet.running.mpr run) other
  finished t exited := by
    rcases quiet.state t with same | ⟨-,asleep⟩ | ⟨-,dead⟩
    · rwa [same]
    · cases state : s.state t <;> simp [state,TState.finished,TState.asleep] at exited asleep
    · simp [dead,TState.finished]

lemma enqueue (shift : Shift s s') (t : Tid) : Shift s (rqEnqueueLocked s' t) :=
  shift.trans (.quiet (.frame (enqueue_frame (.refl s') t)))

lemma dequeue (shift : Shift s s') (t : Tid) : Shift s (rqDequeueLocked s' t) :=
  shift.trans (.quiet (.frame (dequeue_frame (.refl s') t)))

lemma upd (shift : Shift s s') (onCpu : ∀ k, (f k).onCpu = k.onCpu)
    (idle : (f (s'.task t)).state = .running → s'.state t = .running)
    (mayStop : s'.state t = .running → (f (s'.task t)).state ≠ .running →
      (∀ c, s'.idle c ≠ some t) ∧ ∀ c, s'.current c = some t → (s'.task t).onCpu = true)
    (stays : (s'.state t).finished = true → (f (s'.task t)).state.finished = true) : Shift s (s'.upd t f) := by
  refine shift.trans ⟨rfl,rfl,rfl,fun _ => rfl,fun u => ?_,fun u => ?_,fun u => ?_,fun u => ?_⟩
  · rw [s'.upd_task]
    split
    · exact onCpu _
    · rfl
  all_goals by_cases same : u = t
  · subst same
    rwa [state_upd_self]
  · rw [state_upd_other s' f same]
    exact id
  · subst same
    rwa [state_upd_self]
  · rw [state_upd_other s' f same]
    exact fun run other => absurd run other
  · subst same
    rwa [state_upd_self]
  · rw [state_upd_other s' f same]
    exact id

lemma still (shift : Shift s s') (current : s''.current = s'.current) (idle : s''.idle = s'.idle)
    (nextID : s''.nextID = s'.nextID) (switchingFrom : ∀ c, (s''.rq c).switchingFrom = (s'.rq c).switchingFrom)
    (onCpu : ∀ t, (s''.task t).onCpu = (s'.task t).onCpu) (state : ∀ t, s''.state t = s'.state t) : Shift s s'' := by
  refine shift.trans ⟨current,idle,nextID,switchingFrom,onCpu,fun t => ?_,fun t => ?_,fun t => ?_⟩
  · rw [state]
    exact id
  · rw [state]
    exact fun run other => absurd run other
  · rw [state]
    exact id

lemma rest (shift : Shift s s') (keeps : ∀ k, (f k).onCpu = k.onCpu ∧ (f k).state = k.state) :
    Shift s (s'.upd t f) := by
  refine shift.still rfl rfl rfl (fun _ => rfl) (fun u => ?_) (state_upd_same s' (keeps _).2)
  rw [s'.upd_task]
  split
  · exact (keeps _).1
  · rfl

end Shift

lemma Placed.shift (placed : Placed s) (shift : Shift s s') : Placed s' where
  running t run := by
    rw [shift.current,shift.idle]
    exact placed.running t (shift.started t run)
  unique c d t := by
    rw [shift.current]
    exact placed.unique c d t
  marked c t current := by
    rw [shift.current] at current
    rw [shift.onCpu]
    rcases placed.marked c t current with on | run
    · exact .inl on
    by_cases still : s'.state t = .running
    · exact .inr still
    · exact .inl ((shift.stopped t run still).2 c current)
  pinned c i idle := by
    rw [shift.idle] at idle
    obtain ⟨run,current,other,saving⟩ := placed.pinned c i idle
    rw [shift.current,shift.idle]
    refine ⟨?_,current,other,fun d => ?_⟩
    · by_contra stopped
      exact (shift.stopped i run stopped).1 c idle
    · rw [shift.switchingFrom]
      exact saving d
  saving c x saving := by
    rw [shift.switchingFrom] at saving
    rw [shift.onCpu,shift.nextID,shift.current]
    obtain ⟨on,known,free,unique⟩ := placed.saving c x saving
    refine ⟨on,known,free,fun d => ?_⟩
    rw [shift.switchingFrom]
    exact unique d

section Dispatch

def Kernel.onCpuAt (s : Kernel) (c : Cpu) : Prop := ∀ t, s.current c = some t → (s.task t).onCpu = true

/-- What holds when a CPU changes to `next`: nobody else has it, and the task left behind no longer runs. -/
structure Switchable (s : Kernel) (c : Cpu) (next : Tid) : Prop where
  onCpu : s.onCpuAt c
  left : ∀ t, s.current c = some t → t ≠ next → s.state t = .running → s.idle c = some t
  free : ∀ d, s.current d = some next → d = c
  unsaved : ∀ d, (s.rq d).switchingFrom = some next → d = c ∧ s.current c ≠ some next
  unpinned : ∀ d, s.idle d = some next → d = c

lemma switchTo_task (s : Kernel) (c : Cpu) (next u : Tid) (apart : u ≠ next) :
    (switchTo s c next).task u = s.task u := by
  unfold switchTo
  dsimp only
  split <;> simp [upd_other _ _ apart]

lemma switchTo_next (s : Kernel) (c : Cpu) (next : Tid) : (switchTo s c next).state next = .running ∧
    ((switchTo s c next).task next).onCpu = true := by
  unfold switchTo state
  dsimp only
  split <;> simp

lemma switchTo_current (s : Kernel) (c d : Cpu) (next : Tid) :
    (switchTo s c next).current d = if d = c then some next else s.current d := by
  unfold switchTo
  dsimp only
  split <;> by_cases same : d = c <;> simp [same]

lemma switchTo_idle (s : Kernel) (c : Cpu) (next : Tid) : (switchTo s c next).idle = s.idle := by
  unfold switchTo
  dsimp only
  split <;> rfl

lemma switchTo_nextID (s : Kernel) (c : Cpu) (next : Tid) : (switchTo s c next).nextID = s.nextID := by
  unfold switchTo
  dsimp only
  split <;> rfl

lemma switchTo_switchingFrom (s : Kernel) (c d : Cpu) (next : Tid) : ((switchTo s c next).rq d).switchingFrom =
    if d = c ∧ s.current c ≠ some next then s.current c else (s.rq d).switchingFrom := by
  unfold switchTo
  dsimp only
  split
  next same => simp [same]
  rename_i other
  rw [updRq_rq]
  by_cases same : d = c <;> simp [same,other]

/-- A CPU's current task becomes `next`, which `pins` says is its idle thread from now on. -/
structure Takes (s s' : Kernel) (c : Cpu) (next : Tid) (pins : Prop) : Prop where
  current : ∀ d, s'.current d = if d = c then some next else s.current d
  idle : ∀ d i, s'.idle d = some i ↔ s.idle d = some i ∨ pins ∧ d = c ∧ i = next
  runs : s'.state next = .running
  task : ∀ u ≠ next, s'.task u = s.task u
  switching : ∀ d x, (s'.rq d).switchingFrom = some x → x ≠ next ∧
    ((s.rq d).switchingFrom = some x ∨ d = c ∧ s.current c = some x)
  nextID : s.nextID ≤ s'.nextID

lemma Takes.state (takes : Takes s s' c next pins) (apart : u ≠ next) : s'.state u = s.state u := by
  rw [Kernel.state,takes.task u apart]
  rfl

lemma Placed.takes (placed : Placed s) (sound : Sound s) (can : Switchable s c next)
    (takes : Takes s s' c next pins) : Placed s' := by
  -- Whoever is current now was so before, or is `next` on this CPU.
  have seated {d t} (here : s'.current d = some t) : d = c ∧ t = next ∨ d ≠ c ∧ s.current d = some t := by
    rw [takes.current] at here
    split at here
    next cpu => exact .inl ⟨cpu,(Option.some.inj here).symm⟩
    next other => exact .inr ⟨other,here⟩
  refine ⟨fun t run => ?_,fun d e t here there => ?_,fun d t here => ?_,fun d i idle => ?_,fun d x saving => ?_⟩
  · by_cases same : t = next
    · exact .inl ⟨c,by rw [takes.current,if_pos rfl,same]⟩
    rw [takes.state same] at run
    rcases placed.running t run with ⟨d,here⟩ | ⟨d,pinned⟩
    · by_cases cpu : d = c
      · subst cpu
        exact .inr ⟨d,(takes.idle d t).mpr (.inl (can.left t here same run))⟩
      · exact .inl ⟨d,by rw [takes.current,if_neg cpu,here]⟩
    · exact .inr ⟨d,(takes.idle d t).mpr (.inl pinned)⟩
  · rcases seated here with ⟨rfl,rfl⟩ | ⟨-,here⟩ <;> rcases seated there with ⟨cpu,same⟩ | ⟨-,there⟩
    · exact cpu
    · exact can.free e there
    · exact cpu.trans (can.free d (same ▸ here)).symm
    · exact placed.unique d e t here there
  · by_cases same : t = next
    · exact .inr (same ▸ takes.runs)
    rcases seated here with ⟨-,next⟩ | ⟨-,here⟩
    · exact absurd next same
    · rw [takes.task t same,takes.state same]
      exact placed.marked d t here
  · rcases (takes.idle d i).mp idle with old | ⟨-,rfl,rfl⟩
    · obtain ⟨run,current,other,saving⟩ := placed.pinned d i old
      refine ⟨?_,fun e here => ?_,fun e here => ?_,fun e from' => ?_⟩
      · by_cases same : i = next
        · exact same ▸ takes.runs
        · rwa [takes.state same]
      · rcases seated here with ⟨cpu,rfl⟩ | ⟨-,here⟩
        · exact cpu.trans (can.unpinned d old).symm
        · exact current e here
      · rcases (takes.idle e i).mp here with here | ⟨-,cpu,rfl⟩
        · exact other e here
        · exact cpu.trans (can.unpinned d old).symm
      · rcases (takes.switching e i from').2 with from' | ⟨cpu,here⟩
        · exact saving e from'
        · exact cpu.trans (current c here)
    · refine ⟨takes.runs,fun e here => ?_,fun e here => ?_,fun e from' => ?_⟩
      · rcases seated here with ⟨cpu,-⟩ | ⟨-,here⟩
        · exact cpu
        · exact can.free e here
      · rcases (takes.idle e i).mp here with here | ⟨-,cpu,-⟩
        · exact can.unpinned e here
        · exact cpu
      · exact absurd rfl (takes.switching e i from').1
  · obtain ⟨apart,saving⟩ := takes.switching d x saving
    have known : (s.task x).onCpu = true ∧ x < s.nextID ∧ ∀ e, e ≠ c → s.current e ≠ some x := by
      rcases saving with saving | ⟨rfl,here⟩
      · obtain ⟨on,known,free,-⟩ := placed.saving d x saving
        exact ⟨on,known,fun e _ => free e⟩
      · exact ⟨can.onCpu x here,sound.known_current here,fun e other there => other (placed.unique d e x here there)⟩
    refine ⟨by rw [takes.task x apart]; exact known.1,known.2.1.trans_le takes.nextID,fun e here => ?_,
      fun e from' => ?_⟩
    · rcases seated here with ⟨-,next⟩ | ⟨other,here⟩
      · exact apart next
      · exact known.2.2 e other here
    rcases saving with saving | ⟨rfl,here⟩ <;> rcases (takes.switching e x from').2 with from' | ⟨cpu,there⟩
    · exact (placed.saving d x saving).2.2.2 e from'
    · exact absurd there ((placed.saving d x saving).2.2.1 c)
    · exact absurd here ((placed.saving e x from').2.2.1 d)
    · exact cpu

lemma switchTo_placed (placed : Placed s) (sound : Sound s) (can : Switchable s c next) :
    Placed (switchTo s c next) := by
  refine placed.takes sound can (?_ : Takes s (switchTo s c next) c next False)
  refine ⟨fun d => switchTo_current s c d next,fun d i => by simp [switchTo_idle],(switchTo_next s c next).1,
    fun u => switchTo_task s c next u,fun d x saving => ?_,by rw [switchTo_nextID]⟩
  rw [switchTo_switchingFrom] at saving
  split at saving
  next cpu => exact ⟨fun same => cpu.2 (same ▸ saving),.inr ⟨cpu.1,saving⟩⟩
  next cpu => exact ⟨fun same => cpu (can.unsaved d (same ▸ saving)),.inl saving⟩

/-- The state from which the dispatcher picks: the current task is marked, and runs only if it is the idle thread. -/
structure Picking (s : Kernel) (c : Cpu) : Prop where
  sound : Sound s
  placed : Placed s
  onCpu : s.onCpuAt c
  left : ∀ t, s.current c = some t → s.state t = .running → s.idle c = some t

/-- What a CPU that goes on to pick may do: nobody finished comes back, and whoever is picked runs. -/
structure Picked (s s' : Kernel) (next : Option Tid) : Prop where
  placed : Placed s'
  finished : ∀ t, (s.state t).finished = true → (s'.state t).finished = true
  chosen : ∀ t, next = some t → s'.state t = .running

lemma switchTo_picked (placed : Placed s) (sound : Sound s) (can : Switchable s c next)
    (alive : (s.state next).finished = false) : Picked s (switchTo s c next) (some next) := by
  refine ⟨switchTo_placed placed sound can,fun t exited => ?_,fun t chosen => ?_⟩
  · have apart : t ≠ next := by
      rintro rfl
      simp [alive] at exited
    rwa [state,switchTo_task s c next t apart]
  · cases chosen
    exact (switchTo_next s c _).1

lemma Picked.after (picked : Picked s' s'' next)
    (before : ∀ t, (s.state t).finished = true → (s'.state t).finished = true) : Picked s s'' next :=
  ⟨picked.placed,fun t exited => picked.finished t (before t exited),picked.chosen⟩

lemma shift_picked (placed : Placed s) (shift : Shift s s') : Picked s s' none :=
  ⟨placed.shift shift,shift.finished,nofun⟩

lemma pick_idle (ready : Picking s c) (pinned : s.idle c = some i) (other : s.current c ≠ some i) :
    Picked s (switchTo s c i) (some i) := by
  obtain ⟨run,current,idle,saving⟩ := ready.placed.pinned c i pinned
  refine switchTo_picked ready.placed ready.sound ⟨ready.onCpu,fun t here _ run => ready.left t here run,current,
    fun d from' => ⟨saving d from',other⟩,idle⟩ ?_
  simp [run,TState.finished]

/-- A queued task is switched to only if it is this CPU's own or no CPU still holds its context. -/
lemma switchable_queued (ready : Picking s c) (queued : s.state next = .ready)
    (saved : s.current c = some next ∨ (s.task next).onCpu = false) : Switchable s c next := by
  refine ⟨ready.onCpu,fun t here _ run => ready.left t here run,fun d here => ?_,fun d from' => ?_,fun d pinned => ?_⟩
  · rcases saved with mine | clear
    · exact ready.placed.unique c d next mine here
    rcases ready.placed.marked d next here with on | run
    · simp [clear] at on
    · simp [queued] at run
  · obtain ⟨on,-,free,-⟩ := ready.placed.saving d next from'
    rcases saved with mine | clear
    · exact absurd mine (free c)
    · simp [clear] at on
  · have run := (ready.placed.pinned d next pinned).1
    simp [queued] at run

lemma Picking.dequeue (ready : Picking s c) (t : Tid) : Picking (rqDequeueLocked s t) c := by
  have frame := dequeue_frame (.refl s) t
  refine ⟨ready.sound.dequeue t,ready.placed.shift (.quiet (.frame frame)),fun u here => ?_,fun u here run => ?_⟩
  · rw [frame.onCpu]
    exact ready.onCpu u (frame.current ▸ here)
  · rw [frame.idle]
    exact ready.left u (frame.current ▸ here) ((frame.state u).symm.trans run)

lemma pick_picked (ready : Picking s c) : Picked s (pick s c).2 (pick s c).1 := by
  have still := shift_picked ready.placed (.refl s)
  unfold pick
  split
  · split
    · exact still
    rename_i i pinned
    split
    · exact still
    next other => exact pick_idle ready pinned other
  split
  · exact still
  rename_i next head
  have queued := bucket_ready ready.sound head
  have frame := dequeue_frame (.refl s) next
  have shift := (Shift.refl s).dequeue next
  have requeued : (rqDequeueLocked s next).state next = .ready := (frame.state next).trans queued
  dsimp only
  split
  · exact shift_picked ready.placed shift
  split
  · refine shift_picked ready.placed (shift.trans (.quiet ?_))
    exact (Quiet.refl _).makeReady (.inr requeued)
  rename_i alive saved
  have dequeued := ready.dequeue next
  have mine : (rqDequeueLocked s next).current c = some next ∨ ((rqDequeueLocked s next).task next).onCpu = false := by
    by_cases here : (rqDequeueLocked s next).current c = some next
    · exact .inl here
    · exact .inr (by simpa [here] using saved)
  have switched := switchTo_picked dequeued.placed dequeued.sound (switchable_queued dequeued requeued mine)
    (by simpa using alive)
  exact switched.after shift.finished

lemma Placed.markOnCpu (placed : Placed s) (c : Cpu) : Placed (markOnCpu s c) ∧ (markOnCpu s c).onCpuAt c := by
  unfold Sched.markOnCpu
  split
  next t current =>
    have state := state_upd_same s (t := t) (f := fun k => { k with onCpu := true }) rfl
    have onCpu u (on : (s.task u).onCpu = true) : ((s.upd t fun k => { k with onCpu := true }).task u).onCpu =
      true := by
      rw [s.upd_task]
      split
      · rfl
      · exact on
    refine ⟨⟨fun u run => placed.running u ((state u).symm.trans run),placed.unique,fun d u here => ?_,
      fun d i pinned => ?_,fun d x saving => ?_⟩,fun u here => ?_⟩
    · exact (placed.marked d u here).imp (onCpu u) (state u).trans
    · rw [state]
      exact placed.pinned d i pinned
    · exact ⟨onCpu x (placed.saving d x saving).1,(placed.saving d x saving).2⟩
    · obtain rfl : u = t := Option.some.inj (here.symm.trans current)
      simp
  next none =>
    refine ⟨placed,fun t here => ?_⟩
    rw [none] at here
    cases here

/-- Charging a tick stops at most the CPU's own task, which is then no longer running. -/
lemma preempt_shift (placed : Placed s) (onCpu : s.onCpuAt c) : Shift s (preempt s c).2 ∧
    ((preempt s c).1 = true → ∀ t, s.current c = some t → (preempt s c).2.state t = .running → s.idle c = some t) := by
  unfold preempt
  split
  next none =>
    refine ⟨.refl s,fun _ t here => ?_⟩
    rw [none] at here
    cases here
  rename_i t current
  split
  next running =>
    split
    · exact ⟨.refl s,nofun⟩
    have charged : Shift s (s.upd t fun k => { k with quantum := k.quantum - 1 }) :=
      (Shift.refl s).rest fun _ => ⟨rfl,rfl⟩
    dsimp only
    split
    · exact ⟨charged,nofun⟩
    refine ⟨?_,fun _ u here run => ?_⟩
    · have expired := charged.rest (t := t) (f := Task.expire) fun k => ⟨?_,(decay_state k).1⟩
      refine (expired.upd (fun _ => by rfl) (fun ready => by cases ready) (fun _ _ => ⟨?_,?_⟩) fun exited =>
        ?_).enqueue t
      · intro d pinned
        have mine := (placed.pinned d t pinned).2.1 c current
        exact running.2 (mine ▸ pinned)
      · intro d here
        rw [expired.onCpu]
        exact onCpu t current
      · have still : s.state t = .running := running.1
        simp [Task.expire,(decay_state _).1,← state.eq_def,still,TState.finished] at exited
      unfold Task.expire Task.decay
      split <;> split <;> rfl
    · obtain rfl : u = t := Option.some.inj (here.symm.trans current)
      simp at run
  next other =>
    refine ⟨.refl s,fun _ u here run => ?_⟩
    obtain rfl : u = t := Option.some.inj (here.symm.trans current)
    by_contra pinned
    exact other ⟨run,pinned⟩

/-- The dispatcher never brings a finished task back, and whoever it picks runs. -/
lemma schedCommon_picked (sound : Sound s) (placed : Placed s) (ok : DispatchOk s c) :
    Picked s (schedCommon s c).2 (schedCommon s c).1 := by
  have kept := maintain_kept sound c
  obtain ⟨marked,onCpu⟩ := placed.markOnCpu c
  have passed := marked.shift (.quiet kept.quiet)
  have finished t (exited : (s.state t).finished = true) : ((maintain s c).state t).finished = true :=
    (Shift.quiet kept.quiet).finished t (by rwa [markOnCpu_state])
  have onCpu' : (maintain s c).onCpuAt c := fun t here => by
    rw [kept.quiet.onCpu]
    exact onCpu t (kept.quiet.current ▸ here)
  obtain ⟨shift,left⟩ := preempt_shift passed onCpu'
  have charged := charge_sound sound ok
  unfold schedCommon
  split
  next s' shape =>
    rw [shape] at shift
    exact (shift_picked passed shift).after finished
  rename_i s' shape
  rw [shape] at shift left charged
  have picked : Picked s' (pick s' c).2 (pick s' c).1 := by
    refine pick_picked ⟨charged,passed.shift shift,fun t here => ?_,fun t here run => ?_⟩
    · rw [shift.onCpu]
      exact onCpu' t (shift.current ▸ here)
    · rw [shift.idle]
      exact left rfl t (shift.current ▸ here) run
  exact picked.after fun t exited => shift.finished t (finished t exited)

end Dispatch

/-- The task may stop running: it is no pinned idle thread, and the CPU it is current on has marked it. -/
def Kernel.mayStop (s : Kernel) (t : Tid) : Prop :=
  (∀ c, s.idle c ≠ some t) ∧ ∀ c, s.current c = some t → (s.task t).onCpu = true

/-- When an event brings no finished task back: `sched_ready` finds a task that has not exited and, if it runs, may
stop, a task that is put to sleep, stopped or ended may stop and is not brought back to life by it, and a task
that marks itself `RUNNING` or yields is the current one and has not exited. -/
def Lives (s : Kernel) : Event → Prop
  | .ready t => t < s.nextID ∧ (s.state t = .running → s.mayStop t) ∧ (s.state t).finished = false
  | .runWaking i => ∀ t, s.waking[i]? = some t → (s.state t = .running → s.mayStop t) ∧ (s.state t).finished = false
  | .dead t | .zombie t => t < s.nextID ∧ s.mayStop t
  | .sleep t st => t < s.nextID ∧ s.mayStop t ∧ st ≠ .running ∧ ((s.state t).finished = true → st.finished = true)
  | .setStatus t st => t < s.nextID ∧
    (if st = .ready then (s.state t = .running → s.mayStop t) ∧ (s.state t).finished = false
      else s.mayStop t ∧ st ≠ .running ∧ ((s.state t).finished = true → st.finished = true))
  | .stop t _ => t < s.nextID ∧ s.mayStop t ∧ (s.state t).finished = false
  | .wakeup t => t < s.nextID ∧ (s.task t).onRq = false ∧ (s.state t).finished = false ∧ ∃ c, s.current c = some t
  | .ioWakeup t => t < s.nextID
  | .piBoost _ pri | .setPriority _ pri => pri < 32
  | .sched c => ∀ t, s.current c = some t → s.state t = .running → s.idle c ≠ some t →
      (s.task t).basePriority = 0 → (s.task t).priority = 1 → 0 < (s.task t).boostQuanta
  | .waitEvent c _ _ _ _ => ∀ t, s.current c = some t → s.mayStop t ∧ (s.state t).finished = false
  | .yieldReady c => ∀ t, s.current c = some t → (s.task t).yielding = true →
      s.mayStop t ∧ (s.state t).finished = false
  | _ => True

lemma Placed.dispatchOk (placed : Placed s) (decay : ∀ t, s.current c = some t →
      s.state t = .running → s.idle c ≠ some t →
      (s.task t).basePriority = 0 → (s.task t).priority = 1 → 0 < (s.task t).boostQuanta) : DispatchOk s c :=
  ⟨fun i pinned => (placed.pinned c i pinned).1,decay⟩

/-- The conditions for the queues follow from these. -/
lemma Lives.keeps (placed : Placed s) (lives : Lives s e) : Keeps s e := by
  cases e with
  | ready t | dead t | zombie t | sleep t st | setStatus t st | stop t sig => exact lives.1
  | wakeup t => exact ⟨lives.1,lives.2.1⟩
  | ioWakeup t | piBoost t pri | setPriority t pri => exact lives
  | sched c => exact placed.dispatchOk lives
  | waitEvent c chan cond ticks deadline =>
    refine fun i pinned => ⟨(placed.pinned c i pinned).1,fun here => ?_⟩
    exact (lives i here).1.1 c pinned
  | _ => trivial

namespace Shift

lemma setState (shift : Shift s s') (sleeps : st ≠ .running) (may : s'.state t = .running → s'.mayStop t)
    (stays : (s'.state t).finished = true → st.finished = true) : Shift s (s'.setState t st) := by
  exact shift.upd (fun _ => by rfl) (fun run => absurd run sleeps) (fun run _ => may run) stays

lemma makeReady (shift : Shift s s') (may : s'.state t = .running → s'.mayStop t)
    (alive : (s'.state t).finished = false) : Shift s (makeReady s' t) := by
  refine (shift.setState (by simp) may fun exited => ?_).enqueue t
  simp [alive] at exited

lemma other (shift : Shift s s') (task : s''.task = s'.task) (rq : s''.rq = s'.rq)
    (current : s''.current = s'.current) (idle : s''.idle = s'.idle) (nextID : s''.nextID = s'.nextID) :
    Shift s s'' := by
  refine shift.still current idle nextID (fun c => by rw [rq]) (fun t => by rw [task]) fun t => ?_
  rw [state,task]
  rfl

lemma calls (s : Kernel) : Routine.Calls (Shift s) where
  aside shift aside := shift.trans (.quiet ((Quiet.routine _).aside (.refl _) aside))
  timers _ _ _ shift := shift.other rfl rfl rfl rfl rfl
  wake shift asleep := shift.trans (.quiet ((Quiet.routine _).wake (.refl _) asleep))
  boost shift asleep := shift.trans (.quiet ((Quiet.routine _).boost (.refl _) asleep))
  age shift ready below := shift.trans (.quiet ((Quiet.routine _).age (.refl _) ready below))
  migrate c shift found := shift.trans (.quiet ((Quiet.routine _).migrate c (.refl _) found))
  waking shift _ := shift.other rfl rfl rfl rfl rfl
  account c _ shift := by
    refine shift.still rfl rfl rfl (fun d => ?_) (fun _ => rfl) fun _ => rfl
    rw [updRq_rq]
    split <;> rfl

lemma requeue (shift : Shift s s') (keeps : ∀ k, (f k).onCpu = k.onCpu ∧ (f k).state = k.state) :
    Shift s (requeue s' t f) := by
  unfold Sched.requeue
  split
  · exact ((shift.dequeue t).rest keeps).enqueue t
  · exact shift.rest keeps

lemma mayStop (shift : Shift s s') (may : s.mayStop t) : s'.mayStop t := by
  unfold Kernel.mayStop at may ⊢
  rwa [shift.idle,shift.current,shift.onCpu]

end Shift

section Events

section
variable (shift : Shift s s')
include shift

lemma schedReady_shift (may : s'.state t = .running → s'.mayStop t) (alive : (s'.state t).finished = false) :
    Shift s (schedReady s' t) := by
  unfold schedReady
  split
  · exact shift
  · exact shift.makeReady may alive

lemma schedSleep_shift (may : s'.mayStop t) (sleeps : st ≠ .running)
    (stays : (s'.state t).finished = true → st.finished = true) : Shift s (schedSleep s' t st) := by
  have frame := (Shift.refl s').dequeue t
  refine (shift.trans frame).setState sleeps (fun _ => frame.mayStop may) fun exited => ?_
  rw [(dequeue_frame (.refl s') t).state] at exited
  exact stays exited

lemma schedZombie_shift (may : s'.mayStop t) : Shift s (schedZombie s' t) := by
  have frame : Shift s' (calloutStop (rqDequeueLocked s' t) .sleepWake t) :=
    ((Shift.refl s').dequeue t).other rfl rfl rfl rfl rfl
  exact (shift.trans frame).setState (by simp) (fun _ => frame.mayStop may) fun _ => rfl

lemma schedStop_shift (may : s'.mayStop t) (alive : (s'.state t).finished = false) (sig : Nat) :
    Shift s (schedStop s' t sig) := by
  have frame := (Shift.refl s').dequeue t
  refine (Shift.calls s).schedStop ?_
  refine (shift.trans frame).upd (fun _ => by rfl) nofun (fun _ _ => frame.mayStop may) fun exited => ?_
  rw [(dequeue_frame (.refl s') t).state,alive] at exited
  cases exited

lemma schedIoWakeup_shift (t : Tid) : Shift s (schedIoWakeup s' t) := by
  have keeps : ∀ k : Task, k.boost.onCpu = k.onCpu ∧ k.boost.state = k.state := fun _ => ⟨rfl,rfl⟩
  rw [schedIoWakeup_eq]
  split
  next sleeps =>
    have same : (s'.upd t Task.boost).state t = s'.state t := state_upd_self s' t Task.boost
    refine (shift.rest keeps).makeReady ?_ ?_
    · rw [same]
      exact fun run => absurd run sleeps.2.1
    · rw [same]
      exact sleeps.2.2
  · exact shift.requeue keeps

lemma waitMark_shift (may : s'.mayStop t) (alive : (s'.state t).finished = false) (chan : Chan)
    (ticks deadline : UInt32) : Shift s (waitMark s' t chan ticks deadline) := by
  have frame := (Shift.refl s').dequeue t
  have queued : Shift s' ((rqDequeueLocked s' t).upd t fun k => { k with waitChan := some chan }) :=
    frame.rest fun _ => ⟨rfl,rfl⟩
  have still : ((rqDequeueLocked s' t).upd t fun k => { k with waitChan := some chan }).state t = s'.state t := by
    rw [state_upd_self]
    exact (dequeue_frame (.refl s') t).state t
  obtain ⟨callouts,shape⟩ := waitMark_eq s' t chan ticks deadline
  have waits : Shift s (((rqDequeueLocked s' t).upd t fun k => { k with waitChan := some chan }).setState t .wait) := by
    refine (shift.trans queued).setState (by simp) (fun _ => queued.mayStop may) fun exited => ?_
    rw [still,alive] at exited
    cases exited
  rw [shape]
  exact waits.other rfl rfl rfl rfl rfl

end

lemma schedNewTask_task (s : Kernel) (apart : t ≠ s.nextID) : (schedNewTask s).task t = s.task t := by
  simp [schedNewTask,apart]

lemma schedNewTask_state (sound : Sound s) (t : Tid) : (schedNewTask s).state t = s.state t := by
  by_cases same : t = s.nextID
  · subst same
    rw [sound.unborn _ le_rfl]
    simp [state,schedNewTask]
  · rw [state,schedNewTask_task s same]
    rfl

lemma schedNewTask_placed (sound : Sound s) (placed : Placed s) : Placed (schedNewTask s) := by
  have state := schedNewTask_state sound
  refine ⟨fun t run => placed.running t ((state t).symm.trans run),placed.unique,fun c t here => ?_,
    fun c i pinned => ?_,fun c x saving => ?_⟩
  · have apart : t ≠ s.nextID := Nat.ne_of_lt (sound.known_current here)
    rw [schedNewTask_task s apart,state]
    exact placed.marked c t here
  · rw [state]
    exact placed.pinned c i pinned
  · obtain ⟨on,known,rest⟩ := placed.saving c x saving
    rw [schedNewTask_task s (Nat.ne_of_lt known)]
    exact ⟨on,Nat.lt_succ_of_lt known,rest⟩

lemma apEntry_takes (current : s.current c = none) (idle : s.idle c = none)
    (unsaved : ∀ d, (s.rq d).switchingFrom ≠ some s.nextID) : Takes s (apEntry s c) c s.nextID True := by
  unfold apEntry
  rw [if_neg (by simp [current,idle])]
  refine ⟨fun d => ?_,fun d i => ?_,?_,fun u apart => ?_,fun d x saving => ?_,Nat.le_succ _⟩
  · by_cases same : d = c <;> simp [same,schedNewTask]
  · by_cases same : d = c <;> simp [same,schedNewTask,idle,eq_comm]
  · simp [state]
  · rw [updRq_task]
    exact (upd_other _ _ apart).trans (schedNewTask_task s apart)
  have old : (s.rq d).switchingFrom = some x := by
    rw [← saving]
    rw [updRq_rq]
    split <;> rfl
  exact ⟨fun same => unsaved d (same ▸ old),.inl old⟩

lemma apEntry_refused (present : ¬(s.current c = none ∧ s.idle c = none)) : apEntry s c = s := by
  unfold apEntry
  rw [if_pos]
  by_contra both
  exact present (by simpa using both)

/-- A processor that enters the scheduler brings its own idle thread and takes nobody else's place. -/
lemma apEntry_picked (sound : Sound s) (placed : Placed s) (c : Cpu) : Picked s (apEntry s c) none := by
  by_cases absent : s.current c = none ∧ s.idle c = none
  · have fresh : ∀ d, s.current d ≠ some s.nextID := fun d here => Nat.lt_irrefl _ (sound.known_current here)
    have unpinned : ∀ d, s.idle d ≠ some s.nextID := fun d here =>
      Nat.lt_irrefl _ (sound.born _ (.inr (.inl ⟨d,here⟩)))
    have unsaved : ∀ d, (s.rq d).switchingFrom ≠ some s.nextID := fun d here =>
      Nat.lt_irrefl _ (placed.saving d _ here).2.1
    have takes := apEntry_takes absent.1 absent.2 unsaved
    have can : Switchable s c s.nextID :=
      ⟨fun t here => by simp [absent.1] at here,fun t here => by simp [absent.1] at here,fun d here =>
        absurd here (fresh d),
        fun d here => absurd here (unsaved d),fun d here => absurd here (unpinned d)⟩
    refine ⟨placed.takes sound can takes,fun t exited => ?_,nofun⟩
    have apart : t ≠ s.nextID := by
      rintro rfl
      simp [sound.unborn _ le_rfl,TState.finished] at exited
    rwa [takes.state apart]
  · rw [apEntry_refused absent]
    exact shift_picked placed (.refl s)

lemma schedWakeup_placed (placed : Placed s) (here : s.current c = some t) : Placed (schedWakeup s t) := by
  have state u (apart : u ≠ t) : (schedWakeup s t).state u = s.state u := by
    unfold schedWakeup setState
    exact state_upd_other s _ apart
  have runs : (schedWakeup s t).state t = .running := state_setState_self s t .running
  have onCpu u : ((schedWakeup s t).task u).onCpu = (s.task u).onCpu := by
    unfold schedWakeup setState
    rw [s.upd_task]
    split <;> rfl
  refine ⟨fun u run => ?_,placed.unique,fun d u held => ?_,fun d i pinned => ?_,fun d x saving => ?_⟩
  · by_cases same : u = t
    · exact .inl ⟨c,same ▸ here⟩
    · exact placed.running u ((state u same).symm.trans run)
  · by_cases same : u = t
    · exact .inr (same ▸ runs)
    · rw [onCpu,state u same]
      exact placed.marked d u held
  · refine ⟨?_,(placed.pinned d i pinned).2⟩
    by_cases same : i = t
    · exact same ▸ runs
    · exact (state i same).trans (placed.pinned d i pinned).1
  · rw [onCpu]
    exact placed.saving d x saving

lemma resumeUnlock_state (s : Kernel) (c : Cpu) (u : Tid) : (schedResumeUnlock s c).state u = s.state u := by
  unfold schedResumeUnlock
  split
  · rfl
  · exact state_upd_same _ rfl u

/-- Clearing the mark of the task left behind: it is nobody's current task. -/
lemma resumeUnlock_placed (placed : Placed s) (c : Cpu) : Placed (schedResumeUnlock s c) := by
  unfold schedResumeUnlock
  split
  · exact placed
  rename_i prev from'
  obtain ⟨-,-,free,alone⟩ := placed.saving c prev from'
  have state : ∀ u, ((s.updRq c fun rq => { rq with switchingFrom := none }).upd prev fun k =>
      { k with onCpu := false }).state u = s.state u := state_upd_same _ rfl
  have onCpu : ∀ u ≠ prev, (((s.updRq c fun rq => { rq with switchingFrom := none }).upd prev fun k =>
      { k with onCpu := false }).task u).onCpu = (s.task u).onCpu := fun u apart => by
    rw [upd_other _ _ apart]
    rfl
  have switching d x (saving : ((s.updRq c fun rq => { rq with switchingFrom := none }).rq d).switchingFrom = some x) :
      d ≠ c ∧ (s.rq d).switchingFrom = some x := by
    rw [updRq_rq] at saving
    split at saving
    · cases saving
    next other => exact ⟨other,saving⟩
  refine ⟨fun u run => placed.running u ((state u).symm.trans run),placed.unique,fun d u held => ?_,
    fun d i pinned => ?_,fun d x saving => ?_⟩
  · rw [onCpu u fun same => free d (same ▸ held),state]
    exact placed.marked d u held
  · obtain ⟨run,held,other,saving⟩ := placed.pinned d i pinned
    exact ⟨(state i).trans run,held,other,fun e saves => saving e (switching e i saves).2⟩
  obtain ⟨other,saving⟩ := switching d x saving
  have apart : x ≠ prev := fun same => other (alone d (same ▸ saving))
  obtain ⟨on,known,free,unique⟩ := placed.saving d x saving
  rw [onCpu x apart]
  exact ⟨on,known,free,fun e saves => unique e (switching e x saves).2⟩

lemma schedNewTask_picked (sound : Sound s) (placed : Placed s) : Picked s (schedNewTask s) none := by
  refine ⟨schedNewTask_placed sound placed,fun t exited => ?_,nofun⟩
  rwa [schedNewTask_state sound]

lemma procFork_picked (sound : Sound s) (placed : Placed s) (c : Cpu) : Picked s (procFork s c) none := by
  unfold procFork
  split
  · exact shift_picked placed (.refl s)
  rename_i p current
  have created := schedNewTask_picked sound placed
  have inherits : Shift (schedNewTask s) ((schedNewTask s).upd s.nextID ((s.task p).inherit p)) :=
    (Shift.refl _).rest fun _ => ⟨rfl,rfl⟩
  exact (shift_picked created.placed inherits).after created.finished

lemma schedWaitEventTimeout_picked (sound : Sound s) (placed : Placed s) {chan : Chan} {cond : Bool}
    (lives : Lives s (.waitEvent c chan cond ticks deadline)) :
    Picked s (schedWaitEventTimeout s c chan cond ticks deadline).2
      (schedWaitEventTimeout s c chan cond ticks deadline).1 := by
  unfold schedWaitEventTimeout
  split
  · exact shift_picked placed (.refl s)
  rename_i t current
  split
  · exact shift_picked placed (.refl s)
  obtain ⟨may,alive⟩ := lives t current
  have marked := waitMark_shift (.refl s) may alive chan ticks deadline
  have busy : ∀ i, s.idle c = some i → s.state i = .running ∧ s.current c ≠ some i := lives.keeps placed
  have picked := schedCommon_picked (waitMark_sound sound (sound.known_current current) chan ticks deadline)
    (placed.shift marked) (waitMark_dispatchOk current busy)
  exact picked.after marked.finished

lemma mild_stays (small : mild e = true) : (perform s e).1 = none := by
  cases e <;> first | rfl | cases small

/-- No event brings a finished task back under its condition, and whoever is switched to runs. -/
lemma step_picked (s : Kernel) (e : Event) (sound : Sound s) (placed : Placed s) (lives : Lives s e) :
    Picked s (step s e) (perform s e).1 := by
  have same := Shift.refl s
  by_cases small : mild e = true
  · rw [mild_stays small]
    exact shift_picked placed ((Shift.calls s).step same small)
  unfold step perform
  cases e with
  | newTask => exact schedNewTask_picked sound placed
  | fork c => exact procFork_picked sound placed c
  | apEntry c => exact apEntry_picked sound placed c
  | ready t => exact shift_picked placed (schedReady_shift same lives.2.1 lives.2.2)
  | dead t => exact shift_picked placed (schedSleep_shift same lives.2 (by simp) fun _ => rfl)
  | sleep t st => exact shift_picked placed (schedSleep_shift same lives.2.1 lives.2.2.1 lives.2.2.2)
  | wakeup t =>
    obtain ⟨-,-,alive,c,here⟩ := lives
    refine ⟨schedWakeup_placed placed here,fun u exited => ?_,nofun⟩
    have apart : u ≠ t := by
      rintro rfl
      simp [alive] at exited
    dsimp only [schedWakeup,setState]
    rwa [state_upd_other s _ apart]
  | zombie t => exact shift_picked placed (schedZombie_shift same lives.2)
  | stop t sig => exact shift_picked placed (schedStop_shift same lives.2.1 lives.2.2 sig)
  | piBoost t pri =>
    refine shift_picked placed ?_
    dsimp only [schedPiBoost]
    split
    · exact same.requeue fun _ => ⟨rfl,rfl⟩
    · exact same
  | piRestore t =>
    refine shift_picked placed ?_
    dsimp only [schedPiRestore]
    split
    · exact same.requeue fun _ => ⟨rfl,rfl⟩
    · exact same
  | ioWakeup t => exact shift_picked placed (schedIoWakeup_shift same t)
  | setPriority t pri => exact shift_picked placed (same.requeue fun _ => ⟨rfl,rfl⟩)
  | waitEvent c chan cond ticks deadline => exact schedWaitEventTimeout_picked sound placed lives
  | yieldEnter c =>
    refine shift_picked placed ?_
    dsimp only [yieldEnter]
    split
    · exact same
    · exact same.rest fun _ => ⟨rfl,rfl⟩
  | yieldReady c =>
    refine shift_picked placed (yieldReady_cases same fun t current yields => ?_)
    obtain ⟨may,alive⟩ := lives t current yields
    have left : Shift s (s.upd t fun k => { k with yielding := false }) := same.rest fun _ => ⟨rfl,rfl⟩
    refine left.makeReady (fun _ => left.mayStop may) ?_
    rw [state_upd_self]
    exact alive
  | sched c => exact schedCommon_picked sound placed (placed.dispatchOk lives)
  | resumeUnlock c =>
    refine ⟨resumeUnlock_placed placed c,fun t exited => ?_,nofun⟩
    rwa [resumeUnlock_state]
  | setStatus pid st =>
    obtain ⟨known,allowed⟩ := lives
    refine shift_picked placed (schedSetStatus_cases same (fun dead => ?_) (fun ready => ?_) fun other => ?_)
    · rw [dead] at allowed
      exact schedSleep_shift same allowed.1 (by simp) fun _ => rfl
    · rw [if_pos ready] at allowed
      exact schedReady_shift same allowed.1 allowed.2
    · rw [if_neg other] at allowed
      exact schedSleep_shift same allowed.1 allowed.2.1 allowed.2.2
  | runWaking i =>
    refine shift_picked placed ?_
    dsimp only [runWaking]
    split
    · exact same
    rename_i t found
    obtain ⟨idle,alive⟩ := lives t found
    refine schedReady_shift ?_ idle alive
    exact same.other rfl rfl rfl rfl rfl
  | reparent dying =>
    refine shift_picked placed (Routine.foldl ((Shift.calls s).adopt ?_ _ dying) same _)
    exact fun _ shift => shift.rest fun _ => ⟨rfl,rfl⟩
  | collect c want untraced =>
    refine shift_picked placed ?_
    dsimp only [waitFindChild]
    split
    · exact same
    split
    · exact same
    split
    · exact same.other rfl rfl rfl rfl rfl
    · exact same.rest fun _ => ⟨rfl,rfl⟩
  | tick => exact shift_picked placed (same.other rfl rfl rfl rfl rfl)
  | _ => exact absurd rfl small

end Events

lemma boot_placed (acctPerCpu : Bool) : Placed (boot acctPerCpu) := by
  have runs c t (current : (boot acctPerCpu).current c = some t) : c = 0 ∧ t = 1 := by
    simp only [boot] at current
    split at current
    next first =>
      cases current
      exact ⟨first,rfl⟩
    · cases current
  refine ⟨fun t run => .inl ⟨0,?_⟩,fun c d t here there => ?_,fun c t here => ?_,(by intros; contradiction),
    (by intros; contradiction)⟩
  · by_cases first : t = 1
    · rw [first]
      rfl
    · simp [boot,state,first] at run
  · rw [(runs c t here).1,(runs d t there).1]
  · rw [(runs c t here).2]
    exact .inr rfl

/-- What every event keeps under its condition. -/
structure Steady (s : Kernel) : Prop where
  sound : Sound s
  placed : Placed s

lemma step_steady (s : Kernel) (e : Event) (steady : Steady s) (lives : Lives s e) : Steady (step s e) :=
  ⟨step_sound s e steady.sound (lives.keeps steady.placed),(step_picked s e steady.sound steady.placed lives).placed⟩

lemma boot_steady (acctPerCpu : Bool) : Steady (boot acctPerCpu) := ⟨boot_sound acctPerCpu,boot_placed acctPerCpu⟩

namespace Steady

lemma running (steady : Steady s) (run : s.state t = .running) : (s.task t).onRq = false ∧
    ((∃! c, s.current c = some t) ∨ ∃ c, s.idle c = some t) := by
  refine ⟨steady.sound.off (by simp [run]),(steady.placed.running t run).imp_left ?_⟩
  rintro ⟨c,here⟩
  exact ⟨c,here,fun d there => steady.placed.unique c d t here there⟩

lemma unlinked (steady : Steady s) (exited : (s.state t).finished = true) : ∃ q, Queued s q ∧ ∀ c p, t ∉ q c p := by
  obtain ⟨q,queued⟩ := steady.sound.queued
  have off : (s.task t).onRq = false := steady.sound.off fun ready => by simp [ready,TState.finished] at exited
  refine ⟨q,queued,fun c p linked => ?_⟩
  have on := ((queued.member t c p).mp linked).1
  rw [off] at on
  cases on

end Steady

/-- No task is current on two CPUs. Until a CPU has saved the task it left, no CPU runs that task. -/
theorem left_task_unclaimed (acctPerCpu : Bool) (events : List Event)
    (legal : Run.Legal step Lives (boot acctPerCpu) events) (c d : Cpu) (t : Tid) :
    let s := after step (boot acctPerCpu) events
    (s.current c = some t → s.current d = some t → d = c) ∧
    ((s.rq c).switchingFrom = some t → (s.task t).onCpu = true ∧ s.current d ≠ some t ∧
      ((s.rq d).switchingFrom = some t → d = c)) := by
  intro s
  have placed := (legal.invariant step_steady (boot_steady acctPerCpu)).placed
  refine ⟨placed.unique c d t,fun left => ?_⟩
  obtain ⟨marked,-,nowhere,once⟩ := placed.saving c t left
  exact ⟨marked,nowhere d,once d⟩

theorem left_task_unclaimed_dead :
    (after step (boot true) [.sched 0,.newTask,.ready 2,.dead 1,.sched 0]).current 1 ≠ some 1 := by
  have mayStop : (after step (boot true) [.sched 0,.newTask,.ready 2]).mayStop 1 := by
    unfold Kernel.mayStop
    decide +kernel
  have legal : Run.Legal step Lives (boot true) [.sched 0,.newTask,.ready 2,.dead 1,.sched 0] := by
    refine ⟨fun t here _ _ base => ?_,trivial,⟨by decide,fun run => absurd run (by decide),by decide⟩,
      ⟨by decide,mayStop⟩,
      fun t here run => ?_,trivial⟩
    · cases here
      cases base
    · cases here
      cases run
  exact ((left_task_unclaimed true _ legal 0 1 1).2 (by decide +kernel)).2.1

end UbixOS.Sched
