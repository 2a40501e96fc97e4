import UbixOS.Sched.Routine

/-! The run-queue invariant over all entry points: only `READY` tasks are queued,
so whoever changes another task's state or priority finds it off the queues. -/
namespace UbixOS.Sched

open Library Kernel

/-- Every reference the dispatcher follows without a test of the state. -/
def Kernel.refers (s : Kernel) (t : Tid) : Prop :=
  (∃ c, s.current c = some t) ∨ (∃ c, s.idle c = some t) ∨ t ∈ s.waking

lemma Frame.refers (frame : Frame s s') : s'.refers t ↔ s.refers t := by
  unfold Kernel.refers
  rw [frame.current,frame.idle,frame.waking]

structure Sound (s : Kernel) : Prop where
  queued : ∃ q, Queued s q
  ready : ∀ t, (s.task t).onRq = true → s.state t = .ready
  range : ∀ t, (s.task t).priority < 32 ∧ (s.task t).basePriority < 32
  unborn : ∀ t, s.nextID ≤ t → s.state t = .new
  born : ∀ t, s.refers t → t < s.nextID

namespace Sound

section
variable (sound : Sound s)
include sound

lemma off (awake : s.state t ≠ .ready) : (s.task t).onRq = false := by
  by_contra on
  exact awake (sound.ready t (by simpa using on))

lemma upd (onRq : (f (s.task t)).onRq = (s.task t).onRq)
    (place : (s.task t).onRq = true → (f (s.task t)).rqCpu = (s.task t).rqCpu ∧
      (f (s.task t)).priority = (s.task t).priority ∧ (f (s.task t)).rqNext = (s.task t).rqNext ∧
      (f (s.task t)).rqPrev = (s.task t).rqPrev ∧ (f (s.task t)).state = .ready)
    (range : (f (s.task t)).priority < 32 ∧ (f (s.task t)).basePriority < 32)
    (unborn : s.nextID ≤ t → (f (s.task t)).state = .new) : Sound (s.upd t f) where
  queued := by
    obtain ⟨q,queued⟩ := sound.queued
    refine ⟨q,queued.congr (.upd s t onRq fun on => ?_)⟩
    obtain ⟨rqCpu,priority,next,prev,-⟩ := place on
    exact ⟨rqCpu,priority,next,prev⟩
  ready u on := by
    unfold state
    rw [s.upd_task] at on ⊢
    split at on
    next same =>
      subst same
      rw [if_pos rfl]
      exact (place (onRq ▸ on)).2.2.2.2
    next other =>
      rw [if_neg other]
      exact sound.ready u on
  range u := by
    rw [s.upd_task]
    split
    next same => exact same ▸ range
    · exact sound.range u
  unborn u large := by
    unfold state
    rw [s.upd_task]
    split
    next same =>
      subst same
      exact unborn large
    · exact sound.unborn u large
  born := sound.born

lemma updRest (same : (f (s.task t)).state = (s.task t).state ∧
      (f (s.task t)).priority = (s.task t).priority ∧ (f (s.task t)).basePriority = (s.task t).basePriority ∧
      (f (s.task t)).onRq = (s.task t).onRq ∧ (f (s.task t)).rqCpu = (s.task t).rqCpu ∧
      (f (s.task t)).rqNext = (s.task t).rqNext ∧ (f (s.task t)).rqPrev = (s.task t).rqPrev) : Sound (s.upd t f) := by
  obtain ⟨state,priority,base,onRq,rqCpu,next,prev⟩ := same
  refine sound.upd onRq (fun on => ⟨rqCpu,priority,next,prev,state.trans (sound.ready t on)⟩) ?_ fun large => ?_
  · rw [priority,base]
    exact sound.range t
  · exact state.trans (sound.unborn t large)

lemma setState (off : (s.task t).onRq = false) (known : t < s.nextID) (st : TState) : Sound (s.setState t st) :=
  sound.upd rfl (by simp [off]) (sound.range t) fun large => absurd large (Nat.not_le.mpr known)

lemma congr (task : s'.task = s.task) (rq : ∀ c, (s'.rq c).bucket = (s.rq c).bucket ∧
      (s'.rq c).readyMask = (s.rq c).readyMask ∧ (s'.rq c).nrRunning = (s.rq c).nrRunning)
    (nextID : s'.nextID = s.nextID) (born : ∀ t, s'.refers t → t < s.nextID) : Sound s' where
  queued := by
    obtain ⟨q,queued⟩ := sound.queued
    refine ⟨q,queued.congr ⟨?_,?_,fun c => (rq c).1,fun c => (rq c).2.1,fun c => (rq c).2.2⟩⟩
    · simp [task]
    · simp [task]
  ready u on := by
    unfold state
    rw [task] at on ⊢
    exact sound.ready u on
  range u := by
    rw [task]
    exact sound.range u
  unborn u large := by
    unfold state
    rw [task]
    exact sound.unborn u (nextID ▸ large)
  born u reference := by
    rw [nextID]
    exact born u reference

lemma framed (frame : Frame s s') (queued : ∃ q, Queued s' q)
    (ready : ∀ u, (s'.task u).onRq = true → s.state u = .ready) : Sound s' where
  queued := queued
  ready u on := (frame.state u).trans (ready u on)
  range u := by
    rw [frame.priority,frame.basePriority]
    exact sound.range u
  unborn u large := (frame.state u).trans (sound.unborn u (frame.nextID ▸ large))
  born u reference := by
    rw [frame.nextID]
    exact sound.born u (frame.refers.mp reference)

lemma enqueue (ready : s.state t = .ready) : Sound (rqEnqueueLocked s t) := by
  by_cases on : (s.task t).onRq = true
  · rwa [rqEnqueueLocked,if_pos on]
  have off : (s.task t).onRq = false := by simpa using on
  have alive : (s.state t).finished = false := by simp [ready,TState.finished]
  obtain ⟨q,queued⟩ := sound.queued
  obtain ⟨c,queued'⟩ := queued.enqueue off alive (sound.range t).1
  refine sound.framed (enqueue_frame (.refl s) t) ⟨_,queued'⟩ fun u stays => ?_
  by_cases same : u = t
  · rw [same,ready]
  · exact sound.ready u ((enqueue_onRq_other s same).symm.trans stays)

lemma dequeue (t : Tid) : Sound (rqDequeueLocked s t) := by
  obtain ⟨q,queued⟩ := sound.queued
  refine sound.framed (dequeue_frame (.refl s) t) ?_ fun u stays => ?_
  · by_cases on : (s.task t).onRq = true
    · obtain ⟨c,home⟩ := Option.ne_none_iff_exists'.mp (queued.home t on)
      exact ⟨_,queued.dequeue on home⟩
    · rw [rqDequeueLocked,if_pos (by simpa using on)]
      exact sound.queued
  · rw [queued.dequeue_onRq] at stays
    exact sound.ready u (by simp_all)

lemma dequeued (t : Tid) : ((rqDequeueLocked s t).task t).onRq = false := by
  obtain ⟨q,queued⟩ := sound.queued
  simp [queued.dequeue_onRq]

lemma makeReady (known : t < s.nextID) : Sound (makeReady s t) := by
  refine enqueue (sound.upd rfl (fun _ => ⟨rfl,rfl,rfl,rfl,rfl⟩) (sound.range t) fun large => ?_) ?_
  · exact absurd large (Nat.not_le.mpr known)
  · simp [state]

lemma known (started : s.state t ≠ .new) : t < s.nextID := by
  by_contra large
  exact started (sound.unborn t (Nat.not_lt.mp large))

lemma known_of_asleep (asleep : (s.state t).asleep = true) : t < s.nextID :=
  sound.known fun new => by simp [new,TState.asleep] at asleep

lemma off_of_asleep (asleep : (s.state t).asleep = true) : (s.task t).onRq = false :=
  sound.off fun ready => by simp [ready,TState.asleep] at asleep

lemma known_of_ready (ready : s.state t = .ready) : t < s.nextID :=
  sound.known fun new => by simp [new] at ready

end

end Sound

/-- A change of scheduling parameters that keeps them in range. -/
structure Tune (f : Task → Task) : Prop where
  keeps : ∀ k, (f k).onRq = k.onRq ∧ (f k).state = k.state
  range : ∀ k, k.priority < 32 → k.basePriority < 32 → (f k).priority < 32 ∧ (f k).basePriority < 32

namespace Sound

lemma tune (sound : Sound s) (tune : Tune f) (off : (s.task t).onRq = false) : Sound (s.upd t f) := by
  obtain ⟨onRq,state⟩ := tune.keeps (s.task t)
  refine sound.upd onRq (by simp [off]) (tune.range _ (sound.range t).1 (sound.range t).2) fun large => ?_
  exact state.trans (sound.unborn t large)

lemma retune (sound : Sound s) (tune : Tune f) (ready : s.state t = .ready) :
    Sound (rqEnqueueLocked ((rqDequeueLocked s t).upd t f) t) := by
  refine ((sound.dequeue t).tune tune (sound.dequeued t)).enqueue ?_
  rw [state,upd_self,(tune.keeps _).2]
  exact ((dequeue_frame (.refl s) t).state t).trans ready

lemma requeue (sound : Sound s) (tune : Tune f) : Sound (requeue s t f) := by
  unfold Sched.requeue
  split
  next ready => exact sound.retune tune ready
  next other => exact sound.tune tune (sound.off other)

end Sound

lemma boost_tune : Tune Task.boost where
  keeps _ := ⟨rfl,rfl⟩
  range k small base := by
    refine ⟨?_,base⟩
    simp only [Task.boost]
    omega

lemma restore_tune : Tune fun k => { k with priority := k.basePriority } where
  keeps _ := ⟨rfl,rfl⟩
  range _ _ base := ⟨base,base⟩

lemma priority_tune (small : pri < 32) : Tune fun k => { k with priority := pri } where
  keeps _ := ⟨rfl,rfl⟩
  range _ _ base := ⟨small,base⟩

lemma setPriority_tune (small : pri < 32) :
    Tune fun k => { k with basePriority := pri, priority := pri, boostQuanta := 0 } where
  keeps _ := ⟨rfl,rfl⟩
  range _ _ _ := ⟨small,small⟩

section Routine

lemma age_range {k : Task} (below : k.priority < min (u8 (k.basePriority + 8)) 23) : u8 (k.priority + 1) < 32 := by
  simp only [u8] at *
  omega

lemma walkRing_mem (ring : s.links.Ring head L)
    (start : it ∈ L) (found : walkRing s fits from_ n it = some t) : t ∈ L := by
  induction n generalizing it with
  | zero => cases found
  | succ n ih =>
    unfold walkRing at found
    split at found
    · exact Option.some.inj found ▸ start
    split at found
    next next link =>
      split at found
      · cases found
      · exact ih (ring.next_mem start link) found
    · cases found

/-- The balancer moves tasks that are queued, hence `READY`. -/
lemma victim_ready (sound : Sound s) (found : victim s now c = some t) : s.state t = .ready := by
  obtain ⟨q,queued⟩ := sound.queued
  obtain ⟨b,-,found⟩ := List.exists_of_findSome?_eq_some found
  split at found
  · obtain ⟨head,bucket,walk⟩ := Option.bind_eq_some_iff.mp found
    have ring := queued.ring c b
    rw [bucket] at ring
    exact sound.ready t ((queued.member t c b).mp (walkRing_mem ring ring.head_mem walk)).1
  · cases found

lemma migrate_tune (now : UInt32) (recip : Cpu) :
    Tune fun k => { k with rqCpu := some recip, lastMigrateTick := now } where
  keeps _ := ⟨rfl,rfl⟩
  range _ small base := ⟨small,base⟩

lemma waking_sound (sound : Sound s) (waking : List Tid) (known : ∀ u ∈ waking, u < s.nextID) :
    Sound { s with waking := waking } := by
  refine sound.congr rfl (fun _ => ⟨rfl,rfl,rfl⟩) rfl fun u reference => ?_
  rcases reference with current | idle | waking
  · exact sound.born u (.inl current)
  · exact sound.born u (.inr (.inl idle))
  · exact known u waking

lemma rq_sound (sound : Sound s) (keeps : ∀ rq, (f rq).bucket = rq.bucket ∧
      (f rq).readyMask = rq.readyMask ∧ (f rq).nrRunning = rq.nrRunning) (c : Cpu) : Sound (s.updRq c f) := by
  refine sound.congr rfl (fun d => ?_) rfl sound.born
  rw [updRq_rq]
  split
  · exact keeps _
  · exact ⟨rfl,rfl,rfl⟩

lemma Sound.calls : Routine.Calls Sound where
  aside sound aside := by
    have same {α : Type} (field : Task → α) := congrArg field aside.core
    exact sound.updRest ⟨same Task.state,same Task.priority,same Task.basePriority,same Task.onRq,same Task.rqCpu,
      same Task.rqNext,same Task.rqPrev⟩
  timers _ _ _ sound := sound.congr rfl (fun _ => ⟨rfl,rfl,rfl⟩) rfl sound.born
  wake sound asleep := sound.makeReady (sound.known_of_asleep asleep)
  boost sound asleep := sound.tune boost_tune (sound.off_of_asleep asleep)
  age {s t} sound ready below := by
    have frame := dequeue_frame (.refl s) t
    refine Sound.makeReady ?_ (frame.nextID ▸ sound.known_of_ready ready)
    refine (sound.dequeue t).upd rfl (by simp [sound.dequeued t]) ⟨?_,((sound.dequeue t).range t).2⟩
      ((sound.dequeue t).unborn t)
    rw [← frame.priority,← frame.basePriority] at below
    exact age_range below
  migrate _ sound found := sound.retune (migrate_tune _ _) (victim_ready sound found)
  waking {s t} sound started := by
    refine waking_sound sound _ fun u member => ?_
    rcases List.mem_cons.mp member with rfl | member
    · exact sound.known started
    · exact sound.born u (.inr (.inr member))
  account c _ sound := rq_sound sound (fun _ => by exact ⟨rfl,rfl,rfl⟩) c

end Routine

section Entry

section
variable (sound : Sound s) (known : t < s.nextID)
include sound known

lemma schedReady_sound : Sound (schedReady s t) := by
  unfold schedReady
  split
  · exact sound
  · exact sound.makeReady known

lemma schedSleep_sound (st : TState) : Sound (schedSleep s t st) :=
  (sound.dequeue t).setState (sound.dequeued t) ((dequeue_frame (.refl s) t).nextID ▸ known) st

lemma schedZombie_sound : Sound (schedZombie s t) :=
  (Sound.calls.calloutStop (sound.dequeue t) .sleepWake t).setState (sound.dequeued t)
    ((dequeue_frame (.refl s) t).nextID ▸ known) .zombie

lemma schedStop_sound (sig : Nat) : Sound (schedStop s t sig) := by
  refine Sound.calls.schedStop ?_
  refine (sound.dequeue t).upd rfl (by simp [sound.dequeued t]) ((sound.dequeue t).range t) fun large => ?_
  rw [(dequeue_frame (.refl s) t).nextID] at large
  exact absurd large (Nat.not_le.mpr known)

lemma schedIoWakeup_sound : Sound (schedIoWakeup s t) := by
  rw [schedIoWakeup_eq]
  split
  next asleep => exact (sound.tune boost_tune (sound.off asleep.1)).makeReady known
  · exact sound.requeue boost_tune

end

end Entry

end UbixOS.Sched
