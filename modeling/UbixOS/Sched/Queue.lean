import UbixOS.Sched.Dispatch
import UbixOS.Library.Run

/-! The run queues as lists: what the buckets, the link fields, the ready masks and
the load counters say, and that enqueue and dequeue are list operations. -/
namespace UbixOS.Sched

open Library Kernel Sched.Task Finset RunQueue

/-- The tasks of each bucket in order. A task is linked where its fields say and nowhere else, a mask bit
stands for a non-empty bucket, and the load is the number of linked tasks. -/
structure Queued (s : Kernel) (q : Cpu → Nat → List Tid) : Prop where
  ring : ∀ c p, s.links.Ring ((s.rq c).bucket p) (q c p)
  member : ∀ t c p, t ∈ q c p ↔ (s.task t).onRq = true ∧ (s.task t).rqCpu = some c ∧ (s.task t).priority = p
  home : ∀ t, (s.task t).onRq = true → (s.task t).rqCpu ≠ none
  mask : ∀ c p, p < 32 → ((s.rq c).readyMask.getLsbD p = true ↔ q c p ≠ [])
  range : ∀ c p, 32 ≤ p → q c p = []
  count : ∀ c, (s.rq c).nrRunning = ∑ p ∈ Finset.range 32, (q c p).length

/-- What enqueue and dequeue leave alone in a task. -/
def Task.rest (k : Task) : Task := { k with onRq := false, rqCpu := none, rqNext := none, rqPrev := none }

def RunQueue.rest (rq : RunQueue) : RunQueue := { rq with bucket := fun _ => none, readyMask := 0, nrRunning := 0 }

/-- Only the queues changed. -/
structure Frame (s s' : Kernel) : Prop where
  task : ∀ t, (s'.task t).rest = (s.task t).rest
  rq : ∀ c, (s'.rq c).rest = (s.rq c).rest
  other : { s' with task := s.task, rq := s.rq } = s

namespace Frame

lemma refl (s : Kernel) : Frame s s := ⟨fun _ => rfl,fun _ => rfl,rfl⟩

lemma upd (frame : Frame s s') (keeps : ∀ k, (f k).rest = k.rest) : Frame s (s'.upd t f) := by
  refine ⟨fun u => ?_,frame.rq,frame.other⟩
  rw [← frame.task u]
  by_cases same : u = t
  · subst same
    simp [keeps]
  · simp [Kernel.upd,same]

lemma updRq (frame : Frame s s') (keeps : ∀ rq, (f rq).rest = rq.rest) : Frame s (s'.updRq c f) := by
  refine ⟨frame.task,fun d => ?_,frame.other⟩
  rw [← frame.rq d]
  by_cases same : d = c
  · subst same
    simp [Kernel.updRq,keeps]
  · simp [Kernel.updRq,same]

variable (frame : Frame s s')
include frame

lemma state (t : Tid) : s'.state t = s.state t := (congrArg Task.state (frame.task t) :)
lemma priority (t : Tid) : (s'.task t).priority = (s.task t).priority := (congrArg Task.priority (frame.task t) :)
lemma basePriority (t : Tid) : (s'.task t).basePriority = (s.task t).basePriority :=
  (congrArg Task.basePriority (frame.task t) :)
lemma boostQuanta (t : Tid) : (s'.task t).boostQuanta = (s.task t).boostQuanta :=
  (congrArg Task.boostQuanta (frame.task t) :)
lemma onCpu (t : Tid) : (s'.task t).onCpu = (s.task t).onCpu := (congrArg Task.onCpu (frame.task t) :)
lemma sigPending (t : Tid) : (s'.task t).sigPending = (s.task t).sigPending :=
    (congrArg Task.sigPending (frame.task t) :)
lemma current : s'.current = s.current := (congrArg Kernel.current frame.other :)
lemma idle : s'.idle = s.idle := (congrArg Kernel.idle frame.other :)
lemma nextID : s'.nextID = s.nextID := (congrArg Kernel.nextID frame.other :)
lemma waking : s'.waking = s.waking := (congrArg Kernel.waking frame.other :)
lemma switchingFrom (c : Cpu) : (s'.rq c).switchingFrom = (s.rq c).switchingFrom :=
  (congrArg RunQueue.switchingFrom (frame.rq c) :)

end Frame

lemma bucketAppend_frame (frame : Frame s s') (c : Cpu) (p : Nat) (t : Tid) : Frame s (bucketAppend s' c p t) := by
  unfold bucketAppend
  split
  · exact (frame.upd fun _ => by rfl).updRq fun _ => by rfl
  split
  · exact frame
  · exact ((frame.upd fun _ => by rfl).upd fun _ => by rfl).upd fun _ => by rfl

lemma enqueue_frame (frame : Frame s s') (t : Tid) : Frame s (rqEnqueueLocked s' t) := by
  unfold rqEnqueueLocked
  split
  · exact frame
  split
  · exact frame
  · exact ((bucketAppend_frame (frame.upd fun _ => by rfl) _ _ _).upd fun _ => by rfl).updRq fun _ => by rfl

lemma bucketRemove_frame (frame : Frame s s') (c : Cpu) (p : Nat) (t : Tid) : Frame s (bucketRemove s' c p t) := by
  unfold bucketRemove
  split
  · exact frame.updRq fun _ => by rfl
  split
  · exact ((frame.upd fun _ => by rfl).upd fun _ => by rfl).updRq fun rq => by split <;> rfl
  · exact frame

lemma dequeue_frame (frame : Frame s s') (t : Tid) : Frame s (rqDequeueLocked s' t) := by
  unfold rqDequeueLocked
  split
  · exact frame
  · exact ((bucketRemove_frame frame _ _ t).upd fun _ => by rfl).updRq fun _ => by rfl

lemma links_upd {s : Kernel} (t : Tid) (next : (f (s.task t)).rqNext = (s.task t).rqNext)
    (prev : (f (s.task t)).rqPrev = (s.task t).rqPrev) : (s.upd t f).links = s.links := by
  unfold links upd
  congr 1 <;> funext u <;> by_cases same : u = t
  · simp [same,next]
  · simp [same]
  · simp [same,prev]
  · simp [same]

lemma bucketAppend_links (s : Kernel) (c : Cpu) (p : Nat) (t : Tid) :
    (bucketAppend s c p t).links = s.links.append ((s.rq c).bucket p) t := by
  unfold bucketAppend Links.append
  cases (s.rq c).bucket p with
  | none => simp only [links,updRq,upd]; congr 1 <;> funext u <;> by_cases same : u = t <;> simp [same]
  | some head =>
    have tail : s.links.prev head = (s.task head).rqPrev := rfl
    simp only [tail]
    cases (s.task head).rqPrev with
    | none => rfl
    | some e =>
      simp only [links,upd]
      congr 1 <;> funext u <;> by_cases h1 : u = t <;> by_cases h2 : u = e <;> by_cases h3 : u = head <;>
        simp_all [Function.update]

lemma bucketRemove_links (s : Kernel) (c : Cpu) (p : Nat) (t : Tid) :
    ((bucketRemove s c p t).upd t fun k => { k with rqNext := none, rqPrev := none, onRq := false }).links =
      s.links.unlink t := by
  unfold bucketRemove Links.unlink
  have next : s.links.next t = (s.task t).rqNext := rfl
  have prev : s.links.prev t = (s.task t).rqPrev := rfl
  rw [next,prev]
  split
  · simp only [links,updRq,upd]
    congr 1 <;> funext u <;> by_cases same : u = t <;> simp [same]
  cases (s.task t).rqPrev <;> cases (s.task t).rqNext <;>
    simp only [links,updRq,upd] <;> congr 1 <;> funext u <;>
    by_cases same : u = t <;> simp_all [Function.update] <;> grind

/-- The queues are the same ones; off them, a task may change at will. -/
structure SameQueues (s s' : Kernel) : Prop where
  onRq : ∀ t, (s'.task t).onRq = (s.task t).onRq
  place : ∀ t, (s.task t).onRq = true →
    (s'.task t).rqCpu = (s.task t).rqCpu ∧ (s'.task t).priority = (s.task t).priority ∧
    (s'.task t).rqNext = (s.task t).rqNext ∧ (s'.task t).rqPrev = (s.task t).rqPrev
  bucket : ∀ c, (s'.rq c).bucket = (s.rq c).bucket
  mask : ∀ c, (s'.rq c).readyMask = (s.rq c).readyMask
  load : ∀ c, (s'.rq c).nrRunning = (s.rq c).nrRunning

lemma Queued.congr (queued : Queued s q) (same : SameQueues s s') : Queued s' q where
  ring c p := by
    rw [same.bucket]
    have place t (member : t ∈ q c p) : _ := same.place t ((queued.member t c p).mp member).1
    exact (queued.ring c p).congr (fun t member => (place t member).2.2.1) fun t member => (place t member).2.2.2
  member t c p := by
    rw [queued.member,same.onRq]
    by_cases on : (s.task t).onRq = true
    · rw [(same.place t on).1,(same.place t on).2.1]
    · simp [on]
  home t on := by
    rw [same.onRq] at on
    rw [(same.place t on).1]
    exact queued.home t on
  mask c p bound := by
    rw [same.mask]
    exact queued.mask c p bound
  range := queued.range
  count c := by
    rw [same.load]
    exact queued.count c

lemma SameQueues.upd (s : Kernel) (t : Tid) (onRq : (f (s.task t)).onRq = (s.task t).onRq)
    (place : (s.task t).onRq = true →
      (f (s.task t)).rqCpu = (s.task t).rqCpu ∧ (f (s.task t)).priority = (s.task t).priority ∧
      (f (s.task t)).rqNext = (s.task t).rqNext ∧ (f (s.task t)).rqPrev = (s.task t).rqPrev) :
    SameQueues s (s.upd t f) := by
  refine ⟨fun u => ?_,fun u on => ?_,fun _ => rfl,fun _ => rfl,fun _ => rfl⟩
  · by_cases same : u = t
    · subst same
      simpa using onRq
    · rw [s.upd_other f same]
  by_cases same : u = t
  · subst same
    simpa using place on
  · rw [s.upd_other f same]
    exact ⟨rfl,rfl,rfl,rfl⟩

def setBucket (q : Cpu → Nat → List Tid) (c : Cpu) (p : Nat) (nodes : List Tid) : Cpu → Nat → List Tid :=
  fun d r => if d = c ∧ r = p then nodes else q d r

lemma setBucket_count (q : Cpu → Nat → List Tid) (c : Cpu) (bound : p < 32) (nodes : List Tid) :
    (∑ r ∈ range 32, (setBucket q c p nodes c r).length) + (q c p).length =
      (∑ r ∈ range 32, (q c r).length) + nodes.length := by
  have inside : p ∈ range 32 := mem_range.mpr bound
  rw [← add_sum_erase _ _ inside,← add_sum_erase _ (fun r => (q c r).length) inside]
  have others : ∑ r ∈ (range 32).erase p, (setBucket q c p nodes c r).length =
      ∑ r ∈ (range 32).erase p, (q c r).length := by
    refine sum_congr rfl fun r member => ?_
    simp [setBucket,ne_of_mem_erase member]
  rw [others]
  simp only [setBucket,and_self,if_true]
  omega

lemma setBucket_count_apart (q : Cpu → Nat → List Tid) (apart : d ≠ c) (p : Nat) (nodes : List Tid) :
    (∑ r ∈ range 32, (setBucket q c p nodes d r).length) = ∑ r ∈ range 32, (q d r).length := by
  simp [setBucket,apart]

lemma bit_getLsbD (bound : r < 32) : (1#32 <<< p).getLsbD r = decide (r = p) := by
  rw [BitVec.getLsbD_shiftLeft]
  grind

def Task.unlinked (k : Task) : Task := { k with rqNext := none, rqPrev := none }

lemma upd_unlinked {s : Kernel} {k : Task} (before : (s.task u).unlinked = k.unlinked) (t : Tid)
    {f : Task → Task} (keeps : ∀ k, (f k).unlinked = k.unlinked) : ((s.upd t f).task u).unlinked = k.unlinked := by
  rw [s.upd_task]
  split
  · rw [keeps,before]
  · exact before

lemma bucketAppend_unlinked (s : Kernel) (c : Cpu) (p : Nat) (t u : Tid) :
    ((bucketAppend s c p t).task u).unlinked = (s.task u).unlinked := by
  unfold bucketAppend
  split
  · rw [updRq_task]
    exact upd_unlinked rfl t fun _ => by rfl
  split
  · rfl
  · exact upd_unlinked (upd_unlinked (upd_unlinked rfl t fun _ => by rfl) _ fun _ => by rfl) _ fun _ => by rfl

lemma bucketRemove_unlinked (s : Kernel) (c : Cpu) (p : Nat) (t u : Tid) :
    ((bucketRemove s c p t).task u).unlinked = (s.task u).unlinked := by
  unfold bucketRemove
  split
  · rfl
  split
  · rw [updRq_task]
    exact upd_unlinked (upd_unlinked rfl _ fun _ => by rfl) _ fun _ => by rfl
  · rfl

/-- One bucket, with its mask bit and the load, is replaced. -/
def RunQueue.relink (rq : RunQueue) (p : Nat) (head : Option Tid) (mask : BitVec 32) (load : Nat) : RunQueue :=
  { rq with bucket := Function.update rq.bucket p head, readyMask := mask, nrRunning := load }

lemma bucketAppend_rq (s : Kernel) (c d : Cpu) (p : Nat) (t : Tid) : (bucketAppend s c p t).rq d =
    if d = c then (s.rq c).relink p (some (((s.rq c).bucket p).getD t))
      (if (s.rq c).bucket p = none then (s.rq c).readyMask ||| (1#32 <<< p) else (s.rq c).readyMask) (s.rq c).nrRunning
    else s.rq d := by
  unfold bucketAppend RunQueue.relink
  cases head : (s.rq c).bucket p with
  | none => by_cases cpu : d = c <;> simp [updRq_rq,cpu]
  | some h =>
    have same : Function.update (s.rq c).bucket p (some h) = (s.rq c).bucket := by rw [← head,Function.update_eq_self]
    dsimp only
    cases (s.task h).rqPrev <;> by_cases cpu : d = c <;> simp [cpu,same]

lemma Queued.disjoint (queued : Queued s q) (apart : ¬(d = c ∧ r = p)) (member : t ∈ q d r) : t ∉ q c p := by
  intro here
  obtain ⟨-,cpu,pri⟩ := (queued.member t d r).mp member
  obtain ⟨-,cpu',pri'⟩ := (queued.member t c p).mp here
  rw [cpu] at cpu'
  exact apart ⟨by simpa using cpu',by omega⟩

def Task.queuedAt (c : Cpu) (k : Task) : Task := { k with rqCpu := some c, onRq := true }

lemma enqueue_eq {s : Kernel} (off : (s.task t).onRq = false) (alive : (s.state t).finished = false) :
    ∃ c, (rqEnqueueLocked s t).links = s.links.append ((s.rq c).bucket (s.task t).priority) t ∧
      (∀ u, ((rqEnqueueLocked s t).task u).unlinked =
        (if u = t then (s.task t).queuedAt c else s.task u).unlinked) ∧
      ∀ d, (rqEnqueueLocked s t).rq d = if d = c then
          (s.rq c).relink (s.task t).priority (some (((s.rq c).bucket (s.task t).priority).getD t))
            (if (s.rq c).bucket (s.task t).priority = none then (s.rq c).readyMask ||| (1#32 <<< (s.task t).priority)
              else (s.rq c).readyMask) ((s.rq c).nrRunning + 1)
        else s.rq d := by
  refine ⟨(s.task t).rqCpu.getD (schedSelectCpu s),?_⟩
  have shape : rqEnqueueLocked s t = ((bucketAppend (s.upd t fun k =>
      { k with rqCpu := some ((s.task t).rqCpu.getD (schedSelectCpu s)) })
      ((s.task t).rqCpu.getD (schedSelectCpu s)) (s.task t).priority t).upd t fun k =>
      { k with onRq := true }).updRq ((s.task t).rqCpu.getD (schedSelectCpu s)) fun rq =>
      { rq with nrRunning := rq.nrRunning + 1 } := by
    simp [rqEnqueueLocked,off,alive]
  rw [shape]
  generalize (s.task t).rqCpu.getD (schedSelectCpu s) = c
  generalize (s.task t).priority = p
  refine ⟨?_,fun u => ?_,fun d => ?_⟩
  · have first : (s.upd t fun k => { k with rqCpu := some c }).links = s.links := links_upd t rfl rfl
    have last : ∀ s' : Kernel, (s'.upd t fun k => { k with onRq := true }).links = s'.links :=
      fun s' => links_upd t rfl rfl
    exact (last _).trans ((bucketAppend_links _ c p t).trans (by rw [first]; rfl))
  · have linked := bucketAppend_unlinked (s.upd t fun k => { k with rqCpu := some c }) c p t u
    by_cases same : u = t
    · subst same
      rw [upd_self] at linked
      simp only [updRq_task,upd_self,if_true]
      have set := congrArg (fun k : Task => { k with onRq := true }) linked
      exact set
    · rw [upd_other _ _ same] at linked
      simpa only [updRq_task,upd_other _ _ same,if_neg same] using linked
  · have filled := bucketAppend_rq (s.upd t fun k => { k with rqCpu := some c }) c d p t
    rw [updRq_rq,upd_rq,filled]
    split <;> rfl

/-- The bucket now holds these tasks, and every other one is as it was. -/
lemma Queued.relink {s s' : Kernel} {q : Cpu → Nat → List Tid} (queued : Queued s q) (bound : p < 32) {nodes : List Tid}
    {head : Option Tid} {mask : BitVec 32}
    (rq : ∀ d, s'.rq d = if d = c then (s.rq c).relink p head mask load else s.rq d) (ring : s'.links.Ring head nodes)
    (elsewhere : ∀ d r, ¬(d = c ∧ r = p) → ∀ u ∈ q d r, s'.links.next u = s.links.next u ∧
    s'.links.prev u = s.links.prev u)
    (member : ∀ u d r, u ∈ setBucket q c p nodes d r ↔
      (s'.task u).onRq = true ∧ (s'.task u).rqCpu = some d ∧ (s'.task u).priority = r)
    (home : ∀ u, (s'.task u).onRq = true → (s'.task u).rqCpu ≠ none)
    (marks : ∀ r < 32, mask.getLsbD r = if r = p then decide (nodes ≠ []) else (s.rq c).readyMask.getLsbD r)
    (length : load + (q c p).length = (s.rq c).nrRunning + nodes.length) : Queued s' (setBucket q c p nodes) := by
  refine ⟨fun d r => ?_,member,home,fun d r small => ?_,fun d r large => ?_,fun d => ?_⟩
  · by_cases place : d = c ∧ r = p
    · obtain ⟨rfl,rfl⟩ := place
      simpa [rq,setBucket,RunQueue.relink] using ring
    have same : (s'.rq d).bucket r = (s.rq d).bucket r := by
      by_cases cpu : d = c <;> simp_all [RunQueue.relink]
    rw [same,setBucket,if_neg place]
    exact (queued.ring d r).congr (fun u here => (elsewhere d r place u here).1) fun u here =>
      (elsewhere d r place u here).2
  · have known := queued.mask d r small
    by_cases cpu : d = c
    · by_cases pri : r = p <;> simp_all [setBucket,RunQueue.relink]
    · simp_all [setBucket]
  · rw [setBucket,if_neg (by omega)]
    exact queued.range d r large
  rw [rq]
  by_cases cpu : d = c
  · subst cpu
    have sum := setBucket_count q d bound nodes
    rw [if_pos rfl]
    have known := queued.count d
    dsimp only [RunQueue.relink]
    omega
  · rw [if_neg cpu,setBucket_count_apart q cpu,queued.count d]

lemma Queued.enqueue (queued : Queued s q)
    (off : (s.task t).onRq = false) (alive : (s.state t).finished = false) (bound : (s.task t).priority < 32) :
    ∃ c, Queued (rqEnqueueLocked s t) (setBucket q c (s.task t).priority (q c (s.task t).priority ++ [t])) := by
  obtain ⟨c,links,tasks,rqs⟩ := enqueue_eq off alive
  have absent : ∀ d r, t ∉ q d r := by
    intro d r here
    have on := ((queued.member t d r).mp here).1
    rw [off] at on
    cases on
  have onRq u : ((rqEnqueueLocked s t).task u).onRq = (decide (u = t) || (s.task u).onRq) := by
    have same := congrArg onRq (tasks u)
    by_cases self : u = t <;> simpa [self,unlinked,queuedAt] using same
  have rqCpu u : ((rqEnqueueLocked s t).task u).rqCpu = if u = t then some c else (s.task u).rqCpu := by
    have same := congrArg rqCpu (tasks u)
    by_cases self : u = t <;> simpa [self,unlinked,queuedAt] using same
  have priority := (enqueue_frame (.refl s) t).priority
  refine ⟨c,queued.relink bound rqs ?_ (fun d r place u here => ?_) (fun u d r => ?_) (fun u on => ?_)
    (fun r small => ?_) ?_⟩
  · rw [links]
    exact (queued.ring c _).append (absent c _)
  · rw [links]
    exact Links.append_elsewhere (queued.ring c _) t (queued.disjoint place here) fun same => absent d r (same ▸ here)
  · rw [onRq,rqCpu,priority]
    have known := queued.member u d r
    by_cases self : u = t
    · subst self
      by_cases place : d = c ∧ r = (s.task u).priority
      · obtain ⟨rfl,rfl⟩ := place
        simp [setBucket]
      · have : ¬(c = d ∧ (s.task u).priority = r) := fun ⟨cpu,pri⟩ => place ⟨cpu.symm,pri.symm⟩
        simpa [setBucket,place,absent d r] using this
    · by_cases place : d = c ∧ r = (s.task t).priority
      · obtain ⟨rfl,rfl⟩ := place
        simpa [setBucket,self] using known
      · simpa [setBucket,place,self] using known
  · rw [onRq] at on
    rw [rqCpu]
    by_cases self : u = t
    · simp [self]
    · simp only [self,if_false]
      exact queued.home u (by simpa [self] using on)
  · have known := queued.mask c r small
    split
    · by_cases pri : r = (s.task t).priority <;> simp [BitVec.getLsbD_or,bit_getLsbD small,pri,bound]
    rename_i occupied
    by_cases pri : r = (s.task t).priority
    · subst pri
      have filled : q c (s.task t).priority ≠ [] := fun none => by
        have ring := queued.ring c (s.task t).priority
        rw [none] at ring
        exact occupied ring.first.symm
      simpa using known.mpr filled
    · simp [pri]
  · simp
    omega

lemma bucketRemove_rq (s : Kernel) (c d : Cpu) (p : Nat) (t : Tid)
    (linked : (s.task t).rqNext = some t ∨ ∃ prev next, (s.task t).rqPrev = some prev ∧ (s.task t).rqNext = some next) :
    (bucketRemove s c p t).rq d = if d = c then (s.rq c).relink p (s.links.unlinkHead ((s.rq c).bucket p) t)
      (if (s.task t).rqNext = some t then (s.rq c).readyMask &&& ~~~(1#32 <<< p) else (s.rq c).readyMask)
        (s.rq c).nrRunning
    else s.rq d := by
  unfold bucketRemove Links.unlinkHead RunQueue.relink
  have next : s.links.next t = (s.task t).rqNext := rfl
  rw [next]
  by_cases alone : (s.task t).rqNext = some t
  · by_cases cpu : d = c <;> simp [updRq_rq,alone,cpu]
  obtain ⟨prev,next,left,right⟩ := linked.resolve_left alone
  rw [if_neg alone,if_neg alone,if_neg alone,left,right]
  by_cases cpu : d = c <;> by_cases head : (s.rq c).bucket p = some t <;> simp [updRq_rq,cpu,head]

lemma Queued.neighbours (queued : Queued s q)
    (member : t ∈ q c p) : ((s.task t).rqNext = some t ∧ (q c p).erase t = []) ∨
      ∃ prev next, (s.task t).rqPrev = some prev ∧ (s.task t).rqNext = some next ∧ next ≠ t ∧ (q c p).erase t ≠ [] := by
  have ring := queued.ring c p
  obtain ⟨before,after,shape⟩ := List.append_of_mem member
  rw [shape] at ring ⊢
  have absent : t ∉ before := by
    have := ring.nodup
    grind
  have left : (before ++ t :: after).erase t = before ++ after := by
    rw [List.erase_append_right _ absent,List.erase_cons_head]
  rw [left]
  rcases ring.neighbours with ⟨none,next⟩ | ⟨prev,next,last,-,left,right,apart⟩
  · obtain ⟨rfl,rfl⟩ := List.append_eq_nil_iff.mp none
    exact .inl ⟨next,rfl⟩
  refine .inr ⟨prev,next,left,right,apart,?_⟩
  rintro none
  obtain ⟨rfl,rfl⟩ := List.append_eq_nil_iff.mp none
  cases last

lemma dequeue_eq (on : (s.task t).onRq = true) (home : (s.task t).rqCpu = some c)
    (linked : (s.task t).rqNext = some t ∨ ∃ prev next, (s.task t).rqPrev = some prev ∧ (s.task t).rqNext = some next) :
    (rqDequeueLocked s t).links = s.links.unlink t ∧
      (∀ u, ((rqDequeueLocked s t).task u).unlinked =
        (if u = t then { s.task t with onRq := false } else s.task u).unlinked) ∧
      ∀ d, (rqDequeueLocked s t).rq d = if d = c then
          (s.rq c).relink (s.task t).priority (s.links.unlinkHead ((s.rq c).bucket (s.task t).priority) t)
            (if (s.task t).rqNext = some t then (s.rq c).readyMask &&& ~~~(1#32 <<< (s.task t).priority)
              else (s.rq c).readyMask) ((s.rq c).nrRunning - 1)
        else s.rq d := by
  have shape : rqDequeueLocked s t = ((bucketRemove s c (s.task t).priority t).upd t fun k =>
      { k with rqNext := none, rqPrev := none, onRq := false }).updRq c fun rq =>
      { rq with nrRunning := rq.nrRunning - 1 } := by
    simp [rqDequeueLocked,on,home]
  rw [shape]
  generalize (s.task t).priority = p
  refine ⟨bucketRemove_links s c p t,fun u => ?_,fun d => ?_⟩
  · have removed := bucketRemove_unlinked s c p t u
    by_cases same : u = t
    · subst same
      simp only [updRq_task,upd_self,if_true]
      have set := congrArg (fun k : Task => { k with onRq := false }) removed
      exact set
    · simpa only [updRq_task,upd_other _ _ same,if_neg same] using removed
  · have emptied := bucketRemove_rq s c d p t linked
    by_cases cpu : d = c <;> simp_all [updRq_rq,RunQueue.relink]

lemma Queued.dequeue_onRq (queued : Queued s q) (t u : Tid) :
    ((rqDequeueLocked s t).task u).onRq = (!decide (u = t) && (s.task u).onRq) := by
  by_cases on : (s.task t).onRq = true
  · obtain ⟨c,home⟩ := Option.ne_none_iff_exists'.mp (queued.home t on)
    have around := queued.neighbours ((queued.member t c _).mpr ⟨on,home,rfl⟩)
    obtain ⟨-,tasks,-⟩ := dequeue_eq on home
      (around.imp And.left fun ⟨prev,next,left,right,_⟩ => ⟨prev,next,left,right⟩)
    have same := congrArg onRq (tasks u)
    by_cases self : u = t <;> simpa [self,unlinked] using same
  · have off : (s.task t).onRq = false := by simpa using on
    rw [rqDequeueLocked,if_pos (by simp [off])]
    by_cases self : u = t
    · simp [self,off]
    · simp [self]

lemma Queued.dequeue (queued : Queued s q) (on : (s.task t).onRq = true) (home : (s.task t).rqCpu = some c) :
    Queued (rqDequeueLocked s t) (setBucket q c (s.task t).priority ((q c (s.task t).priority).erase t)) := by
  have here : t ∈ q c (s.task t).priority := (queued.member t c _).mpr ⟨on,home,rfl⟩
  have around := queued.neighbours here
  have bound : (s.task t).priority < 32 := by
    by_contra large
    rw [queued.range c _ (by omega)] at here
    cases here
  obtain ⟨links,tasks,rqs⟩ :=
    dequeue_eq on home (around.imp And.left fun ⟨prev,next,left,right,_⟩ => ⟨prev,next,left,right⟩)
  have onRq := queued.dequeue_onRq t
  have rqCpu u : ((rqDequeueLocked s t).task u).rqCpu = (s.task u).rqCpu := by
    have same := congrArg rqCpu (tasks u)
    by_cases self : u = t <;> simpa [self,unlinked] using same
  have priority := (dequeue_frame (.refl s) t).priority
  refine queued.relink bound rqs ?_ (fun d r place u member => ?_) (fun u d r => ?_) (fun u stays => ?_)
    (fun r small => ?_) ?_
  · rw [links]
    exact (queued.ring c _).unlink here
  · rw [links]
    exact Links.unlink_elsewhere (queued.ring c _) here (queued.disjoint place member)
  · rw [onRq,rqCpu,priority]
    have known := queued.member u d r
    have nodup := (queued.ring c (s.task t).priority).nodup
    by_cases place : d = c ∧ r = (s.task t).priority
    · obtain ⟨rfl,rfl⟩ := place
      simp only [setBucket,and_self,if_true,nodup.mem_erase_iff,known]
      by_cases self : u = t <;> simp [self]
    simp only [setBucket,place,if_false,known]
    by_cases self : u = t
    · subst self
      have : ¬(c = d ∧ (s.task u).priority = r) := fun ⟨cpu,pri⟩ => place ⟨cpu.symm,pri.symm⟩
      simpa [on,home] using this
    · simp [self]
  · rw [onRq] at stays
    rw [rqCpu]
    exact queued.home u (by simp_all)
  · have known := queued.mask c r small
    rcases around with ⟨alone,empty⟩ | ⟨prev,next,-,right,apart,left⟩
    · rw [if_pos alone,BitVec.getLsbD_and,BitVec.getLsbD_not,bit_getLsbD small]
      by_cases pri : r = (s.task t).priority <;> simp [pri,empty,small]
    rw [if_neg (by simpa [right] using apart)]
    by_cases pri : r = (s.task t).priority
    · subst pri
      simpa [left] using known.mpr (List.ne_nil_of_mem here)
    · simp [pri]
  · have length := List.length_erase_of_mem here
    have positive := List.length_pos_of_mem here
    have sum := setBucket_count q c bound []
    rw [← queued.count c,List.length_nil] at sum
    omega

section
variable (s : Kernel)

lemma enqueue_onRq_other (apart : u ≠ t) : ((rqEnqueueLocked s t).task u).onRq = (s.task u).onRq := by
  by_cases on : (s.task t).onRq = true
  · simp [rqEnqueueLocked,on]
  by_cases gone : (s.state t).finished = true
  · simp [rqEnqueueLocked,gone]
  obtain ⟨c,-,tasks,-⟩ := enqueue_eq (s := s) (t := t) (by simpa using on) (by simpa using gone)
  have same := congrArg onRq (tasks u)
  rwa [if_neg apart] at same

lemma state_upd_other (f : Task → Task) (apart : u ≠ t) : (s.upd t f).state u = s.state u := by
  rw [Kernel.state,Kernel.upd_other s f apart]
  rfl

@[simp] lemma state_upd_self (t : Tid) (f : Task → Task) : (s.upd t f).state t = (f (s.task t)).state := by
  rw [Kernel.state,Kernel.upd_self]

lemma state_upd_same (keeps : (f (s.task t)).state = (s.task t).state) (u : Tid) : (s.upd t f).state u = s.state u := by
  by_cases same : u = t
  · subst same
    rwa [state_upd_self]
  · exact state_upd_other s f same

@[simp] lemma state_setState_self (t : Tid) (st : TState) : (s.setState t st).state t = st := by
  simp [setState]

lemma makeReady_state_other (apart : u ≠ t) : (makeReady s t).state u = s.state u :=
  ((enqueue_frame (.refl _) t).state u).trans (state_upd_other s _ apart)

@[simp] lemma makeReady_state_self (t : Tid) : (makeReady s t).state t = .ready :=
  ((enqueue_frame (.refl _) t).state t).trans (by simp)

lemma makeReady_fields (t : Tid) : (makeReady s t).current = s.current ∧
    (makeReady s t).idle = s.idle ∧ (makeReady s t).nextID = s.nextID ∧ (makeReady s t).waking = s.waking :=
  have frame := enqueue_frame (.refl (s.setState t .ready)) t
  ⟨frame.current,frame.idle,frame.nextID,frame.waking⟩

end

end UbixOS.Sched
