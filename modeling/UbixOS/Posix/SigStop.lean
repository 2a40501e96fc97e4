import UbixOS.Posix.SignalCheck
import UbixOS.Sched.Queue

/-! Stop and continue. Posters run on any CPU and in interrupts, against the signal check of
the task itself: each access to a pending set, each test of a state and each section under the
scheduler lock is one step. -/
namespace UbixOS.Posix.Stop

open Library Function List
open Sched (Kernel Tid sigPendStop postBit schedFindTask schedReady schedStop schedZombie)

/-- The part of the signal state that the task itself sets. -/
structure Disposition where
  mask : UInt32
  handler : Nat → UInt64

/-- How far a post of SIGCONT that wakes its target has come. -/
inductive Phase where
  | cleared
  | tested (stopped : Bool)
  | readied
  deriving DecidableEq

structure Post where
  target : Tid
  phase : Phase

/-- How far the signal check of a task has come. -/
inductive Checking where
  | idle
  | chosen (sig : Nat)
  | stopping (sig : Nat)

structure World where
  kernel : Kernel
  disposition : Tid → Disposition
  posts : List Post
  checking : Tid → Checking
  /-- SIGCONT or SIGKILL was posted since the task stopped -/
  late : Tid → Bool
  /-- stop signals that are pending from before the last SIGCONT -/
  stale : Tid → BitVec 32

namespace World

def state (w : World) (t : Tid) : Sched.TState := w.kernel.state t

def pending (w : World) (t : Tid) : BitVec 32 := (w.kernel.task t).sigPending

def start (kernel : Kernel) (disposition : Tid → Disposition) : World :=
  ⟨kernel,disposition,[],fun _ => .idle,fun _ => false,fun _ => 0⟩

/-- `sig_pending &= ~bits`. -/
def clearBits (w : World) (t : Tid) (bits : BitVec 32) : World :=
  { w with
    kernel := w.kernel.upd t fun k => { k with sigPending := k.sigPending &&& ~~~bits }
    stale := update w.stale t (w.stale t &&& ~~~bits) }

/-- `sig_pending |= 1u << (sig - 1)`: the signal is posted. -/
def setBit (w : World) (t : Tid) (sig : Nat) : World :=
  { w with
    kernel := postBit w.kernel t sig
    late := if sig = SIGCONT ∨ sig = SIGKILL then update w.late t true else w.late
    stale := if sig = SIGCONT then update w.stale t (w.pending t &&& sigPendStop) else w.stale }

end World

/-- `signal_post` and the scan of `signal_post_pgrp`, on the task they found. -/
def postTo (w : World) (t : Tid) (sig : Nat) : World :=
  if sig = SIGCONT then
    let w := w.clearBits t sigPendStop
    { w with posts := ⟨t,.cleared⟩ :: w.posts }
  else w.setBit t sig

def signalPost (w : World) (pid sig : Nat) : World :=
  if sig < 1 ∨ 31 < sig then w
  else match schedFindTask w.kernel pid with
    | none => w
    | some t => postTo w t sig

/-- One task of the scan of `signal_post_pgrp`. -/
def signalPostPgrp (w : World) (pgrp sig : Nat) (t : Tid) : World :=
  if sig < 1 ∨ 31 < sig ∨ pgrp = 0 ∨ t ∉ w.kernel.taskList ∨ w.state t = .dead ∨ (w.kernel.task t).pgrp ≠ pgrp then w
  else postTo w t sig

def signalPostKill (w : World) (pid sig : Nat) : World :=
  if sig < 1 ∨ 31 < sig then w
  else match schedFindTask w.kernel pid with
    | none => w
    | some t => w.setBit t sig

/-- What `signal_post_tty` reads of a terminal: the foreground group, and the tasks whose
`term` or `ct_tty` it is. -/
structure Terminal where
  pgrp : Nat
  holds : Tid → Bool

/-- The tasks that a terminal signals: the live ones of its foreground group or, if there are
none, the live task on it that was created last. -/
def ttyTargets (w : World) (term : Terminal) : List Tid :=
  let live := w.kernel.taskList.filter fun t => w.state t ≠ .dead
  let fg := live.filter fun t => (w.kernel.task t).pgrp = term.pgrp
  if term.pgrp ≠ 0 ∧ fg ≠ [] then fg else ((live.filter term.holds).max?).toList

def signalPostTty (w : World) (term : Terminal) (sig : Nat) : World :=
  if sig < 1 ∨ 31 < sig then w else (ttyTargets w term).foldl (fun w t => w.setBit t sig) w

/-- The tasks that `sys_kill` of a caller in group `own` signals; init is never one of a group. -/
def killTargets (w : World) (own : Nat) (pid : Int) : List Tid :=
  if pid ≤ 0 then
    let pgrp := if pid = 0 then own else pid.natAbs
    w.kernel.taskList.filter fun t => (w.kernel.task t).pgrp = pgrp ∧ 1 < t
  else (schedFindTask w.kernel pid.toNat).toList

def sysKill (w : World) (own : Nat) (pid : Int) (sig : Nat) : World :=
  (killTargets w own pid).foldl (fun w t => signalPostKill w t sig) w

inductive Event where
  | signalPost (pid sig : Nat)
  | signalPostPgrp (pgrp sig : Nat) (t : Tid)
  | signalPostTty (term : Terminal) (sig : Nat)
  | sysKill (own : Nat) (pid : Int) (sig : Nat)
  /-- the next step of a post of SIGCONT under way -/
  | advance (i : Nat)
  /-- the task changes its mask or its handlers -/
  | dispose (t : Tid) (d : Disposition)
  /-- the three steps of a task's signal check: choose, clear the bit, stop -/
  | choose (t : Tid)
  | take (t : Tid)
  | halt (t : Tid)

def advance (w : World) (i : Nat) : World :=
  match w.posts[i]? with
  | none => w
  | some ⟨t,.cleared⟩ =>
    if w.state t = .stopped then
      { w with
        kernel := w.kernel.upd t fun k => { k with stoppedSig := 0 }
        posts := w.posts.set i ⟨t,.tested true⟩ }
    else { w with posts := w.posts.set i ⟨t,.tested false⟩ }
  | some ⟨t,.tested true⟩ => { w with kernel := schedReady w.kernel t, posts := w.posts.set i ⟨t,.readied⟩ }
  | some ⟨t,_⟩ =>
    let w := w.setBit t SIGCONT
    { w with posts := w.posts.eraseIdx i }

def World.unblocked (w : World) (t : Tid) : UInt32 :=
  ⟨w.pending t⟩ &&& (~~~(w.disposition t).mask ||| sigBit SIGKILL)

def choose (w : World) (t : Tid) : World :=
  if w.state t = .stopped ∨ (w.state t).finished then w
  else match w.checking t, firstSignal (w.unblocked t) with
    | .idle, some sig => { w with checking := update w.checking t (.chosen sig) }
    | _, _ => w

/-- The bit is cleared and the signal acted on; a stop and an end come from the scheduler. -/
def take (w : World) (t : Tid) : World :=
  match w.checking t with
  | .chosen sig =>
    let w := w.clearBits t (Sched.sigBit sig)
    match verdict sig ((w.disposition t).handler sig) with
    | .stopped sig => { w with checking := update w.checking t (.stopping sig) }
    | .terminated _ => { w with kernel := schedZombie w.kernel t, checking := update w.checking t .idle }
    | _ => { w with checking := update w.checking t .idle }
  | _ => w

def halt (w : World) (t : Tid) : World :=
  match w.checking t with
  | .stopping sig =>
    { w with
      kernel := schedStop w.kernel t sig
      checking := update w.checking t .idle
      late := update w.late t false }
  | _ => w

def step (w : World) : Event → World
  | .signalPost pid sig => signalPost w pid sig
  | .signalPostPgrp pgrp sig t => signalPostPgrp w pgrp sig t
  | .signalPostTty term sig => signalPostTty w term sig
  | .sysKill own pid sig => sysKill w own pid sig
  | .advance i => advance w i
  | .dispose t d => { w with disposition := update w.disposition t d }
  | .choose t => choose w t
  | .take t => take w t
  | .halt t => halt w t

/-- No SIGCONT is being posted to the task. -/
def Quiet (w : World) (t : Tid) : Prop := ∀ p ∈ w.posts, p.target ≠ t

/-- Setting the bit alone is enough: the task need not be woken, and nothing need be discarded. -/
structure Harmless (w : World) (t : Tid) (sig : Nat) : Prop where
  kill : sig = SIGKILL → w.state t ≠ .stopped
  cont : sig = SIGCONT → w.state t ≠ .stopped ∧ w.pending t &&& sigPendStop = 0
  stop : Sched.sigBit sig &&& sigPendStop ≠ 0 → Quiet w t

def Orderly (w : World) : Event → Prop
  | .signalPost pid sig => ∀ t, schedFindTask w.kernel pid = some t → sig ≠ SIGCONT → Harmless w t sig
  | .signalPostPgrp _ sig t => sig ≠ SIGCONT → Harmless w t sig
  | .signalPostTty term sig => ∀ t ∈ ttyTargets w term, Harmless w t sig
  | .sysKill own pid sig => ∀ t ∈ killTargets w own pid, Harmless w t sig
  | .halt t => Quiet w t
  | _ => True

structure Good (w : World) : Prop where
  late : ∀ t, w.state t = .stopped → w.late t = false
  stale : ∀ t, w.stale t = 0
  discarded : ∀ p ∈ w.posts, w.pending p.target &&& sigPendStop = 0
  awake : ∀ p ∈ w.posts, p.phase = .tested false ∨ p.phase = .readied → w.state p.target ≠ .stopped

section Kernel

open Sched

variable {k : Kernel}

lemma upd_state (keeps : ∀ x, (f x).state = x.state) (u : Tid) : (k.upd t f).state u = k.state u := by
  rw [Kernel.state,Kernel.upd_task]
  split
  · exact keeps _
  · rfl

lemma upd_pending (keeps : ∀ x, (f x).sigPending = x.sigPending) (u : Tid) :
    ((k.upd t f).task u).sigPending = (k.task u).sigPending := by
  rw [Kernel.upd_task]
  split
  · exact keeps _
  · rfl

lemma makeReady_pending (u : Tid) : ((makeReady k t).task u).sigPending = (k.task u).sigPending := by
  rw [makeReady,(enqueue_frame (.refl _) t).sigPending]
  exact upd_pending (fun _ => by rfl) u

lemma schedReady_pending (u : Tid) : ((schedReady k t).task u).sigPending = (k.task u).sigPending := by
  unfold schedReady
  split
  · rfl
  · exact makeReady_pending u

lemma schedReady_state (u : Tid) : (schedReady k t).state u = if u = t then .ready else k.state u := by
  unfold schedReady
  by_cases same : u = t
  · subst same
    rw [if_pos rfl]
    split
    · assumption
    · exact makeReady_state_self k u
  · split
    · rfl
    · exact makeReady_state_other k same

lemma schedZombie_pending (u : Tid) : ((schedZombie k t).task u).sigPending = (k.task u).sigPending := by
  refine (upd_pending (f := fun x => { x with state := .zombie }) (fun _ => by rfl) u).trans ?_
  exact (dequeue_frame (.refl k) t).sigPending u

lemma schedZombie_state (u : Tid) : (schedZombie k t).state u = if u = t then .zombie else k.state u := by
  by_cases same : u = t
  · subst same
    rw [if_pos rfl]
    exact state_setState_self _ _ _
  · rw [if_neg same]
    refine (state_upd_other _ (fun x => { x with state := .zombie }) same).trans ?_
    exact (dequeue_frame (.refl k) t).state u

lemma sigBit_stop_apart (p : BitVec 32) (apart : Sched.sigBit sig &&& sigPendStop = 0) :
    (p ||| Sched.sigBit sig) &&& sigPendStop = p &&& sigPendStop := by
  rw [BitVec.and_or_distrib_right,apart]
  exact BitVec.or_zero

/-- A stop of `t` stops no other task, and posts no stop signal. -/
lemma schedStop_spec (sig : Nat) (u : Tid) : ((schedStop k t sig).state u = .stopped → u = t ∨ k.state u = .stopped) ∧
    ((schedStop k t sig).task u).sigPending &&& sigPendStop = (k.task u).sigPending &&& sigPendStop := by
  generalize mid : (rqDequeueLocked k t).upd t (fun x => { x with state := .stopped, stoppedSig := sig }) = k'
  have frame := dequeue_frame (.refl k) t
  have state (u : Tid) : k'.state u = .stopped → u = t ∨ k.state u = .stopped := by
    subst mid
    intro stopped
    by_cases same : u = t
    · exact .inl same
    · rw [state_upd_other _ _ same,frame.state] at stopped
      exact .inr stopped
  have pending (u : Tid) : (k'.task u).sigPending = (k.task u).sigPending := by
    subst mid
    exact (upd_pending (fun _ => by rfl) u).trans (frame.sigPending u)
  unfold schedStop
  dsimp only
  rw [mid]
  cases (k'.task t).parent with
  | none => exact ⟨state u,by rw [pending]⟩
  | some parent =>
    dsimp only
    unfold notifyStop
    split
    · exact ⟨state u,by rw [pending]⟩
    have posted : ((postBit k' parent SIGCHLD).task u).sigPending &&& sigPendStop =
        (k.task u).sigPending &&& sigPendStop := by
      rw [← pending u,postBit,Kernel.upd_task]
      split
      · exact sigBit_stop_apart _ (by decide)
      · rfl
    have kept : (postBit k' parent SIGCHLD).state u = k'.state u := upd_state (fun _ => by rfl) u
    dsimp only
    split
    · constructor
      · intro stopped
        by_cases same : u = parent
        · subst same
          rw [makeReady_state_self] at stopped
          cases stopped
        · rw [makeReady_state_other _ same] at stopped
          have := (state_upd_other (postBit k' parent SIGCHLD)
            (fun x => { x with waitChan := none }) same).symm.trans stopped
          exact state u (kept.symm.trans this)
      · rw [makeReady_pending]
        refine Eq.trans (congrArg (· &&& sigPendStop) ?_) posted
        exact upd_pending (k := postBit k' parent SIGCHLD) (t := parent) (f := fun x => { x with waitChan := none })
          (fun _ => by rfl) u
    · exact ⟨fun stopped => state u (kept.symm.trans stopped),posted⟩

end Kernel

section Steps

variable {w : World}

lemma setBit_state (sig : Nat) (u : Tid) : (w.setBit t sig).state u = w.state u := by
  change (w.kernel.upd t fun k => { k with sigPending := k.sigPending ||| Sched.sigBit sig }).state u = _
  exact upd_state (fun _ => by rfl) u

lemma setBit_pending (sig : Nat) (u : Tid) :
    (w.setBit t sig).pending u = if u = t then w.pending u ||| Sched.sigBit sig else w.pending u := by
  change ((postBit w.kernel t sig).task u).sigPending = _
  rw [postBit,Kernel.upd_task]
  split <;> rfl

lemma clearBits_state (bits : BitVec 32) (u : Tid) : (w.clearBits t bits).state u = w.state u := by
  change (w.kernel.upd t fun k => { k with sigPending := k.sigPending &&& ~~~bits }).state u = _
  exact upd_state (fun _ => by rfl) u

lemma clearBits_pending (bits : BitVec 32) (u : Tid) :
    (w.clearBits t bits).pending u = if u = t then w.pending u &&& ~~~bits else w.pending u := by
  unfold World.pending World.clearBits
  rw [Kernel.upd_task]
  split <;> rfl

lemma cont_apart : Sched.sigBit SIGCONT &&& sigPendStop = 0 := by decide

/-- A set bit is harmless for the next task of a scan too. -/
lemma Harmless.setBit (harmless : Harmless w u sig) : Harmless (w.setBit t sig) u sig := by
  refine ⟨fun kill => ?_,fun cont => ?_,harmless.stop⟩
  · rw [setBit_state]
    exact harmless.kill kill
  obtain ⟨awake,none⟩ := harmless.cont cont
  rw [setBit_state,setBit_pending]
  refine ⟨awake,?_⟩
  split
  · rw [sigBit_stop_apart _ (by rw [cont]; exact cont_apart)]
    exact none
  · exact none

section
variable (good : Good w)
include good

lemma Good.setBit (harmless : Harmless w t sig) : Good (w.setBit t sig) := by
  refine ⟨fun u stopped => ?_,fun u => ?_,fun p member => ?_,fun p member phase => ?_⟩
  · rw [setBit_state] at stopped
    change (if _ then _ else _ : Tid → Bool) u = false
    split
    next wakes =>
      by_cases same : u = t
      · subst same
        rcases wakes with cont | kill
        · exact absurd stopped (harmless.cont cont).1
        · exact absurd stopped (harmless.kill kill)
      · rw [update_of_ne same]
        exact good.late u stopped
    · exact good.late u stopped
  · change (if _ then _ else _ : Tid → BitVec 32) u = 0
    split
    next cont =>
      by_cases same : u = t
      · subst same
        rw [update_self]
        exact (harmless.cont cont).2
      · rw [update_of_ne same]
        exact good.stale u
    · exact good.stale u
  · rw [setBit_pending]
    split
    next same =>
      have apart : Sched.sigBit sig &&& sigPendStop = 0 := by
        by_contra stop
        exact harmless.stop stop p member same
      rw [sigBit_stop_apart _ apart]
      exact good.discarded p member
    · exact good.discarded p member
  · rw [setBit_state]
    exact good.awake p member phase

lemma Good.setBits {sig : Nat} {targets : List Tid} (harmless : ∀ t ∈ targets, Harmless w t sig) :
    Good (targets.foldl (fun w t => w.setBit t sig) w) := by
  induction targets generalizing w with
  | nil => exact good
  | cons t targets ih =>
    apply ih (good.setBit (harmless t mem_cons_self))
    exact fun u member => (harmless u (mem_cons_of_mem _ member)).setBit

lemma Good.clearBits (t : Tid) (bits : BitVec 32) : Good (w.clearBits t bits) := by
  refine ⟨fun u stopped => ?_,fun u => ?_,fun p member => ?_,fun p member phase => ?_⟩
  · rw [clearBits_state] at stopped
    exact good.late u stopped
  · change update w.stale t _ u = 0
    by_cases same : u = t
    · subst same
      rw [update_self,good.stale u]
      exact BitVec.zero_and
    · rw [update_of_ne same]
      exact good.stale u
  · rw [clearBits_pending]
    split
    · rw [BitVec.and_assoc,BitVec.and_comm _ sigPendStop,← BitVec.and_assoc,good.discarded p member]
      exact BitVec.zero_and
    · exact good.discarded p member
  · rw [clearBits_state]
    exact good.awake p member phase

lemma Good.postTo (harmless : sig ≠ SIGCONT → Harmless w t sig) : Good (postTo w t sig) := by
  unfold Stop.postTo
  by_cases cont : sig = SIGCONT
  · rw [if_pos cont]
    have cleared := good.clearBits t sigPendStop
    refine ⟨cleared.late,cleared.stale,fun p member => ?_,fun p member phase => ?_⟩
    · rcases mem_cons.mp member with rfl | old
      · change (w.clearBits t sigPendStop).pending t &&& sigPendStop = 0
        rw [clearBits_pending,if_pos rfl,BitVec.and_assoc,BitVec.and_comm _ sigPendStop]
        simp
      · exact cleared.discarded p old
    · rcases mem_cons.mp member with rfl | old
      · rcases phase with no | no <;> cases no
      · exact cleared.awake p old phase
  · rw [if_neg cont]
    exact good.setBit (harmless cont)

lemma Good.setPost (state : ∀ u, kernel.state u = w.state u) (pending : ∀ u, (kernel.task u).sigPending = w.pending u)
    (discarded : w.pending q.target &&& sigPendStop = 0)
    (awake : q.phase = .tested false ∨ q.phase = .readied → w.state q.target ≠ .stopped) :
    Good { w with kernel, posts := w.posts.set i q } := by
  refine ⟨fun u stopped => good.late u ((state u).symm.trans stopped),good.stale,fun p member => ?_,
    fun p member phase => ?_⟩
  · change (kernel.task p.target).sigPending &&& sigPendStop = 0
    rw [pending]
    rcases mem_or_eq_of_mem_set member with old | rfl
    · exact good.discarded p old
    · exact discarded
  · change kernel.state p.target ≠ .stopped
    rw [state]
    rcases mem_or_eq_of_mem_set member with old | rfl
    · exact good.awake p old phase
    · exact awake phase

lemma Good.ready (member : ⟨u,.tested true⟩ ∈ w.posts) :
    Good { w with kernel := schedReady w.kernel u, posts := w.posts.set i ⟨u,.readied⟩ } := by
  have awake (x : Tid) (stopped : (schedReady w.kernel u).state x = .stopped) : x ≠ u ∧ w.state x = .stopped := by
    rw [schedReady_state] at stopped
    split at stopped
    · cases stopped
    · exact ⟨‹_›,stopped⟩
  refine ⟨fun x stopped => good.late x (awake x stopped).2,good.stale,fun p inside => ?_,
    fun p inside phase stopped => ?_⟩
  · change ((schedReady w.kernel u).task p.target).sigPending &&& sigPendStop = 0
    rw [schedReady_pending]
    rcases mem_or_eq_of_mem_set inside with old | rfl
    · exact good.discarded p old
    · exact good.discarded ⟨u,.tested true⟩ member
  · obtain ⟨other,was⟩ := awake _ stopped
    rcases mem_or_eq_of_mem_set inside with old | rfl
    · exact good.awake p old phase was
    · exact other rfl

lemma Good.finish (member : p ∈ w.posts) (done : p.phase = .tested false ∨ p.phase = .readied) :
    Good { w.setBit p.target SIGCONT with posts := (w.setBit p.target SIGCONT).posts.eraseIdx i } := by
  have harmless : Harmless w p.target SIGCONT :=
    ⟨nofun,fun _ => ⟨good.awake p member done,good.discarded p member⟩,fun stop => absurd cont_apart stop⟩
  have posted := good.setBit harmless
  exact ⟨posted.late,posted.stale,fun q inside => posted.discarded q (mem_of_mem_eraseIdx inside),
    fun q inside => posted.awake q (mem_of_mem_eraseIdx inside)⟩

lemma Good.advance (i : Nat) : Good (advance w i) := by
  unfold Stop.advance
  cases found : w.posts[i]? with
  | none => exact good
  | some p =>
    have member : p ∈ w.posts := mem_of_getElem? found
    obtain ⟨u,phase⟩ := p
    rcases phase with _ | stopped | _
    · dsimp only
      split
      · exact good.setPost (fun x => upd_state (fun _ => by rfl) x) (fun x => upd_pending (fun _ => by rfl) x)
          (good.discarded ⟨u,.cleared⟩ member) (by rintro (no | no) <;> cases no)
      next runs =>
        exact good.setPost (fun _ => rfl) (fun _ => rfl) (good.discarded ⟨u,.cleared⟩ member) fun _ => runs
    · cases stopped with
      | true => exact good.ready member
      | false => exact good.finish member (.inl rfl)
    · exact good.finish member (.inr rfl)

lemma Good.take (t : Tid) : Good (take w t) := by
  unfold Stop.take
  cases w.checking t with
  | idle | stopping sig => exact good
  | chosen sig =>
    have cleared := good.clearBits t (Sched.sigBit sig)
    have rest (checking : Tid → Checking) : Good { w.clearBits t (Sched.sigBit sig) with checking } :=
      ⟨cleared.late,cleared.stale,cleared.discarded,cleared.awake⟩
    dsimp only
    split
    · exact rest _
    · have ended (x : Tid) (stopped : (schedZombie (w.clearBits t (Sched.sigBit sig)).kernel t).state x = .stopped) :
          (w.clearBits t (Sched.sigBit sig)).state x = .stopped := by
        rw [schedZombie_state] at stopped
        split at stopped
        · cases stopped
        · exact stopped
      refine ⟨fun x stopped => cleared.late x (ended x stopped),cleared.stale,fun p member => ?_,
        fun p member phase stopped => cleared.awake p member phase (ended _ stopped)⟩
      change ((schedZombie _ t).task p.target).sigPending &&& sigPendStop = 0
      rw [schedZombie_pending]
      exact cleared.discarded p member
    · exact rest _

lemma Good.halt (quiet : Quiet w t) : Good (halt w t) := by
  unfold Stop.halt
  cases w.checking t with
  | idle | chosen sig => exact good
  | stopping sig =>
    refine ⟨fun u stopped => ?_,good.stale,fun p member => ?_,fun p member phase stopped => ?_⟩
    · change update w.late t false u = false
      by_cases same : u = t
      · subst same
        exact update_self ..
      · rw [update_of_ne same]
        exact good.late u (((schedStop_spec sig u).1 stopped).resolve_left same)
    · exact (schedStop_spec sig p.target).2.trans (good.discarded p member)
    · rcases (schedStop_spec sig p.target).1 stopped with same | was
      · exact quiet p member same
      · exact good.awake p member phase was

lemma Good.kill
    (harmless : ∀ t ∈ killTargets w own pid, Harmless w t sig) : Good (sysKill w own pid sig) := by
  unfold sysKill
  generalize killTargets w own pid = targets at harmless
  induction targets generalizing w with
  | nil => exact good
  | cons t targets ih =>
    rw [foldl_cons]
    have first : signalPostKill w t sig = w ∨ signalPostKill w t sig = w.setBit t sig := by
      unfold signalPostKill schedFindTask
      split
      · exact .inl rfl
      split
      · exact .inl rfl
      rename_i found
      split at found
      · cases found
        exact .inr rfl
      · cases found
    rcases first with same | posted
    · rw [same]
      exact ih good fun u member => harmless u (mem_cons_of_mem _ member)
    rw [posted]
    apply ih (good.setBit (harmless t mem_cons_self))
    exact fun u member => (harmless u (mem_cons_of_mem _ member)).setBit

lemma Good.step {e : Event} (orderly : Orderly w e) : Good (step w e) := by
  cases e with
  | signalPost pid sig =>
    dsimp only [Stop.step,signalPost]
    split
    · exact good
    split
    · exact good
    next t found => exact good.postTo (orderly t found)
  | signalPostPgrp pgrp sig t =>
    dsimp only [Stop.step,signalPostPgrp]
    split
    · exact good
    · exact good.postTo orderly
  | signalPostTty term sig =>
    dsimp only [Stop.step,signalPostTty]
    split
    · exact good
    · exact good.setBits orderly
  | sysKill own pid sig => exact good.kill orderly
  | advance i => exact good.advance i
  | dispose t d => exact ⟨good.late,good.stale,good.discarded,good.awake⟩
  | choose t =>
    dsimp only [Stop.step,choose]
    split
    · exact good
    split
    · exact ⟨good.late,good.stale,good.discarded,good.awake⟩
    · exact good
  | take t => exact good.take t
  | halt t => exact good.halt orderly

end

end Steps

/-- In every state of an orderly run, a stopped task has had no SIGCONT and no SIGKILL posted
since it stopped, and no stop signal is pending from before a SIGCONT. -/
theorem stopped_can_continue (kernel : Kernel) (disposition : Tid → Disposition) (events : List Event)
    (legal : Run.Legal step Orderly (World.start kernel disposition) events) (t : Tid) :
    let w := Run.after step (World.start kernel disposition) events
    (w.state t = .stopped → w.late t = false) ∧ w.stale t = 0 := by
  have start : Good (World.start kernel disposition) := ⟨fun _ _ => rfl,fun _ => rfl,nofun,nofun⟩
  have good := legal.invariant (fun _ _ good orderly => good.step orderly) start
  exact ⟨good.late t,good.stale t⟩

/-- A kernel with one task, in group 7. -/
def single (state : Sched.TState) (pending : BitVec 32) : Kernel :=
  { Sched.boot true with
    taskList := [5]
    task := fun t => if t = 5 then { state, sigPending := pending, pgrp := 7 } else {} }

def defaults : Tid → Disposition := fun _ => ⟨0,fun _ => SIG_DFL⟩

theorem stopped_can_continue_once :
    let events : List Event :=
      [.signalPost 5 SIGSTOP,.choose 5,.take 5,.halt 5,.signalPost 5 SIGCONT,.advance 0,.advance 0,
      .advance 0]
    let w := Run.after step (World.start (single .running 0) defaults) events
    ((w.state 5 = .stopped → w.late 5 = false) ∧ w.stale 5 = 0) ∧ w.state 5 = .ready := by
  intro events w
  refine ⟨stopped_can_continue (single .running 0) defaults events ?_ 5,by decide +kernel⟩
  refine ⟨fun t _ _ => ⟨nofun,nofun,fun _ => nofun⟩,trivial,trivial,?_,fun t _ no => absurd rfl no,trivial,trivial,
    trivial,trivial⟩
  intro p member
  cases member

/-- Neither `kill` nor a terminal wakes a stopped task with SIGCONT, no path wakes it with
SIGKILL, `kill` with SIGCONT leaves an older SIGTSTP pending, and a task that stops between
the test and the last step of `signal_post` stays stopped with SIGCONT posted. -/
theorem stopped_for_good :
    let run (kernel : Kernel) (events : List Event) := Run.after step (World.start kernel defaults) events
    let stuck (w : World) := w.state 5 = .stopped ∧ w.late 5 = true
    stuck (run (single .stopped 0) [.sysKill 7 5 SIGCONT]) ∧ stuck (run (single .stopped 0) [.sysKill 7 0 SIGCONT]) ∧
    stuck (run (single .stopped 0) [.signalPostTty ⟨7,fun _ => false⟩ SIGCONT]) ∧
    stuck (run (single .stopped 0) [.signalPost 5 SIGKILL]) ∧ stuck (run (single .stopped 0) [.sysKill 7 5 SIGKILL]) ∧
    stuck (run (single .running 0) [.signalPost 5 SIGSTOP,.choose 5,.take 5,.signalPost 5 SIGCONT,.advance 0,.halt 5,
      .advance 0]) ∧
    (run (single .running 0) [.sysKill 7 5 SIGTSTP,.sysKill 7 5 SIGCONT]).stale 5 = Sched.sigBit SIGTSTP := by
  refine ⟨?_,?_,?_,?_,?_,?_,?_⟩ <;> decide +kernel

end UbixOS.Posix.Stop
