import UbixOS.Posix.SignalNest

/-! Waits that signals end (posix/signal.c, posix/vfs_calls.c): the three predicates by which a
blocking call decides that it is interrupted, against what the checks on the way back to user
mode do with the pending signals, and the mask that `sigsuspend` installs for its wait. -/
namespace UbixOS.Posix.Wait

open Library Nest List

def SIGURG : Nat := 23
def SIGWINCH : Nat := 28
def SIGIO : Nat := 29

def SIG_DFL_IGNORE_MASK : UInt32 :=
  sigBit SIGCHLD ||| sigBit SIGCONT ||| sigBit SIGURG ||| sigBit SIGWINCH ||| sigBit SIGIO

/-- `td->sig_pending & ~td->sigmask.__bits[0]`. -/
def unmasked (td : Thread) : UInt32 := td.sigPending &&& ~~~(td.sigmask 0)

def signalInterruptsWait (td : Thread) : Bool :=
  (range' 1 31).any fun sig =>
    sigIn (unmasked td) sig && ((td.sigact sig).handler != SIG_IGN &&
      ((td.sigact sig).handler != SIG_DFL || sigIn (SIGTERM_MASK ||| SIGSTOP_MASK) sig))

/-- An ignored signal, or one that `SIG_DFL_IGNORE_MASK` has under its default action. -/
def dropped (td : Thread) (sig : Nat) : Bool :=
  (td.sigact sig).handler == SIG_IGN || (td.sigact sig).handler == SIG_DFL && sigIn SIG_DFL_IGNORE_MASK sig

def sigDeliverablePending (td : Thread) : UInt32 :=
  (range' 1 31).foldl
    (fun set sig => if sigIn set sig && dropped td sig then set &&& ~~~sigBit sig else set) (unmasked td)

def signalFatalPending (td : Thread) : Bool :=
  td.sigPending &&& (~~~(td.sigmask 0) ||| (sigBit SIGKILL ||| sigBit SIGSTOP)) &&& SIGTERM_MASK != 0

section Predicates

/-- A pending signal that no mask holds back and that has an effect. -/
def Wakes (td : Thread) (sig : Nat) : Prop :=
  sigIn (unmasked td) sig = true ∧ (td.sigact sig).handler ≠ SIG_IGN ∧
    ((td.sigact sig).handler ≠ SIG_DFL ∨ sigIn (SIGTERM_MASK ||| SIGSTOP_MASK) sig = true)

/-- A pending signal that ends a process by default and that no mask holds back, SIGKILL under any. -/
def Fatal (td : Thread) (sig : Nat) : Prop := sigIn td.unblocked sig = true ∧ sigIn SIGTERM_MASK sig = true

/-- A pending signal under its default action that none of the masks of signals knows. -/
def Stray (td : Thread) (sig : Nat) : Prop :=
  sigIn (unmasked td) sig = true ∧ (sig ≠ 32 → (td.sigact sig).handler = SIG_DFL ∧
    sigIn (SIGTERM_MASK ||| SIGSTOP_MASK ||| SIG_DFL_IGNORE_MASK) sig = false)

lemma interrupts_iff : signalInterruptsWait td = true ↔ ∃ sig ∈ range' 1 31, Wakes td sig := by
  simp [signalInterruptsWait,Wakes]

lemma set_ne_zero {set : UInt32} : set ≠ 0 ↔ ∃ sig ∈ range' 1 32, sigIn set sig = true := by
  constructor
  · intro some
    obtain ⟨i,bit⟩ := Nat.exists_testBit_of_ne_zero (fun zero => some (UInt32.toNat_inj.mp zero))
    have low : i < 32 := Nat.lt_of_not_le fun above => by
      rw [Nat.testBit_lt_two_pow (set.toNat_lt.trans_le (Nat.pow_le_pow_right (by decide) above))] at bit
      cases bit
    exact ⟨i + 1,mem_range'_1.mpr (by omega),by rwa [sigIn_testBit,Nat.add_sub_cancel,Nat.mod_eq_of_lt low]⟩
  · rintro ⟨sig,-,member⟩ rfl
    simp [sigIn] at member

lemma drop_iff (set : UInt32) (sigs : List Nat) (range : ∀ k ∈ sigs, 1 ≤ k ∧ k ≤ 31) (low : 1 ≤ sig) (high : sig ≤ 32) :
    sigIn (sigs.foldl (fun set sig =>
      if sigIn set sig && dropped td sig then set &&& ~~~sigBit sig else set) set) sig = true ↔
      sigIn set sig = true ∧ (sig ∈ sigs → dropped td sig = false) := by
  induction sigs generalizing set with
  | nil => simp
  | cons k sigs ih =>
    have bounds := range k mem_cons_self
    have bit := sigIn_sigBit bounds.1 (by omega) low high
    rw [foldl_cons,ih _ fun k member => range k (mem_cons_of_mem _ member)]
    by_cases same : k = sig
    · subst same
      split <;> simp_all
    · split <;> simp_all [Ne.symm same]

/-- What is left is what wakes, and what no mask of signals knows. -/
lemma deliverable_iff : sigDeliverablePending td ≠ 0 ↔
    (∃ sig ∈ range' 1 31, Wakes td sig) ∨ ∃ sig ∈ range' 1 32, Stray td sig := by
  have apart : ∀ sig < 32, sigIn (SIGTERM_MASK ||| SIGSTOP_MASK) sig = true →
    sigIn SIG_DFL_IGNORE_MASK sig = false := by decide
  have left {sig : Nat} (range : 1 ≤ sig ∧ sig < 1 + 32) : sigIn (sigDeliverablePending td) sig = true ↔
      sigIn (unmasked td) sig = true ∧ (sig ≠ 32 → dropped td sig = false) := by
    rw [sigDeliverablePending,drop_iff _ _ (fun k member => by rw [mem_range'_1] at member; omega) range.1 (by omega),
      mem_range'_1,show (1 ≤ sig ∧ sig < 1 + 31) ↔ sig ≠ 32 by omega]
  rw [set_ne_zero]
  constructor
  · rintro ⟨sig,range,member⟩
    obtain ⟨pending,stays⟩ := (left (mem_range'_1.mp range)).mp member
    by_cases wakes : sig ≠ 32 ∧ Wakes td sig
    · exact .inl ⟨sig,by simp at range ⊢; omega,wakes.2⟩
    refine .inr ⟨sig,range,pending,fun inside => ?_⟩
    have kept := stays inside
    simp_all [Wakes,dropped]
  rintro (⟨sig,range,pending,kept,acts⟩ | ⟨sig,range,pending,stray⟩)
  · rw [mem_range'_1] at range
    refine ⟨sig,by simp; omega,(left (by omega)).mpr ⟨pending,fun _ => ?_⟩⟩
    have known := apart sig (by omega)
    rcases acts with custom | acts <;> simp_all [dropped]
  · refine ⟨sig,range,(left (mem_range'_1.mp range)).mpr ⟨pending,fun inside => ?_⟩⟩
    obtain ⟨default,unknown⟩ := stray inside
    simp_all [dropped,SIG_DFL,SIG_IGN]

lemma fatal_iff : signalFatalPending td = true ↔ ∃ sig ∈ range' 1 31, Fatal td sig := by
  have apart : ∀ sig ∈ range' 1 32, sigIn SIGTERM_MASK sig = true →
      sig ∈ range' 1 31 ∧ sigIn (sigBit SIGSTOP) sig = false := by decide
  rw [signalFatalPending,bne_iff_ne,set_ne_zero]
  constructor
  · rintro ⟨sig,range,member⟩
    simp only [sigIn_and,Bool.and_eq_true] at member
    obtain ⟨inside,other⟩ := apart sig range member.2
    exact ⟨sig,inside,by simp_all [Fatal,Thread.unblocked]⟩
  · rintro ⟨sig,range,pending,fatal⟩
    have known := apart sig (by simp at range ⊢; omega) fatal
    exact ⟨sig,by simp at range ⊢; omega,by simp_all [Thread.unblocked]⟩

end Predicates

section Checks

/-- Repeated checks come to a signal that runs a handler, stops the task or ends it. -/
inductive Acts (deliver : Nat → Sigaction → Machine F → Machine F) : Machine F → Prop
  | now {m : Machine F} : (signalCheck deliver m).1 ≠ .idle → Acts deliver m
  | later {m : Machine F} : (signalCheck deliver m).1 = .idle → Acts deliver (signalCheck deliver m).2 → Acts deliver m

/-- An unblocked signal that a check does not discard. -/
structure Effective (td : Thread) (sig : Nat) : Prop where
  range : 1 ≤ sig ∧ sig ≤ 31
  pending : sigIn td.unblocked sig = true
  effect : verdict sig (td.sigact sig).handler ≠ .idle

lemma verdict_idle : verdict sig handler ≠ .idle ↔ sig = SIGKILL ∨ handler ≠ SIG_IGN ∧
    (handler ≠ SIG_DFL ∨ sigIn (SIGTERM_MASK ||| SIGSTOP_MASK) sig = true) := by
  unfold verdict
  split_ifs <;> simp_all

lemma check_idle (first : firstSignal m.td.unblocked = some k) (idle : (signalCheck deliver m).1 = .idle) :
    verdict k (m.td.sigact k).handler = .idle ∧ (signalCheck deliver m).2 = m.mapThread (·.clearPending k) := by
  rw [signalCheck_some first] at idle ⊢
  exact ⟨idle,by simp_all⟩

lemma unblocked_clear {td : Thread} {k : Nat} (bounds : 1 ≤ k ∧ k ≤ 31) (range : 1 ≤ sig ∧ sig ≤ 31) :
    sigIn (td.clearPending k).unblocked sig = (sigIn td.unblocked sig && !decide (k = sig)) := by
  have bit := sigIn_sigBit bounds.1 (by omega) range.1 (by omega : sig ≤ 32)
  simp only [Thread.unblocked,Thread.clearPending,sigIn_and,sigIn_not,bit]
  exact Bool.and_right_comm ..

/-- An effective signal comes up after the lower ones that are discarded. -/
lemma acts_of_effective (n : Nat) (small : m.td.sigPending.toNat < n) (effective : Effective m.td sig) :
    Acts deliver m := by
  induction n generalizing m with
  | zero => omega
  | succ n ih =>
    by_cases idle : (signalCheck deliver m).1 = .idle
    · obtain ⟨k,-,first⟩ := firstSignal_le effective.range.1 effective.range.2 effective.pending
      obtain ⟨discarded,next⟩ := check_idle first idle
      obtain ⟨bounds,here,-⟩ := firstSignal_some first
      have other : k ≠ sig := by
        rintro rfl
        exact effective.effect discarded
      -- the pending set is smaller by the bit that was taken
      have less : (m.td.clearPending k).sigPending.toNat < m.td.sigPending.toNat := by
        refine Nat.lt_of_le_of_ne Nat.and_le_left fun same => ?_
        have gone : sigIn (m.td.clearPending k).sigPending k = _ :=
          sigIn_clearPending bounds.1 bounds.2 bounds.1 bounds.2
        simp [UInt32.toNat_inj.mp same,pending_of_unblocked here] at gone
      refine .later idle ?_
      rw [next]
      exact ih (less.trans_le (Nat.le_of_lt_succ small))
        ⟨effective.range,(unblocked_clear bounds effective.range).trans (by simp [effective.pending,other]),
          effective.effect⟩
    · exact .now idle

lemma effective_of_acts (acts : Acts deliver m) : ∃ sig, Effective m.td sig := by
  induction acts with
  | @now m acts =>
    cases first : firstSignal m.td.unblocked with
    | none => exact absurd (by rw [signalCheck_none first]) acts
    | some k =>
      rw [signalCheck_some first] at acts
      exact ⟨k,(firstSignal_some first).1,(firstSignal_some first).2.1,acts⟩
  | @later m idle _ ih =>
    cases first : firstSignal m.td.unblocked with
    | none => rwa [signalCheck_none first] at ih
    | some k =>
      rw [(check_idle first idle).2] at ih
      obtain ⟨sig,range,pending,effect⟩ := ih
      have still := (unblocked_clear (firstSignal_some first).1 range).symm.trans pending
      exact ⟨sig,range,(Bool.and_eq_true_iff.mp still).1,effect⟩

/-- What the checks answer is what wakes, and SIGKILL under any mask and disposition. -/
lemma acts_iff : Acts deliver m ↔ (∃ sig ∈ range' 1 31, Wakes m.td sig) ∨ sigIn m.td.sigPending SIGKILL = true := by
  have kill : sigIn (sigBit SIGKILL) SIGKILL = true := by decide
  constructor
  · intro acts
    obtain ⟨sig,range,pending,effect⟩ := effective_of_acts acts
    by_cases same : sig = SIGKILL
    · exact .inr (pending_of_unblocked (same ▸ pending))
    have bit := sigIn_sigBit (n := SIGKILL) (by decide) (by decide) range.1 (by omega : sig ≤ 32)
    refine .inl ⟨sig,mem_range'_1.mpr (by omega),?_,(verdict_idle.mp effect).resolve_left same⟩
    simpa [Thread.unblocked,unmasked,bit,Ne.symm same] using pending
  rintro (⟨sig,range,pending,acts⟩ | pending)
  · rw [mem_range'_1] at range
    have effective : Effective m.td sig := by
      refine ⟨by omega,?_,verdict_idle.mpr (.inr acts)⟩
      simp_all [Thread.unblocked,unmasked]
    exact acts_of_effective _ (Nat.lt_succ_self _) effective
  · have effective : Effective m.td SIGKILL :=
      ⟨by decide,by simp [Thread.unblocked,pending,kill],verdict_idle.mpr (.inl rfl)⟩
    exact acts_of_effective _ (Nat.lt_succ_self _) effective

/-- A wait that goes by any of the predicates is interrupted exactly when the checks do something. -/
@[mk_iff] structure Agree (deliver : Nat → Sigaction → Machine F → Machine F) (m : Machine F) : Prop where
  interrupts : signalInterruptsWait m.td = true ↔ Acts deliver m
  deliverable : sigDeliverablePending m.td ≠ 0 ↔ Acts deliver m
  fatal : signalFatalPending m.td = true ↔ Acts deliver m

/-- The predicates agree with the checks exactly when a signal that wakes and one that is fatal by
default are pending together, or neither and no stray one. -/
theorem waits_agree (deliver : Nat → Sigaction → Machine F → Machine F) (m : Machine F) : Agree deliver m ↔
    ((∃ sig ∈ range' 1 31, Wakes m.td sig) ∧ ∃ sig ∈ range' 1 31, Fatal m.td sig) ∨
      ¬(∃ sig ∈ range' 1 31, Wakes m.td sig) ∧ ¬(∃ sig ∈ range' 1 31, Fatal m.td sig) ∧
        ¬∃ sig ∈ range' 1 32, Stray m.td sig := by
  have bit : sigIn (sigBit SIGKILL) SIGKILL = true := by decide
  have killed : sigIn m.td.sigPending SIGKILL = true → ∃ sig ∈ range' 1 31, Fatal m.td sig := fun pending =>
    ⟨SIGKILL,by decide,by simp [Thread.unblocked,pending,bit],by decide⟩
  rw [agree_iff,interrupts_iff,deliverable_iff,fatal_iff,acts_iff]
  generalize (∃ sig ∈ range' 1 31, Wakes m.td sig) = wakes, (∃ sig ∈ range' 1 31, Fatal m.td sig) = fatal at *
  by_cases fatal <;> by_cases wakes <;> simp_all

def one (sig : Nat) (mask : UInt32) : Machine Unit :=
  ⟨fun _ => 0,(),{ quietThread with sigPending := sigBit sig, sigmask := fun _ => mask }⟩

/-- SIGUSR1 at its default is discarded by the check, and ends a wait in `read`; SIGKILL under a
mask ends the task, and leaves one in `wait4` asleep. -/
theorem waits_disagree : (sigDeliverablePending (one 10 0).td ≠ 0 ∧ ¬Acts (fun _ _ m => m) (one 10 0)) ∧
      signalInterruptsWait (one SIGKILL (sigBit SIGKILL)).td = false ∧
        Acts (fun _ _ m => m) (one SIGKILL (sigBit SIGKILL)) := by
  refine ⟨⟨by decide +kernel,fun acts => ?_⟩,by decide +kernel,acts_iff.mpr (.inr (by decide))⟩
  rcases acts_iff.mp acts with wakes | kill
  · exact absurd (interrupts_iff.mpr wakes) (by decide +kernel)
  · exact absurd kill (by decide)

end Checks

section Suspend

/-- A thread at the end of `sigsuspend`: the signals in `arrived` came during the wait. -/
def woken (m : Machine F) (word0 word1 arrived : UInt32) : Machine F :=
  m.mapThread fun td => { sysSigsuspend td word0 word1 with sigPending := td.sigPending ||| arrived }

/-- User code that does not leave a `sigsuspend` of its own behind. -/
def Calm : Event F → Prop
  | .user m _ => Unsaved m.td
  | .sigsuspend _ _ => False
  | _ => True

/-- Back in user mode from the check of `w`, and out of the handler that it entered, the thread has
the mask of `m`. The handler runs any nest of further handlers. -/
def Back (port : Port F R) (m w : Machine F) : Verdict × Machine F → Prop
  | (.terminated _,_) => True
  | (.handled sig,_) => ∀ (main : Window) (onAlt : Bool) (mid : List (Event F)) (f : F),
    let s : State F R := outside (w.mapThread (·.clearPending sig)) onAlt
    let t := Run.after (step port) s (.signal sig :: (mid ++ [.sigreturn f]))
    AltOk main m.td → Seated main (altArea m.td) onAlt (spOf port m).toNat → Balanced mid → (∀ e ∈ mid, Calm e) →
    Run.Legal (step port) (Allowed port main) s (.signal sig :: (mid ++ [.sigreturn f])) →
    t.m.td.sigmask = m.td.sigmask ∧ Unsaved t.m.td
  | (_,m') => m'.td.sigmask = m.td.sigmask ∧ Unsaved m'.td

/-- A call whose wait ends gives the mask back. -/
def Restores (port : Port F R) (m : Machine F) (word0 word1 arrived : UInt32) : Prop :=
  let w := woken m word0 word1 arrived
  unmasked w.td ≠ 0 → Back port m w (signalCheck port.deliver w)

lemma unsaved_step (lawful : port.Lawful) (unsaved : Unsaved s.m.td) (calm : Calm e) :
    Unsaved (step port s e).m.td := by
  cases e with
  | signal sig => exact unsaved_signal lawful s sig
  | sigreturn f =>
    obtain ⟨mask,ret,thread⟩ := lawful.sigreturn_thread { s.m with frame := f }
    change Unsaved (port.sigreturn { s.m with frame := f }).td
    rw [thread]
    exact unsaved
  | user m onAlt => exact calm
  | sigsuspend word0 word1 => exact calm.elim
  | sigaltstack ss oss =>
    change Unsaved (sysSigaltstack s.m.td _ ss oss)
    rcases ss with _ | ⟨_ | nss⟩
    · exact unsaved
    · exact unsaved
    · dsimp only [sysSigaltstack,Unsaved]
      split_ifs <;> exact unsaved

lemma unsaved_after (lawful : port.Lawful) (events : List (Event F)) (calm : ∀ e ∈ events, Calm e)
    (unsaved : Unsaved s.m.td) : Unsaved (Run.after (step port) s events).m.td := by
  induction events generalizing s with
  | nil => exact unsaved
  | cons e events ih =>
    exact ih (fun e member => calm e (mem_cons_of_mem _ member)) (unsaved_step lawful unsaved (calm e mem_cons_self))

def settles : Verdict → Bool
  | .handled _ | .terminated _ => true
  | _ => false

/-- The first signal that ends the wait, if any does, runs a handler or ends the task. -/
def Settled (m : Machine F) (word0 word1 arrived : UInt32) : Prop := unmasked (woken m word0 word1 arrived).td ≠ 0 →
  ∃ sig, firstSignal (woken m word0 word1 arrived).td.unblocked = some sig ∧
    settles (verdict sig (m.td.sigact sig).handler) = true

lemma restores_iff (lawful : port.Lawful) (m : Machine F) (word0 word1 arrived : UInt32) :
    Restores port m word0 word1 arrived ↔ Settled m word0 word1 arrived := by
  have bit : sigIn TDP_OLDMASK 1 = true := by decide
  have saved : ¬Unsaved (woken m word0 word1 arrived).td := by
    rw [unsaved_iff]
    simp [woken,Machine.mapThread,sysSigsuspend,bit]
  refine forall_congr' fun ready => ?_
  cases first : firstSignal (woken m word0 word1 arrived).td.unblocked with
  | none =>
    rw [signalCheck_none first]
    refine ⟨fun kept => absurd kept.2 saved,fun settled => ?_⟩
    obtain ⟨k,found,_⟩ := settled
    cases found
  | some sig =>
    rw [signalCheck_some first]
    have same : (woken m word0 word1 arrived).td.sigact = m.td.sigact := rfl
    rw [same]
    cases effect : verdict sig (m.td.sigact sig).handler with
    | idle | stopped k =>
      refine ⟨fun kept => absurd kept.2 saved,fun settled => ?_⟩
      obtain ⟨k,found,settled⟩ := settled
      cases found
      simp [effect,settles] at settled
    | terminated k => exact ⟨fun _ => ⟨sig,rfl,by rw [effect]; rfl⟩,fun _ => trivial⟩
    | handled k =>
      refine ⟨fun _ => ⟨sig,rfl,by rw [effect]; rfl⟩,fun _ main onAlt mid f alt seated balanced calm legal => ⟨?_,?_⟩⟩
      · have sound : Sound port main (outside ((woken m word0 word1 arrived).mapThread (·.clearPending k)) onAlt) :=
          outside_sound (alt.congr rfl) seated
        refine (sound.restored lawful balanced legal).2.trans (if_pos ?_)
        rw [bne_iff_ne]
        exact saved
      rw [Run.after_cons]
      refine unsaved_after lawful _ (fun e member => ?_) (unsaved_signal lawful _ k)
      rcases mem_append.mp member with inside | last
      · exact calm e inside
      · rw [mem_singleton.mp last]
        trivial

end Suspend

/-- On both ports `sigsuspend` gives the mask back exactly when the first signal that ends its wait
runs a handler or ends the task. -/
theorem sigsuspend_restores (m : Machine Aarch64.Trapframe) (m' : Machine X8664.Trapframe)
    (word0 word1 arrived : UInt32) :
    (Restores Aarch64.port m word0 word1 arrived ↔ Settled m word0 word1 arrived) ∧
      (Restores X8664.port m' word0 word1 arrived ↔ Settled m' word0 word1 arrived) :=
  ⟨restores_iff Aarch64.port_lawful m word0 word1 arrived,restores_iff X8664.port_lawful m' word0 word1 arrived⟩

/-- A child's exit ends the wait of a thread without a handler for it: the temporary mask stays. -/
theorem sigsuspend_keeps_mask : ¬Restores Aarch64.port { onstack with td := quietThread } 4 0 (sigBit SIGCHLD) := by
  rw [restores_iff Aarch64.port_lawful]
  intro settled
  obtain ⟨sig,first,settled⟩ := settled (by decide)
  have chld : firstSignal (woken { onstack with td := quietThread } 4 0 (sigBit SIGCHLD)).td.unblocked =
    some SIGCHLD := by
    decide +kernel
  rw [chld] at first
  cases first
  cases settled

end UbixOS.Posix.Wait
