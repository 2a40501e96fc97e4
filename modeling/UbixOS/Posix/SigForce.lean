import UbixOS.Posix.SignalPort
import UbixOS.Posix.SignalCheck
import UbixOS.Library.Run

/-! SIGKILL and SIGSTOP against a process that may install any handler and any mask, and that
restores its mask from frames it can write. Senders only set pending bits. -/
namespace UbixOS.Posix.Force

open Library Finset

inductive Event (F : Type) where
  | user (mem : Memory) (frame : F)
  | sigaction (sig : Int) (act : Option MuslSigaction) (queries : Bool)
  | sigprocmask (how : Int) (set : Option (UInt32 × UInt32)) (queries : Bool)
  | sigsuspend (word0 word1 : UInt32)
  | sigreturn
  /-- `signal_post_kill`, by the process or by anyone else -/
  | kill (sig : Int)
  | check
  | astCheck

/-- The process and the verdicts of its checks, newest first. -/
structure State (F : Type) where
  m : Machine F
  log : List Verdict

/-- `signal_post_kill`: the bit of a signal between 1 and 31. -/
def signalPostKill (td : Thread) (sig : Int) : Thread :=
  if sig < 1 ∨ 31 < sig then td else td.setPending sig.toNat

section Model

variable (port : Port F R)

def step (s : State F) : Event F → State F
  | .user mem frame => { s with m := { s.m with mem, frame } }
  | .sigaction sig act queries => { s with m := s.m.mapThread (sysSigaction · sig act queries) }
  | .sigprocmask how set queries => { s with m := s.m.mapThread (sysSigprocmask · how set queries) }
  | .sigsuspend word0 word1 => { s with m := s.m.mapThread (sysSigsuspend · word0 word1) }
  | .sigreturn => { s with m := port.sigreturn s.m }
  | .kill sig => { s with m := s.m.mapThread (signalPostKill · sig) }
  | .check => ⟨(signalCheck port.deliver s.m).2,(signalCheck port.deliver s.m).1 :: s.log⟩
  | .astCheck => ⟨{ s.m with td := (signalAstCheck s.m.td).2 },(signalAstCheck s.m.td).1 :: s.log⟩

/-- The process leaves the dispositions of SIGKILL and SIGSTOP at their default and keeps
SIGSTOP out of every mask. -/
def Fair (s : State F) : Event F → Prop
  | .sigaction sig act _ => ∀ a ∈ act, (sig = SIGKILL ∨ sig = SIGSTOP → a.handler = SIG_DFL) ∧
    sigIn a.mask0 SIGSTOP = false
  | .sigprocmask how set _ => ∀ words ∈ set, how ≠ SIG_UNBLOCK → sigIn words.1 SIGSTOP = false
  | .sigsuspend word0 _ => sigIn word0 SIGSTOP = false
  | .sigreturn => sigIn ((port.sigreturn s.m).td.sigmask 0) SIGSTOP = false
  | _ => True

structure Plain (td : Thread) : Prop where
  kill : (td.sigact SIGKILL).handler = SIG_DFL
  stop : (td.sigact SIGSTOP).handler = SIG_DFL
  mask : sigIn (td.sigmask 0) SIGSTOP = false
  masks : ∀ sig, sigIn ((td.sigact sig).mask 0) SIGSTOP = false

/-- The verdict that answers a pending signal `n`: the end of the task, or for SIGSTOP its stop. -/
def Answers (n : Nat) : Verdict → Prop
  | .terminated _ => True
  | .stopped sig => n = SIGSTOP ∧ sig = SIGSTOP
  | _ => False

def Answered (n : Nat) (s : State F) : Prop := ∃ v ∈ s.log, Answers n v

def below (n : Nat) (td : Thread) : Finset Nat := (Finset.Ico 1 n).filter fun k => sigIn td.sigPending k

/-- The event is a check that takes a signal; the check of the timer interrupt leaves a caught one. -/
def takes (s : State F) : Event F → Bool
  | .check => true
  | .astCheck => (firstSignal s.m.td.unblocked).any fun sig =>
    (s.m.td.sigact sig).handler == SIG_DFL || (s.m.td.sigact sig).handler == SIG_IGN
  | _ => false

/-- How many events of a run take a signal. -/
def turns : State F → List (Event F) → Nat
  | _, [] => 0
  | s, e :: events => (takes s e).toNat + turns (step port s e) events

end Model

section Check

/-- The check of the timer interrupt leaves a custom handler's signal pending and discards or
answers any other. -/
lemma signalAstCheck_cases (td : Thread) :
    (signalAstCheck td = (.idle,td) ∧ ∀ sig, firstSignal td.unblocked = some sig →
      (td.sigact sig).handler ≠ SIG_DFL ∧ (td.sigact sig).handler ≠ SIG_IGN) ∨
    ∃ sig, firstSignal td.unblocked = some sig ∧ (signalAstCheck td).2 = td.clearPending sig ∧
      (∀ k, (signalAstCheck td).1 ≠ .handled k) ∧
      ((td.sigact sig).handler = SIG_DFL → (signalAstCheck td).1 =
        if sigIn SIGSTOP_MASK sig then .stopped sig else if sigIn SIGTERM_MASK sig then .terminated sig
          else .idle) := by
  cases first : firstSignal td.unblocked with
  | none => exact .inl ⟨by rw [signalAstCheck,first],nofun⟩
  | some sig =>
    rw [signalAstCheck,first]
    dsimp only
    by_cases ignored : (td.sigact sig).handler = SIG_IGN
    · rw [if_pos (beq_iff_eq.mpr ignored)]
      refine .inr ⟨sig,rfl,rfl,nofun,fun h => ?_⟩
      rw [ignored] at h
      cases h
    rw [if_neg (by simpa using ignored)]
    by_cases default : (td.sigact sig).handler = SIG_DFL
    · rw [if_pos (beq_iff_eq.mpr default)]
      right
      refine ⟨sig,rfl,?_⟩
      split
      · exact ⟨rfl,nofun,fun _ => rfl⟩
      split <;> exact ⟨rfl,nofun,fun _ => rfl⟩
    · rw [if_neg (by simpa using default)]
      exact .inl ⟨rfl,fun k same => Option.some.inj same ▸ ⟨default,ignored⟩⟩

end Check

section Pending

variable {td : Thread}

/-- SIGKILL passes every mask, SIGSTOP those that leave it out. -/
lemma unblocked_of_pending (force : n = SIGKILL ∨ n = SIGSTOP) (mask : sigIn (td.sigmask 0) SIGSTOP = false)
    (pending : sigIn td.sigPending n = true) : sigIn td.unblocked n = true := by
  rw [Thread.unblocked,sigIn_and,sigIn_or,sigIn_not,pending]
  rcases force with rfl | rfl
  · rw [show sigIn (sigBit SIGKILL) SIGKILL = true from by decide]
    simp
  · rw [mask]
    rfl

end Pending

section Steps

variable {port : Port F R}

lemma Plain.of_same (plain : Plain td) (acts : td'.sigact = td.sigact) (mask : td'.sigmask = td.sigmask) :
    Plain td' := by
  obtain ⟨kill,stop,masked,masks⟩ := plain
  exact ⟨by rw [acts]; exact kill,by rw [acts]; exact stop,by rw [mask]; exact masked,by rw [acts]; exact masks⟩

lemma Plain.of_mask (plain : Plain td) (acts : td'.sigact = td.sigact)
    (mask : sigIn (td'.sigmask 0) SIGSTOP = false) : Plain td' := by
  obtain ⟨kill,stop,-,masks⟩ := plain
  exact ⟨by rw [acts]; exact kill,by rw [acts]; exact stop,mask,by rw [acts]; exact masks⟩

lemma Plain.setAction (plain : Plain td)
    (default : sig = SIGKILL ∨ sig = SIGSTOP → sa.handler = SIG_DFL) (mask : sigIn (sa.mask 0) SIGSTOP = false) :
    Plain (td.setAction sig sa) := by
  have acts (n : Nat) : (td.setAction sig sa).sigact n = if n = sig then sa else td.sigact n := rfl
  refine ⟨?_,?_,plain.mask,fun n => ?_⟩
  · rw [acts]
    split
    · exact default (.inl (Eq.symm ‹_›))
    · exact plain.kill
  · rw [acts]
    split
    · exact default (.inr (Eq.symm ‹_›))
    · exact plain.stop
  · rw [acts]
    split
    · exact mask
    · exact plain.masks n

/-- Blocking a handler's mask keeps SIGSTOP out, unless the handler is SIGSTOP's own. -/
lemma Plain.blockFor (plain : Plain td) (lo : 1 ≤ sig) (hi : sig ≤ 31) (other : sig ≠ SIGSTOP) :
    Plain (td.blockFor sig (td.sigact sig)) := by
  refine plain.of_mask rfl ?_
  change sigIn (if (td.sigact sig).has SA_NODEFER then td.sigmask 0 ||| (td.sigact sig).mask 0
    else td.sigmask 0 ||| (td.sigact sig).mask 0 ||| sigBit sig) SIGSTOP = false
  have both : sigIn (td.sigmask 0 ||| (td.sigact sig).mask 0) SIGSTOP = false := by
    rw [sigIn_or,plain.mask,plain.masks]
    rfl
  split
  · exact both
  · rw [sigIn_or,both,sigIn_sigBit lo (by omega) (by decide) (by decide)]
    simpa using other

lemma Plain.runHandler (lawful : port.Lawful) (plain : Plain m.td) (lo : 1 ≤ sig)
    (hi : sig ≤ 31) (other : sig ≠ SIGSTOP) : Plain (runHandler port.deliver sig m).td := by
  have delivered : Plain (port.deliver sig (m.td.sigact sig) m).td := by
    rw [lawful.deliver_thread]
    exact plain.blockFor lo hi other
  unfold Posix.runHandler
  dsimp only
  split
  · exact delivered.setAction (fun _ => rfl) (by decide)
  · exact delivered

lemma Plain.check (lawful : port.Lawful) (plain : Plain m.td) : Plain (signalCheck port.deliver m).2.td := by
  cases first : firstSignal m.td.unblocked with
  | none =>
    rw [signalCheck_none first]
    exact plain
  | some sig =>
    rw [signalCheck_some first]
    have range := (firstSignal_some first).1
    have cleared : Plain (m.mapThread (·.clearPending sig)).td := plain.of_same rfl rfl
    split
    next handled =>
      apply cleared.runHandler lawful range.1 range.2
      rintro rfl
      exact (verdict_handled handled).2.2 plain.stop
    next => exact cleared

lemma Plain.astCheck (plain : Plain td) : Plain (signalAstCheck td).2 := by
  rcases signalAstCheck_cases td with ⟨idle,-⟩ | ⟨sig,-,taken,-,-⟩
  · rw [idle]
    exact plain
  · rw [taken]
    exact plain.of_same rfl rfl

lemma Plain.sigprocmask {td : Thread} (plain : Plain td) {how : Int} {set : Option (UInt32 × UInt32)} {queries : Bool}
    (fair : ∀ words ∈ set, how ≠ SIG_UNBLOCK → sigIn words.1 SIGSTOP = false) :
    Plain (sysSigprocmask td how set queries) := by
  unfold sysSigprocmask
  rcases set with _ | ⟨word0,word1⟩
  · exact plain.of_same rfl rfl
  have out := fair (word0,word1) rfl
  dsimp only
  split
  next replaced =>
    refine plain.of_mask rfl ?_
    exact out (by rw [replaced]; decide)
  split
  next blocked =>
    refine plain.of_mask rfl ?_
    change sigIn (td.sigmask 0 ||| word0) SIGSTOP = false
    rw [sigIn_or,plain.mask,out (by rw [blocked]; decide)]
    rfl
  split
  · refine plain.of_mask rfl ?_
    rw [sigIn_and,plain.mask]
    rfl
  · exact plain.of_same rfl rfl

lemma Plain.sigaction {td : Thread} (plain : Plain td) {sig : Int} {act : Option MuslSigaction} {queries : Bool}
    (fair : ∀ a ∈ act, (sig = SIGKILL ∨ sig = SIGSTOP → a.handler = SIG_DFL) ∧ sigIn a.mask0 SIGSTOP = false) :
    Plain (sysSigaction td sig act queries) := by
  unfold sysSigaction
  by_cases range : sig < 1 ∨ 128 ≤ sig
  · rw [if_pos range]
    exact plain.of_same rfl rfl
  rw [if_neg range]
  cases act with
  | none => exact plain.of_same rfl rfl
  | some a =>
    obtain ⟨default,mask⟩ := fair a rfl
    have installed : Plain (td.setAction sig.toNat (.ofMusl a)) := by
      refine plain.setAction (fun force => default ?_) mask
      rcases force with kill | stop
      · left
        omega
      · right
        omega
    exact installed.of_same rfl rfl

lemma Plain.step (lawful : port.Lawful) {s : State F} (plain : Plain s.m.td) {e : Event F} (fair : Fair port s e) :
    Plain (step port s e).m.td := by
  cases e with
  | user mem frame => exact plain
  | sigaction sig act queries => exact plain.sigaction fair
  | sigprocmask how set queries => exact plain.sigprocmask fair
  | sigsuspend word0 word1 =>
    refine plain.of_mask rfl ?_
    change sigIn (word0 &&& ~~~sigBit SIGKILL) SIGSTOP = false
    rw [sigIn_and,show sigIn word0 SIGSTOP = false from fair]
    rfl
  | sigreturn =>
    obtain ⟨mask,ret,thread⟩ := lawful.sigreturn_thread s.m
    exact plain.of_mask (by change (port.sigreturn s.m).td.sigact = _; rw [thread]) fair
  | kill sig =>
    dsimp only [Force.step,signalPostKill]
    split
    · exact plain
    · exact plain.of_same rfl rfl
  | check => exact plain.check lawful
  | astCheck => exact plain.astCheck

def Pending (n : Nat) (s : State F) : Prop := sigIn s.m.td.sigPending n = true

lemma force_range (force : n = SIGKILL ∨ n = SIGSTOP) : 1 ≤ n ∧ n ≤ 31 := by
  rcases force with rfl | rfl <;> decide

lemma Plain.default (plain : Plain td) (force : n = SIGKILL ∨ n = SIGSTOP) : (td.sigact n).handler = SIG_DFL := by
  rcases force with rfl | rfl
  · exact plain.kill
  · exact plain.stop

lemma first_le (plain : Plain td) (force : n = SIGKILL ∨ n = SIGSTOP)
    (pending : sigIn td.sigPending n = true) : ∃ sig ≤ n, firstSignal td.unblocked = some sig ∧ (1 ≤ sig ∧ sig ≤ 31) ∧
      sigIn td.sigPending sig = true := by
  have range := force_range force
  obtain ⟨sig,le,first⟩ := firstSignal_le range.1 range.2 (unblocked_of_pending force plain.mask pending)
  obtain ⟨bounds,member,-⟩ := firstSignal_some first
  exact ⟨sig,le,first,bounds,pending_of_unblocked member⟩

lemma Answered.step (answered : Answered n s) (e : Event F) : Answered n (step port s e) := by
  obtain ⟨v,member,answers⟩ := answered
  cases e with
  | check | astCheck => exact ⟨v,List.mem_cons_of_mem _ member,answers⟩
  | _ => exact ⟨v,member,answers⟩

def NoHandler (s : State F) : Prop := ∀ v ∈ s.log, v ≠ .handled SIGKILL ∧ v ≠ .handled SIGSTOP

lemma NoHandler.cons (none : NoHandler ⟨m,log⟩)
    (other : v ≠ .handled SIGKILL ∧ v ≠ .handled SIGSTOP) : NoHandler ⟨m',v :: log⟩ := by
  intro w member
  rcases List.mem_cons.mp member with rfl | old
  · exact other
  · exact none w old

end Steps

end UbixOS.Posix.Force
