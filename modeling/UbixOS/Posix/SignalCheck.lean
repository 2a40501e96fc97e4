import UbixOS.Posix.Signal
import UbixOS.Sched.Core

/-! The two paths that consume pending signals, and the system calls that set dispositions
and masks (posix/signal.c). Delivery to a handler is the port's `signal_deliver_frame`. -/
namespace UbixOS.Posix

def SIGKILL : Nat := 9

export Sched (SIGCHLD SIGCONT SIGSTOP SIGTSTP)

/-- Signals whose default action ends the process: 1 to 9, 11, 13 and 15. -/
def SIGTERM_MASK : UInt32 := 0x55ff

/-- Signals whose default action stops the process. -/
def SIGSTOP_MASK : UInt32 := sigBit SIGTSTP ||| sigBit SIGSTOP

inductive Verdict where
  | idle
  | terminated (sig : Nat)
  | stopped (sig : Nat)
  | handled (sig : Nat)
  deriving DecidableEq, Repr

def Thread.clearPending (td : Thread) (sig : Nat) : Thread :=
  { td with sigPending := td.sigPending &&& ~~~sigBit sig }

def Thread.setPending (td : Thread) (sig : Nat) : Thread :=
  { td with sigPending := td.sigPending ||| sigBit sig }

def Thread.setAction (td : Thread) (sig : Nat) (sa : Sigaction) : Thread :=
  { td with sigact := fun n => if n = sig then sa else td.sigact n }

/-- The pending signals that the mask lets through; SIGKILL passes any mask. -/
def Thread.unblocked (td : Thread) : UInt32 := td.sigPending &&& (~~~(td.sigmask 0) ||| sigBit SIGKILL)

def sigIn (set : UInt32) (sig : Nat) : Bool := set &&& sigBit sig != 0

/-- The lowest-numbered signal of a set, as the loops over 1..31 find it. -/
def firstSignal (set : UInt32) : Option Nat := (List.range' 1 31).find? (sigIn set)

def Machine.mapThread (m : Machine F) (f : Thread → Thread) : Machine F := { m with td := f m.td }

/-- A custom handler: the frame, then the reset that `SA_RESETHAND` asks for. -/
def runHandler (deliver : Nat → Sigaction → Machine F → Machine F) (sig : Nat) (m : Machine F) : Machine F :=
  let sa := m.td.sigact sig
  let m := deliver sig sa m
  if sa.has SA_RESETHAND then m.mapThread (·.setAction sig .zero) else m

def signalCheck (deliver : Nat → Sigaction → Machine F → Machine F) (m : Machine F) : Verdict × Machine F :=
  match firstSignal m.td.unblocked with
  | none => (.idle,m)
  | some sig =>
    let m := m.mapThread (·.clearPending sig)
    let handler := (m.td.sigact sig).handler
    if sig == SIGKILL then (.terminated sig,m)
    else if handler == SIG_IGN then (.idle,m)
    else if handler == SIG_DFL then
      if sigIn SIGSTOP_MASK sig then (.stopped sig,m)
      else if sigIn SIGTERM_MASK sig then (.terminated sig,m)
      else (.idle,m)
    else (.handled sig,runHandler deliver sig m)

/-- The check of the timer interrupt's return to user mode: a custom handler stays pending. -/
def signalAstCheck (td : Thread) : Verdict × Thread :=
  match firstSignal td.unblocked with
  | none => (.idle,td)
  | some sig =>
    let handler := (td.sigact sig).handler
    if handler == SIG_IGN then (.idle,td.clearPending sig)
    else if handler == SIG_DFL then
      if sigIn SIGSTOP_MASK sig then (.stopped sig,td.clearPending sig)
      else if sigIn SIGTERM_MASK sig then (.terminated sig,td.clearPending sig)
      else (.idle,td.clearPending sig)
    else (.idle,td)

/-- The verdict on the signal that a check takes. -/
def verdict (sig : Nat) (handler : UInt64) : Verdict :=
  if sig == SIGKILL then .terminated sig
  else if handler == SIG_IGN then .idle
  else if handler == SIG_DFL then
    if sigIn SIGSTOP_MASK sig then .stopped sig else if sigIn SIGTERM_MASK sig then .terminated sig else .idle
  else .handled sig

section Check

lemma signalCheck_none (none : firstSignal m.td.unblocked = none) : signalCheck deliver m = (.idle,m) := by
  rw [signalCheck,none]

/-- A check takes the first unblocked signal; only a custom handler changes more than the pending set. -/
lemma signalCheck_some (first : firstSignal m.td.unblocked = some sig) : signalCheck deliver m =
    (verdict sig (m.td.sigact sig).handler,
      if verdict sig (m.td.sigact sig).handler = .handled sig
        then runHandler deliver sig (m.mapThread (·.clearPending sig))
      else m.mapThread (·.clearPending sig)) := by
  have same : (m.mapThread (·.clearPending sig)).td.sigact = m.td.sigact := rfl
  simp only [signalCheck,first,verdict,same]
  repeat' split
  all_goals simp_all

lemma verdict_handled (handled : verdict sig handler = .handled k) : k = sig ∧ sig ≠ SIGKILL ∧ handler ≠ SIG_DFL := by
  unfold verdict at handled
  split_ifs at handled
  simp_all

end Check

section Sets

variable {set other : UInt32} {td : Thread}

lemma sigBit_toNat (sig : Nat) : (sigBit sig).toNat = 2^((sig - 1) % 32) := by
  have shift : (sig - 1) % 2^32 % 32 = (sig - 1) % 32 := by omega
  rw [sigBit,UInt32.toNat_shiftLeft,UInt32.toNat_ofNat',shift,Nat.shiftLeft_eq]
  change 1 * _ % _ = _
  rw [Nat.one_mul]
  exact Nat.mod_eq_of_lt (Nat.pow_lt_pow_right (by decide) (by omega))

lemma sigIn_testBit : sigIn set sig = set.toNat.testBit ((sig - 1) % 32) := by
  rw [sigIn,Bool.eq_iff_iff,bne_iff_ne,ne_eq,← UInt32.toNat_inj,UInt32.toNat_and,sigBit_toNat,Nat.and_two_pow]
  cases set.toNat.testBit ((sig - 1) % 32) <;> simp

lemma sigIn_sigBit (lo : 1 ≤ n) (hi : n ≤ 32) (lo' : 1 ≤ sig) (hi' : sig ≤ 32) :
    sigIn (sigBit n) sig = decide (n = sig) := by
  rw [sigIn_testBit,sigBit_toNat,Nat.testBit_two_pow]
  congr 1
  exact propext ⟨fun h => by omega,fun h => by omega⟩

@[simp] lemma sigIn_or : sigIn (set ||| other) sig = (sigIn set sig || sigIn other sig) := by
  simp only [sigIn_testBit,UInt32.toNat_or,Nat.testBit_or]

@[simp] lemma sigIn_and : sigIn (set &&& other) sig = (sigIn set sig && sigIn other sig) := by
  simp only [sigIn_testBit,UInt32.toNat_and,Nat.testBit_and]

@[simp] lemma sigIn_not : sigIn (~~~set) sig = !sigIn set sig := by
  rw [sigIn_testBit,sigIn_testBit,UInt32.toNat_not,Nat.sub_sub,Nat.add_comm 1]
  rw [show UInt32.size = 2^32 from rfl,Nat.testBit_two_pow_sub_succ set.toNat_lt]
  simp
  omega

lemma firstSignal_some (first : firstSignal set = some sig) :
    (1 ≤ sig ∧ sig ≤ 31) ∧ sigIn set sig = true ∧ ∀ k, 1 ≤ k → k < sig → sigIn set k = false := by
  obtain ⟨here,member,lower⟩ := List.find?_range'_eq_some.mp first
  rw [List.mem_range'_1] at member
  exact ⟨by omega,here,fun k lo hi => by simpa using lower k lo hi⟩

/-- A signal of the set is found, unless a lower one is. -/
lemma firstSignal_le (lo : 1 ≤ sig) (hi : sig ≤ 31) (member : sigIn set sig = true) :
    ∃ first ≤ sig, firstSignal set = some first := by
  cases found : firstSignal set with
  | none =>
    have := List.find?_eq_none.mp found sig (by rw [List.mem_range'_1]; omega)
    exact absurd member this
  | some first =>
    refine ⟨first,Nat.not_lt.mp fun above => ?_,rfl⟩
    have := (firstSignal_some found).2.2 sig lo above
    rw [member] at this
    cases this

lemma sigIn_clearPending (lo : 1 ≤ sig) (hi : sig ≤ 31) (lo' : 1 ≤ n) (hi' : n ≤ 31) :
    sigIn (td.clearPending sig).sigPending n = (sigIn td.sigPending n && !decide (sig = n)) := by
  rw [Thread.clearPending,sigIn_and,sigIn_not,sigIn_sigBit lo (by omega) lo' (by omega)]

lemma pending_of_unblocked (member : sigIn td.unblocked sig = true) : sigIn td.sigPending sig = true := by
  rw [Thread.unblocked,sigIn_and,Bool.and_eq_true] at member
  exact member.1

end Sets

/-- musl's `k_sigaction`; the restorer is not read. -/
structure MuslSigaction where
  handler : UInt64
  flags : UInt64
  mask0 : UInt32
  mask1 : UInt32

def SA_RESTART : UInt32 := 0x0002
def SA_NOCLDSTOP : UInt32 := 0x0008
def SA_NOCLDWAIT : UInt32 := 0x0020

/-- musl's flag beside the kernel's. -/
def saFlags : List (UInt64 × UInt32) := [
  (0x00000001,SA_NOCLDSTOP),(0x00000002,SA_NOCLDWAIT),(0x00000004,SA_SIGINFO),(0x08000000,SA_ONSTACK),
  (0x10000000,SA_RESTART),(0x40000000,SA_NODEFER),(0x80000000,SA_RESETHAND)]

def muslToKernelSaflags (f : UInt64) : UInt32 :=
  saFlags.foldl (fun k flag => if f &&& flag.1 != 0 then k ||| flag.2 else k) 0

def Sigaction.ofMusl (a : MuslSigaction) : Sigaction where
  handler := a.handler
  flags := muslToKernelSaflags a.flags
  mask := fun i => match i with
    | 0 => a.mask0
    | 1 => a.mask1
    | _ => 0

/-- `sys_sigaction`; `queries` says that the old action is asked for. -/
def sysSigaction (td : Thread) (sig : Int) (act : Option MuslSigaction) (queries : Bool) : Thread :=
  if sig < 1 ∨ 128 ≤ sig then { td with retval := -1 }
  else match act with
    | some a => { td.setAction sig.toNat (.ofMusl a) with retval := 0 }
    | none => { td with retval := if queries then 0 else -1 }

def SIG_BLOCK : Int := 1
def SIG_UNBLOCK : Int := 2
def SIG_SETMASK : Int := 3

/-- musl's 8-byte set in the kernel's 16-byte one. -/
def Sigset.ofMusl (word0 word1 : UInt32) : Sigset := fun i => match i with
  | 0 => word0
  | 1 => word1
  | _ => 0

/-- `sys_sigprocmask`; `queries` says that the old mask is asked for. -/
def sysSigprocmask (td : Thread) (how : Int) (set : Option (UInt32 × UInt32)) (queries : Bool) : Thread :=
  match set with
  | none => { td with retval := if queries then 0 else -1 }
  | some (word0,word1) =>
    let ins := Sigset.ofMusl word0 word1
    if how = SIG_SETMASK then
      { td with retval := 0, sigmask := fun i => if i = 0 ∨ i = 1 then ins i else td.sigmask i }
    else if how = SIG_BLOCK then { td with retval := 0, sigmask := fun i => td.sigmask i ||| ins i }
    else if how = SIG_UNBLOCK then { td with retval := 0, sigmask := fun i => td.sigmask i &&& ~~~ins i }
    else { td with retval := -1 }

/-- `sys_sigsuspend` up to its sleep, which ends when an unblocked signal is pending. -/
def sysSigsuspend (td : Thread) (word0 word1 : UInt32) : Thread :=
  { td with
    oldsigmask := td.sigmask
    pflags := td.pflags ||| TDP_OLDMASK
    sigmask := Sigset.ofMusl (word0 &&& ~~~sigBit SIGKILL) word1
    retval := -1 }

end UbixOS.Posix
