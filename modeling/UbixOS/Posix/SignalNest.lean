import UbixOS.Posix.SignalPort
import UbixOS.Posix.SignalCheck
import UbixOS.Library.Run

/-! Nested signal handlers. A thread runs on its main stack or on the alternate one; each
delivery adds a level, and a handler's return takes the newest one off. `Level` records what
a delivery interrupted, apart from what the signal frame in user memory says. -/
namespace UbixOS.Posix.Nest

open Library Run Aarch64 List

/-- What one delivery interrupted, and where its frame went. -/
structure Level (R : Type) where
  regs : R
  mask : Sigset
  window : Window
  scp : UInt64
  /-- the interrupted code ran on the alternate stack -/
  spAlt : Bool
  /-- the frame is on the alternate stack -/
  onAlt : Bool

structure State (F R : Type) where
  m : Machine F
  levels : List (Level R)
  onAlt : Bool
  /-- the mask from before the `sigsuspend` that is under way -/
  waiting : Option Sigset

inductive Event (F : Type) where
  | signal (sig : Nat)
  /-- the handler returns to the magic address with this trap frame -/
  | sigreturn (f : F)
  /-- user code and system calls in between, and the stack they leave the thread on -/
  | user (m : Machine F) (onAlt : Bool)
  | sigaltstack (ss : Option (Except Int32 MuslStack)) (oss : Option Int32)
  | sigsuspend (word0 word1 : UInt32)

def altArea (td : Thread) : Window :=
  if sigstkEnabled td then ⟨td.sigstk.sp.toNat,td.sigstk.sp.toNat + td.sigstk.size.toNat⟩ else ⟨0,0⟩

def Unsaved (td : Thread) : Prop := td.pflags &&& TDP_OLDMASK = 0

def area (main alt : Window) (onAlt : Bool) : Window := if onAlt then alt else main

section Model

variable (port : Port F R)

def spOf (m : Machine F) : UInt64 := port.sp (port.regs m.frame)

def switches (sa : Sigaction) (m : Machine F) : Bool :=
  sa.has SA_ONSTACK && sigstkEnabled m.td && !sigstkOn m.td (spOf port m)

def level (s : State F R) (sig : Nat) : Level R :=
  let sa := s.m.td.sigact sig
  { regs := port.regs s.m.frame
    mask := s.m.td.savedMask
    window := port.window sig sa s.m
    scp := port.back (port.start sig sa s.m)
    spAlt := s.onAlt
    onAlt := switches port sa s.m || s.onAlt }

def step (s : State F R) : Event F → State F R
  | .signal sig => ⟨runHandler port.deliver sig s.m,level port s sig :: s.levels,(level port s sig).onAlt,none⟩
  | .sigreturn f => { s with
    m := port.sigreturn { s.m with frame := f }
    levels := s.levels.tail
    onAlt := (s.levels.head?.map Level.spAlt).getD s.onAlt }
  | .user m onAlt => { s with m, onAlt }
  | .sigaltstack ss oss => { s with m := s.m.mapThread fun td => sysSigaltstack td (spOf port s.m) ss oss }
  | .sigsuspend word0 word1 => { s with
    m := s.m.mapThread (sysSigsuspend · word0 word1), waiting := some s.m.td.sigmask }

/-- The stack pointer is on the stack that `onAlt` names. -/
structure Seated (main alt : Window) (onAlt : Bool) (sp : Nat) : Prop where
  low : (area main alt onAlt).lo ≤ sp
  high : sp ≤ (area main alt onAlt).hi
  inside : onAlt → sp < alt.hi

/-- Code on the stack `onAlt` with this stack pointer stays below the frame: a frame on its own
stack is above it, and it does not run on the main stack under a frame on the alternate one. -/
def Level.Over (ℓ : Level R) (onAlt : Bool) (sp : Nat) : Prop :=
  (ℓ.onAlt → onAlt) ∧ (ℓ.onAlt = onAlt → sp ≤ ℓ.window.lo)

/-- The alternate stack does not wrap and is apart from the main one. -/
structure AltOk (main : Window) (td : Thread) : Prop where
  fits : (altArea td).hi ≤ 2^64
  apart : (altArea td).Apart main

/-- Which events a run may hold: enough space, untouched frames, returns in LIFO order; and code
runs again after a `sigsuspend` only with a delivery, which clears `TDP_OLDMASK`. -/
def Allowed (main : Window) (s : State F R) : Event F → Prop
  | .signal sig =>
    let sa := s.m.td.sigact sig
    (area main (altArea s.m.td) s.onAlt).lo + port.redZone ≤ (spOf port s.m).toNat ∧
    (area main (altArea s.m.td) (switches port sa s.m || s.onAlt)).lo + port.need sa < (port.base sa s.m).toNat
  | .sigreturn f => ∃ ℓ rest, s.levels = ℓ :: rest ∧ port.sp (port.regs f) = ℓ.scp
  | .user m onAlt =>
    s.waiting = none ∧ Unsaved m.td ∧ m.td.sigstk = s.m.td.sigstk ∧
      Seated main (altArea m.td) onAlt (spOf port m).toNat ∧
    ∀ ℓ ∈ s.levels, ℓ.Over onAlt (spOf port m).toNat ∧ ∀ x, ℓ.window.Has x → m.mem x = s.m.mem x
  | .sigaltstack ss oss => AltOk main (sysSigaltstack s.m.td (spOf port s.m) ss oss)
  | .sigsuspend _ _ => s.waiting = none

def Level.sp (ℓ : Level R) : Nat := (port.sp ℓ.regs).toNat

def Level.red (ℓ : Level R) : Window := ⟨ℓ.sp port - port.redZone,ℓ.sp port⟩

structure Level.Fits (main alt : Window) (ℓ : Level R) : Prop where
  low : (area main alt ℓ.onAlt).lo ≤ ℓ.window.lo
  order : ℓ.window.lo < ℓ.window.hi
  high : ℓ.window.hi ≤ (area main alt ℓ.onAlt).hi
  seated : Seated main alt ℓ.spAlt (ℓ.sp port)
  red : (area main alt ℓ.spAlt).lo + port.redZone ≤ ℓ.sp port
  below : ℓ.onAlt = ℓ.spAlt ∧ ℓ.window.hi + port.redZone ≤ ℓ.sp port ∨ ℓ.onAlt = true ∧ ℓ.spAlt = false

structure Sound (main : Window) (s : State F R) : Prop where
  alt : AltOk main s.m.td
  seated : Seated main (altArea s.m.td) s.onAlt (spOf port s.m).toNat
  overrun : ∀ ℓ ∈ s.levels, ℓ.Over s.onAlt (spOf port s.m).toNat
  fits : ∀ ℓ ∈ s.levels, ℓ.Fits port main (altArea s.m.td)
  ordered : s.levels.Pairwise fun newer older => older.Over newer.spAlt (newer.sp port)
  intact : ∀ ℓ ∈ s.levels, port.Restores ℓ.window s.m.mem ℓ.scp ℓ.regs ℓ.mask

/-- `TDP_OLDMASK` is set while a `sigsuspend` is under way, with the mask from before it. -/
def Suspends (s : State F R) : Prop :=
  match s.waiting with
  | none => Unsaved s.m.td
  | some mask => ¬Unsaved s.m.td ∧ s.m.td.oldsigmask = mask

/-- No frame meets another frame or a red zone. -/
structure Spaced (levels : List (Level R)) : Prop where
  frames : levels.Pairwise fun newer older => newer.window.Apart older.window
  red : ∀ a ∈ levels, ∀ b ∈ levels, a.window.Apart (b.red port)

lemma apart_of_areas {main alt u v : Window} (apart : alt.Apart main) (differ : x ≠ y)
    (ulo : (area main alt x).lo ≤ u.lo) (uhi : u.hi ≤ (area main alt x).hi)
    (vlo : (area main alt y).lo ≤ v.lo) (vhi : v.hi ≤ (area main alt y).hi) : u.Apart v := by
  unfold Window.Apart at *
  cases x <;> cases y <;> simp [area] at * <;> omega

/-- A frame that goes below code on the stack `spAlt`, or to the alternate stack from the main
one, is apart from every frame that the code stays below. -/
lemma apart_of_over {main alt w : Window} {spAlt onAlt : Bool} {sp : Nat} {ℓ : Level R} (apart : alt.Apart main)
    (fits : ℓ.Fits port main alt) (overrun : ℓ.Over spAlt sp) (lo : (area main alt onAlt).lo ≤ w.lo)
    (hi : w.hi ≤ (area main alt onAlt).hi)
    (below : onAlt = spAlt ∧ w.hi ≤ sp ∨ onAlt = true ∧ spAlt = false) :
    w.Apart ℓ.window ∧ w.Apart (ℓ.red port) := by
  obtain ⟨stays,under⟩ := overrun
  have redHigh := fits.seated.high
  have redLow := fits.red
  have differs (h : onAlt ≠ ℓ.onAlt) : w.Apart ℓ.window := apart_of_areas apart h lo hi fits.low fits.high
  have differs' (h : onAlt ≠ ℓ.spAlt) : w.Apart (ℓ.red port) :=
    apart_of_areas apart h lo hi (by change _ ≤ ℓ.sp port - port.redZone; omega) redHigh
  rcases below with ⟨rfl,low⟩ | ⟨rfl,rfl⟩
  · by_cases same : ℓ.onAlt = onAlt
    · have := under same
      refine ⟨.inl (by omega),?_⟩
      rcases fits.below with ⟨here,zone⟩ | ⟨switched,from'⟩
      · left
        have order := fits.order
        change w.hi ≤ ℓ.sp port - port.redZone
        omega
      · exact differs' (by rw [← same,switched,from']; decide)
    · refine ⟨differs (Ne.symm same),differs' ?_⟩
      have main' : ℓ.onAlt = false ∧ onAlt = true := by
        cases h : ℓ.onAlt <;> cases onAlt <;> simp_all
      rcases fits.below with ⟨here,-⟩ | ⟨switched,-⟩
      · rw [← here,main'.1,main'.2]
        decide
      · rw [main'.1] at switched
        cases switched
  · have main' : ℓ.onAlt = false := by
      cases h : ℓ.onAlt with
      | false => rfl
      | true => exact absurd (stays h) (by decide)
    refine ⟨differs (by rw [main']; decide),differs' ?_⟩
    rcases fits.below with ⟨here,-⟩ | ⟨switched,-⟩
    · rw [← here,main']
      decide
    · rw [main'] at switched
      cases switched

lemma Level.Over.under {w : Window} {spAlt onAlt : Bool} {sp : Nat} {ℓ : Level R} (overrun : ℓ.Over spAlt sp)
    (order : w.lo < w.hi) (below : onAlt = spAlt ∧ w.hi ≤ sp ∨ onAlt = true ∧ spAlt = false) : ℓ.Over onAlt w.lo := by
  obtain ⟨stays,under⟩ := overrun
  rcases below with ⟨rfl,low⟩ | ⟨rfl,rfl⟩
  · refine ⟨stays,fun same => ?_⟩
    have := under same
    omega
  · exact ⟨fun _ => rfl,fun same => absurd (stays same) (by decide)⟩

lemma apart_red_of_over {main alt : Window} {spAlt : Bool} {sp zone : Nat} {ℓ : Level R} (apart : alt.Apart main)
    (fits : ℓ.Fits port main alt) (overrun : ℓ.Over spAlt sp) (seated : Seated main alt spAlt sp)
    (red : (area main alt spAlt).lo + zone ≤ sp) : ℓ.window.Apart ⟨sp - zone,sp⟩ := by
  by_cases same : ℓ.onAlt = spAlt
  · exact .inr (overrun.2 same)
  · exact apart_of_areas apart same fits.low fits.high (by change _ ≤ sp - zone; omega) seated.high

/-- A frame is apart from the red zone of the code that it interrupted. -/
lemma Level.Fits.apart_own {main alt : Window} {ℓ : Level R} (apart : alt.Apart main) (fits : ℓ.Fits port main alt) :
    ℓ.window.Apart (ℓ.red port) := by
  have red := fits.red
  rcases fits.below with ⟨-,zone⟩ | ⟨on,off⟩
  · left
    change _ ≤ ℓ.sp port - port.redZone
    omega
  · exact apart_of_areas apart (by rw [on,off]; decide) fits.low fits.high
      (by change _ ≤ ℓ.sp port - port.redZone; omega) fits.seated.high

lemma Level.Fits.room {main alt : Window} {ℓ : Level R} (fits : ℓ.Fits port main alt) :
    ℓ.onAlt = ℓ.spAlt ∧ ℓ.window.hi ≤ ℓ.sp port ∨ ℓ.onAlt = true ∧ ℓ.spAlt = false := by
  rcases fits.below with ⟨same,zone⟩ | switched
  · exact .inl ⟨same,by omega⟩
  · exact .inr switched

lemma Sound.spaced {main : Window} {s : State F R} (sound : Sound port main s) : Spaced port s.levels := by
  have apart := sound.alt.apart
  constructor
  · apply List.Pairwise.imp_of_mem _ sound.ordered
    intro newer older inNewer inOlder overrun
    have fits := sound.fits newer inNewer
    exact (apart_of_over port apart (sound.fits older inOlder) overrun fits.low fits.high (fits.room port)).1
  have symm : Std.Symm fun a b : Level R => a.window.Apart (b.red port) ∧ b.window.Apart (a.red port) :=
    ⟨fun a b h => ⟨h.2,h.1⟩⟩
  have both : ∀ ⦃a⦄, a ∈ s.levels → ∀ ⦃b⦄, b ∈ s.levels →
      a.window.Apart (b.red port) ∧ b.window.Apart (a.red port) := by
    apply List.Pairwise.forall_of_forall
    · exact fun ℓ member => ⟨(sound.fits ℓ member).apart_own port apart,(sound.fits ℓ member).apart_own port apart⟩
    apply List.Pairwise.imp_of_mem _ sound.ordered
    intro newer older inNewer inOlder overrun
    have fits := sound.fits newer inNewer
    exact ⟨(apart_of_over port apart (sound.fits older inOlder) overrun fits.low fits.high (fits.room port)).2,
      apart_red_of_over port apart (sound.fits older inOlder) overrun fits.seated fits.red⟩
  exact fun a inA b inB => (both inA inB).1

lemma altArea_congr (same : td'.sigstk = td.sigstk) : altArea td' = altArea td := by
  unfold altArea sigstkEnabled
  rw [same]

lemma AltOk.congr (ok : AltOk main td) (same : td'.sigstk = td.sigstk) :
    AltOk main td' := by
  have alt := altArea_congr same
  exact ⟨alt ▸ ok.fits,alt ▸ ok.apart⟩

section
variable (deliver : Nat → Sigaction → Machine F → Machine F) (sig : Nat) (m : Machine F)

lemma runHandler_mem : (runHandler deliver sig m).mem = (deliver sig (m.td.sigact sig) m).mem := by
  unfold runHandler
  dsimp only
  split <;> rfl

lemma runHandler_frame : (runHandler deliver sig m).frame = (deliver sig (m.td.sigact sig) m).frame := by
  unfold runHandler
  dsimp only
  split <;> rfl

lemma runHandler_sigstk : (runHandler deliver sig m).td.sigstk = (deliver sig (m.td.sigact sig) m).td.sigstk := by
  unfold runHandler
  dsimp only
  split <;> rfl

end

/-- Code seated on the alternate stack is on it for the kernel too. -/
lemma sigstkOn_of_seated (seated : Seated main (altArea td) true sp.toNat) : sigstkOn td sp = true := by
  have low := seated.low
  have high := seated.inside rfl
  unfold altArea at low high
  by_cases enabled : sigstkEnabled td
  · simp only [enabled,if_true,area] at low high
    rw [sigstkOn,enabled,Bool.true_and,decide_eq_true_eq,UInt64.lt_iff_toNat_lt,Memory.sub_toNat_of_le low]
    omega
  · simp [enabled] at high

lemma switches_of_alt {main : Window} {s : State F R} {sa : Sigaction}
    (seated : Seated main (altArea s.m.td) s.onAlt (spOf port s.m).toNat) (alt : s.onAlt = true) :
    switches port sa s.m = false := by
  rw [alt] at seated
  rw [switches,sigstkOn_of_seated seated]
  simp

lemma base_of_not_switches (stays : switches port sa m = false) :
    port.base sa m = spOf port m :=
  if_neg (by change ¬ switches port sa m = true; simp [stays])

lemma base_of_switches (moves : switches port sa m = true) :
    (port.base sa m).toNat ≤ (altArea m.td).hi := by
  have top : port.base sa m = m.td.sigstk.sp + m.td.sigstk.size := if_pos moves
  have enabled : sigstkEnabled m.td = true := by
    simp only [switches,Bool.and_eq_true] at moves
    exact moves.1.2
  rw [top,altArea,if_pos enabled]
  exact Nat.mod_le _ _

variable {port}

lemma Sound.signal {main : Window} {s : State F R} (lawful : port.Lawful) (sound : Sound port main s) {sig : Nat}
    (ok : Allowed port main s (.signal sig)) : Sound port main (step port s (.signal sig)) := by
  obtain ⟨red,room⟩ := ok
  have given := lawful.delivered sig (s.m.td.sigact sig) s.m (by omega)
  have low := given.low
  have high := given.high
  have order := given.order
  have stack : (step port s (.signal sig)).m.td.sigstk = s.m.td.sigstk := by
    change (runHandler port.deliver sig s.m).td.sigstk = _
    rw [runHandler_sigstk,lawful.deliver_thread]
    rfl
  have alt := altArea_congr stack
  have sp : (spOf port (step port s (.signal sig)).m).toNat = (level port s sig).window.lo := by
    change (port.sp (port.regs (runHandler port.deliver sig s.m).frame)).toNat = _
    rw [runHandler_frame]
    rfl
  -- the frame lies on the stack it was put on, below the interrupted code or below the top
  have fits : (level port s sig).Fits port main (altArea s.m.td) := by
    have seated := sound.seated
    by_cases moves : switches port (s.m.td.sigact sig) s.m = true
    · have off : s.onAlt = false := by
        cases on : s.onAlt with
        | false => rfl
        | true => rw [switches_of_alt port sound.seated on] at moves; cases moves
      have top := base_of_switches port moves
      refine ⟨?_,order,?_,seated,red,.inr ⟨?_,off⟩⟩
      · change (area main _ (switches port _ s.m || s.onAlt)).lo ≤ _
        change _ ≤ (port.window sig (s.m.td.sigact sig) s.m).lo
        omega
      · change _ ≤ (area main _ (switches port _ s.m || s.onAlt)).hi
        rw [moves]
        exact high.trans top
      · change (switches port _ s.m || s.onAlt) = true
        rw [moves]
        rfl
    · have stays : switches port (s.m.td.sigact sig) s.m = false := by simpa using moves
      have here := base_of_not_switches port stays
      have zone := given.red here
      have same : (level port s sig).onAlt = s.onAlt := by
        change (switches port _ s.m || s.onAlt) = _
        rw [stays]
        rfl
      have top := seated.high
      refine ⟨?_,order,?_,seated,red,.inl ⟨same,zone⟩⟩
      · change (area main _ (switches port _ s.m || s.onAlt)).lo ≤ _
        change _ ≤ (port.window sig (s.m.td.sigact sig) s.m).lo
        omega
      · rw [same]
        rw [here] at high
        exact high.trans top
  have apart (ℓ : Level R) (member : ℓ ∈ s.levels) : (level port s sig).window.Apart ℓ.window :=
    (apart_of_over port sound.alt.apart (sound.fits ℓ member) (sound.overrun ℓ member) fits.low fits.high
      (fits.room port)).1
  constructor
  · exact sound.alt.congr stack
  · rw [alt,sp]
    refine ⟨fits.low,order.le.trans fits.high,fun on => ?_⟩
    have top := fits.high
    rw [show (level port s sig).onAlt = true from on] at top
    exact order.trans_le top
  · intro ℓ member
    rw [sp]
    rcases mem_cons.mp member with rfl | older
    · exact ⟨id,fun _ => le_rfl⟩
    · exact (sound.overrun ℓ older).under order (fits.room port)
  · intro ℓ member
    rw [alt]
    rcases mem_cons.mp member with rfl | older
    · exact fits
    · exact sound.fits ℓ older
  · exact pairwise_cons.mpr ⟨sound.overrun,sound.ordered⟩
  intro ℓ member
  change port.Restores _ (runHandler port.deliver sig s.m).mem _ _ _
  rw [runHandler_mem]
  rcases mem_cons.mp member with rfl | older
  · exact given.restores
  apply (sound.intact ℓ older).mono
  intro x inside
  apply given.outside
  have := apart ℓ older
  unfold Window.Apart Window.Has at *
  change (port.window sig (s.m.td.sigact sig) s.m).hi ≤ _ ∨ _ ≤ (port.window sig (s.m.td.sigact sig) s.m).lo at this
  omega

lemma Sound.sigreturn (lawful : port.Lawful) (sound : Sound port main s)
    (top : s.levels = ℓ :: rest) (here : port.sp (port.regs f) = ℓ.scp) :
    port.regs (step port s (.sigreturn f)).m.frame = ℓ.regs ∧ (step port s (.sigreturn f)).m.td.sigmask = ℓ.mask ∧
      Sound port main (step port s (.sigreturn f)) := by
  have member : ℓ ∈ s.levels := by simp [top]
  have inside (older) (h : older ∈ rest) : older ∈ s.levels := by simp [top,h]
  obtain ⟨regs,mask⟩ := sound.intact ℓ member { s.m with frame := f } (fun _ _ => rfl) here
  refine ⟨regs,mask,?_⟩
  have alt : altArea (step port s (.sigreturn f)).m.td = altArea s.m.td :=
    altArea_congr (lawful.sigreturn_sigstk { s.m with frame := f })
  have sp : (spOf port (step port s (.sigreturn f)).m).toNat = ℓ.sp port := by
    change (port.sp (port.regs (port.sigreturn { s.m with frame := f }).frame)).toNat = _
    rw [regs]
    rfl
  have levels : (step port s (.sigreturn f)).levels = rest := by
    change s.levels.tail = rest
    rw [top]
    rfl
  have onAlt : (step port s (.sigreturn f)).onAlt = ℓ.spAlt := by
    change (s.levels.head?.map Level.spAlt).getD s.onAlt = _
    rw [top]
    rfl
  have ordered := sound.ordered
  rw [top,pairwise_cons] at ordered
  constructor
  · exact sound.alt.congr (lawful.sigreturn_sigstk { s.m with frame := f })
  · rw [alt,sp,onAlt]
    exact (sound.fits ℓ member).seated
  · rw [levels,sp,onAlt]
    exact ordered.1
  · rw [levels,alt]
    exact fun older h => sound.fits older (inside older h)
  · rw [levels]
    exact ordered.2
  rw [levels]
  change ∀ older ∈ rest, port.Restores _ (port.sigreturn { s.m with frame := f }).mem _ _ _
  rw [lawful.sigreturn_mem]
  exact fun older h => sound.intact older (inside older h)

lemma Sound.user (sound : Sound port main s) (waiting : Option Sigset) (stack : m.td.sigstk = s.m.td.sigstk)
    (seated : Seated main (altArea m.td) onAlt (spOf port m).toNat)
    (frames : ∀ ℓ ∈ s.levels, ℓ.Over onAlt (spOf port m).toNat ∧ ∀ x, ℓ.window.Has x → m.mem x = s.m.mem x) :
    Sound port main ⟨m,s.levels,onAlt,waiting⟩ := by
  have alt : altArea m.td = altArea s.m.td := altArea_congr stack
  constructor
  · exact sound.alt.congr stack
  · exact seated
  · exact fun ℓ member => (frames ℓ member).1
  · rw [alt]
    exact sound.fits
  · exact sound.ordered
  · exact fun ℓ member => (sound.intact ℓ member).mono _ (frames ℓ member).2

lemma Seated.main {main alt : Window} (alt' : Window) {onAlt : Bool} {sp : Nat} (seated : Seated main alt onAlt sp)
    (off : onAlt = false) : Seated main alt' onAlt sp := by
  subst off
  exact ⟨seated.low,seated.high,nofun⟩

lemma Level.Fits.main {main alt : Window} (alt' : Window) {ℓ : Level R} (fits : ℓ.Fits port main alt)
    (off : ℓ.onAlt = false) : ℓ.Fits port main alt' := by
  have spOff : ℓ.spAlt = false := by
    rcases fits.below with ⟨same,-⟩ | ⟨on,-⟩
    · rw [← same,off]
    · rw [off] at on
      cases on
  have low := fits.low
  have high := fits.high
  have red := fits.red
  rw [off] at low high
  rw [spOff] at red
  exact ⟨by rw [off]; exact low,fits.order,by rw [off]; exact high,fits.seated.main alt' spOff,
    by rw [spOff]; exact red,fits.below⟩

lemma sysSigaltstack_on (on : sigstkOn td usp = true) (ss : Option (Except Int32 MuslStack))
    (oss : Option Int32) : (sysSigaltstack td usp ss oss).sigstk = td.sigstk := by
  rcases ss with _ | ⟨e | nss⟩
  · rfl
  · rfl
  · simp [sysSigaltstack,sigaltstackCheck,on,EPERM]

lemma Sound.sigaltstack {main : Window} {s : State F R} (sound : Sound port main s)
    (ok : Allowed port main s (.sigaltstack ss oss)) :
    Sound port main (step port s (.sigaltstack ss oss)) := by
  by_cases on : s.onAlt = true
  · have seated := sound.seated
    rw [on] at seated
    have alt : altArea (step port s (.sigaltstack ss oss)).m.td = altArea s.m.td :=
      altArea_congr (sysSigaltstack_on (sigstkOn_of_seated seated) ss oss)
    constructor
    · exact ok
    · rw [alt]
      exact sound.seated
    · exact sound.overrun
    · rw [alt]
      exact sound.fits
    · exact sound.ordered
    · exact sound.intact
  · have off : s.onAlt = false := by simpa using on
    constructor
    · exact ok
    · exact sound.seated.main _ off
    · exact sound.overrun
    · intro ℓ member
      apply (sound.fits ℓ member).main
      cases h : ℓ.onAlt with
      | false => rfl
      | true => exact absurd ((sound.overrun ℓ member).1 h) on
    · exact sound.ordered
    · exact sound.intact

lemma Sound.next (lawful : port.Lawful) (sound : Sound port main s)
    (ok : Allowed port main s e) : Sound port main (step port s e) := by
  cases e with
  | signal sig => exact sound.signal lawful ok
  | sigreturn f =>
    obtain ⟨ℓ,rest,top,here⟩ := ok
    exact (sound.sigreturn lawful top here).2.2
  | user m onAlt =>
    obtain ⟨-,-,stack,seated,frames⟩ := ok
    exact sound.user s.waiting stack seated frames
  | sigaltstack ss oss => exact sound.sigaltstack ok
  | sigsuspend word0 word1 =>
    refine sound.user _ rfl ?_ fun ℓ member => ⟨sound.overrun ℓ member,fun _ _ => rfl⟩
    have alt : altArea (s.m.mapThread (sysSigsuspend · word0 word1)).td = altArea s.m.td := altArea_congr rfl
    rw [alt]
    exact sound.seated

lemma unsaved_iff : Unsaved td ↔ sigIn td.pflags 1 = false := by
  rw [Unsaved,sigIn,bne_eq_false_iff_eq]
  rfl

lemma unsaved_signal (lawful : port.Lawful) (s : State F R) (sig : Nat) : Unsaved (step port s (.signal sig)).m.td := by
  have bit : sigIn TDP_OLDMASK 1 = true := by decide
  have delivered : Unsaved (port.deliver sig (s.m.td.sigact sig) s.m).td := by
    rw [lawful.deliver_thread,unsaved_iff,Thread.blockFor]
    simp [bit]
  change Unsaved (runHandler port.deliver sig s.m).td
  unfold runHandler
  dsimp only
  split <;> exact delivered

lemma Suspends.saved {s : State F R} (suspends : Suspends s) : s.m.td.savedMask = s.waiting.getD s.m.td.sigmask := by
  unfold Suspends Unsaved at suspends
  unfold Thread.savedMask
  cases waiting : s.waiting with
  | none =>
    rw [waiting] at suspends
    simp [suspends]
  | some mask =>
    rw [waiting] at suspends
    simp [suspends]

lemma Suspends.congr {s t : State F R} (suspends : Suspends s) (waiting : t.waiting = s.waiting)
    (same : t.m.td.pflags = s.m.td.pflags ∧ t.m.td.oldsigmask = s.m.td.oldsigmask) : Suspends t := by
  unfold Suspends Unsaved
  rw [waiting,same.1,same.2]
  exact suspends

lemma Suspends.next (lawful : port.Lawful) {s : State F R} (suspends : Suspends s) (ok : Allowed port main s e) :
    Suspends (step port s e) := by
  cases e with
  | signal sig => exact unsaved_signal lawful s sig
  | sigreturn f =>
    obtain ⟨mask,ret,thread⟩ := lawful.sigreturn_thread { s.m with frame := f }
    refine suspends.congr rfl ?_
    change (port.sigreturn { s.m with frame := f }).td.pflags = _ ∧
      (port.sigreturn { s.m with frame := f }).td.oldsigmask = _
    rw [thread]
    exact ⟨rfl,rfl⟩
  | user m onAlt =>
    obtain ⟨running,clear,-⟩ := ok
    unfold Suspends
    rw [show (step port s (.user m onAlt)).waiting = none from running]
    exact clear
  | sigaltstack ss oss =>
    refine suspends.congr rfl ?_
    change (sysSigaltstack s.m.td _ ss oss).pflags = _ ∧ (sysSigaltstack s.m.td _ ss oss).oldsigmask = _
    unfold sysSigaltstack
    rcases ss with _ | ⟨e | nss⟩
    · exact ⟨rfl,rfl⟩
    · exact ⟨rfl,rfl⟩
    · dsimp only
      constructor <;> split_ifs <;> rfl
  | sigsuspend word0 word1 =>
    refine ⟨?_,rfl⟩
    rw [unsaved_iff]
    simp [Machine.mapThread,sysSigsuspend,step,show sigIn TDP_OLDMASK 1 = true by decide]

def outside (m : Machine F) (onAlt : Bool) : State F R := ⟨m,[],onAlt,none⟩

lemma outside_sound (alt : AltOk main m.td)
    (seated : Seated main (altArea m.td) onAlt (spOf port m).toNat) : Sound port main (outside m onAlt) :=
  ⟨alt,seated,nofun,nofun,List.Pairwise.nil,nofun⟩

/-- Every delivery in the run is matched by a return. -/
inductive Balanced : List (Event F) → Prop
  | nil : Balanced []
  | user (m : Machine F) (onAlt : Bool) : Balanced events → Balanced (.user m onAlt :: events)
  | sigaltstack (ss : Option (Except Int32 MuslStack)) (oss : Option Int32) :
    Balanced events → Balanced (.sigaltstack ss oss :: events)
  | sigsuspend (word0 word1 : UInt32) : Balanced events → Balanced (.sigsuspend word0 word1 :: events)
  | nest {inner events : List (Event F)} (sig : Nat) (f : F) : Balanced inner → Balanced events →
    Balanced (.signal sig :: (inner ++ .sigreturn f :: events))

lemma Balanced.levels (balanced : Balanced events) (s : State F R) :
    (after (step port) s events).levels = s.levels := by
  induction balanced generalizing s with
  | nil => rfl
  | user m onAlt _ ih | sigaltstack ss oss _ ih | sigsuspend word0 word1 _ ih => exact ih _
  | nest sig f _ _ ihInner ihEvents =>
    rw [after_cons,after_append,after_cons,ihEvents]
    change (after (step port) (step port s (.signal sig)) _).levels.tail = _
    rw [ihInner]
    rfl

/-- Signal delivery on a port, over every run of deliveries, returns, user code, `sigsuspend` and
changes of the alternate stack. Frames keep apart; a handler starts aligned; and a delivery together
with everything up to the return that matches it leaves the registers and the mask as they were,
or the mask as it was before the `sigsuspend` that the delivery ended. -/
def Transparent (port : Port F R) : Prop :=
  ∀ (main : Window) (m : Machine F) (onAlt : Bool), AltOk main m.td →
    Seated main (altArea m.td) onAlt (spOf port m).toNat → Unsaved m.td →
    ∀ events : List (Event F),
    Run.Legal (step port) (Allowed port main) (outside m onAlt) events →
    let s := after (step port) (outside m onAlt) events
    Spaced port s.levels ∧
    (∀ sig, Allowed port main s (.signal sig) → port.Aligned (spOf port (step port s (.signal sig)).m)) ∧
    ∀ (sig : Nat) (mid : List (Event F)) (f : F), Balanced mid →
      Run.Legal (step port) (Allowed port main) s (.signal sig :: (mid ++ [.sigreturn f])) →
      let t := after (step port) s (.signal sig :: (mid ++ [.sigreturn f]))
      port.regs t.m.frame = port.regs s.m.frame ∧ t.m.td.sigmask = s.waiting.getD s.m.td.sigmask

lemma handler_aligned (lawful : port.Lawful)
    (ok : Allowed port main s (.signal sig)) : port.Aligned (spOf port (step port s (.signal sig)).m) := by
  have given := lawful.delivered sig (s.m.td.sigact sig) s.m (by have := ok.2; omega)
  change port.Aligned (port.sp (port.regs (runHandler port.deliver sig s.m).frame))
  rw [runHandler_frame]
  exact given.aligned

lemma Sound.restored (lawful : port.Lawful) (sound : Sound port main s) (balanced : Balanced mid)
    (legal : Run.Legal (step port) (Allowed port main) s (.signal sig :: (mid ++ [.sigreturn f]))) :
    let t := after (step port) s (.signal sig :: (mid ++ [.sigreturn f]))
    port.regs t.m.frame = port.regs s.m.frame ∧ t.m.td.sigmask = s.m.td.savedMask := by
  obtain ⟨ok,legal⟩ := legal
  obtain ⟨legalMid,last,-⟩ := legal_append.mp legal
  have inside := legalMid.invariant (fun _ _ sound ok => sound.next lawful ok) (sound.signal lawful ok)
  have levels : (after (step port) (step port s (.signal sig)) mid).levels = level port s sig :: s.levels :=
    balanced.levels _
  obtain ⟨ℓ,rest,top,here⟩ := last
  rw [levels] at top
  obtain ⟨rfl,rfl⟩ := cons.inj top
  obtain ⟨regs,mask,-⟩ := inside.sigreturn lawful levels here
  rw [after_cons,after_append]
  exact ⟨regs,mask⟩

lemma transparent_of_lawful (lawful : port.Lawful) : Transparent port := by
  intro main m onAlt alt seated clear events legal
  have kept := legal.invariant (I := fun s => Sound port main s ∧ Suspends s)
    (fun _ _ kept ok => ⟨kept.1.next lawful ok,kept.2.next lawful ok⟩) ⟨outside_sound alt seated,clear⟩
  refine ⟨kept.1.spaced,fun _ => handler_aligned lawful,fun _ _ _ balanced legal => ?_⟩
  obtain ⟨regs,mask⟩ := kept.1.restored lawful balanced legal
  exact ⟨regs,mask.trans kept.2.saved⟩

end Model

theorem signal_delivery_transparent : Transparent port ∧ Transparent X8664.port :=
  ⟨transparent_of_lawful port_lawful,transparent_of_lawful X8664.port_lawful⟩

/-- A thread on its main stack whose handlers all run on the alternate one. -/
def onstack : Machine Aarch64.Trapframe where
  mem := fun _ => 0
  frame := ⟨fun _ => 7,0x3000,0x340,0x10000⟩
  td := { quietThread with sigact := fun _ => ⟨0x5000,SA_ONSTACK,fun _ => 0⟩, sigstk := ⟨0x40000,0x4000,0⟩ }

theorem signal_delivery_transparent_nested :
    let returns (sp : UInt64) : Event Aarch64.Trapframe :=
      .sigreturn ⟨fun _ => 0,Aarch64.AARCH64_SIGTRAMP_RETADDR,0x340,sp⟩
    let t := after (step port) (outside onstack false)
      (.signal 10 :: ([.signal 12,returns 0x43dc0] ++ [returns 0x43ee0]))
    port.regs t.m.frame = port.regs onstack.frame ∧ t.m.td.sigmask = onstack.td.sigmask := by
  obtain ⟨-,-,restored⟩ := signal_delivery_transparent.1 ⟨0,0x20000⟩ onstack false ⟨by decide,.inr (by decide)⟩
    ⟨by decide,by decide,nofun⟩ rfl [] trivial
  apply restored 10 _ _ (.nest 12 _ .nil .nil)
  exact ⟨⟨by decide +kernel,by decide +kernel⟩,⟨by decide +kernel,by decide +kernel⟩,⟨_,_,rfl,by decide +kernel⟩,
    ⟨_,_,rfl,by decide +kernel⟩,trivial⟩

/-- A thread in `sigsuspend` with signal 3 blocked before and nothing blocked now. -/
def suspended : Machine Aarch64.Trapframe :=
  onstack.mapThread fun td => sysSigsuspend { td with sigmask := Sigset.ofMusl 4 0 } 0 0

/-- Delivery to a thread in `sigsuspend` and the return restore the mask from before the call. -/
theorem sigsuspend_mask_replaced : suspended.td.sigmask 0 = 0 ∧
    (sigreturnTrap (signalDeliverFrame 10 (suspended.td.sigact 10) suspended)).td.sigmask 0 = 4 := by
  refine ⟨by decide,?_⟩
  have given := port_lawful.delivered 10 (suspended.td.sigact 10) suspended (by decide +kernel)
  have mask := (given.restores _ (fun _ _ => rfl) rfl).2
  exact (congrFun mask 0).trans (by decide)

end UbixOS.Posix.Nest
