import UbixOS.Library.Run

/-! The lock of the package tool, `var/lock/pkg.lock` (usr.sbin/pkg/util.c), under any number of
processes whose calls interleave. A file is known by its inode, since a descriptor outlives the name. -/
namespace UbixOS.Pkg.Lock

open Function

open Library

variable [DecidableEq P]

abbrev Inode := Nat

/-- Where a process is; `tries` counts the rounds of `lock_take`. -/
inductive Pc (P : Type) where
  | idle
  | create (tries : Nat)
  | write (file : Inode)
  | hold (file : Inode)
  | read (tries : Nat)
  | probe (tries : Nat) (owner : P)
  | steal (tries : Nat)
  | close (file : Inode)
  | unlink (file : Inode)
  deriving DecidableEq

structure World (P : Type) where
  pc : P → Pc P
  alive : P → Bool
  /-- the file of that name -/
  lock : Option Inode
  /-- the pid in a file, once it has been written -/
  owner : Inode → Option P
  fresh : Inode

def World.goto (w : World P) (p : P) (pc : Pc P) : World P := { w with pc := update w.pc p pc }

/-- The next call of a process. -/
def World.advance (w : World P) (p : P) : World P :=
  match w.pc p with
  | .idle | .hold _ => w
  | .create tries =>
    match w.lock with
    | none => { w.goto p (.write w.fresh) with
        lock := some w.fresh, owner := update w.owner w.fresh none, fresh := w.fresh + 1 }
    | some _ => w.goto p (.read tries)
  | .write file => { w.goto p (.hold file) with owner := update w.owner file (some p) }
  | .read tries =>
    match w.lock.bind w.owner with
    | none => w.goto p (.steal tries)
    | some owner => w.goto p (.probe tries owner)
  | .probe tries owner => w.goto p (if w.alive owner then .idle else .steal tries)
  | .steal tries => { w.goto p (if tries + 1 < 2 then .create (tries + 1) else .idle) with lock := none }
  | .close file => w.goto p (.unlink file)
  | .unlink _ => { w.goto p .idle with lock := none }

inductive Event (P : Type) where
  /-- `lock_take` is called, `lock_drop` is called -/
  | take (p : P)
  | drop (p : P)
  | advance (p : P)
  /-- `open` fails for another reason than that the file exists -/
  | refuse (p : P)
  | die (p : P)

def World.step (w : World P) : Event P → World P
  | .take p => if w.alive p ∧ w.pc p = .idle then w.goto p (.create 0) else w
  | .drop p =>
    match w.pc p with
    | .hold file => if w.alive p then w.goto p (.close file) else w
    | _ => w
  | .advance p => if w.alive p then w.advance p else w
  | .refuse p =>
    match w.pc p with
    | .create _ => w.goto p .idle
    | _ => w
  | .die p => { w with alive := update w.alive p false }

/-- The process has made this file and has not yet unlinked the name in `lock_drop`. -/
def Pc.owns : Pc P → Inode → Prop
  | .write file, i | .hold file, i | .close file, i | .unlink file, i => i = file
  | _, _ => False

/-- A lock is stolen only from the dead. -/
def Fair (w : World P) : Event P → Prop
  | .advance p => ∀ tries, w.pc p = .steal tries → w.alive p → ∀ i, w.lock = some i → ∀ q, w.alive q → ¬(w.pc q).owns i
  | _ => True

/-- The file of a live owner is the one of that name. -/
structure Held (w : World P) : Prop where
  lock : ∀ {p i}, w.alive p → (w.pc p).owns i → w.lock = some i
  alone : ∀ {p q i}, (w.pc p).owns i → (w.pc q).owns i → p = q
  old : ∀ {p i}, (w.pc p).owns i → i < w.fresh

variable {w : World P}

lemma owns_goto (fewer : ∀ i, pc.owns i → (w.pc p).owns i) (owned : ((w.goto p pc).pc q).owns i) :
    (w.pc q).owns i := by
  by_cases same : q = p
  · subst same
    exact fewer i (by simpa [World.goto] using owned)
  · simpa [World.goto,same] using owned

lemma Held.goto (held : Held w) (fewer : ∀ i, pc.owns i → (w.pc p).owns i) : Held (w.goto p pc) :=
  ⟨fun alive owned => held.lock alive (owns_goto fewer owned),
    fun first second => held.alone (owns_goto fewer first) (owns_goto fewer second),fun owned =>
      held.old (owns_goto fewer owned)⟩

lemma Held.free (held : Held w) (fewer : ∀ i, pc.owns i → (w.pc p).owns i)
    (none : ∀ q i, w.alive q → ((w.goto p pc).pc q).owns i → w.lock ≠ some i) :
    Held { w.goto p pc with lock := Option.none } := by
  have moved := held.goto fewer
  refine ⟨fun {q i} alive owned => ?_,moved.alone,moved.old⟩
  exact absurd (held.lock alive (owns_goto fewer owned)) (none q i alive owned)

lemma Held.create (held : Held w) (none : w.lock = Option.none) : Held { w.goto p (.write w.fresh) with
      lock := some w.fresh, owner := update w.owner w.fresh Option.none, fresh := w.fresh + 1 } := by
  have others {q i} (other : q ≠ p) (owned : (update w.pc p (.write w.fresh) q).owns i) : (w.pc q).owns i := by
    simpa [other] using owned
  have mine {i} (owned : (update w.pc p (.write w.fresh) p).owns i) : i = w.fresh := by
    simpa [Pc.owns] using owned
  refine ⟨fun {q i} alive owned => ?_,fun {q q' i} first second => ?_,fun {q i} owned => ?_⟩
  · by_cases same : q = p
    · subst same
      rw [mine owned]
    have before := held.lock alive (others same owned)
    rw [none] at before
    cases before
  · by_cases same : q = p <;> by_cases same' : q' = p
    · rw [same,same']
    · subst same
      rw [mine first] at second
      exact absurd (held.old (others same' second)) (Nat.lt_irrefl _)
    · subst same'
      rw [mine second] at first
      exact absurd (held.old (others same first)) (Nat.lt_irrefl _)
    · exact held.alone (others same first) (others same' second)
  · by_cases same : q = p
    · subst same
      rw [mine owned]
      exact Nat.lt_succ_self _
    · exact Nat.lt_succ_of_lt (held.old (others same owned))

lemma Held.advance (held : Held w) (alive : w.alive p) (fair : Fair w (.advance p)) : Held (w.advance p) := by
  rw [World.advance]
  cases at_ : w.pc p with
  | idle | hold => exact held
  | create tries =>
    cases lock : w.lock with
    | none => exact held.create lock
    | some i => exact held.goto nofun
  | write file =>
    have moved : Held (w.goto p (.hold file)) := held.goto fun i owned => by simpa [at_,Pc.owns] using owned
    exact ⟨moved.lock,moved.alone,moved.old⟩
  | read tries =>
    dsimp only
    cases w.lock.bind w.owner <;> exact held.goto nofun
  | probe tries owner =>
    dsimp only
    split <;> exact held.goto nofun
  | steal tries =>
    have gone i : ¬(if tries + 1 < 2 then Pc.create (tries + 1) else Pc.idle : Pc P).owns i := by
      split <;> exact id
    refine held.free (fun i owned => absurd owned (gone i)) fun q i live owned lock => ?_
    exact fair tries at_ alive i lock q live (owns_goto (fun i owned => absurd owned (gone i)) owned)
  | close file => exact held.goto fun i owned => by simpa [at_,Pc.owns] using owned
  | unlink file =>
    refine held.free nofun fun q i live owned lock => ?_
    have mine : (w.pc p).owns file := by simp [at_,Pc.owns]
    have same : i = file := Option.some.inj (lock.symm.trans (held.lock alive mine))
    have none : ∀ i, (Pc.idle : Pc P).owns i → (w.pc p).owns i := fun _ no => False.elim no
    have before : (w.pc q).owns i := owns_goto none owned
    have who : q = p := held.alone (same ▸ before) mine
    simp [World.goto,who,Pc.owns] at owned

lemma Held.step (held : Held w) (fair : Fair w e) : Held (w.step e) := by
  cases e with
  | take p =>
    rw [World.step]
    split
    next => exact held.goto nofun
    next => exact held
  | drop p =>
    rw [World.step]
    cases at_ : w.pc p with
    | hold file =>
      dsimp only
      split
      next => exact held.goto fun i owned => by simpa [at_,Pc.owns] using owned
      next => exact held
    | _ => exact held
  | advance p =>
    rw [World.step]
    split
    next alive => exact held.advance alive fair
    next => exact held
  | refuse p =>
    rw [World.step]
    cases w.pc p with
    | create => exact held.goto nofun
    | _ => exact held
  | die p =>
    refine ⟨fun {q i} alive owned => held.lock ?_ owned,held.alone,held.old⟩
    by_cases same : q = p
    · simp [World.step,same] at alive
    · simpa [World.step,same] using alive

/-- Nobody is in `lock_take` or `lock_drop`; a lock may have been left behind. -/
def World.quiet (w : World P) : Prop := ∀ p, w.pc p = .idle

/-- At most one live process has the lock, in every run in which it is stolen only from the dead. -/
theorem lock_excludes (quiet : w.quiet) {events : List (Event P)} (fair : Run.Legal World.step Fair w events)
    {p q : P} {i j : Inode}
    (first : (Run.after World.step w events).alive p ∧ (Run.after World.step w events).pc p = .hold i)
    (second : (Run.after World.step w events).alive q ∧ (Run.after World.step w events).pc q = .hold j) : p = q := by
  have start : Held w := by
    refine ⟨fun {p i} _ owned => ?_,fun {p q i} owned _ => ?_,fun {p i} owned => ?_⟩
    all_goals
      rw [quiet p] at owned
      cases owned
  have held : Held (Run.after World.step w events) := fair.invariant (fun _ _ held fair => held.step fair) start
  have mine : ((Run.after World.step w events).pc p).owns i := by simp [first.2,Pc.owns]
  have yours : ((Run.after World.step w events).pc q).owns j := by simp [second.2,Pc.owns]
  have same : i = j := Option.some.inj ((held.lock first.1 mine).symm.trans (held.lock second.1 yours))
  exact held.alone (same ▸ mine) yours

/-- No lock, and the pids 0, 1, 2 and so on. -/
def start : World Nat where
  pc _ := .idle
  alive _ := true
  lock := none
  owner _ := none
  fresh := 0

/-- Process 2 gives up while process 1 lives, and takes the lock over when it has died. -/
def contended : List (Event Nat) :=
  [.take 1,.advance 1,.advance 1,.take 2,.advance 2,.advance 2,.advance 2,.die 1,
    .take 2,.advance 2,.advance 2,.advance 2,.advance 2,.advance 2,.advance 2]

lemma contended_fair : Run.Legal World.step Fair start contended := by
  refine ⟨trivial,?_,?_,trivial,?_,?_,?_,trivial,trivial,?_,?_,?_,?stolen,?_,?_,trivial⟩
  case stolen =>
    intro tries _ _ i lock q alive owned
    cases lock
    by_cases first : q = 1
    · subst first
      cases alive
    by_cases second : q = 2
    · subst second
      cases owned
    · simp [World.step,World.advance,World.goto,start,Pc.owns,first,second] at owned
  all_goals
    intro tries stealing
    cases stealing

theorem lock_excludes_start :
    let v := Run.after World.step start (contended.take 7)
    let w := Run.after World.step start contended
    (v.pc 1 = .hold 0 ∧ v.pc 2 = .idle) ∧ w.pc 2 = .hold 1 ∧
      ∀ q j, w.alive q = true ∧ w.pc q = .hold j → 2 = q :=
  ⟨⟨rfl,rfl⟩,rfl,fun _ _ => lock_excludes (fun _ => rfl) contended_fair ⟨rfl,rfl⟩⟩

/-- A process that finds the file before the pid is in it takes it for a stale one. -/
theorem unwritten_lock_stolen : ∃ events : List (Event Nat), ∃ i j,
    (Run.after World.step start events).alive 1 = true ∧ (Run.after World.step start events).pc 1 = .hold i ∧
    (Run.after World.step start events).alive 2 = true ∧ (Run.after World.step start events).pc 2 = .hold j := by
  refine ⟨[.take 1,.advance 1,.take 2,.advance 2,.advance 2,.advance 2,.advance 2,.advance 2,.advance 1],0,1,?_⟩
  decide

end UbixOS.Pkg.Lock
