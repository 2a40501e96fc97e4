import UbixOS.Sched.Family

/-! Every run of forks, exits, waits and reaper passes, with any other scheduler events
in between: the invariant of the families holds throughout, and with it what
`sys_wait4` promises. -/
namespace UbixOS.Sched.Exit

open Library List

/-- What every step keeps. There is no task 0. -/
structure Good (w : World) : Prop where
  family : Family w
  steady : Steady w.kernel
  toned : w.kernel.Toned
  nobody : w.kernel.embryo 0

section Kernel

lemma steady_lists (steady : Steady s) (l d : List Tid) : Steady { s with taskList := l, delList := d } := by
  refine ⟨steady.sound.congr rfl (fun _ => ⟨rfl,rfl,rfl⟩) rfl steady.sound.born,?_⟩
  exact steady.placed.shift ((Shift.refl s).other rfl rfl rfl rfl rfl)

lemma steady_rest (steady : Steady s) (same : ∀ k, (f k).state = k.state ∧ (f k).priority = k.priority ∧
      (f k).basePriority = k.basePriority ∧ (f k).onRq = k.onRq ∧ (f k).rqCpu = k.rqCpu ∧ (f k).rqNext = k.rqNext ∧
      (f k).rqPrev = k.rqPrev ∧ (f k).onCpu = k.onCpu) : Steady (s.upd t f) := by
  obtain ⟨state,priority,base,onRq,rqCpu,next,prev,onCpu⟩ := same (s.task t)
  refine ⟨steady.sound.updRest ⟨state,priority,base,onRq,rqCpu,next,prev⟩,?_⟩
  exact steady.placed.shift ((Shift.refl s).rest fun k => ⟨(same k).2.2.2.2.2.2.2,(same k).1⟩)

lemma steady_clearParents (steady : Steady s) (t : Tid) : Steady (clearParents s t) := by
  have turn (s : Kernel) (u : Tid) (steady : Steady s) : Steady (clearParent t s u) := by
    unfold clearParent
    split
    · exact steady_rest steady fun _ => ⟨rfl,rfl,rfl,rfl,rfl,rfl,rfl,rfl⟩
    · exact steady
  unfold clearParents
  generalize s.taskList = l
  induction l generalizing s with
  | nil => exact steady
  | cons u l ih => exact ih (turn s u steady)

lemma steady_linkChild (steady : Steady s) (new : s.state child = .new) (thread : Bool) :
    Steady (linkChild s p child thread) := by
  have off : (s.task child).onRq = false := steady.sound.off (by rw [new]; nofun)
  refine ⟨steady.sound.upd rfl (fun on => ?_) ⟨?_,?_⟩ fun large => steady.sound.unborn child large,
    steady.placed.shift ((Shift.refl s).rest fun _ => ⟨rfl,rfl⟩)⟩
  · rw [off] at on
    cases on
  · exact (steady.sound.range p).2
  · exact (steady.sound.range p).2

lemma toned_relink (toned : s.Toned) (parent : Tid → Option Tid) (tgid : Tid → Nat) : (relink s parent tgid).Toned :=
  ⟨fun t => ⟨(toned.task t).priority,(toned.task t).base,(toned.task t).yielding⟩,toned.base⟩

lemma toned_zombie (toned : s.Toned) (p : Tid) : (schedZombie s p).Toned := by
  have frame := dequeue_frame (.refl s) p
  have dequeued : (rqDequeueLocked s p).Toned := toned.tame ((Tame.refl s (x := fun _ => False)).frame frame)
  refine ⟨fun t => ?_,fun t zero => ?_⟩
  · change ((Kernel.setState (rqDequeueLocked s p) p .zombie).task t).Toned
    rw [Kernel.setState,Kernel.upd_task]
    split
    · exact ⟨(dequeued.task t).priority,(dequeued.task t).base,(dequeued.task t).yielding⟩
    · exact dequeued.task t
  refine dequeued.base t ?_
  change ((Kernel.setState (rqDequeueLocked s p) p .zombie).task t).basePriority = 0 at zero
  rw [Kernel.setState,Kernel.upd_task] at zero
  split at zero <;> exact zero

lemma toned_linkChild (toned : s.Toned) (busy : ∀ d, s.idle d ≠ some p) (thread : Bool) :
    (linkChild s p child thread).Toned := by
  refine ⟨fun t => ?_,fun t zero => ?_⟩
  · unfold linkChild
    rw [s.upd_task]
    split
    · exact ⟨(toned.task p).base,(toned.task p).base,(toned.task t).yielding⟩
    · exact toned.task t
  unfold linkChild at zero
  rw [s.upd_task] at zero
  split at zero
  · obtain ⟨d,pinned⟩ := toned.base p zero
    exact absurd pinned (busy d)
  · exact toned.base t zero

end Kernel

section Scan

def World.ready (w : World) (p : Tid) (pid : Int) (t : Tid) : Prop :=
  w.parent t = some p ∧ wanted pid t = true ∧ w.finished t = true ∧ w.onCpu t = false

lemma waitFindChild_some
    (found : (waitFindChild w p pid untraced l seen).child = some t) : t ∈ l ∧ wanted pid t = true ∧
      ((waitFindChild w p pid untraced l seen).reaped = true → w.ready p pid t ∧
        (waitFindChild w p pid untraced l seen).wstatus = w.status t) := by
  induction l generalizing seen with
  | nil => cases found
  | cons u l ih =>
    unfold waitFindChild at found ⊢
    split
    next other =>
      rw [if_pos other] at found
      obtain ⟨member,rest⟩ := ih found
      exact ⟨mem_cons_of_mem u member,rest⟩
    rename_i mine
    rw [if_neg mine] at found
    obtain ⟨child,match'⟩ := not_or.mp mine
    split
    next exited =>
      rw [if_pos exited] at found
      cases found
      exact ⟨mem_cons_self,by simpa using match',fun _ => ⟨⟨not_not.mp child,by simpa using match',exited⟩,rfl⟩⟩
    rename_i running
    rw [if_neg running] at found
    split
    next stopped =>
      rw [if_pos stopped] at found
      cases found
      exact ⟨mem_cons_self,by simpa using match',nofun⟩
    next going =>
      rw [if_neg going] at found
      obtain ⟨member,rest⟩ := ih found
      exact ⟨mem_cons_of_mem u member,rest⟩

lemma waitFindChild_none (none : (waitFindChild w p pid untraced l seen).child = none) :
    ((waitFindChild w p pid untraced l seen).haveChild = true ↔
      seen = true ∨ ∃ t ∈ l, w.parent t = some p ∧ wanted pid t = true) ∧ ∀ t ∈ l, ¬w.ready p pid t := by
  induction l generalizing seen with
  | nil =>
    unfold waitFindChild
    simp
  | cons u l ih =>
    unfold waitFindChild at none ⊢
    split
    next other =>
      rw [if_pos other] at none
      have strange : ¬(w.parent u = some p ∧ wanted pid u = true) := fun ⟨child,match'⟩ => by
        rcases other with other | other
        · exact other child
        · rw [match'] at other
          cases other
      obtain ⟨seen,idle⟩ := ih none
      refine ⟨?_,fun t member ready => ?_⟩
      · rw [seen]
        simp [strange]
      rcases mem_cons.mp member with rfl | member
      · exact strange ⟨ready.1,ready.2.1⟩
      · exact idle t member ready
    rename_i mine
    rw [if_neg mine] at none
    obtain ⟨child,match'⟩ := not_or.mp mine
    split
    next exited =>
      rw [if_pos exited] at none
      cases none
    rename_i running
    rw [if_neg running] at none
    split
    next stopped =>
      rw [if_pos stopped] at none
      cases none
    rename_i going
    rw [if_neg going] at none
    obtain ⟨seen,idle⟩ := ih none
    refine ⟨?_,fun t member ready => ?_⟩
    · rw [seen]
      refine ⟨fun _ => .inr ⟨u,mem_cons_self,not_not.mp child,by simpa using match'⟩,fun _ => .inl rfl⟩
    rcases mem_cons.mp member with rfl | member
    · exact running ready.2.2
    · exact idle t member ready

end Scan

section Steps

variable {w : World}

lemma caller_some (caller : w.caller c = some (p,call)) : w.kernel.current c = some p ∧ w.call p = call := by
  obtain ⟨q,current,same⟩ := Option.map_eq_some_iff.mp caller
  cases same
  exact ⟨current,rfl⟩

section
variable (good : Good w)
include good

lemma Good.born (current : w.kernel.current c = some p) : w.born p := by
  refine ⟨Nat.pos_of_ne_zero ?_,good.steady.sound.known_current current⟩
  rintro rfl
  exact good.nobody.2 c current

lemma Good.enter (call : Call) (caller : w.caller c = some (p,old)) (was : old ≠ .exited ∧ ∀ t b, old ≠ .freeTask t b)
    (now : call ≠ .exited ∧ (∀ t b, call ≠ .freeTask t b) ∧ call ≠ .endTask true ∧ ∀ t b, call ≠ .fork t b) :
    Good (w.enter p call) := by
  obtain ⟨current,rfl⟩ := caller_some caller
  refine ⟨?_,good.steady,good.toned,good.nobody⟩
  exact good.family.enter call current (good.born current) was ⟨now.1,now.2.1⟩
    (fun ended => absurd ended now.2.2.1) fun t b creates => absurd creates (now.2.2.2 t b)

lemma Good.event (allowed : Allowed w (.kernel e)) : Good (step w (.kernel e)) := by
  obtain ⟨kind,settled⟩ := allowed
  have unborn := good.steady.sound.unborn w.kernel.nextID le_rfl
  have positive := good.family.places.first
  rcases kind with rfl | ⟨c,rfl⟩ | regular
  · have born := schedNewTask_born w.kernel
    refine ⟨good.family.born born unborn,step_steady _ .newTask good.steady trivial,good.toned.born born,?_,
      good.nobody.2⟩
    exact (congrArg Task.state (born.other 0 (Nat.ne_of_lt positive))).trans good.nobody.1
  · by_cases absent : w.kernel.current c = none ∧ w.kernel.idle c = none
    · have born := apEntry_born absent.1 absent.2
      refine ⟨good.family.born born unborn,step_steady _ (.apEntry c) good.steady trivial,good.toned.born born,?_,?_⟩
      · exact (congrArg Task.state (born.other 0 (Nat.ne_of_lt positive))).trans good.nobody.1
      · exact fun d here => (born.current d 0 here).elim (Nat.ne_of_lt positive) (good.nobody.2 d)
    have same : step w (.kernel (.apEntry c)) = w := by
      change { w with kernel := apEntry w.kernel c } = w
      unfold apEntry
      rw [if_pos (by rwa [← not_and_or])]
    rwa [same]
  · have pass := step_pass e good.steady good.toned good.family.places.nodup regular
    exact ⟨good.family.pass pass settled,
      step_steady _ e good.steady (regular.lives good.steady.placed good.toned),good.toned.pass pass,
      pass.fresh (fun touched => (settled 0 touched).1 rfl) good.nobody⟩

lemma Good.newTask (caller : w.caller c = some (p,.user)) :
    Good { (w.enter p (.fork w.kernel.nextID false)) with kernel := schedNewTask w.kernel } := by
  obtain ⟨current,here⟩ := caller_some caller
  have next := good.event (e := .newTask) ⟨.inl rfl,fun _ => False.elim⟩
  have fresh : w.call w.kernel.nextID = .user := by
    by_contra busy
    exact Nat.lt_irrefl _ (good.family.calls.caller _ busy).2
  have was : (step w (.kernel .newTask)).call p = .user := here
  refine ⟨?_,next.steady,next.toned,next.nobody⟩
  refine next.family.enter (.fork w.kernel.nextID false) current (next.born current)
    ⟨by rw [was]; nofun,fun _ _ => by rw [was]; nofun⟩ ⟨nofun,nofun⟩ nofun ?_
  intro t b same
  cases same
  refine ⟨mem_cons_self,⟨?_,fun d there => ?_⟩,fresh,fun q b' _ creating => ?_⟩
  · change (schedNewTask w.kernel).state _ = _
    simp [schedNewTask,Kernel.state]
  · exact Nat.lt_irrefl _ (good.steady.sound.known_current there)
  · exact Nat.lt_irrefl _ (good.family.places.born _ .listed (good.family.calls.embryo q _ b' creating).1).2

lemma Good.linkChild (thread : Bool) (caller : w.caller c = some (p,.fork child false))
    (busy : ∀ d, w.kernel.idle d ≠ some p) :
    Good { (w.enter p (.fork child true)) with kernel := Exit.linkChild w.kernel p child thread } := by
  obtain ⟨current,here⟩ := caller_some caller
  obtain ⟨-,new,-⟩ := good.family.calls.embryo p child false here
  refine ⟨good.family.linkChild good.toned thread here current busy,steady_linkChild good.steady new.1 thread,
    toned_linkChild good.toned busy thread,?_,good.nobody.2⟩
  unfold Exit.linkChild
  rw [Kernel.state,w.kernel.upd_task]
  split <;> exact good.nobody.1

lemma Good.readyChild (caller : w.caller c = some (p,.fork child true)) :
    Good { (w.enter p .user) with kernel := schedReady w.kernel child } := by
  obtain ⟨current,here⟩ := caller_some caller
  obtain ⟨listed,new,-⟩ := good.family.calls.embryo p child true here
  have known := good.family.places.born child .listed listed
  have alive : (w.kernel.state child).finished = false := by
    rw [new.1]
    rfl
  have left := good.enter .user caller ⟨nofun,nofun⟩ ⟨nofun,nofun,nofun,nofun⟩
  have readied : Tame (· = child) w.kernel (schedReady w.kernel child) := schedReady_tame (.refl _) alive rfl
  refine ⟨left.family.tame readied ?_,step_steady _ (.ready child) good.steady ⟨known.2,?_,alive⟩,
    good.toned.tame readied,
    readied.fresh 0 (Nat.ne_of_lt known.1) good.nobody⟩
  · rintro t rfl
    refine ⟨Nat.ne_of_gt known.1,fun q linked creating => ?_⟩
    by_cases same : q = p
    · subst same
      rw [w.enter_self] at creating
      cases creating
    · rw [w.enter_other _ same] at creating
      exact same (good.family.calls.single q p t linked true creating here)
  · rw [new.1]
    nofun

lemma Good.fields (kernel : w'.kernel = w.kernel) (call : w'.call = w.call)
    (exits : w'.exits = w.exits) (returned : w'.returned = w.returned) (freed : w'.freed = w.freed)
    (status : ∀ t, w.finished t = true → w'.status t = w.status t) : Good w' :=
  ⟨good.family.fields kernel call exits returned freed status,kernel ▸ good.steady,kernel ▸ good.toned,
    kernel ▸ good.nobody⟩

lemma Good.alive (here : w.call p = .user) (exited : w.finished t = true) : t ≠ p := by
  rintro rfl
  have dead := (good.family.calls.exited t).mp exited
  rw [here] at dead
  cases dead

end

lemma killGroup_status (exited : w.finished t = true) : (signalKillGroup w p code sig).status t = w.status t := by
  have spared : t ∉ (w.kernel.taskList.filter fun u => decide (u ≠ p ∧ w.finished u = false ∧ w.groupExit u = false ∧
      group w.kernel u = group w.kernel p)).take 64 := fun member => by
    have chosen := (mem_filter.mp (mem_of_mem_take member)).2
    simp [exited] at chosen
  unfold signalKillGroup World.status
  simp only [if_neg spared]

lemma Good.waitRound (good : Good w) (interrupted : Bool)
    (caller : w.caller c = some (p,.wait4 pid nohang untraced)) :
    Good (sysWait4 w p pid nohang untraced interrupted).2 := by
  obtain ⟨current,here⟩ := caller_some caller
  have left := good.enter .user caller ⟨nofun,nofun⟩ ⟨nofun,nofun,nofun,nofun⟩
  unfold sysWait4
  dsimp only
  split
  next t found =>
    obtain ⟨listed,-,collects⟩ := waitFindChild_some found
    split
    next reaped =>
      obtain ⟨⟨child,-,exited,off⟩,status⟩ := collects reaped
      rw [status]
      exact ⟨good.family.reaped here current listed child exited off,steady_lists good.steady _ _,
        ⟨good.toned.task,good.toned.base⟩,good.nobody⟩
    have drains := good.enter .freeDeleted caller ⟨nofun,nofun⟩ ⟨nofun,nofun,nofun,nofun⟩
    have seen : Tame (fun _ => False) w.kernel (w.kernel.upd t fun k => { k with stoppedSig := 0 }) :=
      (Tame.refl _).rest fun _ => rfl
    have steady : Steady (w.kernel.upd t fun k => { k with stoppedSig := 0 }) :=
      steady_rest good.steady fun _ => ⟨rfl,rfl,rfl,rfl,rfl,rfl,rfl,rfl⟩
    exact ⟨drains.family.tame seen nofun,steady,good.toned.tame seen,seen.fresh 0 id good.nobody⟩
  · split
    · exact left
    split
    · exact left
    split
    · exact left
    · exact good

lemma step_good (w : World) (a : Act) (good : Good w) (allowed : Allowed w a) : Good (step w a) := by
  cases a with
  | kernel e => exact good.event allowed
  | newTask c =>
    dsimp only [step]
    split
    next p caller => exact good.newTask caller
    · exact good
  | linkChild c thread =>
    dsimp only [step]
    split
    next p child caller => exact good.linkChild thread caller (allowed p (caller_some caller).1)
    · exact good
  | readyChild c =>
    dsimp only [step]
    split
    next p child caller => exact good.readyChild caller
    · exact good
  | exitCode c | exitSignal c =>
    dsimp only [step]
    split
    next p caller =>
      refine good.fields rfl rfl rfl rfl rfl fun t exited => ?_
      have apart := good.alive (caller_some caller).2 exited
      simp [World.status,apart]
    · exact good
  | killGroup c code sig =>
    dsimp only [step]
    split
    · exact good.fields rfl rfl rfl rfl rfl fun t => killGroup_status
    · exact good
  | endTask c | wait4 c pid nohang untraced =>
    dsimp only [step]
    split
    next p caller =>
      exact good.enter _ caller ⟨nofun,nofun⟩ ⟨nofun,nofun,nofun,nofun⟩
    · exact good
  | reparent c =>
    dsimp only [step]
    split
    next p caller =>
      obtain ⟨current,here⟩ := caller_some caller
      have tame := reparent_tame (x := fun _ => False) w.kernel p
      exact ⟨good.family.reparent here current,step_steady _ (.reparent p) good.steady trivial,
        (toned_relink good.toned _ _).tame tame,tame.fresh 0 id good.nobody⟩
    · exact good
  | zombie c =>
    dsimp only [step]
    split
    next p caller =>
      obtain ⟨current,here⟩ := caller_some caller
      have known := good.born current
      refine ⟨good.family.zombie here current,step_steady _ (.zombie p) good.steady ⟨known.2,allowed p current⟩,
        toned_zombie good.toned p,?_⟩
      have face : (schedZombie w.kernel p).state 0 = _ := (congrArg (·.2.2.1) (schedZombie_face w.kernel p 0) :)
      refine ⟨?_,?_⟩
      · rw [face,if_neg (Nat.ne_of_lt known.1)]
        exact good.nobody.1
      · rw [(schedZombie_lists w.kernel p).2.2.2]
        exact good.nobody.2
    · exact good
  | waitRound c interrupted =>
    dsimp only [step]
    split
    next p pid nohang untraced caller => exact good.waitRound interrupted caller
    · exact good
  | clearParents c =>
    dsimp only [step]
    split
    next p t caller =>
      obtain ⟨current,here⟩ := caller_some caller
      have tame := clearParents_tame (x := fun _ => False) w.kernel t
      exact ⟨good.family.clearParents here current,steady_clearParents good.steady t,
        (toned_relink good.toned _ _).tame tame,tame.fresh 0 id good.nobody⟩
    · exact good
  | kfree c =>
    dsimp only [step]
    split
    next p t caller =>
      obtain ⟨current,here⟩ := caller_some caller
      exact ⟨good.family.kfree here current,good.steady,good.toned,good.nobody⟩
    · exact good
  | getDelTask c =>
    dsimp only [step]
    split
    next p caller =>
      obtain ⟨current,here⟩ := caller_some caller
      split
      · exact good.enter _ caller ⟨nofun,nofun⟩ ⟨nofun,nofun,nofun,nofun⟩
      rename_i t rest dels
      exact ⟨good.family.getDelTask here current dels,steady_lists good.steady _ _,
        ⟨good.toned.task,good.toned.base⟩,good.nobody⟩
    · exact good

end Steps

lemma boot_good (acctPerCpu : Bool) : Good (boot acctPerCpu) where
  family := by
    have lies t a (here : (boot acctPerCpu).lies t a) : t = 1 ∧ a = .listed := by
      cases a with
      | listed => exact ⟨mem_singleton.mp here,rfl⟩
      | deleted | freed => cases here
      | held p =>
        obtain ⟨b,freeing⟩ := here
        cases freeing
    have parent t : (boot acctPerCpu).parent t = none := by
      unfold World.parent boot Sched.boot
      dsimp only
      split <;> rfl
    have alive t : (boot acctPerCpu).finished t = false := by
      unfold World.finished Kernel.state boot Sched.boot
      dsimp only
      split <;> rfl
    have only t (known : (boot acctPerCpu).born t) : t = 1 := Nat.le_antisymm (Nat.le_of_lt_succ known.2) known.1
    refine ⟨⟨Nat.two_pos,nodup_singleton 1,nodup_nil,nodup_nil,fun t a b first second => ?_,fun t a here => ?_,
        fun t known => ?_,fun t known outside => ?_⟩,⟨fun t => ?_,fun t busy => absurd rfl busy,nofun,nofun⟩,
      ⟨fun t _ p link => ?_,nofun,fun t _ p link => ?_⟩,⟨fun t => ?_,nofun,nodup_nil,fun t known outside => ?_⟩⟩
    · exact (lies t a first).2.trans (lies t b second).2.symm
    · rw [(lies t a here).1]
      exact ⟨Nat.one_pos,Nat.lt_add_one 1⟩
    · exact ⟨.listed,mem_singleton.mpr (only t known)⟩
    · exact absurd (mem_singleton.mpr (only t known)) outside
    · rw [alive]
      exact ⟨nofun,nofun⟩
    · rw [parent] at link
      cases link
    · rw [parent] at link
      cases link
    · rw [alive]
      rfl
    · exact absurd (mem_singleton.mpr (only t known)) outside
  steady := boot_steady acctPerCpu
  toned := by
    have task : ∀ t, ((Sched.boot acctPerCpu).task t).priority = 12 ∧
      ((Sched.boot acctPerCpu).task t).basePriority = 12 ∧
        ((Sched.boot acctPerCpu).task t).yielding = false := fun t => by
      unfold Sched.boot
      dsimp only
      split <;> exact ⟨rfl,rfl,rfl⟩
    refine ⟨fun t => ⟨?_,?_,(task t).2.2⟩,fun t zero => ?_⟩
    · change ((Sched.boot acctPerCpu).task t).priority < 31
      rw [(task t).1]
      decide
    · change ((Sched.boot acctPerCpu).task t).basePriority < 31
      rw [(task t).2.1]
      decide
    · rw [show ((boot acctPerCpu).kernel.task t).basePriority = 12 from (task t).2.1] at zero
      cases zero
  nobody := by
    refine ⟨rfl,fun c here => ?_⟩
    change (if c = 0 then some 1 else none) = some 0 at here
    split at here <;> cases here

/-- A child that its parent can still wait for. -/
def World.child (w : World) (p t : Tid) : Prop :=
  w.born t ∧ w.parent t = some p ∧ ∀ r ∈ w.returned, r.child ≠ t

/-- The promises of exit and `wait4` in one state. -/
structure Orderly (w : World) : Prop where
  /-- No listed task has a freed parent. -/
  links : ∀ t ∈ w.kernel.taskList, ∀ p, w.parent t = some p → w.born p ∧ p ∉ w.freed
  /-- A returned child was one of the caller's, and the status is the one it exited with. -/
  status : ∀ r ∈ w.returned, w.parent r.child = some r.parent ∧ w.exits r.child = some r.status
  once : (w.returned.map Return.child).Nodup
  /-- An exited child of a live parent has been returned to it, or still waits on the list. -/
  kept : ∀ t status, w.exits t = some status → ∀ p, w.parent t = some p → w.finished p = false →
    ⟨p,t,status⟩ ∈ w.returned ∨ (t ∈ w.kernel.taskList ∧ ∀ r ∈ w.returned, r.child ≠ t)
  /-- Children of an exited task go to init; only threads of its own group stay. -/
  adopted : ∀ t ∈ w.kernel.taskList, ∀ p, w.parent t = some p → p ≠ 1 → w.finished p = true →
    (w.kernel.task t).tgid = (w.kernel.task p).tgid
  freedOnce : w.freed.Nodup
  /-- A task that left the list has exited, is off its CPU, and is freed or in exactly one hand to be freed. -/
  gone : ∀ t, w.born t → t ∉ w.kernel.taskList → w.finished t = true ∧ w.onCpu t = false ∧
    ∃! place, place ≠ .listed ∧ w.lies t place
  /-- A round of `wait4` reports `ECHILD` only without a matching child, and finds a child that is ready; what it
  collects has exited and is off its CPU. -/
  wait4 : ∀ c p pid nohang untraced interrupted, w.caller c = some (p,.wait4 pid nohang untraced) →
    ((sysWait4 w p pid nohang untraced interrupted).1 = .echild → ∀ t, w.child p t → wanted pid t = false) ∧
    ((∃ t ∈ w.kernel.taskList, w.ready p pid t) →
      ∃ t status, (sysWait4 w p pid nohang untraced interrupted).1 = .child t status ∧ wanted pid t = true) ∧
    ∀ r, (sysWait4 w p pid nohang untraced interrupted).2.returned = r :: w.returned →
      (sysWait4 w p pid nohang untraced interrupted).1 = .child r.child r.status ∧ w.ready p pid r.child ∧
        w.exits r.child = some r.status

lemma Good.wait4 (good : Good w) (caller : w.caller c = some (p,.wait4 pid nohang untraced))
    (round : sysWait4 w p pid nohang untraced interrupted = (result,w')) :
    (result = .echild → ∀ t, w.child p t → wanted pid t = false) ∧
    ((∃ t ∈ w.kernel.taskList, w.ready p pid t) → ∃ t status, result = .child t status ∧ wanted pid t = true) ∧
    ∀ r, w'.returned = r :: w.returned →
      result = .child r.child r.status ∧ w.ready p pid r.child ∧ w.exits r.child = some r.status := by
  obtain rfl : _ = result := congrArg Prod.fst round
  obtain rfl : _ = w' := congrArg Prod.snd round
  obtain ⟨-,here⟩ := caller_some caller
  have alive := good.family.calls.alive here nofun
  have shorter : ∀ r : Return, w.returned ≠ r :: w.returned := fun r same => by
    have length := congrArg length same
    simp at length
  unfold sysWait4
  dsimp only
  cases found : (waitFindChild w p pid untraced w.kernel.taskList false).child with
  | some t =>
    obtain ⟨listed,match',collects⟩ := waitFindChild_some found
    dsimp only
    split
    next reaped =>
      obtain ⟨ready,status⟩ := collects reaped
      refine ⟨nofun,fun _ => ⟨t,_,rfl,match'⟩,fun r same => ?_⟩
      cases cons.inj same with
      | intro head _ =>
        subst head
        refine ⟨rfl,ready,?_⟩
        rw [good.family.returns.status,if_pos ready.2.2.1,status]
    · exact ⟨nofun,fun _ => ⟨t,_,rfl,match'⟩,fun r same => absurd same (shorter r)⟩
  | none =>
    obtain ⟨have',idle⟩ := waitFindChild_none found
    have none : ¬∃ t ∈ w.kernel.taskList, w.ready p pid t := fun ⟨t,member,ready⟩ => idle t member ready
    dsimp only
    split
    next childless =>
      refine ⟨fun _ t ⟨known,link,unreturned⟩ => ?_,fun ready => absurd ready none,fun r same =>
        absurd same (shorter r)⟩
      have listed : t ∈ w.kernel.taskList := by
        by_contra outside
        rcases good.family.returns.orphan t known outside with ⟨r,member,same⟩ | orphan
        · exact unreturned r member same
        · rw [orphan p link] at alive
          cases alive
      cases wants : wanted pid t with
      | false => rfl
      | true =>
        rw [have'.mpr (.inr ⟨t,listed,link,wants⟩)] at childless
        cases childless
    · refine ⟨?_,fun ready => absurd ready none,?_⟩
      · split
        · nofun
        · split <;> nofun
      intro r
      split
      · exact fun same => absurd same (shorter r)
      · split <;> exact fun same => absurd same (shorter r)

lemma Good.orderly (good : Good w) : Orderly w where
  links := good.family.links.parent
  status r member := ⟨(good.family.returns.returned r member).2.2.2,(good.family.returns.returned r member).2.2.1⟩
  once := good.family.returns.once
  kept t status exited p link alive := by
    have overrun : w.finished t = true := by
      by_contra alive
      rw [good.family.returns.status,if_neg alive] at exited
      cases exited
    have known := good.family.calls.known ((good.family.calls.exited t).mp overrun) nofun
    by_cases listed : t ∈ w.kernel.taskList
    · exact .inr ⟨listed,fun r member same => (good.family.returns.returned r member).2.1 (same ▸ listed)⟩
    rcases good.family.returns.orphan t known listed with ⟨r,member,rfl⟩ | orphan
    · obtain ⟨-,-,exits,parent⟩ := good.family.returns.returned r member
      obtain rfl : r.parent = p := Option.some.inj (parent.symm.trans link)
      obtain rfl : r.status = status := Option.some.inj (exits.symm.trans exited)
      exact .inl member
    · rw [orphan p link] at alive
      cases alive
  adopted t listed p link other exited :=
    good.family.links.threads t listed p link other (.inr ((good.family.calls.exited p).mp exited))
  freedOnce := good.family.places.frees
  gone t known outside := by
    obtain ⟨exited,off⟩ := good.family.places.gone t known outside
    obtain ⟨place,lies⟩ := good.family.places.somewhere t known
    refine ⟨exited,off,place,⟨?_,lies⟩,fun other ⟨_,lies'⟩ => good.family.places.place t other place lies' lies⟩
    rintro rfl
    exact outside lies
  wait4 _ _ _ _ _ interrupted caller := good.wait4 caller rfl

/-- In every state of every run, parent links lead to tasks that are not freed, the status of an exited child goes
to its parent once and as it was, every task that left the list is freed at most once and off its CPU, and `ECHILD`
means that there is no matching child. -/
theorem exit_status_delivered_once (acctPerCpu : Bool) (acts : List Act)
    (legal : Run.Legal step Allowed (boot acctPerCpu) acts) : Orderly (Run.after step (boot acctPerCpu) acts) :=
  (legal.invariant step_good (boot_good acctPerCpu)).orderly

/-- The boot task forks and yields; the child exits with status 5 and is waited for and freed. -/
def shortLife : List Act :=
  [.kernel (.sched 0),.newTask 0,.linkChild 0 false,.readyChild 0,.kernel (.yieldEnter 0),.kernel (.sched 0),
    .kernel (.resumeUnlock 0),.exitCode 0 5,.endTask 0,.reparent 0,.zombie 0,.kernel (.yieldEnter 0),.kernel (.sched 0),
    .kernel (.resumeUnlock 0),.wait4 0 (-1) false false,.waitRound 0 false,.clearParents 0,.kfree 0,.getDelTask 0]

theorem exit_status_delivered_once_short : (Run.after step (boot true) shortLife).returned = [⟨1,2,5 <<< 8⟩] ∧
    (Run.after step (boot true) shortLife).freed = [2] ∧ Orderly (Run.after step (boot true) shortLife) := by
  have free : ∀ d, (Run.after step (boot true) (shortLife.take 2)).kernel.idle d = none := by decide +kernel
  have ending : (Run.after step (boot true) (shortLife.take 10)).kernel.current 0 = some 2 := by decide +kernel
  have mayStop : (Run.after step (boot true) (shortLife.take 10)).kernel.mayStop 2 :=
    ⟨by decide +kernel,by decide +kernel⟩
  have legal : Run.Legal step Allowed (boot true) shortLife := by
    refine ⟨⟨.inr (.inr trivial),fun _ => False.elim⟩,trivial,fun p _ d pinned => ?_,trivial,
      ⟨.inr (.inr trivial),fun _ => False.elim⟩,⟨.inr (.inr trivial),fun _ => False.elim⟩,
      ⟨.inr (.inr trivial),fun _ => False.elim⟩,trivial,trivial,trivial,fun p current => ?_,
      ⟨.inr (.inr trivial),fun _ => False.elim⟩,⟨.inr (.inr trivial),fun _ => False.elim⟩,
      ⟨.inr (.inr trivial),fun _ => False.elim⟩,trivial,trivial,trivial,trivial,trivial,trivial⟩
    · exact nomatch (free d).symm.trans pinned
    · obtain rfl : 2 = p := Option.some.inj (ending.symm.trans current)
      exact mayStop
  exact ⟨by decide +kernel,by decide +kernel,exit_status_delivered_once true shortLife legal⟩

end UbixOS.Sched.Exit
