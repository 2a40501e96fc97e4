import UbixOS.Mpi.Delivery

/-! Who sleeps on a mailbox (`mpi_waitMessage`) while there is a message in it. A post wakes the
channel after it has let go of the lock; `mpi_spam` does not wake anybody. -/
namespace UbixOS.Mpi

open Library World Run Call

def State.Owns (s : State) (t : Tid) (b : Addr) : Prop :=
  (∃ boxes, Path s.next s.mboxList boxes ∧ b ∈ boxes) ∧ (s.mbox b).pid = t

def State.Full (s : State) (t : Tid) (b : Addr) : Prop := s.Owns t b ∧ (s.mbox b).msg ≠ none

/-- A task that sleeps on `b`, or has found it empty and is about to. -/
def Call.On (b : Addr) : Call → Prop
  | .checked _ mbox _ | .asleep _ mbox _ => mbox = b
  | _ => False

def Call.sends : Call → Bool
  | .waking .. | .polling _ => true
  | _ => false

namespace Rep

variable (rep : Rep s boxes queue)
include rep

lemma owns_iff : s.Owns t b ↔ b ∈ boxes ∧ (s.mbox b).pid = t := by
  refine and_congr_left fun _ => ⟨?_,fun member => ⟨boxes,rep.boxes_path,member⟩⟩
  rintro ⟨others,path,member⟩
  rwa [rep.boxes_path.unique path]

lemma full_iff : s.Full t b ↔ b ∈ boxes ∧ (s.mbox b).pid = t ∧ (s.mbox b).msg ≠ none := by
  rw [State.Full,rep.owns_iff,and_assoc]

end Rep

namespace Sound

variable (sound : Sound s boxes queue)
include sound

lemma link_full (fresh : a ∉ s.heap) (name : Name) (other : u ≠ t) (full : (s.link a name u).Full t c) :
    s.Full t c := by
  obtain ⟨member,pid,held⟩ := (sound.link fresh name u).rep.full_iff.mp full
  rcases List.mem_cons.mp member with rfl | old
  · exact absurd (by simpa [State.link] using pid) other
  have ne : c ≠ a := fun same => fresh (same ▸ sound.rep.box_heap old)
  have mbox : (s.link a name u).mbox c = s.mbox c := Function.update_of_ne ne ..
  rw [mbox] at pid held
  exact sound.rep.full_iff.mpr ⟨old,pid,held⟩

lemma append_full (member : b ∈ boxes) (fresh : m ∉ s.heap) (other : c ≠ b)
    (full : (s.append b m message).Full t c) : s.Full t c := by
  obtain ⟨inside,pid,held⟩ := (sound.append member fresh message).rep.full_iff.mp full
  have mbox : (s.append b m message).mbox c = s.mbox c := by
    rw [sound.rep.append_eq member]
    exact Function.update_of_ne other ..
  rw [mbox] at pid held
  exact sound.rep.full_iff.mpr ⟨inside,pid,held⟩

lemma takeFirst_full (member : b ∈ boxes) (contents : queue b = m :: rest)
    (full : (s.takeFirst b m (s.mbox b).pid).Full t c) : s.Full t c := by
  obtain ⟨inside,pid,held⟩ := (sound.takeFirst member contents).rep.full_iff.mp full
  rw [sound.rep.takeFirst_eq member contents] at pid held
  by_cases same : c = b
  · subst same
    refine sound.rep.full_iff.mpr ⟨inside,by simpa using pid,?_⟩
    rw [sound.rep.head member,contents]
    exact nofun
  · have mbox := Function.update_of_ne same { s.mbox b with msg := rest.head?, msgLast := rest.getLast? } s.mbox
    exact sound.rep.full_iff.mpr ⟨inside,mbox ▸ pid,mbox ▸ held⟩

lemma fewer_full (sound' : Sound s' boxes' queue')
    (fewer : boxes' ⊆ boxes) (mbox : s'.mbox = s.mbox) (full : s'.Full t c) : s.Full t c := by
  obtain ⟨inside,pid,held⟩ := sound'.rep.full_iff.mp full
  rw [mbox] at pid held
  exact sound.rep.full_iff.mpr ⟨fewer inside,pid,held⟩

lemma fetchMessage_full (full : (s.fetchMessage u name).2.Full t c) : s.Full t c := by
  rcases sound.rep.fetchMessage_cases u name with same | ⟨b,member,m,rest,contents,owner,same⟩
  · rwa [same] at full
  · rw [same,← owner] at full
    exact sound.takeFirst_full member contents full

lemma destroyMbox_full (full : (s.destroyMbox u name).2.Full t c) : s.Full t c := by
  rcases sound.rep.destroyMbox_cases u name with same | ⟨b,member,-,-,same⟩
  · rwa [same] at full
  rw [same] at full
  refine sound.fewer_full (sound.destroy member) List.erase_subset ?_ full
  rw [sound.rep.destroy_eq member]
  rfl

end Sound

/-- Whoever is asleep on a mailbox of theirs with a message in it is about to be woken. -/
structure Roused (w : World) : Prop where
  sound : ∃ boxes queue, Sound w.mpi boxes queue
  lock : ∀ t name b timeout, w.call t = .checked name b timeout → w.schedLock = some t
  pending : ∀ t b, (w.call t).On b → w.mpi.Full t b → ∃ u type name, w.call u = .waking b type name

lemma roused_boot : Roused .boot := ⟨⟨[],fun _ => [],rep_empty,ledger_empty⟩,nofun,nofun⟩

namespace Roused

variable (roused : Roused w)
include roused

lemma setMpi (sound : ∃ boxes queue, Sound s' boxes queue)
    (full : ∀ t b, (w.call t).On b → s'.Full t b → w.mpi.Full t b) : Roused { w with mpi := s' } :=
  ⟨sound,roused.lock,fun t b on filled => roused.pending t b on (full t b on filled)⟩

/-- A task goes on to something other than sleep. If it was about to wake a mailbox, nobody
waits for that one. -/
lemma goto {c : Call} (quiet : ∀ b type name, w.call t = .waking b type name → ∀ u, ¬(w.call u).On b)
    (awake : ∀ b, ¬c.On b) : Roused (w.goto t c) := by
  refine ⟨roused.sound,fun u name b timeout checked => ?_,fun u b on full => ?_⟩
  · by_cases same : u = t
    · subst same
      rw [goto_self] at checked
      exact absurd (by rw [checked]; rfl) (awake b)
    · rw [goto_other w c same] at checked
      exact roused.lock u name b timeout checked
  by_cases same : u = t
  · subst same
    rw [goto_self] at on
    exact absurd on (awake b)
  rw [goto_other w c same] at on
  obtain ⟨v,type,name,waking⟩ := roused.pending u b on full
  have other : v ≠ t := by
    rintro rfl
    exact quiet b type name waking u on
  exact ⟨v,type,name,(w.goto_other c other).trans waking⟩

/-- While nobody has the scheduler lock, nobody is between test and sleep. -/
lemma on_iff (free : w.schedLock = none) : (w.call t).On b ↔ ∃ name timeout, w.call t = .asleep name b timeout := by
  constructor
  · intro on
    cases call : w.call t with
    | checked name chan timeout => exact absurd (roused.lock t name chan timeout call) (by rw [free]; nofun)
    | asleep name chan timeout =>
      rw [call] at on
      cases on
      exact ⟨name,timeout,rfl⟩
    | idle | waking | polling | waiting | fetching =>
      rw [call] at on
      exact on.elim
  · rintro ⟨name,timeout,call⟩
    rw [call]
    rfl

lemma wakeChan (free : w.schedLock = none) (b : Addr) : Roused { w with call := fun u => (w.call u).wakeChan b } ∧
    ∀ u, ¬((w.call u).wakeChan b).On b := by
  have sleeper {u : Tid} {d : Addr} (on : ((w.call u).wakeChan b).On d) : (w.call u).On d ∧ d ≠ b := by
    cases call : w.call u with
    | checked name chan timeout =>
      have held := roused.lock u name chan timeout call
      rw [free] at held
      cases held
    | asleep name chan timeout =>
      rw [call,Call.wakeChan] at on
      split at on
      · exact on.elim
      next ne => exact ⟨on,fun same => ne (Eq.trans on same)⟩
    | idle | waking | polling | waiting | fetching =>
      rw [call] at on
      exact on.elim
  refine ⟨⟨roused.sound,fun u name d timeout checked => ?_,fun u d on full => ?_⟩,fun u on => (sleeper on).2 rfl⟩
  · change (w.call u).wakeChan b = _ at checked
    have on : ((w.call u).wakeChan b).On d := by
      rw [checked]
      rfl
    obtain ⟨_,_,asleep⟩ := (roused.on_iff free).mp (sleeper on).1
    simp only [asleep,Call.wakeChan,if_neg (sleeper on).2] at checked
    cases checked
  · obtain ⟨v,type,name,waking⟩ := roused.pending u d (sleeper on).1 full
    exact ⟨v,type,name,by simp only [waking,Call.wakeChan]⟩

/-- The mailbox is empty: the task takes the scheduler lock and will sleep. -/
lemma check (here : w.call t = .waiting name b timeout) (free : w.schedLock = none)
    (empty : (w.mpi.mbox b).msg = none) :
    Roused ({ w with schedLock := some t }.goto t (.checked name b timeout)) := by
  refine ⟨roused.sound,fun u name' d timeout' checked => ?_,fun u d on full => ?_⟩
  · by_cases same : u = t
    · rw [same]
      rfl
    rw [goto_other _ _ same] at checked
    have held := roused.lock u name' d timeout' checked
    rw [free] at held
    cases held
  by_cases same : u = t
  · subst same
    rw [goto_self] at on
    cases on
    exact absurd empty full.2
  rw [goto_other _ _ same] at on
  obtain ⟨v,type,name',waking⟩ := roused.pending u d on full
  have other : v ≠ t := by
    rintro rfl
    rw [here] at waking
    cases waking
  exact ⟨v,type,name',(goto_other _ _ other).trans waking⟩

lemma sleep (here : w.call t = .checked name b timeout) :
    Roused ({ w with schedLock := none }.goto t (.asleep name b timeout)) := by
  have holder := roused.lock t name b timeout here
  refine ⟨roused.sound,fun u name' d timeout' checked => ?_,fun u d on full => ?_⟩
  · by_cases same : u = t
    · subst same
      rw [goto_self] at checked
      cases checked
    rw [goto_other _ _ same] at checked
    have held := roused.lock u name' d timeout' checked
    rw [holder] at held
    cases held
    exact absurd rfl same
  have before : (w.call u).On d := by
    by_cases same : u = t
    · subst same
      rw [goto_self] at on
      rwa [here]
    · rwa [goto_other _ _ same] at on
  obtain ⟨v,type,name',waking⟩ := roused.pending u d before full
  have other : v ≠ t := by
    rintro rfl
    rw [here] at waking
    cases waking
  exact ⟨v,type,name',(goto_other _ _ other).trans waking⟩

lemma resume (t : Tid) : Roused (w.resume t) := by
  unfold World.resume
  split
  · exact roused
  · exact roused
  next b type name call =>
    split
    · exact roused
    next free =>
      obtain ⟨woken,nobody⟩ := roused.wakeChan (not_not.mp free) b
      refine woken.goto (fun d type' name' waking => ?_) fun d => ?_
      · simp only [call] at waking
        cases waking
        exact nobody
      · split <;> exact id
  next name call =>
    split
    · exact roused.goto (by rw [call]; nofun) fun _ => id
    · exact roused
  next name b timeout call =>
    split
    · exact roused
    next free =>
      split
      · exact roused.goto (by rw [call]; nofun) fun _ => id
      next empty => exact roused.check call (not_not.mp free) (Option.not_isSome_iff_eq_none.mp empty)
  next name b timeout call => exact roused.sleep call
  next name call =>
    obtain ⟨boxes,queue,sound⟩ := roused.sound
    have fetched : Roused { w with mpi := (w.mpi.fetchMessage t name).2 } :=
      roused.setMpi (Sound.of_left (sound.fetchMessage t name fun _ _ => False)) fun _ _ _ => sound.fetchMessage_full
    exact fetched.goto (by rw [call]; nofun) fun _ => id

/-- A post: its mailbox will be woken. -/
lemma post (idle : w.call t = .idle) (sound : ∃ boxes queue, Sound s' boxes queue)
    (full : ∀ u d, d ≠ b → s'.Full u d → w.mpi.Full u d) :
    Roused ({ w with mpi := s' }.goto t (.waking b type name)) := by
  have waits {u : Tid} {d : Addr} (on : (({ w with mpi := s' } : World).goto t (.waking b type name)).call u |>.On d) :
      u ≠ t ∧ (w.call u).On d := by
    by_cases same : u = t
    · subst same
      rw [goto_self] at on
      exact on.elim
    · rw [goto_other _ _ same] at on
      exact ⟨same,on⟩
  refine ⟨sound,fun u name' d timeout checked => ?_,fun u d on filled => ?_⟩
  · have on : (({ w with mpi := s' } : World).goto t (.waking b type name)).call u |>.On d := by
      rw [checked]
      rfl
    rw [goto_other _ _ (waits on).1] at checked
    exact roused.lock u name' d timeout checked
  by_cases here : d = b
  · subst here
    exact ⟨t,type,name,goto_self ..⟩
  obtain ⟨v,type',name',waking⟩ := roused.pending u d (waits on).2 (full u d here filled)
  have other : v ≠ t := by
    rintro rfl
    rw [idle] at waking
    cases waking
  exact ⟨v,type',name',(goto_other _ _ other).trans waking⟩

end Roused

/-- A broadcast finds nobody asleep, or about to sleep, on an empty mailbox of their own. -/
def Orderly (w : World) : Event → Prop
  | .enter _ (.spam ..) => ∀ t b, (w.call t).On b → w.mpi.Owns t b → (w.mpi.mbox b).msg ≠ none
  | _ => True

namespace Roused

variable (roused : Roused w)
include roused

lemma enter (idle : w.call t = .idle) (orderly : Orderly w (.enter t r)) : Roused (w.enter t r) := by
  obtain ⟨boxes,queue,sound⟩ := roused.sound
  cases r with
  | createMbox name alloc =>
    refine roused.setMpi (sound.createMbox t name alloc) fun u b on full => ?_
    rcases Rep.createMbox_cases (s := w.mpi) t name alloc with same | ⟨-,a,fresh,same⟩
    · rwa [same] at full
    rw [same] at full
    refine sound.link_full fresh name ?_ full
    rintro rfl
    rw [idle] at on
    exact on
  | spam type data alloc =>
    obtain ⟨queue',sound',lasting⟩ := sound.spam t type data alloc
    refine roused.setMpi ⟨boxes,queue',sound'⟩ fun u b on full => ?_
    obtain ⟨inside,owner,_⟩ := sound'.rep.full_iff.mp full
    have owns : w.mpi.Owns u b := sound.rep.owns_iff.mpr ⟨inside,(lasting.pid b).symm.trans owner⟩
    exact ⟨owns,orderly u b on owns⟩
  | postMessage name type msg alloc =>
    have posted := Sound.of_left (sound.postMessage t name msg alloc fun _ _ => False)
    rw [World.enter]
    rcases sound.rep.postMessage_cases t name msg alloc with same | ⟨b,member,m,fresh,message,same⟩
    · rw [same]
      exact roused
    · rw [same] at posted ⊢
      exact roused.post idle posted fun u d other => sound.append_full member fresh other
  | fetchMessage name =>
    exact roused.setMpi (Sound.of_left (sound.fetchMessage t name fun _ _ => False)) fun _ _ _ =>
      sound.fetchMessage_full
  | waitMessage name timeout =>
    rw [World.enter]
    split
    · exact roused
    · exact roused.goto (by rw [idle]; simp) fun _ => id
  | destroyMbox name =>
    exact roused.setMpi (Sound.of_left (sound.destroyMbox t name)) fun _ _ _ => sound.destroyMbox_full
  | destroyProcessMboxes pid =>
    obtain ⟨boxes',fewer,sound',⟨mbox,-⟩,-⟩ := sound.destroyProcessMboxes pid
    exact roused.setMpi ⟨boxes',queue,sound'⟩ fun _ _ _ => sound.fewer_full sound' fewer mbox

lemma step (orderly : Orderly w e) : Roused (w.step e) := by
  cases e with
  | enter t r =>
    rw [World.step]
    split
    next idle => exact roused.enter idle orderly
    · exact roused
  | resume t => exact roused.resume t
  | wake t =>
    rw [World.step]
    split
    next name b timeout call => exact roused.goto (by rw [call]; simp) fun _ => id
    · exact roused
  | timeout t =>
    rw [World.step]
    split
    next name b timeout call =>
      split
      · exact roused.goto (by rw [call]; simp) fun _ => id
      · exact roused
    · exact roused

end Roused

/-- As long as no broadcast goes to an empty mailbox whose owner sleeps on it: when every post
has returned, nobody is asleep on a mailbox of their own that holds a message. -/
theorem no_sleep_on_full {events : List Event} (legal : Run.Legal step Orderly .boot events) {t : Tid} {b : Addr}
    (done : ∀ u, ((after step .boot events).call u).sends = false)
    (asleep : (after step .boot events).call t = .asleep name b timeout) :
    ¬(after step .boot events).mpi.Full t b := by
  intro full
  have roused : Roused (after step .boot events) := legal.invariant (fun _ _ roused => roused.step) roused_boot
  obtain ⟨u,type,name',waking⟩ := roused.pending t b (by rw [asleep]; rfl) full
  have sending := done u
  rw [waking] at sending
  cases sending

def twoBlocks : Allocator where
  pick heap := if 0 ∉ heap then some 0 else if 1 ∉ heap then some 1 else none
  fresh heap a picked := by
    split at picked
    next free =>
      cases picked
      exact free
    · split at picked
      next free =>
        cases picked
        exact free
      · cases picked

/-- Task 1 makes a mailbox and waits for a message without a limit. -/
def fallAsleep : List Event :=
  [.enter 1 (.createMbox [97] twoBlocks),.enter 1 (.waitMessage [97] 0),.resume 1,.resume 1]

lemma fallAsleep_call (u : Tid) (other : u ≠ 1) : (after step .boot fallAsleep).call u = .idle := by
  change Function.update (Function.update (Function.update (fun _ => idle) 1 _) 1 _) 1 _ u = _
  simp [other]

/-- Task 2 posts; task 1 is woken, fetches the message and waits again. -/
def servedOnce : List Event :=
  fallAsleep ++ [.enter 2 (.postMessage [97] 1 ⟨Bytes.zero,5,0,0,0⟩ twoBlocks),.resume 2,.resume 1,.resume 1,
    .enter 1 (.waitMessage [97] 0),.resume 1,.resume 1]

def Event.task : Event → Tid
  | .enter t _ | .resume t | .wake t | .timeout t => t

/-- A task that makes no call stays outside of all calls. -/
lemma step_idle (idle : w.call u = .idle) (other : u ≠ e.task) : (step w e).call u = .idle := by
  cases e with
  | enter t r =>
    rw [step]
    split
    · cases r
      all_goals
        simp only [World.enter]
        repeat' split
        all_goals simp_all [World.goto,Event.task]
    · exact idle
  | resume t =>
    simp only [step,World.resume]
    repeat' split
    all_goals simp_all [World.goto,Event.task,Call.wakeChan]
  | wake t | timeout t =>
    simp only [step]
    repeat' split
    all_goals simp_all [World.goto,Event.task]

theorem no_sleep_on_full_served : (after step .boot servedOnce).mpi.fetched 0 ≠ [] ∧
    (after step .boot servedOnce).call 1 = .asleep [97] 0 0 ∧ ¬(after step .boot servedOnce).mpi.Full 1 0 := by
  have legal : Run.Legal step Orderly .boot servedOnce :=
    ⟨trivial,trivial,trivial,trivial,trivial,trivial,trivial,trivial,trivial,trivial,trivial,trivial⟩
  have asleep : (after step .boot servedOnce).call 1 = .asleep [97] 0 0 := by decide +kernel
  refine ⟨by decide +kernel,asleep,no_sleep_on_full legal (fun u => ?_) asleep⟩
  by_cases first : u = 1
  · subst first
    rw [asleep]
    rfl
  by_cases second : u = 2
  · subst second
    decide +kernel
  have idle : (after step .boot servedOnce).call u = .idle := by
    have quiet : Run.Legal step (fun _ e => u ≠ e.task) .boot servedOnce :=
      ⟨first,first,first,first,second,second,first,first,first,first,first,trivial⟩
    exact quiet.invariant (I := fun w => w.call u = .idle) (fun _ _ idle other => step_idle idle other) rfl
  rw [idle]
  rfl

/-- Task 2 broadcasts. The message is in the mailbox, no call but the wait of task 1 is left,
and task 1 sleeps. -/
theorem spam_wakes_nobody :
    let w := after step .boot (fallAsleep ++ [.enter 2 (.spam 7 Bytes.zero twoBlocks)])
    (∀ u, (w.call u).sends = false) ∧ w.call 1 = .asleep [97] 0 0 ∧ w.mpi.Full 1 0 := by
  intro w
  refine ⟨fun u => ?_,by rfl,⟨⟨[0],by exact ⟨rfl,rfl⟩,List.mem_singleton_self 0⟩,by rfl⟩,by nofun⟩
  by_cases same : u = 1
  · subst same
    rfl
  have idle : w.call u = .idle := fallAsleep_call u same
  rw [idle]
  rfl

end UbixOS.Mpi
