import UbixOS.Mpi.Queues

/-! What became of every message: it was fetched by the owner of its mailbox, in the order of
posting, it is still queued, or it was freed with the mailbox. -/
namespace UbixOS.Mpi

open Library Function List State World

/-- The history of the mailboxes in use (`boxes`, with the messages `queue`) and of those that
are gone. -/
structure Ledger (s : State) (boxes : List Addr) (queue : Addr → List Addr) : Prop where
  born : ∀ b ∈ boxes, s.serial b < s.created
  apart : ∀ b ∈ boxes, ∀ c ∈ boxes, s.serial b = s.serial c → b = c
  owner : ∀ b ∈ boxes, s.owner (s.serial b) = (s.mbox b).pid
  kept : ∀ b ∈ boxes, s.released (s.serial b) = []
  queued : ∀ b ∈ boxes,
    s.posted (s.serial b) = (s.fetched (s.serial b)).map Prod.snd ++ (queue b).map s.message
  gone : ∀ n < s.created, (∀ b ∈ boxes, s.serial b ≠ n) →
    s.posted n = (s.fetched n).map Prod.snd ++ s.released n
  unborn : ∀ n, s.created ≤ n → s.posted n = [] ∧ s.fetched n = [] ∧ s.released n = []
  fetcher : ∀ n, ∀ f ∈ s.fetched n, f.1 = s.owner n

lemma ledger_empty : Ledger .empty [] fun _ => [] :=
  ⟨nofun,nofun,nofun,nofun,nofun,nofun,fun _ _ => ⟨rfl,rfl,rfl⟩,nofun⟩

namespace Ledger

variable (rep : Rep s boxes queue) (ledger : Ledger s boxes queue)
include rep ledger

lemma link (fresh : a ∉ s.heap) (name : Name) (pid : Tid) :
    Ledger (s.link a name pid) (a :: boxes) (update queue a []) := by
  have ne {c : Addr} (member : c ∈ boxes) : c ≠ a := fun same => fresh (same ▸ rep.box_heap member)
  have older {c : Addr} (member : c ∈ boxes) : s.serial c ≠ s.created := Nat.ne_of_lt (ledger.born c member)
  obtain ⟨noPosted,noFetched,noReleased⟩ := ledger.unborn s.created le_rfl
  have split {P : Addr → Prop} (new : P a) (old : ∀ c ∈ boxes, P c) : ∀ c ∈ a :: boxes, P c :=
    forall_mem_cons.mpr ⟨new,old⟩
  refine ⟨split ?_ fun c member => ?_,split (split ?_ fun c member => ?_) fun c member => split ?_ fun d member' => ?_,
    split ?_ fun c member => ?_,split ?_ fun c member => ?_,split ?_ fun c member => ?_,fun n below away => ?_,
    fun n above => ledger.unborn n (Nat.le_of_succ_le above),fun n f member => ?_⟩
  · simp [State.link]
  · simpa [State.link,ne member] using Nat.lt_succ_of_lt (ledger.born c member)
  · exact fun _ => rfl
  · simpa [State.link,ne member] using fun same => absurd same.symm (older member)
  · simpa [State.link,ne member] using fun same => absurd same (older member)
  · simpa [State.link,ne member,ne member'] using ledger.apart c member d member'
  · simp [State.link]
  · simpa [State.link,ne member,older member] using ledger.owner c member
  · simpa [State.link] using noReleased
  · simpa [State.link,ne member] using ledger.kept c member
  · simp [State.link,noPosted,noFetched]
  · simpa [State.link,ne member] using ledger.queued c member
  · have notNew : s.created ≠ n := by simpa [State.link] using away a List.mem_cons_self
    refine ledger.gone n (Nat.lt_of_le_of_ne (Nat.le_of_lt_succ below) notNew.symm) fun c member => ?_
    simpa [State.link,ne member] using away c (.tail a member)
  have old : n ≠ s.created := by
    rintro rfl
    exact absurd member (by rw [show (s.link a name pid).fetched = s.fetched from rfl,noFetched]; exact not_mem_nil)
  change f.1 = update s.owner s.created pid n
  rw [update_of_ne old]
  exact ledger.fetcher n f member

omit rep in
lemma requeue (member : b ∈ boxes)
    (births : s'.serial = s.serial ∧ s'.created = s.created ∧ s'.owner = s.owner ∧ s'.released = s.released)
    (pid : ∀ c, (s'.mbox c).pid = (s.mbox c).pid)
    (message : ∀ c ∈ boxes, c ≠ b → ∀ m ∈ queue c, s'.message m = s.message m)
    (others : ∀ n ≠ s.serial b, s'.posted n = s.posted n ∧ s'.fetched n = s.fetched n)
    (queued : s'.posted (s.serial b) = (s'.fetched (s.serial b)).map Prod.snd ++ q.map s'.message)
    (fetcher : ∀ f ∈ s'.fetched (s.serial b), f ∈ s.fetched (s.serial b) ∨ f.1 = (s.mbox b).pid) :
    Ledger s' boxes (update queue b q) := by
  obtain ⟨serial,created,owner,released⟩ := births
  have other {c : Addr} (inside : c ∈ boxes) (ne : c ≠ b) : s.serial c ≠ s.serial b := fun same =>
    ne (ledger.apart c inside b member same)
  have elsewhere {n : Nat} (away : ∀ c ∈ boxes, s.serial c ≠ n) : n ≠ s.serial b := (away b member).symm
  refine ⟨?_,?_,fun c inside => ?_,?_,fun c inside => ?_,?_,fun n above => ?_,fun n f inside => ?_⟩
  · rw [serial,created]
    exact ledger.born
  · rw [serial]
    exact ledger.apart
  · rw [serial,owner,pid]
    exact ledger.owner c inside
  · rw [serial,released]
    exact ledger.kept
  · rw [serial]
    by_cases same : c = b
    · subst same
      rwa [update_self]
    obtain ⟨posted,fetched⟩ := others _ (other inside same)
    rw [update_of_ne same,posted,fetched,map_congr_left (message c inside same)]
    exact ledger.queued c inside
  · rw [created,serial,released]
    intro n below away
    obtain ⟨posted,fetched⟩ := others n (elsewhere away)
    rw [posted,fetched]
    exact ledger.gone n below away
  · rw [created] at above
    have old : n ≠ s.serial b := (Nat.ne_of_lt ((ledger.born b member).trans_le above)).symm
    obtain ⟨posted,fetched⟩ := others n old
    rw [posted,fetched,released]
    exact ledger.unborn n above
  rw [owner]
  by_cases same : n = s.serial b
  · subst same
    rcases fetcher f inside with old | new
    · exact ledger.fetcher _ f old
    · rw [new,ledger.owner b member]
  · rw [(others n same).2] at inside
    exact ledger.fetcher n f inside

lemma append (member : b ∈ boxes) (fresh : m ∉ s.heap) (message : Message) :
    Ledger (s.append b m message) boxes (update queue b (queue b ++ [m])) := by
  have old {c x : Addr} (inside : c ∈ boxes) (here : x ∈ queue c) : x ≠ m := fun same =>
    fresh (same ▸ rep.message_heap inside here)
  rw [rep.append_eq member]
  refine ledger.requeue member ⟨rfl,rfl,rfl,rfl⟩ (fun c => ?_) (fun c inside _ x here => ?_) (fun n ne => ⟨?_,rfl⟩) ?_
    fun f inside => .inl inside
  · rw [← rep.append_eq member]
    exact (rep.append_lasting member m message).pid c
  · exact update_of_ne (old inside here) ..
  · exact update_of_ne ne ..
  have kept : (queue b).map (update s.message m message) = (queue b).map s.message :=
    map_congr_left fun x here => update_of_ne (old member here) ..
  simp [ledger.queued b member,kept]

lemma takeFirst (member : b ∈ boxes) (contents : queue b = m :: rest) :
    Ledger (s.takeFirst b m (s.mbox b).pid) boxes (update queue b rest) := by
  have queued := ledger.queued b member
  rw [contents] at queued
  rw [rep.takeFirst_eq member contents]
  refine ledger.requeue member ⟨rfl,rfl,rfl,rfl⟩ (fun c => ?_) (fun _ _ _ _ _ => rfl) (fun n ne => ⟨rfl,?_⟩) ?_
    fun f inside => ?_
  · by_cases same : c = b
    · subst same
      simp
    · simp [same]
  · exact update_of_ne ne ..
  · simp [queued]
  · simp only [update_self,mem_append,mem_singleton] at inside
    rcases inside with old | rfl
    · exact .inl old
    · exact .inr rfl

lemma destroy (member : b ∈ boxes) : Ledger (s.destroy b) (boxes.erase b) queue := by
  have still {c : Addr} : c ∈ boxes.erase b ↔ c ≠ b ∧ c ∈ boxes := rep.boxes_nodup.mem_erase_iff
  have old {c : Addr} (inside : c ∈ boxes.erase b) : c ∈ boxes := (still.mp inside).2
  have other {c : Addr} (inside : c ∈ boxes.erase b) : s.serial c ≠ s.serial b := fun same =>
    (still.mp inside).1 (ledger.apart c (old inside) b member same)
  rw [rep.destroy_eq member,ledger.kept b member,nil_append]
  refine ⟨fun c inside => ledger.born c (old inside),fun c inside d inside' =>
    ledger.apart c (old inside) d (old inside'),
    fun c inside => ledger.owner c (old inside),fun c inside => ?_,fun c inside => ledger.queued c (old inside),
    fun n below away => ?_,fun n above => ?_,ledger.fetcher⟩
  · exact (update_of_ne (other inside) ..).trans (ledger.kept c (old inside))
  · change s.posted n = (s.fetched n).map Prod.snd ++ update s.released (s.serial b) _ n
    by_cases here : n = s.serial b
    · subst here
      rw [update_self]
      exact ledger.queued b member
    rw [update_of_ne here]
    refine ledger.gone n below fun c inside => ?_
    by_cases same : c = b
    · rw [same]
      exact Ne.symm here
    · exact away c (still.mpr ⟨same,inside⟩)
  · have later : n ≠ s.serial b := (Nat.ne_of_lt ((ledger.born b member).trans_le above)).symm
    change s.posted n = [] ∧ s.fetched n = [] ∧ update s.released (s.serial b) _ n = []
    rw [update_of_ne later]
    exact ledger.unborn n above

end Ledger

/-- The lists are well formed and the history is accounted for. -/
structure Sound (s : State) (boxes : List Addr) (queue : Addr → List Addr) : Prop where
  rep : Rep s boxes queue
  ledger : Ledger s boxes queue

namespace Sound

variable (sound : Sound s boxes queue)
include sound

lemma link (fresh : a ∉ s.heap) (name : Name) (pid : Tid) :
    Sound (s.link a name pid) (a :: boxes) (update queue a []) :=
  ⟨sound.rep.link fresh name pid,sound.ledger.link sound.rep fresh name pid⟩

lemma append (member : b ∈ boxes) (fresh : m ∉ s.heap) (message : Message) :
    Sound (s.append b m message) boxes (update queue b (queue b ++ [m])) :=
  ⟨sound.rep.append member fresh message,sound.ledger.append sound.rep member fresh message⟩

lemma takeFirst (member : b ∈ boxes) (contents : queue b = m :: rest) :
    Sound (s.takeFirst b m (s.mbox b).pid) boxes (update queue b rest) :=
  ⟨sound.rep.takeFirst member contents _,sound.ledger.takeFirst sound.rep member contents⟩

lemma destroy (member : b ∈ boxes) : Sound (s.destroy b) (boxes.erase b) queue :=
  ⟨sound.rep.destroy member,sound.ledger.destroy sound.rep member⟩

lemma spamFrom (path : Path s.next start rest) (inside : ∀ b ∈ rest, b ∈ boxes) (enough : rest.length ≤ fuel) :
    ∃ queue', Sound (spamFrom current type data alloc fuel start s) boxes queue' ∧
      Lasting s (spamFrom current type data alloc fuel start s) := by
  induction rest generalizing fuel start s queue with
  | nil =>
    cases path
    rw [spamFrom]
    exact ⟨queue,sound,.refl⟩
  | cons b rest ih =>
    obtain ⟨rfl,path⟩ := path
    obtain ⟨member,inside⟩ := forall_mem_cons.mp inside
    cases fuel with
    | zero => cases enough
    | succ fuel =>
      have enough := Nat.le_of_succ_le_succ enough
      simp only [spamFrom]
      rcases Rep.spamOne_cases (s := s) current type data alloc b with same | ⟨m,fresh,message,same⟩
      · rw [same]
        exact ih sound path inside enough
      have appended := sound.append member fresh message
      have next : (s.append b m message).next = s.next := by rw [sound.rep.append_eq member]
      have path : Path (s.append b m message).next ((s.append b m message).next b) rest := by rwa [next]
      rw [same]
      obtain ⟨queue',sound',later⟩ := ih appended path inside enough
      exact ⟨queue',sound',(sound.rep.append_lasting member m message).trans later⟩

lemma destroy_births (member : b ∈ boxes) :
    (s.destroy b).mbox = s.mbox ∧ (s.destroy b).serial = s.serial ∧ (s.destroy b).created = s.created := by
  rw [sound.rep.destroy_eq member]
  exact ⟨rfl,rfl,rfl⟩

lemma destroyFrom (split : boxes = before ++ rest) (enough : rest.length ≤ fuel) :
    let s' := destroyFrom pid fuel rest.head? s
    ∃ boxes' ⊆ boxes, Sound s' boxes' queue ∧ (s'.mbox = s.mbox ∧ s'.serial = s.serial ∧ s'.created = s.created) ∧
      ∀ b ∈ boxes, (s.mbox b).pid ≠ pid → b ∈ boxes' := by
  induction rest generalizing fuel boxes before s with
  | nil =>
    rw [head?_nil,destroyFrom]
    exact ⟨boxes,List.Subset.refl _,sound,⟨rfl,rfl,rfl⟩,fun _ member _ => member⟩
  | cons b rest ih =>
    cases fuel with
    | zero => cases enough
    | succ fuel =>
      have enough := Nat.le_of_succ_le_succ enough
      have next : s.next b = rest.head? := by
        have path := sound.rep.boxes_path
        rw [split] at path
        exact path.suffix.start
      have member : b ∈ boxes := split ▸ mem_append_right _ mem_cons_self
      rw [head?_cons,destroyFrom,next]
      split
      · have split' : boxes = (before ++ [b]) ++ rest := by rw [split,append_assoc,singleton_append]
        exact ih sound split' enough
      next own =>
        have notBefore : b ∉ before := fun earlier => by
          have nodup := sound.rep.boxes_nodup
          rw [split] at nodup
          exact (nodup_append.mp nodup).2.2 b earlier b mem_cons_self rfl
        have left : boxes.erase b = before ++ rest := by
          rw [split,erase_append_right _ notBefore,erase_cons_head]
        obtain ⟨mbox,serial,created⟩ := sound.destroy_births member
        obtain ⟨boxes',fewer,sound',births,others⟩ := ih (sound.destroy member) left enough
        rw [mbox,serial,created] at births
        rw [mbox] at others
        refine ⟨boxes',List.Subset.trans fewer erase_subset,sound',births,fun c inside other => ?_⟩
        refine others c (sound.rep.boxes_nodup.mem_erase_iff.mpr ⟨?_,inside⟩) other
        rintro rfl
        exact own other

/-- The mailboxes that are left are the same as before, and only `doomed` ones are gone. -/
def Left (s : State) (boxes : List Addr) (doomed : Name → Tid → Prop) (s' : State) : Prop :=
  ∃ boxes' queue, Sound s' boxes' queue ∧ Lasting s s' ∧ boxes' ⊆ boxes ∧
    ∀ b ∈ boxes, ¬doomed (s.mbox b).name (s.mbox b).pid → b ∈ boxes'

omit sound in
lemma of_left (left : Left s boxes doomed s') : ∃ boxes queue, Sound s' boxes queue :=
  let ⟨_,_,sound,_⟩ := left
  ⟨_,_,sound⟩

lemma same (doomed : Name → Tid → Prop) : Left s boxes doomed s :=
  ⟨boxes,queue,sound,.refl,List.Subset.refl _,fun _ member _ => member⟩

lemma createMbox (current : Tid) (name : Name) (alloc : Allocator) :
    ∃ boxes queue, Sound (s.createMbox current name alloc).2 boxes queue := by
  rcases Rep.createMbox_cases (s := s) current name alloc with same | ⟨-,a,fresh,same⟩
  · rw [same]
    exact ⟨boxes,queue,sound⟩
  · rw [same]
    exact ⟨_,_,sound.link fresh name current⟩

lemma spam (current : Tid) (type : UInt32) (data : Bytes MESSAGE_LENGTH) (alloc : Allocator) :
    ∃ queue', Sound (s.spam current type data alloc) boxes queue' ∧ Lasting s (s.spam current type data alloc) :=
  sound.spamFrom sound.rep.boxes_path (fun _ => id) sound.rep.boxes_length

lemma postMessage (current : Tid) (name : Name) (msg : Message) (alloc : Allocator) (doomed : Name → Tid → Prop) :
    Left s boxes doomed (s.postMessage current name msg alloc).2 := by
  rcases sound.rep.postMessage_cases current name msg alloc with same | ⟨b,member,m,fresh,message,same⟩
  · rw [same]
    exact sound.same doomed
  · rw [same]
    exact ⟨_,_,sound.append member fresh message,sound.rep.append_lasting member m message,List.Subset.refl _,
      fun _ inside _ => inside⟩

lemma fetchMessage (current : Tid) (name : Name) (doomed : Name → Tid → Prop) :
    Left s boxes doomed (s.fetchMessage current name).2 := by
  rcases sound.rep.fetchMessage_cases current name with same | ⟨b,member,m,rest,contents,owner,same⟩
  · rw [same]
    exact sound.same doomed
  · rw [same,← owner]
    exact ⟨_,_,sound.takeFirst member contents,sound.rep.takeFirst_lasting member contents _,List.Subset.refl _,
      fun _ inside _ => inside⟩

lemma destroyMbox (current : Tid) (name : Name) :
    Left s boxes (fun n pid => n = name ∧ pid = current) (s.destroyMbox current name).2 := by
  rcases sound.rep.destroyMbox_cases current name with same | ⟨b,member,found,owner,same⟩
  · rw [same]
    exact sound.same _
  obtain ⟨mbox,serial,created⟩ := sound.destroy_births member
  rw [sound.rep.findMbox_eq] at found
  have named : (s.mbox b).name = name := by simpa using find?_some found
  rw [same]
  refine ⟨_,_,sound.destroy member,⟨created,serial,fun _ => by rw [mbox],fun _ => by rw [mbox]⟩,erase_subset,
    fun c inside spared => sound.rep.boxes_nodup.mem_erase_iff.mpr ⟨?_,inside⟩⟩
  rintro rfl
  exact spared ⟨named,owner⟩

lemma destroyProcessMboxes (pid : Tid) :
    let s' := s.destroyProcessMboxes pid
    ∃ boxes' ⊆ boxes, Sound s' boxes' queue ∧ (s'.mbox = s.mbox ∧ s'.serial = s.serial ∧ s'.created = s.created) ∧
      ∀ b ∈ boxes, (s.mbox b).pid ≠ pid → b ∈ boxes' := by
  simp only [State.destroyProcessMboxes]
  rw [sound.rep.boxes_path.start]
  exact sound.destroyFrom (List.nil_append boxes).symm sound.rep.boxes_length

end Sound

/-- The event may destroy a mailbox of this name and owner. -/
def Event.dooms : Event → Name → Tid → Prop
  | .enter t (.destroyMbox name), n, pid => n = name ∧ pid = t
  | .enter _ (.destroyProcessMboxes t), _, pid => pid = t
  | _, _, _ => False

/-- A successful `mpi_createMbox` by a task. -/
def Event.Creates (w : World) (t : Tid) (name : Name) (e : Event) : Prop :=
  ∃ alloc, e = .enter t (.createMbox name alloc) ∧ w.call t = .idle ∧ (w.mpi.createMbox t name alloc).1 = 0

namespace World

variable {w : World} (sound : Sound w.mpi boxes queue)
include sound

lemma resume_left (t : Tid) (doomed : Name → Tid → Prop) : Sound.Left w.mpi boxes doomed (w.resume t).mpi := by
  have same := sound.same doomed
  unfold resume
  split
  · exact same
  · exact same
  · split <;> exact same
  · split <;> exact same
  · split
    · exact same
    · split <;> exact same
  · exact same
  · exact sound.fetchMessage t _ doomed

/-- A step is a successful `mpi_createMbox`, or it leaves the mailboxes as they are, but for those that it destroys. -/
lemma step_cases (e : Event) : Sound.Left w.mpi boxes e.dooms (w.step e).mpi ∨
    ∃ t name a, e.Creates w t name ∧ w.mpi.findMbox name = none ∧ a ∉ w.mpi.heap ∧
      (w.step e).mpi = w.mpi.link a name t := by
  cases e with
  | enter t r =>
    rw [World.step]
    split
    next idle =>
      cases r with
      | createMbox name alloc =>
        rcases Rep.createMbox_cases (s := w.mpi) t name alloc with same | ⟨absent,a,fresh,same⟩
        · left
          simp only [World.enter,same]
          exact sound.same _
        · exact .inr ⟨t,name,a,⟨alloc,rfl,idle,by rw [same]⟩,absent,fresh,by simp only [World.enter,same]⟩
      | spam type data alloc =>
        obtain ⟨queue',sound',lasting⟩ := sound.spam t type data alloc
        exact .inl ⟨boxes,queue',sound',lasting,List.Subset.refl _,fun _ member _ => member⟩
      | postMessage name type msg alloc =>
        have posted := sound.postMessage t name msg alloc (Event.enter t (.postMessage name type msg alloc)).dooms
        rw [World.enter]
        split <;> exact .inl posted
      | fetchMessage name => exact .inl (sound.fetchMessage t name _)
      | waitMessage name timeout =>
        rw [World.enter]
        split <;> exact .inl (sound.same _)
      | destroyMbox name => exact .inl (sound.destroyMbox t name)
      | destroyProcessMboxes pid =>
        obtain ⟨boxes',fewer,sound',⟨mbox,serial,created⟩,others⟩ := sound.destroyProcessMboxes pid
        exact .inl ⟨boxes',queue,sound',
          ⟨created,serial,fun _ => congrArg _ (congrFun mbox _),fun _ => congrArg _ (congrFun mbox _)⟩,
          fewer,others⟩
    · exact .inl (sound.same _)
  | resume t => exact .inl (World.resume_left sound t _)
  | wake t =>
    rw [World.step]
    split <;> exact .inl (sound.same _)
  | timeout t =>
    rw [World.step]
    split
    · split <;> exact .inl (sound.same _)
    · exact .inl (sound.same _)

lemma step_sound (e : Event) : ∃ boxes queue, Sound (w.step e).mpi boxes queue := by
  rcases step_cases sound e with left | ⟨t,name,a,-,-,fresh,same⟩
  · exact Sound.of_left left
  · rw [same]
    exact ⟨_,_,sound.link fresh name t⟩

end World

lemma append_history (s : State) (b m : Addr) (message : Message) :
    (s.append b m message).fetched = s.fetched ∧
      (s.append b m message).posted = update s.posted (s.serial b) (s.posted (s.serial b) ++ [message]) := by
  simp only [append]
  split <;> exact ⟨rfl,rfl⟩

lemma kfree_history (s : State) (a : Addr) : (s.kfree a).fetched = s.fetched ∧ (s.kfree a).posted = s.posted := by
  unfold kfree
  split <;> exact ⟨rfl,rfl⟩

/-- Nothing was fetched, and only messages with `P` were posted. -/
structure Grows (P : Message → Prop) (s s' : State) : Prop where
  fetched : s'.fetched = s.fetched
  posted : ∀ n, ∃ new, s'.posted n = s.posted n ++ new ∧ ∀ m ∈ new, P m

namespace Grows

lemma of_eq (same : s'.fetched = s.fetched ∧ s'.posted = s.posted) : Grows P s s' :=
  ⟨same.1,fun n => ⟨[],by rw [same.2,append_nil],by simp⟩⟩

lemma trans (first : Grows P s s') (second : Grows P s' s'') : Grows P s s'' := by
  refine ⟨second.fetched.trans first.fetched,fun n => ?_⟩
  obtain ⟨new,posted,all⟩ := first.posted n
  obtain ⟨new',posted',all'⟩ := second.posted n
  refine ⟨new ++ new',by rw [posted',posted,append_assoc],fun m member => ?_⟩
  exact (mem_append.mp member).elim (all m) (all' m)

lemma append (s : State) (b m : Addr) {text : Message} (holds : P text) : Grows P s (s.append b m text) := by
  obtain ⟨fetched,posted⟩ := append_history s b m text
  refine ⟨fetched,fun n => ?_⟩
  rw [posted]
  by_cases here : n = s.serial b
  · rw [here,update_self]
    exact ⟨[text],rfl,by simpa using holds⟩
  · exact ⟨[],by rw [update_of_ne here,append_nil],by simp⟩

lemma spamFrom (holds : ∀ id, P ⟨data,type,t,id,0⟩) (fuel : Nat) (start : Option Addr) (s : State) :
    Grows P s (spamFrom t type data alloc fuel start s) := by
  induction fuel generalizing start s with
  | zero => cases start <;> exact of_eq ⟨rfl,rfl⟩
  | succ fuel ih =>
    cases start with
    | none => exact of_eq ⟨rfl,rfl⟩
    | some mbox =>
      simp only [State.spamFrom]
      refine trans ?_ (ih ..)
      unfold spamOne
      split
      · exact of_eq ⟨rfl,rfl⟩
      · exact append s mbox _ (holds _)

lemma freeMessages (n fuel : Nat) (start : Option Addr) (s : State) : Grows P s (freeMessages n fuel start s) := by
  induction fuel generalizing start s with
  | zero => cases start <;> exact of_eq ⟨rfl,rfl⟩
  | succ fuel ih =>
    cases start with
    | none => exact of_eq ⟨rfl,rfl⟩
    | some m =>
      refine trans ?_ (ih ..)
      exact of_eq (kfree_history _ m)

lemma destroy (s : State) (mbox : Addr) : Grows P s (s.destroy mbox) :=
  have unlinked : Grows P s (s.unlink mbox) := of_eq ⟨rfl,rfl⟩
  trans (trans unlinked (freeMessages ..)) (of_eq (kfree_history ..))

lemma destroyFrom (pid : Tid) (fuel : Nat) (start : Option Addr) (s : State) :
    Grows P s (destroyFrom pid fuel start s) := by
  induction fuel generalizing start s with
  | zero => cases start <;> exact of_eq ⟨rfl,rfl⟩
  | succ fuel ih =>
    cases start with
    | none => exact of_eq ⟨rfl,rfl⟩
    | some mbox =>
      refine trans ?_ (ih ..)
      split
      · exact of_eq ⟨rfl,rfl⟩
      · exact destroy ..

end Grows

/-- What `mpi_fetchMessage` copies to the caller, if it is from mailbox number `n`. -/
def State.handsOut (s : State) (n : Nat) (t : Tid) (name : Name) : List (Tid × Message) :=
  match s.findMbox name,(s.fetchMessage t name).1 with
  | some mbox,some message => if s.serial mbox = n then [(t,message)] else []
  | _,_ => []

/-- The messages of mailbox number `n` that a step returns to its task. -/
def World.handed (n : Nat) (w : World) : Event → List (Tid × Message)
  | .enter t (.fetchMessage name) => if w.call t = .idle then w.mpi.handsOut n t name else []
  | .resume t =>
    match w.call t with
    | .fetching name => w.mpi.handsOut n t name
    | _ => []
  | _ => []

/-- The message that an `mpi_postMessage` puts into mailbox number `n`. -/
def World.accepted (n : Nat) (w : World) : Event → List Message
  | .enter t (.postMessage name _ msg alloc) =>
    match (w.mpi.postMessage t name msg alloc).1 with
    | some mbox =>
      if w.call t = .idle ∧ w.mpi.serial mbox = n then [⟨msg.data,msg.header,t,w.mpi.nextId,msg.inReplyTo⟩] else []
    | none => []
  | _ => []

/-- What the steps of a run give out, in their order. -/
def World.along (out : World → Event → List β) : World → List Event → List β
  | _, [] => []
  | w, e :: events => out w e ++ along out (w.step e) events

/-- The messages of mailbox number `n` that were returned to a caller, with the caller. -/
def received (n : Nat) (events : List Event) : List (Tid × Message) := along (handed n) boot events

/-- The messages that `mpi_postMessage` accepted for mailbox number `n`. -/
def sent (n : Nat) (events : List Event) : List Message := along (accepted n) boot events

/-- The lowest block above those in use. -/
def bump : Allocator where
  pick heap := some (heap.sup id + 1)
  fresh heap a picked held := by
    cases picked
    exact Nat.not_succ_le_self _ (Finset.le_sup (f := id) held)

end UbixOS.Mpi
