import UbixOS.Library.Run
import UbixOS.Views.Handlers

/-! No pointer of the display server outlives its window. -/
namespace UbixOS.Views

open Library Function

namespace Server

/-- What the stack, the focus and the input router point to is in the registry, nothing is shown
twice, a closing window is neither shown nor focused, and buffers are freed with their windows. -/
structure Whole (s : Server) : Prop where
  held : ∀ id, id ∈ s.zStack ∨ s.focused = some id ∨ s.router.Holds id → (s.windows id).isSome
  once : s.zStack.Nodup
  closed : ∀ id w, s.windows id = some w → w.closing → id ∉ s.zStack ∧ s.focused ≠ some id
  freed : s.freed.Nodup ∧ ∀ id w, s.windows id = some w → w.buf ∉ s.freed

end Server

/-- Clients name a mailbox, a window that was told to close is not raised again, and no window is
freed while the input router points to it. -/
def Careful (s : Server) : Event → Prop
  | .claim r _ => r.reply
  | .restore id => ∀ w, s.windows id = some w → w.closing = false
  | .release id => ¬s.router.Holds id
  | .reap dead => ∀ id w, s.windows id = some w → dead w.senderPid → ¬s.router.Holds id
  | .winctl _ _ | .mouse _ => True

structure Buffers (windows : Nat → Option Window) (next : Nat) (freed : List Nat) : Prop where
  nodup : freed.Nodup
  old : ∀ b ∈ freed, b < next
  live : ∀ id w, windows id = some w → w.buf < next ∧ w.buf ∉ freed
  apart : ∀ a b v w, windows a = some v → windows b = some w → v.buf = w.buf → a = b

structure Sound (s : Server) : Prop where
  once : s.zStack.Nodup
  shown : ∀ id, id ∈ s.zStack ∨ s.focused = some id → ∃ w, s.windows id = some w ∧ w.closing = false
  router : ∀ id, s.router.Holds id → (s.windows id).isSome
  old : ∀ id, s.nextId ≤ id → s.windows id = none
  mbox : ∀ id w, s.windows id = some w → w.mbox
  bufs : Buffers s.windows s.nextBuf s.freed

lemma Sound.whole (sound : Sound s) : s.Whole := by
  refine ⟨fun id held => ?_,sound.once,fun id w found closing => ?_,sound.bufs.nodup,fun id w found =>
    (sound.bufs.live id w found).2⟩
  · rcases held with shown | focused | held
    · obtain ⟨w,found,_⟩ := sound.shown id (.inl shown)
      simp [found]
    · obtain ⟨w,found,_⟩ := sound.shown id (.inr focused)
      simp [found]
    · exact sound.router id held
  · have not : ¬(id ∈ s.zStack ∨ s.focused = some id) := by
      intro shown
      obtain ⟨v,same,open'⟩ := sound.shown id shown
      simp_all
    exact not_or.mp not

variable {s : Server} {id : Nat}

lemma update_eq_some : update windows id (some v) k = some u ↔ k = id ∧ v = u ∨ k ≠ id ∧ windows k = some u := by
  by_cases same : k = id
  · subst same
    simp
  · simp [same]

lemma Buffers.fresh (bufs : Buffers windows next freed) (id : Nat) (fresh : v.buf = next) :
    Buffers (update windows id (some v)) (next+1) freed := by
  refine ⟨bufs.nodup,fun b member => Nat.lt_succ_of_lt (bufs.old b member),fun k u found => ?_,?_⟩
  · rcases update_eq_some.mp found with ⟨rfl,rfl⟩ | ⟨_,found⟩
    · exact ⟨by omega,fun member => absurd (bufs.old _ member) (by omega)⟩
    · exact ⟨Nat.lt_succ_of_lt (bufs.live k u found).1,(bufs.live k u found).2⟩
  intro a b x y one two same
  rcases update_eq_some.mp one with ⟨rfl,rfl⟩ | ⟨_,one⟩ <;> rcases update_eq_some.mp two with ⟨here,rfl⟩ | ⟨_,two⟩
  · exact here.symm
  · have := (bufs.live b y two).1
    omega
  · have := (bufs.live a x one).1
    omega
  · exact bufs.apart a b x y one two same

lemma Buffers.same (bufs : Buffers windows next freed) (found : windows id = some w) (same : v.buf = w.buf) :
    Buffers (update windows id (some v)) next freed := by
  have back k u (now : update windows id (some v) k = some u) : ∃ x, windows k = some x ∧ u.buf = x.buf := by
    rcases update_eq_some.mp now with ⟨rfl,rfl⟩ | ⟨_,now⟩
    · exact ⟨w,found,same⟩
    · exact ⟨u,now,rfl⟩
  refine ⟨bufs.nodup,bufs.old,fun k u now => ?_,fun a b x y one two equal => ?_⟩
  · obtain ⟨x,seen,buf⟩ := back k u now
    rw [buf]
    exact bufs.live k x seen
  · obtain ⟨x',one,first⟩ := back a x one
    obtain ⟨y',two,second⟩ := back b y two
    exact bufs.apart a b x' y' one two (by rw [← first,← second,equal])

/-- A window changes in place; the stack and the focus keep windows that they had. -/
lemma Sound.replace (sound : Sound s) (found : s.windows id = some w) (mbox : v.mbox = w.mbox)
    (once : stack.Nodup) (kept : ∀ k, k ∈ stack ∨ focused = some k →
      (k ∈ s.zStack ∨ s.focused = some k) ∧ (k = id → v.closing = false))
    (bufs : Buffers (update s.windows id (some v)) next s.freed) :
    Sound {s with
      windows := update s.windows id (some v), nextBuf := next, zStack := stack, focused := focused} := by
  refine ⟨once,fun k now => ?_,fun k held => ?_,fun k late => ?_,fun k u now => ?_,bufs⟩
  · obtain ⟨before,open'⟩ := kept k now
    by_cases same : k = id
    · exact ⟨v,update_eq_some.mpr (.inl ⟨same,rfl⟩),open' same⟩
    · obtain ⟨u,seen,open'⟩ := sound.shown k before
      exact ⟨u,update_eq_some.mpr (.inr ⟨same,seen⟩),open'⟩
  · by_cases same : k = id
    · simp [same]
    · simpa [same] using sound.router k held
  · have gone := sound.old k late
    have other : k ≠ id := by
      rintro rfl
      simp [found] at gone
    simpa [other] using gone
  · rcases update_eq_some.mp now with ⟨rfl,rfl⟩ | ⟨_,now⟩
    · rw [mbox]
      exact sound.mbox k w found
    · exact sound.mbox k u now

lemma Sound.modify (sound : Sound s) (id : Nat) (keeps : Keeps f) : Sound (s.modify id f) := by
  unfold Server.modify
  cases found : s.windows id with
  | none =>
    rw [Option.map_none,← found,update_eq_self]
    exact sound
  | some w =>
    obtain ⟨closing,buf,mbox⟩ := keeps w
    refine sound.replace found mbox sound.once (fun k now => ⟨now,?_⟩) (sound.bufs.same found buf)
    rintro rfl
    obtain ⟨u,seen,open'⟩ := sound.shown k now
    rw [closing,Option.some.inj (found.symm.trans seen),open']

lemma resizeWindow_sound (sound : Sound s) (id : Nat) (newW newH : Int) (granted : Bool) :
    Sound (s.resizeWindow id newW newH granted) := by
  unfold Server.resizeWindow
  cases found : s.windows id with
  | none => exact sound
  | some w =>
    dsimp only
    split_ifs
    · exact sound
    · exact sound
    refine sound.replace found ?_ sound.once (fun k now => ⟨now,?_⟩) (sound.bufs.fresh id ?_)
    · rfl
    swap
    · rfl
    rintro rfl
    obtain ⟨u,seen,open'⟩ := sound.shown k now
    exact Option.some.inj (found.symm.trans seen) ▸ open'

section
variable (sound : Sound s)
include sound

lemma Sound.show (once : stack.Nodup)
    (shown : ∀ k, k ∈ stack ∨ focused = some k → ∃ w, s.windows k = some w ∧ w.closing = false) :
    Sound {s with zStack := stack, focused := focused} :=
  ⟨once,shown,sound.router,sound.old,sound.mbox,sound.bufs⟩

lemma setFocus_sound (focused : Option Nat)
    (shown : ∀ k, focused = some k → ∃ w, s.windows k = some w ∧ w.closing = false) : Sound (s.setFocus focused) :=
  sound.show sound.once fun k now => now.elim (fun member => sound.shown k (.inl member)) (shown k)

lemma zPush_sound (found : s.windows id = some w) (open' : w.closing = false)
    (away : id ∉ s.zStack) : Sound (s.zPush id) := by
  have perm : (s.zPush id).zStack.Perm (id :: s.zStack) := by
    refine List.perm_middle.trans ?_
    rw [List.takeWhile_append_dropWhile]
  refine sound.show (perm.nodup_iff.mpr (List.nodup_cons.mpr ⟨away,sound.once⟩)) fun k now => ?_
  rcases now with member | focused
  · rcases List.mem_cons.mp (perm.mem_iff.mp member) with rfl | member
    · exact ⟨w,found,open'⟩
    · exact sound.shown k (.inl member)
  · exact sound.shown k (.inr focused)

lemma zRemove_sound (id : Nat) : Sound (s.zRemove id) :=
  sound.show (sound.once.erase id) fun k now => sound.shown k (now.imp_left List.mem_of_mem_erase)

lemma zRaise_sound (found : s.windows id = some w) (open' : w.closing = false) : Sound (s.zRaise id) :=
  zPush_sound (zRemove_sound sound id) found open' sound.once.not_mem_erase

lemma closeWindow_sound (id : Nat) : Sound (s.closeWindow id) := by
  unfold Server.closeWindow
  cases found : s.windows id with
  | none => exact sound
  | some w =>
    simp only [sound.mbox id w found,if_true]
    let v := {w with closing := true}
    have kept k (now : k ∈ s.zStack.erase id ∨ (s.zStack.erase id).getLast? = some k) :
        (k ∈ s.zStack ∨ s.focused = some k) ∧ (k = id → v.closing = false) := by
      have member : k ∈ s.zStack.erase id := now.elim (fun member => member) List.mem_of_getLast?
      refine ⟨.inl (List.mem_of_mem_erase member),?_⟩
      rintro rfl
      exact absurd member sound.once.not_mem_erase
    have closed := sound.replace found (rfl : v.mbox = w.mbox) (sound.once.erase id) kept (sound.bufs.same found rfl)
    simpa [Server.modify,Server.zRemove,Server.setFocus,found] using closed

lemma destroy_sound (away : id ∉ s.zStack) (unfocused : s.focused ≠ some id)
    (free : ¬s.router.Holds id) : Sound (s.destroy id) := by
  unfold Server.destroy
  cases found : s.windows id with
  | none =>
    rw [← found,update_eq_self]
    simpa [found] using sound
  | some w =>
    have split k u (now : update s.windows id none k = some u) : k ≠ id ∧ s.windows k = some u := by
      by_cases same : k = id
      · simp [same] at now
      · exact ⟨same,by simpa [same] using now⟩
    refine ⟨sound.once,fun k now => ?_,fun k held => ?_,fun k late => ?_,fun k u now =>
      sound.mbox k u (split k u now).2,?_⟩
    · obtain ⟨u,seen,open'⟩ := sound.shown k now
      have other : k ≠ id := by
        rintro rfl
        exact now.elim away unfocused
      exact ⟨u,by simpa [other] using seen,open'⟩
    · have other : k ≠ id := by
        rintro rfl
        exact free held
      simpa [other] using sound.router k held
    · by_cases same : k = id
      · simp [same]
      · simpa [same] using sound.old k late
    have own := sound.bufs.live id w found
    refine ⟨List.nodup_cons.mpr ⟨own.2,sound.bufs.nodup⟩,?_,?_,?_⟩
    · intro b member
      rcases List.mem_cons.mp member with rfl | member
      · exact own.1
      · exact sound.bufs.old b member
    · intro k u now
      obtain ⟨other,now⟩ := split k u now
      refine ⟨(sound.bufs.live k u now).1,fun gone => ?_⟩
      rcases List.mem_cons.mp gone with same | gone
      · exact other (sound.bufs.apart k id u w now found same)
      · exact (sound.bufs.live k u now).2 gone
    · exact fun a b x y one two => sound.bufs.apart a b x y (split a x one).2 (split b y two).2

lemma Sound.route (held : ∀ k, r.Holds k → s.router.Holds k ∨ (s.windows k).isSome) : Sound {s with router := r} :=
  ⟨sound.once,sound.shown,fun k now => (held k now).elim (sound.router k) fun there => there,sound.old,sound.mbox,
    sound.bufs⟩

end

lemma dropWindow_sound (sound : Sound s) (free : ¬s.router.Holds id) : Sound (s.dropWindow id) := by
  have away : id ∉ s.zStack.erase id := sound.once.not_mem_erase
  unfold Server.dropWindow
  dsimp only
  split_ifs with focused
  · refine destroy_sound (setFocus_sound (zRemove_sound sound id) _ fun k last => ?_) away ?_ free
    · exact sound.shown k (.inl (List.mem_of_mem_erase (List.mem_of_getLast? last)))
    · exact fun last => away (List.mem_of_getLast? last)
  · exact destroy_sound (zRemove_sound sound id) away focused free

lemma reapDeadClients_sound (sound : Sound s)
    (free : ∀ id w, s.windows id = some w → dead w.senderPid → ¬s.router.Holds id) : Sound (s.reapDeadClients dead) :=
  reapDeadClients_rule sound fun _ id w good same found gone => dropWindow_sound good (same ▸ free id w found gone)

lemma Sound.create (sound : Sound s) (buf : v.buf = s.nextBuf) (open' : v.closing = false) (mbox : v.mbox) :
    Sound (({s with windows := update s.windows s.nextId (some v), nextId := s.nextId+1
                    nextBuf := s.nextBuf+1} : Server).zPush s.nextId |>.setFocus (some s.nextId)) := by
  have unused := sound.old s.nextId Nat.le.refl
  have kept : ∀ k, (s.windows k).isSome → k ≠ s.nextId := by
    rintro k there rfl
    simp [unused] at there
  have found : update s.windows s.nextId (some v) s.nextId = some v := by simp
  have added : Sound {s with windows := update s.windows s.nextId (some v), nextId := s.nextId+1
                             nextBuf := s.nextBuf+1} := by
    refine ⟨sound.once,fun k now => ?_,fun k held => ?_,fun k late => ?_,fun k u now => ?_,sound.bufs.fresh _ buf⟩
    · obtain ⟨u,seen,open'⟩ := sound.shown k now
      exact ⟨u,update_eq_some.mpr (.inr ⟨kept k (by simp [seen]),seen⟩),open'⟩
    · have there := sound.router k held
      simpa [kept k there] using there
    · change s.nextId+1 ≤ k at late
      simpa [show k ≠ s.nextId by omega] using sound.old k (by omega)
    rcases update_eq_some.mp now with ⟨_,rfl⟩ | ⟨_,now⟩
    · exact mbox
    · exact sound.mbox k u now
  refine setFocus_sound (zPush_sound added found open' fun member => ?_) _ fun k focused => ?_
  · obtain ⟨u,seen,_⟩ := sound.shown _ (.inl member)
    simp [unused] at seen
  · obtain rfl := Option.some.inj focused
    exact ⟨v,found,open'⟩

lemma nextCascade_sound (sound : Sound s) (w dh h : Int) : Sound (s.nextCascade w dh h) ∧
    (s.nextCascade w dh h).nextId = s.nextId ∧ (s.nextCascade w dh h).nextBuf = s.nextBuf := by
  unfold Server.nextCascade
  dsimp only
  split_ifs <;> exact ⟨⟨sound.once,sound.shown,sound.router,sound.old,sound.mbox,sound.bufs⟩,rfl,rfl⟩

lemma claimed_fields (r : Server.Claim) (dh : Int) (asked g : Server.Geometry) (maximized : Bool) :
    (s.claimed r dh asked g maximized).buf = s.nextBuf ∧ (s.claimed r dh asked g maximized).closing = false ∧
    (s.claimed r dh asked g maximized).mbox = r.reply := by
  unfold Server.claimed
  split_ifs <;> exact ⟨rfl,rfl,rfl⟩

lemma handleClaim_sound (sound : Sound s) (reply : r.reply) (granted : Bool) : Sound (s.handleClaim r granted) := by
  unfold Server.handleClaim
  dsimp only
  split_ifs with _ undecorated refused refused
  · exact sound
  · exact sound
  · exact (nextCascade_sound sound _ _ _).1
  · obtain ⟨buf,open',mbox⟩ := claimed_fields (s := s) r 0 _ _ false
    exact sound.create buf open' (mbox.trans reply)
  obtain ⟨moved,id,next⟩ := nextCascade_sound sound r.w DECOR_H r.h
  obtain ⟨buf,open',mbox⟩ := claimed_fields (s := s) r DECOR_H (s.clampClaim DECOR_H s.cascadeX s.cascadeY r.w r.h)
    (s.clearTaskbar r (s.clampClaim DECOR_H s.cascadeX s.cascadeY r.w r.h)).1
    (s.clearTaskbar r (s.clampClaim DECOR_H s.cascadeX s.cascadeY r.w r.h)).2
  rw [← id]
  exact moved.create (buf.trans next.symm) open' (mbox.trans reply)

lemma Sound.handles : Handles Sound fun _ _ _ => True where
  edit plain sound := sound.modify _ plain.1
  resize _ sound := resizeWindow_sound sound ..
  raise member sound := by
    obtain ⟨w,found,open'⟩ := sound.shown _ (.inl member)
    exact zRaise_sound sound found open'
  focus shown sound := setFocus_sound sound _ fun k same => sound.shown k (.inl (shown k same))
  route held sound := sound.route held
  close sound := closeWindow_sound sound _
  plain _ _ := trivial
  clamp _ _ := trivial

lemma step_sound (layout : Window → Int → Int → Part) (sound : Sound s) (e : Event) (careful : Careful s e) :
    Sound (step layout s e) := by
  cases e with
  | claim r granted => exact handleClaim_sound sound careful granted
  | release id =>
    dsimp only [step,Server.handleRelease]
    cases found : s.windows id with
    | none => exact sound
    | some w =>
      dsimp only
      split_ifs with closing
      · have hidden := sound.whole.closed id w found closing
        exact destroy_sound sound hidden.1 hidden.2 careful
      · exact dropWindow_sound sound careful
  | restore id =>
    dsimp only [step,Server.restore]
    cases found : s.windows id with
    | none => exact sound
    | some w =>
      have open' : ({w with minimized := false} : Window).closing = false := careful w found
      have less : Sound (s.modify id ({· with minimized := false})) := sound.modify id fun _ => ⟨rfl,rfl,rfl⟩
      have there : (s.modify id ({· with minimized := false})).windows id = some {w with minimized := false} := by
        simp [Server.modify,found]
      refine setFocus_sound (zRaise_sound less there open') _ fun k same => ?_
      obtain rfl := Option.some.inj same
      exact ⟨_,there,open'⟩
  | winctl id op => exact Sound.handles.files.handleWinctl sound id op
  | reap dead => exact reapDeadClients_sound sound careful
  | mouse ev =>
    exact Sound.handles.files.handleMouse sound layout ev fun _ _ _ _ _ => ⟨fun _ => trivial,fun _ => trivial⟩

lemma start_sound (screenW screenH : Int) : Sound {screenW := screenW, screenH := screenH} := by
  refine ⟨by simp,by simp,?_,by simp,by simp,by simp,by simp,by simp,by simp⟩
  simp [Router.Holds]

/-- The server keeps no dangling window in every run of careful events. -/
theorem pointers_live (layout : Window → Int → Int → Part) (screenW screenH : Int) (events : List Event)
    (legal : Run.Legal (step layout) Careful {screenW := screenW, screenH := screenH} events) :
    (Run.after (step layout) {screenW := screenW, screenH := screenH} events).Whole :=
  (legal.invariant (fun _ e sound careful => step_sound layout sound e careful) (start_sound screenW screenH)).whole

theorem pointers_live_closed : (Run.after (step fun _ _ _ => .title) {screenW := 1024, screenH := 768}
      [.claim ⟨0,0,300,200,7,true,false,0,0,0,0⟩ true,.winctl 1 .close,.release 1]).Whole := by
  refine pointers_live (fun _ _ _ => .title) 1024 768 _ ⟨rfl,trivial,?_,trivial⟩
  change ¬Router.Holds {} 1
  simp [Router.Holds]

/-- A window that was told to close is raised by its taskbar button: it is shown and focused again,
and the client's release leaves both pointing at freed memory. -/
theorem raised_after_close :
    let s := Run.after (step fun _ _ _ => .title) {screenW := 1024, screenH := 768}
      [.claim ⟨0,0,300,200,7,true,false,0,0,0,0⟩ true,.winctl 1 .close,.restore 1]
    1 ∈ s.zStack ∧ s.focused = some 1 ∧ (s.windows 1).any (·.closing) ∧ ¬s.Whole ∧
      1 ∈ (step (fun _ _ _ => .title) s (.release 1)).zStack ∧
      (step (fun _ _ _ => .title) s (.release 1)).windows 1 = none := by
  intro s
  have shown : 1 ∈ s.zStack := by decide
  have closing : (s.windows 1).any (·.closing) := by decide
  refine ⟨shown,by decide,closing,fun whole => ?_,by decide,rfl⟩
  cases found : s.windows 1 with
  | none => simp [found] at closing
  | some w => exact (whole.closed 1 w found (by simpa [found] using closing)).1 shown

end UbixOS.Views
