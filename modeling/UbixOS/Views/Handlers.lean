import UbixOS.Views.Server

/-! What the mouse handlers do: they change windows, the stack and the router in a few ways, and
what these keep every mouse event keeps. -/
namespace UbixOS.Views

open Server Option

def Router.Holds (r : Router) (id : Nat) : Prop :=
  r.drag = some id ∨ (∃ d, r.resize = some d ∧ d.win = id) ∨ r.lastClick = some id

/-- A change of a window that leaves what the pointers rest on. -/
def Keeps (f : Window → Window) : Prop :=
  ∀ w, (f w).closing = w.closing ∧ (f w).buf = w.buf ∧ (f w).mbox = w.mbox

def Window.frame (w : Window) := (w.w,w.h,w.pitch,w.told,w.bufBytes,w.minW,w.maxW,w.minH,w.maxH)

/-- A change of what neither the size nor the buffer depends on. -/
def Frames (f : Window → Window) : Prop := ∀ v, (f v).frame = v.frame

def Plain (f : Window → Window) : Prop := Keeps f ∧ Frames f

/-- `R` is kept by the changes that the handlers are made of, where windows get a size that is
`Ok` for them. -/
structure Handles (R : Server → Prop) (Ok : Window → Int → Int → Prop) : Prop where
  edit : ∀ {s id f}, Plain f → R s → R (s.modify id f)
  resize : ∀ {s id w h granted}, (∀ v, s.windows id = some v → Ok v w h) → R s → R (s.resizeWindow id w h granted)
  raise : ∀ {s id}, id ∈ s.zStack → R s → R (s.zRaise id)
  focus : ∀ {s focused}, (∀ k, focused = some k → k ∈ s.zStack) → R s → R (s.setFocus focused)
  route : ∀ {s r}, (∀ k, r.Holds k → s.router.Holds k ∨ (s.windows k).isSome) → R s → R {s with router := r}
  close : ∀ {s id}, R s → R (s.closeWindow id)
  plain : ∀ {f v w h}, Plain f → Ok v w h → Ok (f v) w h
  clamp : ∀ {v} nw nh, Ok v (clampResize v nw nh).1 (clampResize v nw nh).2

/-- Maximising, snapping and restoring a resizable window gives it sizes that are `Ok`. -/
def Placeable (Ok : Window → Int → Int → Prop) (s : Server) (w : Window) : Prop :=
  w.resizable → (∀ mode, Ok w (target s.screenW mode).2 (s.screenH-uiTaskbarReserve s.screenW-w.decorH)) ∧
    (w.maximized → Ok w w.savedW w.savedH)

/-- The window that a mouse event may maximise, snap or restore: on a press the one under the
cursor, on a release the one that is dragged. -/
def Server.Aimed (s : Server) (ev : Mouse) (id : Nat) : Prop :=
  let t := (s.cursorMove ev).dragMove ev
  ev.buttons ≠ s.router.buttons ∧
    if ev.buttons % 2 = 1 then (t.topmost fun w => w.hitTest t.router.curX t.router.curY) = some id
    else s.router.drag = some id

/-- A change that leaves the layer as well. -/
def Level (f : Window → Window) : Prop := Plain f ∧ ∀ w, (f w).zLayer = w.zLayer

lemma level_of (same : ∀ w, ((f w).closing,(f w).buf,(f w).mbox,(f w).frame,(f w).zLayer) =
    (w.closing,w.buf,w.mbox,w.frame,w.zLayer)) : Level f := by
  simp only [Prod.mk.injEq] at same
  exact ⟨⟨fun w => ⟨(same w).1,(same w).2.1,(same w).2.2.1⟩,fun w => (same w).2.2.2.1⟩,fun w => (same w).2.2.2.2⟩

/-- As `Handles`, but a change of the layer comes with a raise. -/
structure Files (R : Server → Prop) (Ok : Window → Int → Int → Prop) : Prop where
  edit : ∀ {s id f}, Level f → R s → R (s.modify id f)
  resize : ∀ {s id w h granted}, (∀ v, s.windows id = some v → Ok v w h) → R s → R (s.resizeWindow id w h granted)
  raise : ∀ {s id}, id ∈ s.zStack → R s → R (s.zRaise id)
  pin : ∀ {s id}, id ∈ s.zStack → R s → R ((s.modify id fun w => {w with pinned := !w.pinned}).zRaise id)
  focus : ∀ {s focused}, (∀ k, focused = some k → k ∈ s.zStack) → R s → R (s.setFocus focused)
  route : ∀ {s r}, (∀ k, r.Holds k → s.router.Holds k ∨ (s.windows k).isSome) → R s → R {s with router := r}
  close : ∀ {s id}, R s → R (s.closeWindow id)
  plain : ∀ {f v w h}, Level f → Ok v w h → Ok (f v) w h
  clamp : ∀ {v} nw nh, Ok v (clampResize v nw nh).1 (clampResize v nw nh).2

lemma Handles.files (handles : Handles R Ok) : Files R Ok := { handles with
  edit := fun level => handles.edit level.1
  pin := fun member here => handles.raise member (handles.edit ⟨fun _ => ⟨rfl,rfl,rfl⟩,fun _ => rfl⟩ here)
  plain := fun level => handles.plain level.1 }

lemma topmost_mem {s : Server} {id : Nat} {p : Window → Bool} (top : s.topmost p = some id) : id ∈ s.zStack :=
  List.mem_reverse.mp (List.mem_of_find?_eq_some top)

variable {s : Server} {id : Nat}

lemma dropWindow_windows (k : Nat) : (s.dropWindow id).windows k = if k = id then none else s.windows k := by
  unfold Server.dropWindow Server.destroy
  dsimp only
  split_ifs with _ same same <;> simp [same,Server.zRemove,Server.setFocus]

lemma dropWindow_router : (s.dropWindow id).router = s.router := by
  unfold Server.dropWindow Server.destroy
  dsimp only
  split_ifs <;> rfl

/-- What every removal of a dead client's window keeps. -/
lemma reapDeadClients_rule {R : Server → Prop} (here : R s)
    (drop : ∀ u id w, R u → u.router = s.router → s.windows id = some w → dead w.senderPid → R (u.dropWindow id)) :
    R (s.reapDeadClients dead) := by
  have all : R (s.reapDeadClients dead) ∧ (s.reapDeadClients dead).router = s.router ∧
      ∀ k w, (s.reapDeadClients dead).windows k = some w → s.windows k = some w := by
    refine List.foldlRecOn (List.range s.nextId) (motive := fun u => R u ∧ u.router = s.router ∧
      ∀ k w, u.windows k = some w → s.windows k = some w) _ ⟨here,rfl,fun _ _ found => found⟩ ?_
    intro u ⟨good,same,back⟩ id _
    cases found : u.windows id with
    | none => exact ⟨good,same,back⟩
    | some w =>
      dsimp only
      split_ifs with gone
      · refine ⟨drop u id w good same (back id w found) gone.2,dropWindow_router.trans same,fun k v now => back k v ?_⟩
        rw [dropWindow_windows] at now
        split_ifs at now
        exact now
      · exact ⟨good,same,back⟩
  exact all.1

lemma moved_router (s : Server) (ev : Mouse) :
    ((s.cursorMove ev).dragMove ev).router.buttons = s.router.buttons ∧
      ((s.cursorMove ev).dragMove ev).router.drag = s.router.drag := by
  unfold Server.dragMove
  split
  · exact ⟨rfl,rfl⟩
  · split <;> exact ⟨rfl,rfl⟩

namespace Files

variable (handles : Files R Ok) (here : R s)
include handles here

lemma place (moved : Level f) (marked : Level g) (granted : Bool)
    (within : ∀ v, s.windows id = some v → Ok v newW newH) :
    R (((s.modify id f).resizeWindow id newW newH granted).modify id g) := by
  refine handles.edit marked (handles.resize (fun v now => ?_) (handles.edit moved here))
  obtain ⟨w,found,rfl⟩ := map_eq_some_iff.mp (by simpa [Server.modify] using now)
  exact handles.plain moved (within w found)

lemma placeWindow (mode : Nat) (granted : Bool) (fits : ∀ v, s.windows id = some v → Placeable Ok s v) :
    R (s.placeWindow id mode granted) := by
  unfold Server.placeWindow
  cases found : s.windows id with
  | none => exact here
  | some w =>
    dsimp only
    split_ifs with fixed restored maximized
    · exact here
    all_goals obtain ⟨placed,back⟩ := fits w found (by simpa using fixed)
    · refine handles.place here ?_ ?_ granted fun v now => ?_
      · exact level_of fun _ => rfl
      · exact level_of fun _ => rfl
      · obtain rfl := some.inj (found.symm.trans now)
        exact back restored.2
    · refine handles.place here ?_ ?_ granted fun v now => ?_
      · exact level_of fun _ => rfl
      · exact level_of fun _ => rfl
      · obtain rfl := some.inj (found.symm.trans now)
        exact placed mode
    have saved : Level ({· with savedX := w.x, savedY := w.y, savedW := w.w, savedH := w.h}) :=
      level_of fun _ => rfl
    refine handles.place (handles.edit saved here) ?_ ?_ granted fun v now => ?_
    · exact level_of fun _ => rfl
    · exact level_of fun _ => rfl
    · obtain rfl : _ = v := by simpa [Server.modify,found] using now
      exact handles.plain saved (placed mode)

lemma minimizeWindow (id : Nat) : R (s.minimizeWindow id) := by
  have less : R (s.modify id ({· with minimized := true})) := handles.edit (level_of fun _ => rfl) here
  unfold Server.minimizeWindow
  dsimp only
  split_ifs
  · exact handles.focus (fun k top => topmost_mem top) less
  · exact less

lemma handleWinctl (id : Nat) (op : Op) : R (s.handleWinctl id op) := by
  unfold Server.handleWinctl
  cases s.windows id with
  | none => exact here
  | some w =>
    dsimp only
    split_ifs
    · exact here
    cases op with
    | minimize => exact handles.minimizeWindow here id
    | close => exact handles.close here
    | other => exact here

lemma titleClick (found : s.windows id = some w) (ev : Mouse)
    (fits : ∀ v, s.windows id = some v → Placeable Ok s v) : R (s.titleClick id w ev) := by
  unfold Server.titleClick
  dsimp only
  split_ifs
  · refine handles.placeWindow (handles.route (fun k held => .inl ?_) here) _ _ fits
    exact held.imp_right (Or.imp_right fun empty => nomatch empty)
  refine handles.route (fun k held => ?_) here
  rcases held with drag | resize | click
  · exact .inr (by simp [← some.inj drag,found])
  · exact .inl (.inr (.inl resize))
  · exact .inr (by simp [← some.inj click,found])

lemma press (layout : Window → Int → Int → Part) (ev : Mouse)
    (fits : ∀ id v, (s.topmost fun w => w.hitTest s.router.curX s.router.curY) = some id → s.windows id = some v →
      Placeable Ok s v) :
    R (s.press layout ev) := by
  unfold Server.press
  dsimp only
  cases top : s.topmost fun w => w.hitTest s.router.curX s.router.curY with
  | none => exact here
  | some id =>
    cases found : s.windows id with
    | none =>
      simp only [found]
      exact here
    | some w =>
      have shown : id ∈ (s.zRaise id).zStack := by simp [zRaise,zPush]
      have raised := handles.raise (topmost_mem top) here
      -- The window is on top and perhaps focused; nothing else has changed.
      have focused : ∃ stack focused, id ∈ stack ∧ R {s with zStack := stack, focused := focused} ∧
          (if 0 < w.decorH then (s.zRaise id).setFocus (some id) else s.zRaise id) =
            {s with zStack := stack, focused := focused} := by
        split_ifs
        · exact ⟨_,_,shown,handles.focus (fun k same => some.inj same ▸ shown) raised,rfl⟩
        · exact ⟨_,_,shown,raised,rfl⟩
      obtain ⟨stack,focus,member,ready,same⟩ := focused
      simp only [found,same]
      cases layout w s.router.curX s.router.curY with
      | edges e =>
        refine handles.route (fun k held => ?_) ready
        rcases held with drag | ⟨d,resize,rfl⟩ | click
        · exact .inl (.inl drag)
        · exact .inr (by simp [← some.inj resize,found])
        · exact .inl (.inr (.inr click))
      | close => exact handles.close ready
      | minimize => exact handles.minimizeWindow ready id
      | pin => exact handles.pin member ready
      | maximize => exact handles.placeWindow ready _ _ fun v => fits id v top
      | title => exact handles.titleClick ready found ev fun v => fits id v top
      | content =>
        simp only [sendMouse]
        split_ifs
        · exact handles.route (s := {s with zStack := stack, focused := focus})
            (r := {s.router with sent := _ :: s.router.sent}) (fun k held => .inl held) ready
        · exact ready

lemma release (snap edge : Bool)
    (fits : ∀ id v, s.router.drag = some id → s.windows id = some v → Placeable Ok s v) :
    R ((s.dragEnd snap).resizeEnd edge) := by
  have ended : R (s.dragEnd snap) := by
    unfold Server.dragEnd
    cases dragged : s.router.drag with
    | none => exact here
    | some id =>
      refine handles.route (fun k held => .inl ?_) ?_
      · exact held.imp_left fun empty => nomatch empty
      split_ifs
      · exact handles.placeWindow here _ _ fun v => fits id v dragged
      · exact handles.placeWindow here _ _ fun v => fits id v dragged
      · exact handles.placeWindow here _ _ fun v => fits id v dragged
      · exact here
  have free : ∀ {t : Server} (k : Nat), Router.Holds {t.router with resize := none} k → t.router.Holds k ∨
    (t.windows k).isSome :=
    fun k held => .inl (held.imp_right (Or.imp_left fun ⟨_,empty,_⟩ => nomatch empty))
  unfold Server.resizeEnd
  cases (s.dragEnd snap).router.resize with
  | none => exact ended
  | some d =>
    cases found : (s.dragEnd snap).windows d.win with
    | none =>
      simp only [found]
      exact handles.route free ended
    | some w =>
      simp only [found]
      refine handles.route free (handles.resize (fun v now => ?_) (handles.edit ?_ ended))
      · obtain rfl : _ = v := by simpa [Server.modify,found] using now
        exact handles.clamp _ _
      · exact level_of fun _ => rfl

lemma handleMouse (layout : Window → Int → Int → Part) (ev : Mouse)
    (fits : ∀ id v, s.Aimed ev id → s.windows id = some v → Placeable Ok s v) : R (s.handleMouse layout ev) := by
  have moved : R ((s.cursorMove ev).dragMove ev) ∧ ∀ id v, s.Aimed ev id →
      ((s.cursorMove ev).dragMove ev).windows id = some v → Placeable Ok ((s.cursorMove ev).dragMove ev) v := by
    have cursor : R (s.cursorMove ev) := handles.route (fun _ held => .inl held) here
    unfold Server.dragMove
    cases (s.cursorMove ev).router.drag with
    | none => exact ⟨cursor,fits⟩
    | some id =>
      dsimp only
      split
      · exact ⟨cursor,fits⟩
      have plain (x y : Int) : Level ({· with x := x, y := y}) := level_of fun _ => rfl
      refine ⟨handles.edit (plain _ _) cursor,fun k v aimed now resizable => ?_⟩
      by_cases same : k = id
      · subst same
        obtain ⟨w,found,rfl⟩ := map_eq_some_iff.mp (by simpa [Server.modify] using now)
        obtain ⟨placed,back⟩ := fits k w aimed found resizable
        exact ⟨fun mode => handles.plain (plain _ _) (placed mode),fun max => handles.plain (plain _ _) (back max)⟩
      · exact fits k v aimed (by simpa [Server.modify,Server.cursorMove,same] using now) resizable
  have same := moved_router s ev
  unfold Server.handleMouse
  dsimp only
  rw [same.1]
  split_ifs with still pressed
  · exact moved.1
  · refine handles.route (fun _ held => .inl held) (handles.press moved.1 layout ev fun id v top => moved.2 id v ?_)
    exact ⟨still,by rw [if_pos pressed]; exact top⟩
  · refine handles.route (fun _ held => .inl held) (handles.release moved.1 _ _ fun id v dragged => moved.2 id v ?_)
    exact ⟨still,by rw [if_neg pressed,← same.2]; exact dragged⟩

end Files

end UbixOS.Views
