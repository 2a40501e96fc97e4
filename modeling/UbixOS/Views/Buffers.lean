import UbixOS.Library.Run
import UbixOS.Views.Handlers

/-! Every window of the display server has a buffer that holds its picture. -/
namespace UbixOS.Views

open Library Server

namespace Window

/-- What `reblit_rect` copies of a window for a rectangle of the screen: the first column and row of
the content, and how many of them. -/
def clip (w : Window) (rx ry rw rh : Int) : Option (Int × Int × Int × Int) :=
  let cy := w.y+w.decorH
  let x1 := if rx > w.x then rx else w.x
  let y1 := if ry > cy then ry else cy
  let x2 := if rx+rw < w.x+w.w then rx+rw else w.x+w.w
  let y2 := if ry+rh < cy+w.h then ry+rh else cy+w.h
  if x2 > x1 ∧ y2 > y1 then some (x1-w.x,y1-cy,x2-x1,y2-y1) else none

lemma clip_inside {w : Window} (clipped : w.clip rx ry rw rh = some (col,row,cols,rows)) :
    0 ≤ col ∧ col+cols ≤ w.w ∧ 0 ≤ row ∧ row+rows ≤ w.h := by
  unfold clip at clipped
  dsimp only at clipped
  split_ifs at clipped <;> simp only [Option.some.injEq,Prod.mk.injEq] at clipped <;> omega

/-- The buffer holds every row, at the pitch the client was told, and so every pixel that the
compositor reads. -/
structure Backed (w : Window) : Prop where
  wide : 1 ≤ w.w
  high : 1 ≤ w.h
  pitch : w.pitch = 4*w.w.toNat
  told : w.told = w.pitch
  holds : w.pitch*w.h.toNat ≤ w.bufBytes
  reads : ∀ bx row, bx < w.w.toNat → row < w.h.toNat → row*w.pitch+4*bx+4 ≤ w.bufBytes

/-- A copy to the screen reads inside the buffer, whatever rectangle is redrawn. -/
def Blits (w : Window) : Prop := ∀ rx ry rw rh col row cols rows, w.clip rx ry rw rh = some (col,row,cols,rows) →
  ∀ i j : Int, 0 ≤ i → i < cols → 0 ≤ j → j < rows → (row+j).toNat*w.pitch+4*(col+i).toNat+4 ≤ w.bufBytes

lemma Backed.blits {w : Window} (backed : w.Backed) : w.Blits := by
  intro rx ry rw rh col row cols rows clipped i j low high low' high'
  obtain ⟨_,_,_,_⟩ := clip_inside clipped
  exact backed.reads _ _ (by omega) (by omega)

def OnScreen (s : Server) (w : Window) : Prop :=
  0 ≤ w.x ∧ w.x+w.w ≤ s.screenW ∧ 0 ≤ w.y ∧ w.y+w.decorH+w.h ≤ s.screenH

def Within (w : Window) (width height : Int) : Prop :=
  w.minW ≤ width ∧ width ≤ w.maxW ∧ w.minH ≤ height ∧ height ≤ w.maxH

end Window

/-- What is asked of the clients' numbers: sizes and positions that do not overflow, a position on
the screen for a window without a title bar, and no limits or sane ones. -/
structure Modest (s : Server) (r : Claim) : Prop where
  small : r.x ≤ 2^30 ∧ r.y ≤ 2^30 ∧ r.w ≤ 2^30 ∧ r.h ≤ 2^30
  placed : r.noDecor → r.x < s.screenW ∧ r.y < s.screenH
  limits : r.minW = 0 ∧ r.minH = 0 ∧ r.maxW = 0 ∧ r.maxH = 0 ∨
    0 < r.minW ∧ r.minW ≤ r.maxW ∧ r.maxW ≤ 16383 ∧ 0 < r.minH ∧ r.minH ≤ r.maxH ∧ r.maxH ≤ 16383

/-- Maximising, snapping and restoring a resizable window stays within its limits. -/
def Fits (s : Server) (w : Window) : Prop :=
  w.resizable → (∀ mode, w.Within (target s.screenW mode).2 (s.screenH-uiTaskbarReserve s.screenW-w.decorH)) ∧
    (w.maximized → w.Within w.savedW w.savedH)

def Proper (s : Server) : Event → Prop
  | .claim r _ => Modest s r
  | .mouse ev => ∀ id w, s.Aimed ev id → s.windows id = some w → Fits s w
  | _ => True

structure Sane (w : Window) : Prop where
  backed : w.Backed
  limits : 1 ≤ w.minW ∧ w.minW ≤ w.maxW ∧ w.maxW ≤ 16383 ∧ 1 ≤ w.minH ∧ w.minH ≤ w.maxH ∧ w.maxH ≤ 16383

variable {s t u : Server} {v w : Window}

lemma pitchOf_eq (low : 1 ≤ width) (high : width ≤ 16383) : pitchOf width = 4*width.toNat := by
  simp only [pitchOf,u32,WIN_BPP]
  omega

/-- No product wraps, and the allocation is rounded up. -/
lemma allocOf_le (low : 1 ≤ width) (high : width ≤ 16383) (low' : 1 ≤ height)
    (high' : height ≤ 16383) : 4*width.toNat*height.toNat ≤ allocOf width height := by
  have product : 4*width.toNat*height.toNat ≤ 1073610756 :=
    Nat.le_trans (Nat.mul_le_mul (show _ ≤ 65532 by omega) (show _ ≤ 16383 by omega)) (by decide)
  have rows : u32 height = height.toNat := by
    simp only [u32]
    omega
  simp only [allocOf,bytesOf,pitchOf_eq low high,rows,PAGE_SIZE]
  generalize 4*width.toNat*height.toNat = bytes at product ⊢
  omega

lemma backed_of_size (width height : Int) (low : 1 ≤ width) (high : width ≤ 16383) (low' : 1 ≤ height)
    (high' : height ≤ 16383) (size : w.w = width ∧ w.h = height) (pitch : w.pitch = pitchOf width)
    (told : w.told = pitchOf width % 65536) (bytes : w.bufBytes = allocOf width height) : w.Backed := by
  obtain ⟨rfl,rfl⟩ := size
  have eq := pitchOf_eq low high
  have holds := allocOf_le low high low' high'
  refine ⟨low,low',by rw [pitch,eq],by rw [told,pitch,eq]; omega,by rw [pitch,eq,bytes]; exact holds,?_⟩
  intro bx row left top
  have whole : (row+1)*(4*w.w.toNat) ≤ w.h.toNat*(4*w.w.toNat) := Nat.mul_le_mul_right _ top
  rw [Nat.mul_comm (4*w.w.toNat)] at holds
  rw [pitch,eq,bytes]
  rw [Nat.add_one_mul] at whole
  omega

def SameSize (v w : Window) : Prop := w.w = v.w ∧ w.h = v.h

/-- A sane window stays so, with its limits and either its size or one within the limits. -/
def Follows (v w : Window) : Prop := Sane v → Sane w ∧
  (w.minW = v.minW ∧ w.maxW = v.maxW ∧ w.minH = v.minH ∧ w.maxH = v.maxH) ∧ (SameSize v w ∨ w.Within w.w w.h)

lemma Follows.trans (first : Follows v w) (second : Follows w x) : Follows v x := by
  intro sane
  obtain ⟨sane,limits,size⟩ := first sane
  obtain ⟨sane,limits',size'⟩ := second sane
  refine ⟨sane,by omega,?_⟩
  simp only [SameSize,Window.Within] at *
  omega

def Server.outline (s : Server) := (s.screenW,s.screenH,s.cascadeX,s.cascadeY,s.nextId)

lemma outline_inj (same : t.outline = s.outline) : t.screenW = s.screenW ∧ t.screenH = s.screenH ∧
    t.cascadeX = s.cascadeX ∧ t.cascadeY = s.cascadeY ∧ t.nextId = s.nextId := by
  simpa [Server.outline] using same

/-- The windows of `t` come from those of `s`. -/
def Moves (s t : Server) : Prop :=
  t.outline = s.outline ∧ ∀ id w, t.windows id = some w → ∃ v, s.windows id = some v ∧ Follows v w

lemma follows_refl (v : Window) : Follows v v := fun sane => ⟨sane,⟨rfl,rfl,rfl,rfl⟩,.inl ⟨rfl,rfl⟩⟩

lemma Moves.trans (first : Moves s t) (second : Moves t u) : Moves s u := by
  obtain ⟨screen,first⟩ := first
  obtain ⟨screen',second⟩ := second
  refine ⟨screen'.trans screen,fun id w found => ?_⟩
  obtain ⟨v,found,after⟩ := second id w found
  obtain ⟨x,found,before⟩ := first id v found
  exact ⟨x,found,before.trans after⟩

lemma moves_of_sub (screen : t.outline = s.outline) (sub : ∀ id w, t.windows id = some w → s.windows id = some w) :
    Moves s t :=
  ⟨screen,fun id w found => ⟨w,sub id w found,follows_refl w⟩⟩

lemma moves_of_windows (screen : t.outline = s.outline) (same : t.windows = s.windows) : Moves s t :=
  moves_of_sub screen fun _ _ found => same ▸ found

lemma modify_moves (id : Nat) (f : Window → Window) (follows : ∀ v, s.windows id = some v → Follows v (f v)) :
    Moves s (s.modify id f) := by
  refine ⟨rfl,fun k w found => ?_⟩
  by_cases same : k = id
  · subst same
    obtain ⟨v,was,rfl⟩ := Option.map_eq_some_iff.mp (by simpa [Server.modify] using found)
    exact ⟨v,was,follows v was⟩
  · exact ⟨w,by simpa [Server.modify,same] using found,follows_refl w⟩

lemma frame_inj (same : w.frame = v.frame) : w.w = v.w ∧ w.h = v.h ∧ w.pitch = v.pitch ∧ w.told = v.told ∧
    w.bufBytes = v.bufBytes ∧ w.minW = v.minW ∧ w.maxW = v.maxW ∧ w.minH = v.minH ∧ w.maxH = v.maxH := by
  simpa [Window.frame] using same

lemma sane_of_frame (same : w.frame = v.frame) (sane : Sane v) : Sane w := by
  obtain ⟨w,h,pitch,told,bytes,a,b,c,d⟩ := frame_inj same
  refine ⟨⟨?_,?_,?_,?_,?_,?_⟩,by rw [a,b,c,d]; exact sane.limits⟩
  all_goals simp only [w,h,pitch,told,bytes]
  · exact sane.backed.wide
  · exact sane.backed.high
  · exact sane.backed.pitch
  · exact sane.backed.told
  · exact sane.backed.holds
  · exact sane.backed.reads

lemma Frames.follows (frames : Frames f) (v : Window) : Follows v (f v) := by
  intro sane
  obtain ⟨w,h,_,_,_,a,b,c,d⟩ := frame_inj (frames v)
  exact ⟨sane_of_frame (frames v) sane,⟨a,b,c,d⟩,.inl ⟨w,h⟩⟩

lemma frame_moves (id : Nat) (frames : Frames f) : Moves s (s.modify id f) :=
  modify_moves id f fun v _ => frames.follows v

lemma resizeWindow_moves (id : Nat) (newW newH : Int) (granted : Bool)
    (within : ∀ v, s.windows id = some v → Sane v → v.Within newW newH) :
    Moves s (s.resizeWindow id newW newH granted) := by
  unfold Server.resizeWindow
  cases found : s.windows id with
  | none => exact moves_of_windows rfl rfl
  | some v =>
    dsimp only
    split_ifs with unchanged
    · exact moves_of_windows rfl rfl
    · exact moves_of_windows rfl rfl
    refine ⟨rfl,fun k w now => ?_⟩
    by_cases same : k = id
    · subst same
      obtain rfl : _ = w := by simpa using now
      refine ⟨v,found,fun sane => ?_⟩
      have fit := within v found sane
      have limits := sane.limits
      simp only [Window.Within] at fit
      refine ⟨⟨backed_of_size newW newH ?_ ?_ ?_ ?_ ⟨rfl,rfl⟩ rfl rfl rfl,limits⟩,
        ⟨rfl,rfl,rfl,rfl⟩,.inr fit⟩ <;> omega
    · exact ⟨w,by simpa [same] using now,follows_refl w⟩

lemma destroy_moves (id : Nat) : Moves s (s.destroy id) := by
  refine moves_of_sub rfl fun k w now => ?_
  by_cases same : k = id
  · simp [Server.destroy,same] at now
  · simpa [Server.destroy,same] using now

lemma closeWindow_moves (id : Nat) : Moves s (s.closeWindow id) := by
  unfold Server.closeWindow
  cases s.windows id with
  | none => exact moves_of_windows rfl rfl
  | some w =>
    have closed : Moves s (s.modify id ({· with closing := true})) := by
      apply frame_moves
      exact fun _ => rfl
    dsimp only
    split_ifs
    · exact closed.trans (moves_of_windows rfl rfl)
    · exact (closed.trans (moves_of_windows rfl rfl)).trans (destroy_moves id)

lemma dropWindow_moves (id : Nat) : Moves s (s.dropWindow id) := by
  unfold Server.dropWindow
  dsimp only
  split_ifs
  all_goals exact Moves.trans (moves_of_windows rfl rfl) (destroy_moves id)

lemma clampResize_within (sane : Sane w) (nw nh : Int) : w.Within (clampResize w nw nh).1 (clampResize w nw nh).2 := by
  have limits := sane.limits
  simp only [clampResize,Window.Within]
  split_ifs <;> omega

/-- A size within the limits, for a sane window. -/
def Sized (v : Window) (width height : Int) : Prop := Sane v → v.Within width height

lemma Moves.handles : Handles (Moves s) Sized where
  edit plain moves := moves.trans (frame_moves _ plain.2)
  resize within moves := moves.trans (resizeWindow_moves _ _ _ _ within)
  raise _ moves := moves.trans (moves_of_windows rfl rfl)
  focus _ moves := moves.trans (moves_of_windows rfl rfl)
  route _ moves := moves.trans (moves_of_windows rfl rfl)
  close moves := moves.trans (closeWindow_moves _)
  plain {f v w h} plain within sane := by
    obtain ⟨_,_,_,_,_,a,b,c,d⟩ := frame_inj (plain.2 v)
    have fit := within (sane_of_frame (plain.2 v).symm sane)
    simp only [Window.Within] at fit ⊢
    omega
  clamp nw nh sane := clampResize_within sane nw nh

lemma Fits.placeable (fits : Fits s w) : Placeable Sized s w := fun resizable =>
  ⟨fun mode _ => (fits resizable).1 mode,fun max _ => (fits resizable).2 max⟩

/-- The screen has room for a title bar above the taskbar, and the cascade stays on it. -/
structure Steady (s : Server) : Prop where
  screen : 20 < s.screenW ∧ s.screenW ≤ 16383 ∧ 88 < s.screenH ∧ s.screenH ≤ 16383
  cascade : 0 ≤ s.cascadeX ∧ s.cascadeX < s.screenW ∧ 0 ≤ s.cascadeY ∧ s.cascadeY+DECOR_H < s.screenH
  sane : ∀ id w, s.windows id = some w → Sane w
  fresh : ∀ id, s.nextId ≤ id → s.windows id = none

def Server.Geometry.On (s : Server) (dh : Int) (g : Geometry) : Prop :=
  0 ≤ g.x ∧ 1 ≤ g.w ∧ g.x+g.w ≤ s.screenW ∧ 0 ≤ g.y ∧ 1 ≤ g.h ∧ g.y+dh+g.h ≤ s.screenH

lemma clampClaim_on (steady : Steady s) (dh x y w h : Int) (decor : 0 ≤ dh ∧ dh ≤ 32) (left : x < s.screenW)
    (top : y+dh < s.screenH) (deep : dh < s.screenH) (width : 1 ≤ w ∧ w ≤ 2^30) (height : 1 ≤ h ∧ h ≤ 2^30) :
    (s.clampClaim dh x y w h).On s dh := by
  obtain ⟨_,wide,_,high⟩ := steady.screen
  simp only [clampClaim,Server.Geometry.On,i32]
  split_ifs <;> omega

lemma clearTaskbar_on (steady : Steady s) (on : g.On s DECOR_H) : (s.clearTaskbar r g).1.On s DECOR_H := by
  obtain ⟨_,wide,_,high⟩ := steady.screen
  have reserve : uiTaskbarReserve s.screenW ≤ 56 ∧ 0 ≤ uiTaskbarReserve s.screenW := by
    unfold uiTaskbarReserve
    split_ifs <;> omega
  have decor : DECOR_H = 32 := rfl
  unfold clearTaskbar
  dsimp only
  split
  · simp only [Server.Geometry.On]
    split_ifs <;> omega
  split
  · simp only [Server.Geometry.On,i32] at on ⊢
    split_ifs <;> omega
  · exact on

lemma claimed_sane (steady : Steady s) (modest : Modest s r) (decor : 0 ≤ dh) (asked : Geometry)
    (on : g.On s dh) (maximized : Bool) : Sane (s.claimed r dh asked g maximized) ∧
      (s.claimed r dh asked g maximized).OnScreen s := by
  obtain ⟨_,wide,_,high⟩ := steady.screen
  have limits := modest.limits
  simp only [Server.Geometry.On] at on
  cases maximized
  all_goals
    refine ⟨⟨backed_of_size g.w g.h (by omega) (by omega) (by omega) (by omega) ⟨rfl,rfl⟩ rfl rfl rfl,?_⟩,
      on.1,on.2.2.1,on.2.2.2.1,on.2.2.2.2.2⟩
    simp only [claimed,Bool.false_eq_true,if_false,if_true]
    split_ifs <;> omega

lemma nextCascade_steady (steady : Steady s) {w h : Int} (width : 1 ≤ w ∧ w ≤ 2^30) (height : 1 ≤ h ∧ h ≤ 2^30) :
    Steady (s.nextCascade w DECOR_H h) := by
  have screen := steady.screen
  have cascade := steady.cascade
  have decor : DECOR_H = 32 := rfl
  unfold nextCascade
  dsimp only
  split_ifs with beyond
  · refine ⟨screen,?_,steady.sane,steady.fresh⟩
    simp only [CASCADE_START]
    omega
  · refine ⟨screen,?_,steady.sane,steady.fresh⟩
    simp only [i32,CASCADE_STEP] at beyond ⊢
    omega

lemma nextCascade_same (w dh h : Int) :
    (s.nextCascade w dh h).windows = s.windows ∧ (s.nextCascade w dh h).nextId = s.nextId := by
  unfold nextCascade
  dsimp only
  split_ifs <;> exact ⟨rfl,rfl⟩

/-- The other windows stay as they are, and a new one is sane and on the screen. -/
lemma handleClaim_steady (steady : Steady s) {r : Claim} (modest : Modest s r) (granted : Bool) :
    Steady (s.handleClaim r granted) ∧ ∀ id w, (s.handleClaim r granted).windows id = some w →
      s.windows id = some w ∨ id = s.nextId ∧ Sane w ∧ w.OnScreen s := by
  obtain ⟨_,_,wide,high⟩ := modest.small
  have screen := steady.screen
  have decor : DECOR_H = 32 := rfl
  have added : ∀ {u : Server} {w : Window}, Steady u → u.windows = s.windows → Sane w → w.OnScreen s →
      Steady (({u with windows := Function.update u.windows s.nextId (some w), nextId := s.nextId+1
                       nextBuf := u.nextBuf+1} : Server).zPush s.nextId |>.setFocus (some s.nextId)) ∧
      ∀ id v, Function.update u.windows s.nextId (some w) id = some v →
        s.windows id = some v ∨ id = s.nextId ∧ Sane v ∧ v.OnScreen s := by
    intro u w good same sane on
    have each id v (found : Function.update u.windows s.nextId (some w) id = some v) :
        s.windows id = some v ∨ id = s.nextId ∧ Sane v ∧ v.OnScreen s := by
      by_cases here : id = s.nextId
      · subst here
        obtain rfl : w = v := by simpa using found
        exact .inr ⟨rfl,sane,on⟩
      · exact .inl (by simpa [here,same] using found)
    refine ⟨⟨good.screen,good.cascade,fun id v found => (each id v found).elim (steady.sane id v) fun new => new.2.1,
      fun id late => ?_⟩,each⟩
    change s.nextId+1 ≤ id at late
    change Function.update u.windows s.nextId (some w) id = none
    rw [Function.update_of_ne (by omega),same]
    exact steady.fresh id (by omega)
  have kept : ∀ {u : Server}, Steady u → u.windows = s.windows → Steady u ∧ ∀ id w, u.windows id = some w →
      s.windows id = some w ∨ id = s.nextId ∧ Sane w ∧ w.OnScreen s :=
    fun good same => ⟨good,fun _ _ found => .inl (same ▸ found)⟩
  unfold handleClaim
  dsimp only
  split_ifs with empty refused undecorated undecorated
  · exact kept steady rfl
  · exact kept steady rfl
  · exact kept (nextCascade_steady steady (by omega) (by omega)) (nextCascade_same _ _ _).1
  · obtain ⟨left,top⟩ := modest.placed undecorated
    have on := clampClaim_on steady 0 r.x r.y r.w r.h (by omega) left (by omega) (by omega) (by omega) (by omega)
    obtain ⟨sane,shown⟩ := claimed_sane steady modest (Int.le_refl 0) (s.clampClaim 0 r.x r.y r.w r.h) on false
    exact added steady rfl sane shown
  have cascade := steady.cascade
  have on := clearTaskbar_on steady (r := r) (clampClaim_on steady DECOR_H s.cascadeX s.cascadeY r.w r.h (by omega)
    cascade.2.1 cascade.2.2.2 (by omega) (by omega) (by omega))
  obtain ⟨sane,shown⟩ := claimed_sane steady modest (by omega)
    (s.clampClaim DECOR_H s.cascadeX s.cascadeY r.w r.h) on _
  exact added (nextCascade_steady steady (by omega) (by omega)) (nextCascade_same _ _ _).1 sane shown

lemma step_follows (layout : Window → Int → Int → Part) (steady : Steady s) (e : Event) (proper : Proper s e) :
    Steady (step layout s e) ∧ ∀ id w, (step layout s e).windows id = some w →
      (∃ v, s.windows id = some v ∧ Follows v w) ∨ id = s.nextId ∧ Sane w ∧ w.OnScreen s := by
  have of : ∀ {u : Server}, Moves s u → Steady u ∧ ∀ id w, u.windows id = some w →
      (∃ v, s.windows id = some v ∧ Follows v w) ∨ id = s.nextId ∧ Sane w ∧ w.OnScreen s := by
    intro u moves
    obtain ⟨screen,each⟩ := moves
    obtain ⟨width,height,x,y,next⟩ := outline_inj screen
    refine ⟨⟨by rw [width,height]; exact steady.screen,by rw [width,height,x,y]; exact steady.cascade,?_,?_⟩,
      fun id w found => .inl (each id w found)⟩
    · intro id w found
      obtain ⟨v,found,follows⟩ := each id w found
      exact (follows (steady.sane id v found)).1
    intro id late
    cases found : u.windows id with
    | none => rfl
    | some w =>
      obtain ⟨v,was,_⟩ := each id w found
      simp [steady.fresh id (next ▸ late)] at was
  have still : Moves s s := moves_of_windows rfl rfl
  cases e with
  | claim r granted =>
    obtain ⟨good,each⟩ := handleClaim_steady steady proper granted
    exact ⟨good,fun id w found => (each id w found).imp_left fun same => ⟨w,same,follows_refl w⟩⟩
  | release id =>
    apply of
    simp only [step,handleRelease]
    cases s.windows id with
    | none => exact still
    | some w =>
      dsimp only
      split_ifs
      · exact destroy_moves id
      · exact dropWindow_moves id
  | restore id =>
    apply of
    simp only [step,restore]
    cases s.windows id with
    | none => exact still
    | some w =>
      refine Moves.trans (frame_moves id ?_) (moves_of_windows rfl rfl)
      exact fun _ => rfl
  | winctl id op => exact of (Moves.handles.files.handleWinctl still id op)
  | reap dead => exact of (reapDeadClients_rule still fun u id w moved _ _ _ => moved.trans (dropWindow_moves id))
  | mouse ev =>
    refine of (Moves.handles.files.handleMouse still layout ev fun id v aimed found => ?_)
    exact (proper id v aimed found).placeable

lemma start_steady {screenW screenH : Int} (screen : 20 < screenW ∧ screenW ≤ 16383 ∧ 88 < screenH ∧ screenH ≤ 16383) :
    Steady {screenW := screenW, screenH := screenH} := by
  refine ⟨screen,?_,by simp,by simp⟩
  simp only [CASCADE_START,DECOR_H]
  omega

/-- In every run of proper events each window is backed by its buffer, at every redraw, a granted window is on the
screen, and a window changes its size within its limits only. -/
theorem windows_backed (layout : Window → Int → Int → Part) (screenW screenH : Int)
    (screen : 20 < screenW ∧ screenW ≤ 16383 ∧ 88 < screenH ∧ screenH ≤ 16383) (events : List Event)
    (legal : Run.Legal (step layout) Proper {screenW := screenW, screenH := screenH} events) :
    let s := Run.after (step layout) {screenW := screenW, screenH := screenH} events
    (∀ id w, s.windows id = some w → w.Backed ∧ w.Blits) ∧
    (∀ e, Proper s e → ∀ id w, (step layout s e).windows id = some w → w.Backed ∧
      (s.windows id = none → w.OnScreen s) ∧
      ∀ v, s.windows id = some v → SameSize v w ∨ w.Within w.w w.h) := by
  intro s
  have steady : Steady s :=
    legal.invariant (fun _ e good proper => (step_follows layout good e proper).1) (start_steady screen)
  have backed id w (found : s.windows id = some w) : w.Backed := (steady.sane id w found).backed
  refine ⟨fun id w found => ⟨backed id w found,(backed id w found).blits⟩,fun e proper id w found => ?_⟩
  obtain ⟨next,each⟩ := step_follows layout steady e proper
  refine ⟨(next.sane id w found).backed,fun new => ?_,fun v was => ?_⟩
  · rcases each id w found with ⟨v,was,_⟩ | ⟨_,_,on⟩
    · simp [new] at was
    · exact on
  rcases each id w found with ⟨v',was',follows⟩ | ⟨here,_,_⟩
  · obtain rfl := Option.some.inj (was.symm.trans was')
    exact (follows (steady.sane id v was)).2.2
  · simp [here,steady.fresh] at was

def resizableClaim : Claim :=
  {x := 0, y := 0, w := 300, h := 200, senderPid := 7, reply := true, noDecor := false
   minW := 100, minH := 100, maxW := 1024, maxH := 768}

/-- The button goes down over the box that maximises. -/
def boxPress : Mouse := {dx := 100, dy := 100, buttons := 1, ms := 0, granted := fun _ => true}

theorem windows_backed_claim :
    let s := Run.after (step fun _ _ _ => .maximize) {screenW := 1024, screenH := 768}
      [.claim resizableClaim true,.mouse boxPress]
    (s.windows 1).any (fun w => w.w = 1024 ∧ w.told = 4096 ∧ w.savedW = 300) ∧
      ∀ id w, s.windows id = some w → w.Backed ∧ w.Blits := by
  let s : Server := step (fun _ _ _ => .maximize) {screenW := 1024, screenH := 768} (.claim resizableClaim true)
  have under : s.Aimed boxPress 1 := ⟨by decide,by decide +kernel⟩
  have fits : (s.windows 1).all fun w =>
      w.minW = 100 ∧ w.maxW = 1024 ∧ w.minH = 100 ∧ w.maxH = 768 ∧ w.decorH = 32 ∧ w.maximized = false := by
    decide +kernel
  have proper : Proper s (.mouse boxPress) := by
    intro id w aimed found resizable
    obtain rfl : id = 1 := Option.some.inj (aimed.2.symm.trans under.2)
    rw [found,Option.all_some,decide_eq_true_eq] at fits
    obtain ⟨_,_,_,_,decor,plain⟩ := fits
    have room : s.screenH-uiTaskbarReserve s.screenW-32 = 680 := by decide
    refine ⟨fun mode => ?_,fun max => by simp [plain] at max⟩
    rw [decor,room]
    simp only [target,Window.Within,show s.screenW = 1024 from rfl]
    split_ifs <;> omega
  refine ⟨by decide +kernel,(windows_backed (fun _ _ _ => .maximize) 1024 768 (by decide)
    [.claim resizableClaim true,.mouse boxPress] ⟨?_,proper,trivial⟩).1⟩
  exact ⟨by decide,by decide,.inr (by decide)⟩

/-- A window without a title bar is claimed to the right of the screen: it is granted with a
negative width, which wraps to 32768 bytes. -/
theorem claim_off_screen :
    let r : Claim := {x := 132095, y := 0, w := 1, h := 8192, senderPid := 7, reply := true, noDecor := true}
    ((step (fun _ _ _ => .title) {screenW := 1024, screenH := 8192} (.claim r true)).windows 1).any fun w =>
      w.w = -131071 ∧ w.h = 8192 ∧ w.bufBytes = 32768 ∧ w.pitch ≠ w.told := by
  decide

end UbixOS.Views
