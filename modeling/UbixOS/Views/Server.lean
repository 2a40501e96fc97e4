import Mathlib

/-! The display server (usr.sbin/views): the window registry, the window manager's message
handlers and the input router. A pointer to a window is the number of its window, which is its id
too. -/
namespace UbixOS.Views

open Function

def PAGE_SIZE : Nat := 4096
def WIN_BPP : Nat := 4
def DECOR_H : Int := 32
def UI_COMPACT_W : Int := 1000
def CASCADE_STEP : Int := 24
def CASCADE_START : Int := 20
def uiTaskbarReserve (screenW : Int) : Int := if screenW < UI_COMPACT_W then 40 else 56

/-- A sum of `int32_t` values. -/
def i32 (v : Int) : Int := (v+2147483648) % 4294967296-2147483648

/-- A sum stored as `int16_t`. -/
def i16 (v : Int) : Int := (v+32768) % 65536-32768

/-- An `int` used as `uint32_t`. -/
def u32 (v : Int) : Nat := (v % 4294967296).toNat

structure Window where
  x : Int
  y : Int
  w : Int
  h : Int
  pitch : Nat
  /-- the number of the shared buffer and the bytes it was allocated with -/
  buf : Nat
  bufBytes : Nat
  /-- the `pitch` of the last message about the buffer -/
  told : Nat
  decorH : Int
  closing : Bool := false
  minimized : Bool := false
  maximized : Bool := false
  pinned : Bool := false
  minW : Int
  minH : Int
  maxW : Int
  maxH : Int
  savedX : Int := 0
  savedY : Int := 0
  savedW : Int := 0
  savedH : Int := 0
  /-- whether `mbox` names a mailbox -/
  mbox : Bool
  senderPid : Int

namespace Window

def resizable (w : Window) : Bool := w.minW < w.maxW || w.minH < w.maxH

def hitTest (w : Window) (cx cy : Int) : Bool :=
  w.x ≤ cx && cx < i32 (w.x+w.w) && w.y ≤ cy && cy < i32 (w.y+w.decorH+w.h)

def zLayer (w : Window) : Nat := if w.decorH = 0 then 2 else if w.pinned then 1 else 0

end Window

/-- The edges that a resize drags, `RZ_L` to `RZ_B`. -/
structure Edges where
  l : Bool
  r : Bool
  t : Bool
  b : Bool

/-- What of a window is under the cursor when it is pressed. -/
inductive Part where
  | edges (e : Edges)
  | close
  | minimize
  | pin
  | maximize
  | title
  | content

structure Resize where
  win : Nat
  edges : Edges
  x : Int
  y : Int
  w : Int
  h : Int
  cx : Int
  cy : Int

/-- A `DISPLAY_MOUSE` message, in the coordinates of the window. -/
structure MouseEv where
  windowId : Nat
  x : Int
  y : Int
  buttons : Nat

structure Router where
  curX : Int := 0
  curY : Int := 0
  drag : Option Nat := none
  dragOffX : Int := 0
  dragOffY : Int := 0
  buttons : Nat := 0
  resize : Option Resize := none
  lastClick : Option Nat := none
  lastMs : Int := 0
  lastX : Int := 0
  lastY : Int := 0
  /-- the messages about presses, the last one first -/
  sent : List MouseEv := []

structure Server where
  screenW : Int
  screenH : Int
  windows : Nat → Option Window := fun _ => none
  nextId : Nat := 1
  /-- `z_stack_`, from the bottom to the top -/
  zStack : List Nat := []
  focused : Option Nat := none
  cascadeX : Int := CASCADE_START
  cascadeY : Int := CASCADE_START
  nextBuf : Nat := 0
  freed : List Nat := []
  router : Router := {}

namespace Server

def modify (s : Server) (id : Nat) (f : Window → Window) : Server :=
  {s with windows := update s.windows id ((s.windows id).map f)}

/-- `std::free(w->buf)` and `reg_.destroy(w)`, which always go together. -/
def destroy (s : Server) (id : Nat) : Server :=
  {s with
    windows := update s.windows id none
    freed := ((s.windows id).map (·.buf)).toList ++ s.freed}

def layer (s : Server) (id : Nat) : Nat := ((s.windows id).map (·.zLayer)).getD 0

def zPush (s : Server) (id : Nat) : Server :=
  let below := fun other => decide (s.layer other ≤ s.layer id)
  {s with zStack := s.zStack.takeWhile below ++ id :: s.zStack.dropWhile below}

def zRemove (s : Server) (id : Nat) : Server := {s with zStack := s.zStack.erase id}

def zRaise (s : Server) (id : Nat) : Server := (s.zRemove id).zPush id

def setFocus (s : Server) (id : Option Nat) : Server := {s with focused := id}

def topmost (s : Server) (p : Window → Bool) : Option Nat :=
  s.zStack.reverse.find? fun id => (s.windows id).any fun w => !w.minimized && p w

def closeWindow (s : Server) (id : Nat) : Server :=
  match s.windows id with
  | none => s
  | some w =>
    let s := (s.modify id ({· with closing := true})).zRemove id
    let s := s.setFocus s.zStack.getLast?
    if w.mbox then s else s.destroy id

def minimizeWindow (s : Server) (id : Nat) : Server :=
  let s := s.modify id ({· with minimized := true})
  if s.focused = some id then s.setFocus (s.topmost fun _ => true) else s

/-- The buffer for a size: its pitch, its bytes and what `aligned_alloc` is asked for. -/
def pitchOf (w : Int) : Nat := u32 w*WIN_BPP % 4294967296
def bytesOf (w h : Int) : Nat := pitchOf w*u32 h % 4294967296
def allocOf (w h : Int) : Nat := (bytesOf w h+PAGE_SIZE-1) % 4294967296 / PAGE_SIZE*PAGE_SIZE

/-- `granted`: whether the new buffer is allocated and shared with the client. -/
def resizeWindow (s : Server) (id : Nat) (newW newH : Int) (granted : Bool) : Server :=
  match s.windows id with
  | none => s
  | some w =>
    if newW < 1 ∨ newH < 1 ∨ (newW = w.w ∧ newH = w.h) then s
    else if !granted then s
    else
      let pitch := pitchOf newW
      {s with
        windows := update s.windows id (some {w with
          buf := s.nextBuf, bufBytes := allocOf newW newH, w := newW, h := newH, pitch := pitch, told := pitch % 65536})
        nextBuf := s.nextBuf+1}

/-- Where `mode` 1 (left half), 2 (right half) or else (maximised) puts a window. -/
def target (screenW : Int) (mode : Nat) : Int × Int :=
  if mode = 1 then (0,screenW / 2)
  else if mode = 2 then (screenW / 2,screenW-screenW / 2)
  else (0,screenW)

def placeWindow (s : Server) (id mode : Nat) (granted : Bool) : Server :=
  match s.windows id with
  | none => s
  | some w =>
    if !w.resizable then s
    else if mode = 0 ∧ w.maximized then
      let s := s.modify id ({· with x := w.savedX, y := w.savedY})
      (s.resizeWindow id w.savedW w.savedH granted).modify id ({· with maximized := false})
    else
      let s := if w.maximized then s
        else s.modify id ({· with savedX := w.x, savedY := w.y, savedW := w.w, savedH := w.h})
      let (tx,tw) := target s.screenW mode
      let s := s.modify id ({· with x := tx, y := 0})
      let s := s.resizeWindow id tw (s.screenH-uiTaskbarReserve s.screenW-w.decorH) granted
      s.modify id fun w => {w with x := if w.w < tw then tx+(tw-w.w) / 2 else w.x, maximized := true}

structure Claim where
  x : Int
  y : Int
  w : Int
  h : Int
  senderPid : Int
  reply : Bool
  noDecor : Bool
  minW : Int := 0
  minH : Int := 0
  maxW : Int := 0
  maxH : Int := 0

def nextCascade (s : Server) (w dh h : Int) : Server :=
  let x := s.cascadeX+CASCADE_STEP
  let y := s.cascadeY+CASCADE_STEP
  if i32 (x+w) > s.screenW ∨ i32 (y+dh+h) > s.screenH then
    {s with cascadeX := CASCADE_START, cascadeY := CASCADE_START}
  else {s with cascadeX := x, cascadeY := y}

structure Geometry where
  x : Int
  y : Int
  w : Int
  h : Int

/-- The request brought onto the screen. -/
def clampClaim (s : Server) (dh x y w h : Int) : Geometry :=
  let x := if x < 0 then 0 else x
  let y := if y < 0 then 0 else y
  let w := if i32 (x+w) > s.screenW then i32 (s.screenW-x) else w
  let h := if i32 (y+dh+h) > s.screenH then i32 (s.screenH-y-dh) else h
  ⟨x,y,w,h⟩

/-- Decorated windows stay clear of the taskbar; on small screens they open maximised. -/
def clearTaskbar (s : Server) (r : Claim) (g : Geometry) : Geometry × Bool :=
  let usable := s.screenH-uiTaskbarReserve s.screenW
  if s.screenW < UI_COMPACT_W ∧ (r.minW < r.maxW ∨ r.minH < r.maxH) then
    let h := usable-DECOR_H
    (⟨0,0,if 0 < r.maxW ∧ r.maxW < s.screenW then r.maxW else s.screenW,
      if 0 < r.maxH ∧ r.maxH < h then r.maxH else h⟩,true)
  else if i32 (g.y+DECOR_H+g.h) > usable then
    let y := i32 (usable-DECOR_H-g.h)
    let y := if y < 0 then 0 else y
    (⟨g.x,y,g.w,if i32 (y+DECOR_H+g.h) > usable then usable-y-DECOR_H else g.h⟩,false)
  else (g,false)

/-- The window for a granted request; `maximized` when it opens so. -/
def claimed (s : Server) (r : Claim) (dh : Int) (asked g : Geometry) (maximized : Bool) : Window :=
  let pitch := pitchOf g.w
  let w : Window := {
    x := g.x, y := g.y, w := g.w, h := g.h, pitch := pitch, buf := s.nextBuf, bufBytes := allocOf g.w g.h
    told := pitch % 65536, decorH := dh, mbox := r.reply, senderPid := r.senderPid
    minW := if 0 < r.minW then r.minW else g.w, minH := if 0 < r.minH then r.minH else g.h
    maxW := if 0 < r.maxW then r.maxW else g.w, maxH := if 0 < r.maxH then r.maxH else g.h}
  if maximized then
    {w with maximized := true, savedX := asked.x, savedY := asked.y, savedW := asked.w, savedH := asked.h}
  else w

def handleClaim (s : Server) (r : Claim) (granted : Bool) : Server :=
  if r.senderPid ≤ 0 ∨ r.w ≤ 0 ∨ r.h ≤ 0 then s
  else
    let dh := if r.noDecor then 0 else DECOR_H
    let u := if r.noDecor then s else s.nextCascade r.w dh r.h
    let asked := if r.noDecor then s.clampClaim dh r.x r.y r.w r.h else s.clampClaim dh s.cascadeX s.cascadeY r.w r.h
    let (g,maximized) := if r.noDecor then (asked,false) else s.clearTaskbar r asked
    if !granted then u
    else
      let id := s.nextId
      let u := {u with
        windows := update u.windows id (some (s.claimed r dh asked g maximized))
        nextId := id+1, nextBuf := u.nextBuf+1}
      (u.zPush id).setFocus (some id)

/-- The end of `handle_release` and `reap_window`. -/
def dropWindow (s : Server) (id : Nat) : Server :=
  let s := s.zRemove id
  let s := if s.focused = some id then s.setFocus s.zStack.getLast? else s
  s.destroy id

def handleRelease (s : Server) (id : Nat) : Server :=
  match s.windows id with
  | none => s
  | some w => if w.closing then s.destroy id else s.dropWindow id

/-- `dead`: the processes that `kill(pid, 0)` does not find. -/
def reapDeadClients (s : Server) (dead : Int → Bool) : Server :=
  (List.range s.nextId).foldl (fun s id => match s.windows id with
    | none => s
    | some w => if 0 < w.senderPid ∧ dead w.senderPid then s.dropWindow id else s) s

/-- `handle_raise` and `commit_switch`. -/
def restore (s : Server) (id : Nat) : Server :=
  match s.windows id with
  | none => s
  | some _ => ((s.modify id ({· with minimized := false})).zRaise id).setFocus (some id)

inductive Op where
  | minimize
  | close
  | other

def handleWinctl (s : Server) (id : Nat) (op : Op) : Server :=
  match s.windows id with
  | none => s
  | some w =>
    if w.decorH = 0 then s
    else match op with
      | .minimize => s.minimizeWindow id
      | .close => s.closeWindow id
      | .other => s

def clampResize (w : Window) (nw nh : Int) : Int × Int :=
  let nw := if nw < w.minW then w.minW else nw
  let nw := if 0 < w.maxW ∧ w.maxW < nw then w.maxW else nw
  let nh := if nh < w.minH then w.minH else nh
  let nh := if 0 < w.maxH ∧ w.maxH < nh then w.maxH else nh
  (nw,nh)

def resizeGeometry (r : Router) (d : Resize) (w : Window) : Geometry :=
  let dx := r.curX-d.cx
  let dy := r.curY-d.cy
  let (nw,nh) := clampResize w (d.w+if d.edges.r then dx else if d.edges.l then -dx else 0)
    (d.h+if d.edges.b then dy else if d.edges.t then -dy else 0)
  ⟨if d.edges.l then d.x+(d.w-nw) else d.x,if d.edges.t then d.y+(d.h-nh) else d.y,nw,nh⟩

structure Mouse where
  dx : Int
  dy : Int
  buttons : Nat
  ms : Int
  /-- whether a resize at the end of a drag, of an edge drag and on a press gets its buffer -/
  granted : Fin 3 → Bool

instance Mouse.neZero : NeZero 3 := ⟨by decide⟩

def cursorMove (s : Server) (ev : Mouse) : Server :=
  let place := fun c d limit => let c := c+d; let c := if c < 0 then 0 else c; if c ≥ limit-12 then limit-12 else c
  {s with router := {s.router with
    curX := place s.router.curX ev.dx s.screenW, curY := place s.router.curY ev.dy s.screenH}}

def dragMove (s : Server) (ev : Mouse) : Server :=
  match s.router.drag with
  | none => s
  | some id =>
    if ev.dx = 0 ∧ ev.dy = 0 then s
    else
      let x := s.router.curX-s.router.dragOffX
      let y := s.router.curY-s.router.dragOffY
      s.modify id ({· with x := if x < 0 then 0 else x, y := if y < 0 then 0 else y})

/-- The left button goes up at the end of a drag: snap to the edges of the screen. -/
def dragEnd (s : Server) (granted : Bool) : Server :=
  match s.router.drag with
  | none => s
  | some id =>
    let r := s.router
    let s := if r.curY ≤ 6 then s.placeWindow id 0 granted
      else if r.curX ≤ 6 then s.placeWindow id 1 granted
      else if r.curX ≥ s.screenW-6 then s.placeWindow id 2 granted
      else s
    {s with router := {s.router with drag := none}}

def resizeEnd (s : Server) (granted : Bool) : Server :=
  match s.router.resize with
  | none => s
  | some d =>
    match s.windows d.win with
    | none => {s with router := {s.router with resize := none}}
    | some w =>
      let g := resizeGeometry s.router d w
      let s := (s.modify d.win ({· with x := g.x, y := g.y})).resizeWindow d.win g.w g.h granted
      {s with router := {s.router with resize := none}}

/-- A click on a title bar: the second one of a double click toggles maximise, the first one
starts a drag. -/
def titleClick (s : Server) (id : Nat) (w : Window) (ev : Mouse) : Server :=
  let r := s.router
  if r.lastClick = some id ∧ ev.ms-r.lastMs ≤ 400 ∧ (r.curX-r.lastX).natAbs ≤ 6 ∧ (r.curY-r.lastY).natAbs ≤ 6 then
    {s with router := {r with lastClick := none}}.placeWindow id 0 (ev.granted 2)
  else
    {s with router := {r with
      lastClick := some id, lastMs := ev.ms, lastX := r.curX, lastY := r.curY
      drag := some id, dragOffX := r.curX-w.x, dragOffY := r.curY-w.y}}

def sendMouse (s : Server) (id : Nat) (w : Window) (buttons : Nat) : Server :=
  let r := s.router
  if w.mbox then
    {s with router := {r with sent := ⟨id,i16 (r.curX-w.x),i16 (r.curY-(w.y+w.decorH)),buttons⟩ :: r.sent}}
  else s

/-- `layout` says which control of a window is where. -/
def press (layout : Window → Int → Int → Part) (s : Server) (ev : Mouse) : Server :=
  let r := s.router
  match s.topmost fun w => w.hitTest r.curX r.curY with
  | none => s
  | some id =>
    match s.windows id with
    | none => s
    | some w =>
      let s := s.zRaise id
      let s := if 0 < w.decorH then s.setFocus (some id) else s
      match layout w r.curX r.curY with
      | .edges e => {s with router := {r with resize := some ⟨id,e,w.x,w.y,w.w,w.h,r.curX,r.curY⟩}}
      | .close => s.closeWindow id
      | .minimize => s.minimizeWindow id
      | .pin => (s.modify id fun w => {w with pinned := !w.pinned}).zRaise id
      | .maximize => s.placeWindow id 0 (ev.granted 2)
      | .title => s.titleClick id w ev
      | .content => s.sendMouse id w ev.buttons

def handleMouse (layout : Window → Int → Int → Part) (s : Server) (ev : Mouse) : Server :=
  let s := (s.cursorMove ev).dragMove ev
  if ev.buttons = s.router.buttons then s
  else
    let s := if ev.buttons % 2 = 1 then s.press layout ev
      else (s.dragEnd (ev.granted 0)).resizeEnd (ev.granted 1)
    {s with router := {s.router with buttons := ev.buttons}}

end Server

inductive Event where
  | claim (r : Server.Claim) (granted : Bool)
  | release (id : Nat)
  /-- `DISPLAY_RAISE`, or the task switcher commits -/
  | restore (id : Nat)
  | winctl (id : Nat) (op : Server.Op)
  | reap (dead : Int → Bool)
  | mouse (ev : Server.Mouse)

def step (layout : Window → Int → Int → Part) (s : Server) : Event → Server
  | .claim r granted => s.handleClaim r granted
  | .release id => s.handleRelease id
  | .restore id => s.restore id
  | .winctl id op => s.handleWinctl id op
  | .reap dead => s.reapDeadClients dead
  | .mouse ev => s.handleMouse layout ev

end UbixOS.Views
