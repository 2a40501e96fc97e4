import UbixOS.Library.Run

/-! The VT100 screen of a pseudo-terminal (sys/posix/tty.c): `tty_print` and `tty_resize`. The
screen is memory without an end, so that a store outside of the grid can be seen. -/
namespace UbixOS.Posix.Tty

open Library List

def TTY_MAX_COLS : Nat := 200
def TTY_MAX_ROWS : Nat := 64

inductive Esc where
  | normal
  | esc
  | csi
  deriving DecidableEq

structure Term where
  cols : Nat
  rows : Nat
  /-- `tty_pointer`, two bytes to a cell -/
  cells : Nat → UInt8
  /-- where the last call has stored through `tty_pointer` -/
  stores : List Nat
  x : Nat
  y : Nat
  colour : UInt8
  defaultColour : UInt8
  savedX : Nat
  savedY : Nat
  savedColour : UInt8
  escState : Esc
  escPriv : Bool
  nparams : Nat
  params : Nat → Nat
  opost : Bool
  onlcr : Bool
  stopped : Bool
  hasMaster : Bool

/-- Subtraction of `unsigned int`. -/
def sub32 (a b : Nat) : Nat := (a + 2 ^ 32 - b) % 2 ^ 32

/-- The values of `for (i = a; i < b; i++)`. -/
def upTo (a b : Nat) : List Nat := range' a (b - a)

/-- The values of `for (i = a; i > b; i--)`. -/
def downTo (a b : Nat) : List Nat := (range' (b + 1) (a - b)).reverse

namespace Term

def stride (t : Term) : Nat := t.cols * 2

def limit (t : Term) : Nat := t.stride * t.rows

def store (t : Term) (i : Nat) (v : UInt8) : Term :=
    { t with cells := Function.update t.cells i v, stores := i :: t.stores }

def put (t : Term) (i : Nat) (c : UInt8) : Term := (t.store i c).store (i + 1) t.colour

def each (t : Term) (is : List Nat) (body : Term → Nat → Term) : Term := is.foldl body t

def blank (t : Term) (row : Nat) (is : List Nat) : Term := t.each is fun t i => t.put (row * t.stride + i * 2) 32

def copyRow (t : Term) (dst src : Nat) : Term :=
  t.each (upTo 0 t.stride) fun t j => t.store (dst * t.stride + j) (t.cells (src * t.stride + j))

def copyCell (t : Term) (row dst src : Nat) : Term :=
  (t.store (row * t.stride + dst * 2) (t.cells (row * t.stride + src * 2))).store (row * t.stride + dst * 2 + 1)
    (t.cells (row * t.stride + src * 2 + 1))

def scroll (t : Term) : Term :=
  let last := t.stride * (t.rows - 1)
  let t := t.each (upTo 0 last) fun t i => t.store i (t.cells (i + t.stride))
  t.each (upTo 0 t.cols) fun t i => t.put (last + i * 2) 32

def offset (t : Term) (row col : Nat) : Nat := (row * t.cols + col) * 2

end Term

def ansiToVga (n : Nat) : UInt8 := [0,4,2,6,1,5,3,7].getD n 0

def sgr (t : Term) (v : Nat) : Term :=
  let set (colour : UInt8) : Term := { t with colour }
  match v with
  | 0 => set t.defaultColour
  | 1 => set (t.colour ||| 0x08)
  | 2 | 22 => set (t.colour &&& 0xf7)
  | 5 | 6 => set (t.colour ||| 0x80)
  | 7 => set ((t.colour &&& 0x07) <<< 4 ||| ((t.colour >>> 4) &&& 0x07) ||| (t.colour &&& 0x88))
  | 27 => t
  | 39 => set ((t.colour &&& 0xf0) ||| (t.defaultColour &&& 0x0f))
  | 49 => set ((t.colour &&& 0x0f) ||| (t.defaultColour &&& 0xf0))
  | v =>
    if 30 ≤ v ∧ v ≤ 37 then set ((t.colour &&& 0xf8) ||| ansiToVga (v - 30))
    else if 90 ≤ v ∧ v ≤ 97 then set ((t.colour &&& 0xf0) ||| (ansiToVga (v - 90) ||| 8))
    else if 40 ≤ v ∧ v ≤ 47 then set ((t.colour &&& 0x8f) ||| (ansiToVga (v - 40) <<< (4 : UInt8)))
    else if 100 ≤ v ∧ v ≤ 107 then set ((t.colour &&& 0x0f) ||| ((ansiToVga (v - 100) ||| 8) <<< (4 : UInt8)))
    else t

def atLeastOne (p : Nat) : Nat := if p = 0 then 1 else p

def csiExecute (t : Term) (off : Nat) (cmd : Char) : Term × Nat :=
  let row := off / 2 / t.cols
  let col := off / 2 % t.cols
  let p0 := t.params 0
  match cmd with
  | 'A' => (t,t.offset (row - atLeastOne p0) col)
  | 'B' => (t,t.offset (if row + atLeastOne p0 ≥ t.rows then t.rows - 1 else row + atLeastOne p0) col)
  | 'C' => (t,t.offset row (if col + atLeastOne p0 ≥ t.cols then t.cols - 1 else col + atLeastOne p0))
  | 'D' => (t,t.offset row (col - atLeastOne p0))
  | 'G' => (t,t.offset row (if p0 - 1 ≥ t.cols then t.cols - 1 else p0 - 1))
  | 'H' | 'f' =>
    (t,t.offset (if p0 - 1 ≥ t.rows then t.rows - 1 else p0 - 1)
      (if t.params 1 - 1 ≥ t.cols then t.cols - 1 else t.params 1 - 1))
  | 'J' =>
    match p0 with
    | 0 => (t.each (range' off ((t.limit - off + 1) / 2) 2) fun t i => t.put i 32,off)
    | 1 => (t.each ((range' 0 (off / 2 + 1) 2).filter fun i => i + 1 < t.limit) fun t i => t.put i 32,off)
    | 2 | 3 => (t.each (range' 0 ((t.limit + 1) / 2) 2) fun t i => t.put i 32,0)
    | _ => (t,off)
  | 'K' =>
    match p0 with
    | 0 => (t.blank row (upTo col t.cols),off)
    | 1 => (t.blank row (upTo 0 (col + 1)),off)
    | 2 => (t.blank row (upTo 0 t.cols),off)
    | _ => (t,off)
  | 'L' =>
    let n := if atLeastOne p0 > sub32 t.rows row then sub32 t.rows row else atLeastOne p0
    let t := t.each (downTo t.rows (row + n)) fun t i => t.copyRow (i - 1) (i - 1 - n)
    (t.each (upTo row (row + n)) fun t i => t.blank i (upTo 0 t.cols),off)
  | 'M' =>
    let n := if atLeastOne p0 > sub32 t.rows row then sub32 t.rows row else atLeastOne p0
    let t := t.each (upTo row (t.rows - n)) fun t i => t.copyRow i (i + n)
    (t.each (upTo (sub32 t.rows n) t.rows) fun t i => t.blank i (upTo 0 t.cols),off)
  | '@' =>
    let n := if atLeastOne p0 > t.cols - col then t.cols - col else atLeastOne p0
    let t := t.each (downTo t.cols (col + n)) fun t i => t.copyCell row (i - 1) (i - 1 - n)
    (t.blank row (upTo col (col + n)),off)
  | 'P' =>
    let n := atLeastOne p0
    let t := t.each (upTo col (t.cols - n)) fun t i => t.copyCell row i (i + n)
    (t.blank row (upTo (sub32 t.cols n) t.cols),off)
  | 'm' => ((upTo 0 (max t.nparams 1)).foldl (fun t k => sgr t (t.params k)) t,off)
  | 's' => ({ t with savedX := t.x, savedY := t.y, savedColour := t.colour },off)
  | 'u' => ({ t with x := t.savedX, y := t.savedY, colour := t.savedColour },(t.savedY * 256 + t.savedX) * 2)
  | _ => (t,off)

def tab : Nat → Term → Nat → Term × Nat
  | 0, t, off => (t,off)
  | n + 1, t, off => if off / 2 % t.cols < t.cols - 1 then tab n (t.put off 32) (off + 2) else (t,off)

/-- The character itself, before the scroll. -/
def outputChar (t : Term) (off : Nat) (c : UInt8) : Term × Nat :=
  match c.toNat with
  | 0x1b => ({ t with escState := .esc },off)
  | 0x0d => (t,off / t.stride * t.stride)
  | 0x0a =>
    if t.opost then
      if t.onlcr then (t,off / t.stride * t.stride + t.stride) else (t,off + t.stride)
    else (t,off)
  | 0x08 => (t,if off ≥ 2 then off - 2 else off)
  | 0x09 => tab (8 - off / 2 % t.cols % 8) t off
  | _ => if c ≥ 0x20 then (t.put off c,off + 2) else (t,off)

def output (t : Term) (off : Nat) (c : UInt8) : Term × Nat :=
  let r := outputChar t off c
  if r.2 ≥ r.1.limit then (r.1.scroll,r.2 - r.1.stride) else r

def escape (t : Term) (off : Nat) (c : Char) : Term × Nat :=
  match c with
  | '[' => ({ t with escState := .csi, escPriv := false, nparams := 0, params := fun _ => 0 },off)
  | 'M' =>
    if off / 2 / t.cols > 0 then ({ t with escState := .normal },off - t.stride)
    else
      let t := t.each (range' t.stride (t.stride * (t.rows - 1) + 1 - t.stride)).reverse fun t j =>
        t.store j (t.cells (j - t.stride))
      let t := t.each (upTo 0 t.cols) fun t j => t.put (j * 2) 32
      ({ t with escState := .normal },off)
  | _ => ({ t with escState := .normal },off)

/-- The final character of a CSI sequence. -/
def dispatch (t : Term) (off : Nat) (c : UInt8) : Term × Nat :=
  let r := csiExecute t off (Char.ofNat c.toNat)
  let u := { r.1 with escState := .normal }
  if r.2 < u.limit then (u,r.2) else output u r.2 c

/-- A character of a CSI sequence. -/
def csi (t : Term) (off : Nat) (c : UInt8) : Term × Nat :=
  if c = 63 then ({ t with escPriv := true },off)
  else if 48 ≤ c ∧ c ≤ 57 then
    let n := atLeastOne t.nparams
    ({ t with
      nparams := n
      params := Function.update t.params (n - 1) ((t.params (n - 1) * 10 + (c.toNat - 48)) % 65536) },off)
  else if c = 59 then ({ t with nparams := if t.nparams < 8 then t.nparams + 1 else t.nparams },off)
  else dispatch (if t.nparams = 0 ∧ c ≠ 115 ∧ c ≠ 117 then { t with nparams := 1 } else t) off c

def turn (s : Term × Nat) (c : UInt8) : Term × Nat :=
  match s.1.escState with
  | .esc => escape s.1 s.2 (Char.ofNat c.toNat)
  | .csi => csi s.1 s.2 c
  | .normal => output s.1 s.2 c

/-- `tty_print`; what goes to a raw master is not seen here. -/
def ttyPrint (t : Term) (string : List UInt8) : Term :=
  if t.stopped ∨ t.hasMaster then { t with stores := [] }
  else
    let r := (string.takeWhile (· ≠ 0)).foldl turn ({ t with stores := [] },(t.y * 256 + t.x) * 2)
    { r.1 with x := r.2 / 2 % 256, y := r.2 / 2 / 256 % 65536 }

def clamp (low high : Nat) (n : Int) : Nat := if n < low then low else if n > high then high else n.toNat

def ttyResize (t : Term) (cols rows : Int) : Term :=
  let cols := clamp 8 TTY_MAX_COLS cols
  let rows := clamp 2 TTY_MAX_ROWS rows
  let u : Term := { t with cols, rows, stores := [] }
  let u := u.each (upTo 0 (cols * rows)) fun u i => (u.store (i * 2) 32).store (i * 2 + 1) 0x07
  let u := u.each (upTo 0 (min rows t.rows)) fun u r => u.each (upTo 0 (min cols t.cols)) fun u c =>
    (u.store ((r * cols + c) * 2) (t.cells ((r * t.cols + c) * 2))).store ((r * cols + c) * 2 + 1)
      (t.cells ((r * t.cols + c) * 2 + 1))
  let linear := t.y <<< 8 ||| t.x
  let linear := min (linear / t.cols) (rows - 1) * cols + min (linear % t.cols) (cols - 1)
  { u with x := linear % 256, y := linear / 256 % 65536 }

inductive Event where
  | print (string : List UInt8)
  | resize (cols rows : Int)

def step (t : Term) : Event → Term
  | .print string => ttyPrint t string
  | .resize cols rows => ttyResize t cols rows

/-- `t'` is `t` after stores inside of the grid. -/
structure Writes (t t' : Term) : Prop where
  rest : t' = { t with cells := t'.cells, stores := t'.stores }
  inside : (∀ i ∈ t.stores, i < t.limit) → ∀ i ∈ t'.stores, i < t.limit

variable {t u : Term}

namespace Writes

lemma refl (t : Term) : Writes t t := ⟨rfl,fun inside => inside⟩

lemma limit (writes : Writes t u) : u.limit = t.limit := by rw [writes.rest]; rfl

lemma cols (writes : Writes t u) : u.cols = t.cols := by rw [writes.rest]
lemma rows (writes : Writes t u) : u.rows = t.rows := by rw [writes.rest]
lemma stride (writes : Writes t u) : u.stride = t.stride := by rw [writes.rest]; rfl

lemma trans (first : Writes t u) (second : Writes u v) : Writes t v := by
  refine ⟨?_,fun inside => ?_⟩
  · rw [second.rest,first.rest]
  have later := second.inside
  rw [first.limit] at later
  exact later (first.inside inside)

lemma store (inside : i < t.limit) : Writes t (t.store i v) :=
  ⟨rfl,fun before => forall_mem_cons.mpr ⟨inside,before⟩⟩

lemma pair (inside : i + 1 < t.limit) : Writes t ((t.store i c).store (i + 1) d) :=
  (store (by omega)).trans (store inside)

lemma each (turns : ∀ u, Writes t u → ∀ i ∈ is, Writes u (body u i)) : Writes t (t.each is body) := by
  have all : ∀ (is' : List Nat) (u : Term), (∀ i ∈ is', i ∈ is) → Writes t u → Writes t (is'.foldl body u) := by
    intro is'
    induction is' with
    | nil => exact fun u _ here => here
    | cons i is' ih =>
      intro u among here
      exact ih _ (fun j member => among j (.tail _ member)) (here.trans (turns u here i (among i mem_cons_self)))
  exact all is t (fun _ member => member) (refl t)

end Writes

lemma mem_upTo : i ∈ upTo a b ↔ a ≤ i ∧ i < b := by
  simp only [upTo,mem_range'_1]
  omega

lemma mem_downTo : i ∈ downTo a b ↔ b < i ∧ i ≤ a := by
  simp only [downTo,mem_reverse,mem_range'_1]
  omega

lemma byte_inside (low : row < t.rows) (left : j < t.stride) : row * t.stride + j < t.limit := by
  have rows : (row + 1) * t.stride ≤ t.rows * t.stride := Nat.mul_le_mul_right _ low
  rw [Nat.succ_mul] at rows
  have : t.limit = t.rows * t.stride := Nat.mul_comm _ _
  omega

lemma cell_inside (low : row < t.rows) (left : col < t.cols) : row * t.stride + col * 2 + 1 < t.limit :=
  byte_inside (j := col * 2 + 1) low (by rw [Term.stride]; omega)

lemma copyRow_writes (low : dst < t.rows) : Writes t (t.copyRow dst src) := by
  refine Writes.each fun u here j member => Writes.store ?_
  rw [here.limit,here.stride]
  exact byte_inside low (mem_upTo.mp member).2

lemma copyCell_writes (low : row < t.rows) (left : dst < t.cols) : Writes t (t.copyCell row dst src) :=
  Writes.pair (cell_inside low left)

lemma blank_writes (low : row < t.rows) (left : ∀ i ∈ is, i < t.cols) : Writes t (t.blank row is) := by
  refine Writes.each fun u here i member => Writes.pair ?_
  rw [here.limit,here.stride]
  exact cell_inside low (left i member)

lemma scroll_writes (some_ : 0 < t.rows) : Writes t t.scroll := by
  have last : t.limit = t.stride * (t.rows - 1) + t.stride := by
    rw [Term.limit,← Nat.mul_succ]
    congr 1
    omega
  have first : Writes t (t.each (upTo 0 (t.stride * (t.rows - 1))) fun t i => t.store i (t.cells (i + t.stride))) := by
    refine Writes.each fun u here i member => Writes.store ?_
    have := (mem_upTo.mp member).2
    rw [here.limit]
    omega
  refine first.trans (Writes.each fun u here i member => Writes.pair ?_)
  have left := (mem_upTo.mp member).2
  rw [first.cols] at left
  rw [here.limit,first.limit,last,Term.stride]
  omega

/-- The sizes that `tty_resize` gives. -/
structure Grid (cols rows : Nat) : Prop where
  wide : 8 ≤ cols ∧ cols ≤ TTY_MAX_COLS
  tall : 2 ≤ rows ∧ rows ≤ TTY_MAX_ROWS

/-- A cursor of a grid with `n` cells, in the split form in which it is kept. -/
structure OnGrid (n x y : Nat) : Prop where
  byte : x < 256
  inside : y * 256 + x < n

/-- What holds between two characters: the offset is a cell, and so are the stored cursors. -/
structure Live (t : Term) (off : Nat) : Prop where
  grid : Grid t.cols t.rows
  even : off % 2 = 0
  inside : off < t.limit
  stores : ∀ i ∈ t.stores, i < t.limit
  cursor : OnGrid (t.cols * t.rows) t.x t.y
  saved : OnGrid (t.cols * t.rows) t.savedX t.savedY

def Term.core (t : Term) := (t.cols,t.rows,t.stores,t.x,t.y,t.savedX,t.savedY)

lemma Live.of_core (live : Live t off) (same : u.core = t.core) : Live u off := by
  simp only [Term.core,Prod.mk.injEq] at same
  obtain ⟨cols,rows,stores,x,y,savedX,savedY⟩ := same
  have limit : u.limit = t.limit := by simp [Term.limit,Term.stride,cols,rows]
  obtain ⟨grid,even,inside,old,cursor,saved⟩ := live
  rw [← limit] at inside old
  rw [← stores] at old
  rw [← cols,← rows] at grid cursor saved
  rw [← x,← y] at cursor
  rw [← savedX,← savedY] at saved
  exact ⟨grid,even,inside,old,cursor,saved⟩

lemma Live.move (live : Live t off) (even : off' % 2 = 0) (inside : off' < t.limit) : Live t off' :=
  ⟨live.grid,even,inside,live.stores,live.cursor,live.saved⟩

lemma Live.writes (live : Live t off) (writes : Writes t u) : Live u off := by
  have stores := writes.inside live.stores
  have silent : Live { u with stores := t.stores } off := live.of_core (by rw [writes.rest]; rfl)
  exact ⟨silent.grid,live.even,silent.inside,writes.limit ▸ stores,silent.cursor,silent.saved⟩

lemma Live.row (live : Live t off) : off / 2 / t.cols < t.rows := by
  have inside := live.inside
  refine Nat.div_lt_of_lt_mul (Nat.div_lt_of_lt_mul ?_)
  rwa [← Nat.mul_assoc,Nat.mul_comm 2]

lemma Live.col (live : Live t off) : off / 2 % t.cols < t.cols := Nat.mod_lt _ (by have := live.grid.wide; omega)

lemma Live.place {row col : Nat} (live : Live t off) (low : row < t.rows) (left : col < t.cols) :
    Live t (t.offset row col) := by
  have inside := cell_inside low left
  refine live.move (Nat.mul_mod_left _ _) ?_
  have same : t.offset row col = row * t.stride + col * 2 := by rw [Term.offset,Term.stride,Nat.add_mul,Nat.mul_assoc]
  omega

lemma sgr_core (t : Term) (v : Nat) : (sgr t v).core = t.core := by
  rw [sgr.eq_def]
  split <;> first | rfl | (split_ifs <;> rfl)

lemma sub32_eq (le : b ≤ a) (small : a < 2 ^ 32) : sub32 a b = a - b := by
  rw [sub32]
  omega

lemma limit_eq (t : Term) : t.limit = t.cols * t.rows * 2 := by rw [Term.limit,Term.stride,Nat.mul_right_comm]

lemma erase_writes (inside : ∀ i ∈ is, i + 1 < t.limit) : Writes t (t.each is fun t i => t.put i 32) :=
  Writes.each fun u here i member => Writes.pair (by rw [here.limit]; exact inside i member)

lemma eraseDisplay_live (live : Live t off) : Live (csiExecute t off 'J').1 (csiExecute t off 'J').2 := by
  have even := live.even
  have size := limit_eq t
  have inside := live.inside
  have all {first n : Nat} (even : first % 2 = 0) (few : first + 2 * n ≤ t.limit + 1) i
    (member : i ∈ range' first n 2) :
      i + 1 < t.limit := by
    obtain ⟨k,low,rfl⟩ := mem_range'.mp member
    omega
  simp only [csiExecute]
  split
  case _ => exact live.writes (erase_writes (all even (by omega)))
  case _ => exact live.writes (erase_writes fun i member => by simpa using (mem_filter.mp member).2)
  case _ => exact (live.move rfl (by omega)).writes (erase_writes (all rfl (by omega)))
  case _ => exact (live.move rfl (by omega)).writes (erase_writes (all rfl (by omega)))
  case _ => exact live

lemma eraseLine_live (live : Live t off) : Live (csiExecute t off 'K').1 (csiExecute t off 'K').2 := by
  have col := live.col
  have upTo_inside {a b : Nat} (le : b ≤ t.cols) i (member : i ∈ upTo a b) : i < t.cols :=
    Nat.lt_of_lt_of_le (mem_upTo.mp member).2 le
  simp only [csiExecute]
  split
  case _ => exact live.writes (blank_writes live.row (upTo_inside Nat.le.refl))
  case _ => exact live.writes (blank_writes live.row (upTo_inside col))
  case _ => exact live.writes (blank_writes live.row (upTo_inside Nat.le.refl))
  case _ => exact live

lemma blankRows_writes (low : ∀ i ∈ is, i < t.rows) : Writes t (t.each is fun t i => t.blank i (upTo 0 t.cols)) :=
  Writes.each fun u here i member => blank_writes (by rw [here.rows]; exact low i member) fun j inside =>
    (mem_upTo.mp inside).2

lemma copyRows_writes {is : List Nat} {dst src : Nat → Nat} (low : ∀ i ∈ is, dst i < t.rows) :
    Writes t (t.each is fun t i => t.copyRow (dst i) (src i)) :=
  Writes.each fun u here i member => copyRow_writes (by rw [here.rows]; exact low i member)

lemma copyCells_writes {is : List Nat} {row : Nat} {dst src : Nat → Nat} (low : row < t.rows)
    (left : ∀ i ∈ is, dst i < t.cols) :
    Writes t (t.each is fun t i => t.copyCell row (dst i) (src i)) :=
  Writes.each fun u here i member => copyCell_writes (by rw [here.rows]; exact low)
    (by rw [here.cols]; exact left i member)

lemma lines_live (live : Live t off) :
    Live (csiExecute t off 'L').1 (csiExecute t off 'L').2 ∧
    Live (csiExecute t off 'M').1 (csiExecute t off 'M').2 := by
  have row := live.row
  have tall := live.grid.tall
  rw [TTY_MAX_ROWS] at tall
  have left : sub32 t.rows (off / 2 / t.cols) = t.rows - off / 2 / t.cols := sub32_eq (by omega) (by omega)
  have most : (if atLeastOne (t.params 0) > sub32 t.rows (off / 2 / t.cols) then sub32 t.rows
    (off / 2 / t.cols) else atLeastOne (t.params 0)) ≤
      t.rows - off / 2 / t.cols := by split <;> omega
  simp only [csiExecute]
  generalize (if atLeastOne (t.params 0) > sub32 t.rows (off / 2 / t.cols) then _ else _) = n at most ⊢
  constructor
  · have moved : Writes t (t.each (downTo t.rows (off / 2 / t.cols + n)) fun t i => t.copyRow (i - 1) (i - 1 - n)) :=
      copyRows_writes fun i member => by have := mem_downTo.mp member; omega
    refine live.writes (moved.trans (blankRows_writes fun i member => ?_))
    rw [moved.rows]
    have := mem_upTo.mp member
    omega
  · have moved : Writes t (t.each (upTo (off / 2 / t.cols) (t.rows - n)) fun t i => t.copyRow i (i + n)) :=
      copyRows_writes fun i member => by have := mem_upTo.mp member; omega
    exact live.writes (moved.trans (blankRows_writes fun i member => (mem_upTo.mp member).2))

lemma chars_live (live : Live t off) :
    Live (csiExecute t off '@').1 (csiExecute t off '@').2 ∧
    Live (csiExecute t off 'P').1 (csiExecute t off 'P').2 := by
  have row := live.row
  simp only [csiExecute]
  constructor
  · have most : (if atLeastOne (t.params 0) > t.cols - off / 2 % t.cols then t.cols - off / 2 % t.cols else atLeastOne
      (t.params 0)) ≤
        t.cols - off / 2 % t.cols := by split <;> omega
    generalize (if atLeastOne (t.params 0) > t.cols - off / 2 % t.cols then _ else _) = n at most ⊢
    have moved : Writes t (t.each (downTo t.cols (off / 2 % t.cols + n)) fun u i =>
      u.copyCell (off / 2 / t.cols) (i - 1) (i - 1 - n)) :=
      copyCells_writes row fun i member => by have := mem_downTo.mp member; omega
    refine live.writes (moved.trans (blank_writes (by rw [moved.rows]; exact row) fun i member => ?_))
    rw [moved.cols]
    have := mem_upTo.mp member
    omega
  · have moved : Writes t (t.each (upTo (off / 2 % t.cols) (t.cols - atLeastOne (t.params 0))) fun u i =>
        u.copyCell (off / 2 / t.cols) i (i + atLeastOne (t.params 0))) :=
      copyCells_writes row fun i member => by have := mem_upTo.mp member; omega
    exact live.writes (moved.trans (blank_writes (by rw [moved.rows]; exact row) fun i member =>
      (mem_upTo.mp member).2))

lemma csiExecute_live (live : Live t off) (cmd : Char) : Live (csiExecute t off cmd).1 (csiExecute t off cmd).2 := by
  have row := live.row
  have col := live.col
  have tall := live.grid.tall
  have size := limit_eq t
  rw [csiExecute.eq_def]
  dsimp only
  split
  case _ => exact live.place (by omega) col
  case _ => exact live.place (by split <;> omega) col
  case _ => exact live.place row (by split <;> omega)
  case _ => exact live.place row (by omega)
  case _ => exact live.place row (by split <;> omega)
  case _ => exact live.place (by split <;> omega) (by split <;> omega)
  case _ => exact live.place (by split <;> omega) (by split <;> omega)
  case _ => exact eraseDisplay_live live
  case _ => exact eraseLine_live live
  case _ => exact (lines_live live).1
  case _ => exact (lines_live live).2
  case _ => exact (chars_live live).1
  case _ => exact (chars_live live).2
  case _ =>
    exact live.of_core (foldlRecOn (motive := fun u => u.core = t.core) _ _ rfl fun u same k _ =>
      (sgr_core u _).trans same)
  case _ => exact ⟨live.grid,live.even,live.inside,live.stores,live.cursor,live.cursor⟩
  case _ =>
    have saved := live.saved.inside
    exact ⟨live.grid,by omega,by change _ < t.limit; omega,live.stores,live.saved,live.saved⟩
  case _ => exact live

lemma Live.put (live : Live t off) (c : UInt8) : Writes t (t.put off c) := by
  have even := live.even
  have inside := live.inside
  have size := limit_eq t
  exact Writes.pair (by omega)

lemma tab_live (n : Nat) (live : Live t off) : Live (tab n t off).1 (tab n t off).2 := by
  induction n generalizing t off with
  | zero => exact live
  | succ n ih =>
    rw [tab]
    split
    swap
    next => exact live
    next before =>
      have next : off + 2 = t.offset (off / 2 / t.cols) (off / 2 % t.cols + 1) := by
        have even := live.even
        have split_ := Nat.div_add_mod' (off / 2) t.cols
        rw [Term.offset]
        omega
      exact ih ((next ▸ live.place live.row (by omega)).writes (live.put 32))

section
variable (live : Live t off)
include live

/-- The offset may have come into the row behind the last one. -/
lemma outputChar_next (c : UInt8) : ∃ u off', outputChar t off c = (u,off') ∧ (∃ old, Live u old) ∧
    off' % 2 = 0 ∧ off' < u.limit + u.stride := by
  have even := live.even
  have inside := live.inside
  have start : off / t.stride * t.stride ≤ off := Nat.div_mul_le_self _ _
  have whole : off / t.stride * t.stride % 2 = 0 := by rw [Term.stride,← Nat.mul_assoc,Nat.mul_mod_left]
  have width : t.stride = t.cols * 2 := rfl
  rw [outputChar.eq_def]
  split
  case _ => exact ⟨_,_,rfl,⟨off,live.of_core rfl⟩,even,by change off < t.limit + t.stride; omega⟩
  case _ => exact ⟨_,_,rfl,⟨off,live⟩,whole,by omega⟩
  case _ =>
    split_ifs
    · exact ⟨_,_,rfl,⟨off,live⟩,by omega,by omega⟩
    · exact ⟨_,_,rfl,⟨off,live⟩,by omega,by omega⟩
    · exact ⟨_,_,rfl,⟨off,live⟩,even,by omega⟩
  case _ => exact ⟨_,_,rfl,⟨off,live⟩,by split <;> omega,by split <;> omega⟩
  case _ =>
    have tabbed := tab_live (8 - off / 2 % t.cols % 8) live
    exact ⟨_,_,rfl,⟨_,tabbed⟩,tabbed.even,Nat.lt_add_right _ tabbed.inside⟩
  case _ =>
    split
    · have wrote := live.put c
      refine ⟨_,_,rfl,⟨off,live.writes wrote⟩,by omega,?_⟩
      rw [wrote.limit,wrote.stride]
      have := live.grid.wide
      omega
    · exact ⟨_,_,rfl,⟨off,live⟩,even,by omega⟩

lemma output_live (c : UInt8) : Live (output t off c).1 (output t off c).2 := by
  obtain ⟨u,off',is,⟨old,here⟩,even,near⟩ := outputChar_next live c
  have width : u.stride = u.cols * 2 := rfl
  have some_ := here.inside
  simp only [output,is]
  split
  · exact (here.move (by omega) (by omega)).writes (scroll_writes (by have := here.grid.tall; omega))
  · exact here.move even (by omega)

lemma escape_live (c : Char) : Live (escape t off c).1 (escape t off c).2 := by
  have width : t.stride = t.cols * 2 := rfl
  have even := live.even
  have inside := live.inside
  rw [escape.eq_def]
  split
  case _ => exact live.of_core rfl
  case _ =>
    split
    · exact (live.move (by omega) (by omega)).of_core rfl
    have tall := live.grid.tall
    have last : t.limit = t.stride * (t.rows - 1) + t.stride := by
      rw [Term.limit,← Nat.mul_succ]
      congr 1
      omega
    have moved : Writes t (t.each (range' t.stride (t.stride * (t.rows - 1) + 1 - t.stride)).reverse fun u j =>
      u.store j (u.cells (j - u.stride))) := by
      refine Writes.each fun u here j member => Writes.store ?_
      rw [here.limit]
      have := mem_range'_1.mp (mem_reverse.mp member)
      have := live.grid.wide
      omega
    refine (live.writes (moved.trans (Writes.each fun u here j member => Writes.pair ?_))).of_core rfl
    have left := (mem_upTo.mp member).2
    rw [moved.cols] at left
    rw [here.limit,moved.limit]
    omega
  case _ => exact live.of_core rfl

lemma dispatch_live (c : UInt8) : Live (dispatch t off c).1 (dispatch t off c).2 := by
  have after : Live { (csiExecute t off (Char.ofNat c.toNat)).1 with escState := .normal }
    (csiExecute t off (Char.ofNat c.toNat)).2 :=
    (csiExecute_live live _).of_core rfl
  rw [dispatch,if_pos after.inside]
  exact after

lemma csi_live (c : UInt8) : Live (csi t off c).1 (csi t off c).2 := by
  rw [csi]
  split_ifs with priv digit more
  · exact live.of_core rfl
  · exact live.of_core rfl
  · exact live.of_core rfl
  · exact live.of_core rfl
  · exact dispatch_live (t := { t with nparams := 1 }) (live.of_core rfl) c
  · exact dispatch_live live c

lemma turn_live (c : UInt8) : Live (turn (t,off) c).1 (turn (t,off) c).2 := by
  rw [turn]
  split
  · exact escape_live live _
  · exact csi_live live c
  · exact output_live live c

end

lemma turns_live (string : List UInt8) (live : Live t off) :
    Live (string.foldl turn (t,off)).1 (string.foldl turn (t,off)).2 := by
  induction string generalizing t off with
  | nil => exact live
  | cons c string ih => exact ih (turn_live live c)

/-- What holds between two calls. -/
structure OnScreen (t : Term) : Prop where
  grid : Grid t.cols t.rows
  stores : ∀ i ∈ t.stores, i < t.cols * t.rows * 2
  cursor : OnGrid (t.cols * t.rows) t.x t.y
  saved : t.savedX < 256

/-- The saved cursor is in the grid when something is printed. -/
def SavedFits (t : Term) : Event → Prop
  | .print _ => t.savedY * 256 + t.savedX < t.cols * t.rows
  | .resize .. => True

lemma OnScreen.live (here : OnScreen t) (fits : t.savedY * 256 + t.savedX < t.cols * t.rows) :
    Live { t with stores := [] } ((t.y * 256 + t.x) * 2) := by
  have inside := here.cursor.inside
  have size := limit_eq t
  exact ⟨here.grid,Nat.mul_mod_left _ _,by change _ < t.limit; omega,nofun,here.cursor,here.saved,fits⟩

lemma ttyPrint_onScreen (here : OnScreen t) (fits : SavedFits t (.print string)) : OnScreen (ttyPrint t string) := by
  rw [ttyPrint]
  split
  · exact ⟨here.grid,nofun,here.cursor,here.saved⟩
  have all := turns_live (string.takeWhile (· ≠ 0)) (here.live fits)
  generalize (string.takeWhile (· ≠ 0)).foldl turn _ = r at all
  have size := limit_eq r.1
  have inside := all.inside
  refine ⟨all.grid,size ▸ all.stores,⟨Nat.mod_lt _ (by decide),?_⟩,all.saved.byte⟩
  dsimp only
  omega

lemma clamp_bounds (low high : Nat) (n : Int) (le : low ≤ high) : low ≤ clamp low high n ∧ clamp low high n ≤ high := by
  rw [clamp]
  split_ifs <;> omega

lemma resize_writes (cells : Nat → UInt8) (oc : Nat) (u : Term) (wide : u.cols = w) (tall : u.rows = h)
    (left : mc ≤ w) (low : mr ≤ h) :
    Writes u ((u.each (upTo 0 (w * h)) fun u i => (u.store (i * 2) 32).store (i * 2 + 1) 0x07).each
      (upTo 0 mr) fun u r =>
      u.each (upTo 0 mc) fun u c => (u.store ((r * w + c) * 2) (cells ((r * oc + c) * 2))).store ((r * w + c) * 2 + 1)
        (cells ((r * oc + c) * 2 + 1))) := by
  have size := limit_eq u
  rw [wide,tall] at size
  have blanked : Writes u (u.each (upTo 0 (w * h)) fun u i => (u.store (i * 2) 32).store (i * 2 + 1) 0x07) := by
    refine Writes.each fun v here i member => Writes.pair ?_
    have := (mem_upTo.mp member).2
    rw [here.limit]
    omega
  refine blanked.trans (Writes.each fun v here r row => Writes.each fun v' here' c col => Writes.pair ?_)
  have inside : r * u.stride + c * 2 + 1 < u.limit :=
    cell_inside (by have := (mem_upTo.mp row).2; omega) (by have := (mem_upTo.mp col).2; omega)
  have same : (r * w + c) * 2 = r * u.stride + c * 2 := by rw [Term.stride,wide,Nat.add_mul,Nat.mul_assoc]
  rw [here'.limit,here.limit,blanked.limit,same]
  exact inside

lemma ttyResize_onScreen (here : OnScreen t) (cols rows : Int) : OnScreen (ttyResize t cols rows) := by
  have wide := clamp_bounds 8 TTY_MAX_COLS cols (by decide)
  have tall := clamp_bounds 2 TTY_MAX_ROWS rows (by decide)
  rw [ttyResize]
  generalize clamp 8 TTY_MAX_COLS cols = w at wide ⊢
  generalize clamp 2 TTY_MAX_ROWS rows = h at tall ⊢
  have writes := resize_writes t.cells t.cols ({ t with cols := w, rows := h, stores := [] }) rfl rfl
    (Nat.min_le_left w t.cols) (Nat.min_le_left h t.rows)
  generalize Term.each (Term.each _ _ _) _ _ = u at writes ⊢
  have row : min ((t.y <<< 8 ||| t.x) / t.cols) (h - 1) < h := by omega
  have inside : min ((t.y <<< 8 ||| t.x) / t.cols) (h - 1) * w + min ((t.y <<< 8 ||| t.x) % t.cols) (w - 1) <
    w * h := by
    have := Nat.mul_le_mul_right w (Nat.succ_le_of_lt row)
    rw [Nat.succ_mul,Nat.mul_comm h] at this
    omega
  have sizes : u.cols = w ∧ u.rows = h ∧ u.savedX = t.savedX := by rw [writes.rest]; exact ⟨rfl,rfl,rfl⟩
  refine ⟨?_,?_,⟨Nat.mod_lt _ (by decide),?_⟩,?_⟩
  · rw [sizes.1,sizes.2.1]
    exact ⟨wide,tall⟩
  · rw [sizes.1,sizes.2.1]
    have stores := writes.inside nofun
    rwa [limit_eq] at stores
  · dsimp only
    rw [sizes.1,sizes.2.1]
    omega
  · rw [sizes.2.2]
    exact here.saved

/-- If the saved cursor is in the grid whenever something is printed, every store is inside of the
grid and the cursor is one of its cells, after every call. -/
theorem output_on_screen (events : List Event) (here : OnScreen t) (legal : Run.Legal step SavedFits t events) :
    OnScreen (Run.after step t events) := by
  refine legal.invariant (fun t e here fits => ?_) here
  cases e with
  | print string => exact ttyPrint_onScreen here fits
  | resize cols rows => exact ttyResize_onScreen here cols rows

def fresh (cols rows : Nat) : Term where
  cols := cols
  rows := rows
  cells := fun i => if i % 2 = 0 then 32 else 0x07
  stores := []
  x := 0
  y := 0
  colour := 0x07
  defaultColour := 0x07
  savedX := 0
  savedY := 0
  savedColour := 0x07
  escState := .normal
  escPriv := false
  nparams := 0
  params := fun _ => 0
  opost := true
  onlcr := true
  stopped := false
  hasMaster := false

lemma fresh_onScreen (grid : Grid cols rows) : OnScreen (fresh cols rows) := by
  have some_ : 0 < cols * rows :=
    Nat.mul_pos (Nat.lt_of_lt_of_le (by decide) grid.wide.1) (Nat.lt_of_lt_of_le (by decide) grid.tall.1)
  exact ⟨grid,nofun,⟨by simp [fresh],by simpa [fresh] using some_⟩,by simp [fresh]⟩

/-- A line, the cursor is saved, and comes back after a resize. -/
theorem output_on_screen_resized :
    let events : List Event := [.print [104,10],.print [27,91,115],.resize 80 2,.print [27,91,117,33]]
    Run.Legal step SavedFits (fresh 80 25) events ∧ OnScreen (Run.after step (fresh 80 25) events) := by
  intro events
  have legal : Run.Legal step SavedFits (fresh 80 25) events := by
    refine ⟨?_,?_,trivial,?_,trivial⟩
    all_goals
      change _ < _
      decide +kernel
  exact ⟨legal,output_on_screen events (fresh_onScreen ⟨by decide,by decide⟩) legal⟩

/-- The cursor is saved in the last row of 64 and comes back when there are two rows. -/
theorem restored_outside :
    let t := Run.after step (fresh 8 64) [.print (replicate 63 10),.print [27,91,115],.resize 8 2,.print [27,91,117]]
    1008 ∈ t.stores ∧ t.cols * t.rows * 2 = 32 ∧ t.y * 256 + t.x = 497 := by
  decide +kernel

end UbixOS.Posix.Tty
