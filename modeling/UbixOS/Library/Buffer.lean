import Mathlib

/-! Byte buffers with C pointer arithmetic, and fixed layouts of values inside
them. A buffer is total: a length always travels beside it, as it does in C. -/
namespace UbixOS.Library

abbrev Buffer := Nat → UInt8

abbrev Bytes (n : Nat) := Fin n → UInt8

namespace Buffer

def zero : Buffer := fun _ => 0

/-- The pointer `b + off`. -/
def drop (b : Buffer) (off : Nat) : Buffer := fun i => b (off + i)

def take (b : Buffer) (n : Nat) : Buffer := fun i => if i < n then b i else 0

/-- `memcpy(dst + off, src, n)`. -/
def copy (dst : Buffer) (off : Nat) (src : Buffer) (n : Nat) : Buffer :=
  fun i => if off ≤ i ∧ i < off + n then src (i - off) else dst i

def cat (n : Nat) (b rest : Buffer) : Buffer := fun i => if i < n then b i else rest (i - n)

def toBytes (b : Buffer) (n : Nat) : Bytes n := fun i => b i.val

@[simp] lemma zero_apply (i : Nat) : zero i = 0 := rfl
lemma drop_apply (b : Buffer) (off i : Nat) : b.drop off i = b (off + i) := rfl
lemma take_apply (b : Buffer) (n i : Nat) : b.take n i = if i < n then b i else 0 := rfl
lemma copy_apply (dst : Buffer) (off : Nat) (src : Buffer) (n i : Nat) :
    dst.copy off src n i = if off ≤ i ∧ i < off + n then src (i - off) else dst i := rfl

lemma cat_apply (n : Nat) (b rest : Buffer) (i : Nat) : cat n b rest i = if i < n then b i else rest (i - n) := rfl

lemma take_take (b : Buffer) (n m : Nat) : (b.take n).take m = b.take (min n m) := by
  funext i
  simp only [take_apply]
  grind

end Buffer

/-- The array as a buffer, with zeros after its last byte. -/
def Bytes.toBuffer {n : Nat} (b : Bytes n) : Buffer := fun i => if h : i < n then b ⟨i,h⟩ else 0

def Bytes.zero {n : Nat} : Bytes n := fun _ => 0

@[simp] lemma Bytes.toBuffer_toBytes (b : Bytes n) : b.toBuffer.toBytes n = b := by
  funext i
  simp [toBuffer,Buffer.toBytes]

@[simp] lemma Buffer.toBytes_toBuffer (b : Buffer) (n : Nat) : (b.toBytes n).toBuffer = b.take n := by
  funext i
  simp [Bytes.toBuffer,Buffer.toBytes,Buffer.take_apply]

@[simp] lemma Bytes.zero_toBuffer : (zero : Bytes n).toBuffer = Buffer.zero := by
  funext i
  simp [toBuffer,zero]

/-- Little-endian reading of `n` bytes. -/
def leGet : Nat → Buffer → Nat
  | 0, _ => 0
  | n+1, b => (b 0).toNat + 256 * leGet n (b.drop 1)

/-- All little-endian bytes of a number; a field keeps as many as it is wide. -/
def lePut (value : Nat) : Buffer := fun i => UInt8.ofNat (value / 256^i)

lemma lePut_drop (value : Nat) : (lePut value).drop 1 = lePut (value / 256) := by
  funext i
  simp only [Buffer.drop_apply,lePut,Nat.add_comm 1 i,Nat.pow_succ',Nat.div_div_eq_div_mul]

lemma leGet_lePut (n value : Nat) : leGet n (lePut value) = value % 256^n := by
  induction n generalizing value with
  | zero => simp [leGet,Nat.mod_one]
  | succ n ih =>
    rw [leGet,lePut_drop,ih,Nat.pow_succ',Nat.mod_mul]
    simp [lePut]

lemma leGet_congr (n : Nat) (b c : Buffer) (same : ∀ i < n, b i = c i) : leGet n b = leGet n c := by
  induction n generalizing b c with
  | zero => rfl
  | succ n ih =>
    rw [leGet,leGet,same 0 (by omega)]
    congr 2
    exact ih _ _ fun i bound => same (1 + i) (by omega)

/-- A fixed layout of the values of `α` in the first `size` bytes of a buffer.
Reading depends on those bytes only and returns what was stored. -/
structure Layout (α : Type) where
  size : Nat
  put : α → Buffer
  get : Buffer → α
  get_put : ∀ a, get (put a) = a
  get_congr : ∀ b c : Buffer, (∀ i < size, b i = c i) → get b = get c

namespace Layout

def pad (n : Nat) : Layout Unit where
  size := n
  put := fun _ => Buffer.zero
  get := fun _ => ()
  get_put := fun _ => rfl
  get_congr := fun _ _ _ => rfl

def u8 : Layout UInt8 where
  size := 1
  put := fun v => lePut v.toNat
  get := fun b => b 0
  get_put := by intro v; simp [lePut]
  get_congr := fun b c same => same 0 (by decide)

def u16 : Layout UInt16 where
  size := 2
  put := fun v => lePut v.toNat
  get := fun b => UInt16.ofNat (leGet 2 b)
  get_put := by
    intro v
    have fits : v.toNat < 256^2 := v.toNat_lt
    rw [leGet_lePut,Nat.mod_eq_of_lt fits,UInt16.ofNat_toNat]
  get_congr := fun b c same => by rw [leGet_congr 2 b c same]

def u32 : Layout UInt32 where
  size := 4
  put := fun v => lePut v.toNat
  get := fun b => UInt32.ofNat (leGet 4 b)
  get_put := by
    intro v
    have fits : v.toNat < 256^4 := v.toNat_lt
    rw [leGet_lePut,Nat.mod_eq_of_lt fits,UInt32.ofNat_toNat]
  get_congr := fun b c same => by rw [leGet_congr 4 b c same]

def u64 : Layout UInt64 where
  size := 8
  put := fun v => lePut v.toNat
  get := fun b => UInt64.ofNat (leGet 8 b)
  get_put := by
    intro v
    have fits : v.toNat < 256^8 := v.toNat_lt
    rw [leGet_lePut,Nat.mod_eq_of_lt fits,UInt64.ofNat_toNat]
  get_congr := fun b c same => by rw [leGet_congr 8 b c same]

def bytes (n : Nat) : Layout (Bytes n) where
  size := n
  put := Bytes.toBuffer
  get := fun b => b.toBytes n
  get_put := Bytes.toBuffer_toBytes
  get_congr := fun b c same => by funext i; exact same i i.isLt

def vec (a : Layout α) (n : Nat) : Layout (Fin n → α) where
  size := n * a.size
  put := fun v i => if h : i / a.size < n then a.put (v ⟨i / a.size,h⟩) (i % a.size) else 0
  get := fun b k => a.get (b.drop (k * a.size))
  get_put := by
    intro v
    funext k
    rw [a.get_congr _ (a.put (v k)),a.get_put]
    intro i bound
    have here : (k * a.size + i) / a.size = k := by
      rw [Nat.mul_comm,Nat.mul_add_div (by omega),Nat.div_eq_of_lt bound,Nat.add_zero]
    have rest : (k * a.size + i) % a.size = i := by
      rw [Nat.mul_comm,Nat.mul_add_mod,Nat.mod_eq_of_lt bound]
    simp only [Buffer.drop_apply,here,rest,k.isLt,dite_true]
  get_congr := by
    intro b c same
    funext k
    apply a.get_congr
    intro i bound
    have inside : (k + 1) * a.size ≤ n * a.size := Nat.mul_le_mul_right _ k.isLt
    rw [Nat.add_mul] at inside
    exact same _ (by omega)

def pair (a : Layout α) (b : Layout β) : Layout (α × β) where
  size := a.size + b.size
  put := fun v => Buffer.cat a.size (a.put v.1) (b.put v.2)
  get := fun buf => (a.get buf,b.get (buf.drop a.size))
  get_put := by
    rintro ⟨x,y⟩
    congr 1
    · rw [a.get_congr _ (a.put x),a.get_put]
      intro i bound
      rw [Buffer.cat_apply,if_pos bound]
    · rw [b.get_congr _ (b.put y),b.get_put]
      intro i _
      rw [Buffer.drop_apply,Buffer.cat_apply,if_neg (by omega),Nat.add_sub_cancel_left]
  get_congr := by
    intro buf buf' same
    congr 1
    · exact a.get_congr _ _ fun i bound => same i (by omega)
    · exact b.get_congr _ _ fun i bound => same _ (by omega)

/-- The same bytes under another name of the value. -/
def iso (a : Layout α) (view : β → α) (back : α → β) (inverse : ∀ v, back (view v) = v) : Layout β where
  size := a.size
  put := fun v => a.put (view v)
  get := fun b => back (a.get b)
  get_put := by intro v; rw [a.get_put,inverse]
  get_congr := fun b c same => by rw [a.get_congr b c same]

variable (layout : Layout α)

lemma get_drop_congr {b c : Buffer} (same : ∀ i < n, b i = c i) (inside : off + layout.size ≤ n) :
    layout.get (b.drop off) = layout.get (c.drop off) :=
  layout.get_congr _ _ fun i low => same _ (by omega)

end Layout

end UbixOS.Library
