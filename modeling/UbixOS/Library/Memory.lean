import UbixOS.Library.Buffer

/-! Byte memory with 64-bit addresses that wrap around, as a kernel reads and writes it
through user pointers. -/
namespace UbixOS.Library

abbrev Memory := UInt64 → UInt8

namespace Memory

def view (m : Memory) (a : UInt64) : Buffer := fun i => m (a + UInt64.ofNat i)

/-- `memcpy((void *)a, src, n)`. -/
def store (m : Memory) (a : UInt64) (src : Buffer) (n : Nat) : Memory :=
  fun x => if (x - a).toNat < n then src (x - a).toNat else m x

lemma store_apply (m : Memory) (a : UInt64) (src : Buffer) (n : Nat) (x : UInt64) :
    m.store a src n x = if (x - a).toNat < n then src (x - a).toNat else m x := rfl

lemma sub_toNat_of_le {a x : UInt64} (le : a.toNat ≤ x.toNat) : (x - a).toNat = x.toNat - a.toNat :=
  UInt64.toNat_sub_of_le _ _ (UInt64.le_iff_toNat_le.mpr le)

/-- The bytes that a store of `n` bytes at `a` writes, when it does not wrap. -/
lemma store_outside {m : Memory} (fits : a.toNat + n ≤ 2^64)
    (outside : x.toNat < a.toNat ∨ a.toNat + n ≤ x.toNat) : m.store a src n x = m x := by
  rw [store_apply,if_neg]
  rcases outside with below | above
  · rw [UInt64.toNat_sub]
    omega
  · rw [sub_toNat_of_le (by omega)]
    omega

lemma view_toNat (fits : a.toNat + n ≤ 2^64) (bound : i < n) :
    (a + UInt64.ofNat i).toNat = a.toNat + i := by
  rw [UInt64.toNat_add,UInt64.toNat_ofNat']
  omega

lemma get_congr (layout : Layout α) {m m' : Memory} {a : UInt64} (fits : a.toNat + layout.size ≤ 2^64)
    (same : ∀ x : UInt64, a.toNat ≤ x.toNat → x.toNat < a.toNat + layout.size → m' x = m x) :
    layout.get (m'.view a) = layout.get (m.view a) := by
  apply layout.get_congr
  intro i bound
  have place := view_toNat fits bound
  exact same _ (by omega) (by omega)

lemma get_store (layout : Layout α) (m : Memory) (a : UInt64) (v : α) (fits : a.toNat + layout.size ≤ 2^64) :
    layout.get ((m.store a (layout.put v) layout.size).view a) = v := by
  rw [layout.get_congr _ (layout.put v),layout.get_put]
  intro i bound
  have place := view_toNat fits bound
  have off : (a + UInt64.ofNat i - a).toNat = i := by
    rw [sub_toNat_of_le (by omega)]
    omega
  rw [view,store_apply,off,if_pos bound]

end Memory

/-- Clearing the low `k` bits of a number below `2^w`. -/
lemma and_highMask (le : k ≤ w) (small : x < 2^w) : x &&& (2^w - 2^k) = x / 2^k * 2^k := by
  have mask : 2^w - 2^k = (2^(w - k) - 1) * 2^k := by
    rw [Nat.sub_mul,← Nat.pow_add,Nat.sub_add_cancel le,Nat.one_mul]
  apply Nat.eq_of_testBit_eq
  intro j
  rw [Nat.testBit_and,mask,Nat.testBit_mul_two_pow,Nat.testBit_mul_two_pow,Nat.testBit_two_pow_sub_one,
    Nat.testBit_div_two_pow]
  by_cases low : k ≤ j
  · rw [Nat.sub_add_cancel low]
    by_cases high : j < w
    · simp [low]
      omega
    · rw [Nat.testBit_lt_two_pow (Nat.lt_of_lt_of_le small (Nat.pow_le_pow_right (by decide) (Nat.not_lt.mp high)))]
      simp
  · simp [low]

end UbixOS.Library
