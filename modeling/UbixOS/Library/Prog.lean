import UbixOS.Library.Fallible

/-! Programs over typed calls, as code that sees the status of each call it makes.
The same program runs on any machine that answers the calls; two machines that
agree call by call agree on every program. -/
namespace UbixOS.Library

inductive Prog (C : Type → Type) (ε α : Type) : Type 1
  | ret (a : α)
  | fail (e : ε)
  | call {β : Type} (c : C β) (next : Except ε β → Prog C ε α)

namespace Prog

variable {C : Type → Type} {ε σ τ α β : Type}

def bind : Prog C ε α → (α → Prog C ε β) → Prog C ε β
  | ret a, f => f a
  | fail e, _ => fail e
  | call c next, f => call c fun r => (next r).bind f

instance : Monad (Prog C ε) where
  pure := ret
  bind := bind

/-- One call, whose failure ends the program. -/
def perform (c : C α) : Prog C ε α := call c fun
  | .ok a => ret a
  | .error e => fail e

/-- A failure is reported under the caller's own code. -/
def orFail (e : ε) : Prog C ε α → Prog C ε α
  | ret a => ret a
  | fail _ => fail e
  | call c next => call c fun r => (next r).orFail e

/-- The status is handed to the caller instead of ending the program. -/
def attempt : Prog C ε α → Prog C ε (Except ε α)
  | ret a => ret (.ok a)
  | fail e => ret (.error e)
  | call c next => call c fun r => (next r).attempt

def require (condition : Bool) (e : ε) : Prog C ε Unit := if condition then ret () else fail e

/-- The program on a machine that answers calls by `h`. -/
def interp (h : {β : Type} → C β → Fallible ε σ β) : Prog C ε α → Fallible ε σ α
  | ret a => pure a
  | fail e => Fallible.fail e
  | call c next => (h c).attempt >>= fun r => (next r).interp h

def total (h : {β : Type} → C β → τ → β × τ) (c : C β) : Fallible ε τ β := ⟨fun t => (.ok (h c t).1,(h c t).2)⟩

/-- Each call that the program makes satisfies `P` in the state it is made in. -/
def Meets (h : {β : Type} → C β → τ → β × τ) (P : {β : Type} → C β → τ → Prop) : Prog C ε α → τ → Prop
  | ret _, _ | fail _, _ => True
  | call c next, t => P c t ∧ (next (.ok (h c t).1)).Meets h P (h c t).2

lemma Meets.invariant {h : {β : Type} → C β → τ → β × τ} {P : {β : Type} → C β → τ → Prop} {I : τ → Prop}
    (step : ∀ {β : Type} (c : C β) (t : τ), I t → P c t → I (h c t).2) {x : Prog C ε α} {t : τ}
    (meets : x.Meets h P t) (start : I t) : I ((x.interp (total h)).run t).2 := by
  induction x generalizing t with
  | ret a | fail e => exact start
  | call c next ih => exact ih _ meets.2 (step c t start meets.1)

section
variable (h : {β : Type} → C β → Fallible ε σ β)

@[simp] lemma interp_pure (a : α) : (pure a : Prog C ε α).interp h = pure a := rfl
@[simp] lemma interp_fail (e : ε) : (fail e : Prog C ε α).interp h = Fallible.fail e := rfl

lemma interp_bind (x : Prog C ε α) (f : α → Prog C ε β) (s : σ) :
    ((x >>= f).interp h).run s = (x.interp h >>= fun a => (f a).interp h).run s := by
  induction x generalizing s with
  | ret a | fail e => rfl
  | call c next ih =>
    have left : ((call c next >>= f).interp h).run s = ((next ((h c).run s).1 >>= f).interp h).run ((h c).run s).2 :=
      rfl
    have right : ((call c next).interp h >>= fun a => (f a).interp h).run s =
        ((next ((h c).run s).1).interp h >>= fun a => (f a).interp h).run ((h c).run s).2 := rfl
    rw [left,right,ih]

lemma interp_perform (c : C α) (s : σ) : ((perform c).interp h).run s = (h c).run s := by
  have step : ((perform c).interp h).run s = ((match ((h c).run s).1 with
      | .ok a => ret a
      | .error e => fail e : Prog C ε α).interp h).run ((h c).run s).2 := rfl
  rw [step]
  rcases (h c).run s with ⟨e | a,t⟩ <;> rfl

lemma interp_orFail (x : Prog C ε α) (e : ε) (s : σ) :
    ((x.orFail e).interp h).run s = ((x.interp h).orFail e).run s := by
  induction x generalizing s with
  | ret a | fail e => rfl
  | call c next ih =>
    have left : (((call c next).orFail e).interp h).run s =
        (((next ((h c).run s).1).orFail e).interp h).run ((h c).run s).2 := rfl
    have right : (((call c next).interp h).orFail e).run s =
        (((next ((h c).run s).1).interp h).orFail e).run ((h c).run s).2 := rfl
    rw [left,right,ih]

lemma interp_attempt_bind (c : C α) (f : Except ε α → Prog C ε β) (s : σ) :
    (((perform c).attempt >>= f).interp h).run s = ((f ((h c).run s).1).interp h).run ((h c).run s).2 := by
  have step : (((perform c).attempt >>= f).interp h).run s = (((match ((h c).run s).1 with
      | .ok a => ret a
      | .error e => fail e : Prog C ε α).attempt >>= f).interp h).run ((h c).run s).2 := rfl
  rw [step]
  cases ((h c).run s).1 <;> rfl

end

end Prog

end UbixOS.Library
