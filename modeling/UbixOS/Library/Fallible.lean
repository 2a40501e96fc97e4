import Mathlib

/-! State-changing computations that may fail. A failure keeps the state reached
so far, as an early `return -1` does in C. -/
namespace UbixOS.Library

lemma bind_ok {x : Except ε α} (found : (x >>= f) = .ok b) : ∃ a, x = .ok a ∧ f a = .ok b := by
  cases x with
  | error e => cases found
  | ok a => exact ⟨a,rfl,found⟩

lemma bind_error {x : Except ε α} (found : (x >>= f) = .error e) :
    x = .error e ∨ ∃ a, x = .ok a ∧ f a = .error e := by
  cases x with
  | error e' =>
    cases found
    exact .inl rfl
  | ok a => exact .inr ⟨a,rfl,found⟩

structure Fallible (ε σ α : Type) where
  run : σ → Except ε α × σ

namespace Fallible

instance : Monad (Fallible ε σ) where
  pure a := ⟨fun s => (.ok a,s)⟩
  bind x f := ⟨fun s => match x.run s with
    | (.ok a,t) => (f a).run t
    | (.error e,t) => (.error e,t)⟩

def fail (e : ε) : Fallible ε σ α := ⟨fun s => (.error e,s)⟩
def get : Fallible ε σ σ := ⟨fun s => (.ok s,s)⟩
def modify (f : σ → σ) : Fallible ε σ Unit := ⟨fun s => (.ok (),f s)⟩

/-- Goes on only when the condition holds. -/
def require (condition : Bool) (e : ε) : Fallible ε σ Unit := if condition then pure () else fail e

def onlyIf (condition : Prop) [Decidable condition] (x : Fallible ε σ Unit) : Fallible ε σ Unit :=
  if condition then x else pure ()

/-- The status is handed to the caller instead of ending the computation. -/
def attempt (x : Fallible ε σ α) : Fallible ε σ (Except ε α) :=
  ⟨fun s => (.ok (x.run s).1,(x.run s).2)⟩

/-- A failure is reported under the caller's own code. -/
def orFail (e : ε) (x : Fallible ε σ α) : Fallible ε σ α :=
  ⟨fun s => match x.run s with
    | (.ok a,t) => (.ok a,t)
    | (.error _,t) => (.error e,t)⟩

@[simp] lemma run_pure (a : α) (s : σ) : (pure a : Fallible ε σ α).run s = (.ok a,s) := rfl
@[simp] lemma run_fail (e : ε) (s : σ) : (fail e : Fallible ε σ α).run s = (.error e,s) := rfl
@[simp] lemma run_get (s : σ) : (get : Fallible ε σ σ).run s = (.ok s,s) := rfl
@[simp] lemma run_modify (f : σ → σ) (s : σ) : (modify f : Fallible ε σ Unit).run s = (.ok (),f s) := rfl
@[simp] lemma run_require_ok : (require condition e : Fallible ε σ Unit).run s = (.ok a,t) ↔ condition ∧ s = t := by
  cases condition <;> simp [require]

lemma run_bind (x : Fallible ε σ α) (f : α → Fallible ε σ β) (s : σ) : (x >>= f).run s = match x.run s with
      | (.ok a,t) => (f a).run t
      | (.error e,t) => (.error e,t) := rfl

@[simp] lemma run_get_bind (f : σ → Fallible ε σ β) (s : σ) : (get >>= f).run s = (f s).run s := rfl

@[simp] lemma run_modify_bind (g : σ → σ) (f : Unit → Fallible ε σ β) (s : σ) :
    (modify g >>= f).run s = (f ()).run (g s) := rfl

lemma run_bind_of_ok {x : Fallible ε σ α} (first : x.run s = (.ok a,t)) : (x >>= f).run s = (f a).run t := by
  rw [run_bind,first]

lemma run_bind_of_error {x : Fallible ε σ α} (first : x.run s = (.error e,t)) : (x >>= f).run s = (.error e,t) := by
  rw [run_bind,first]

lemma run_bind_ok {x : Fallible ε σ α} :
    (x >>= f).run s = (.ok b,u) ↔ ∃ a t, x.run s = (.ok a,t) ∧ (f a).run t = (.ok b,u) := by
  rw [run_bind]
  rcases x.run s with ⟨_ | a,t⟩ <;> simp

@[simp] lemma run_orFail_ok {x : Fallible ε σ α} : (x.orFail e).run s = (.ok a,t) ↔ x.run s = (.ok a,t) := by
  dsimp only [orFail]
  rcases x.run s with ⟨_ | _,_⟩ <;> simp

lemma run_orFail_error {x : Fallible ε σ α} :
    (x.orFail e).run s = (.error e',t) ↔ e = e' ∧ ∃ reason, x.run s = (.error reason,t) := by
  dsimp only [orFail]
  rcases x.run s with ⟨_ | _,_⟩ <;> simp

end Fallible

end UbixOS.Library
