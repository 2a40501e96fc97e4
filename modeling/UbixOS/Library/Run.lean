import Mathlib

/-! Runs of an event system in which every event meets a condition on the state
it starts from. -/
namespace UbixOS.Library.Run

variable {σ ε : Type} (step : σ → ε → σ) (ok : σ → ε → Prop)

def after (s : σ) (events : List ε) : σ := events.foldl step s

def Legal : σ → List ε → Prop
  | _, [] => True
  | s, e :: events => ok s e ∧ Legal (step s e) events

@[simp] lemma after_nil (s : σ) : after step s [] = s := rfl
@[simp] lemma after_cons (s : σ) (e : ε) (events : List ε) :
    after step s (e :: events) = after step (step s e) events := rfl

variable {step ok}

lemma Legal.invariant {I : σ → Prop} (keeps : ∀ s e, I s → ok s e → I (step s e))
    (legal : Legal step ok s events) (start : I s) : I (after step s events) := by
  induction events generalizing s with
  | nil => exact start
  | cons e events ih => exact ih legal.2 (keeps s e start legal.1)

lemma after_invariant {I : σ → Prop} (keeps : ∀ s e, I s → I (step s e)) (start : I s) (events : List ε) :
    I (after step s events) := by
  induction events generalizing s with
  | nil => exact start
  | cons e events ih => exact ih (keeps s e start)

lemma legal_append : Legal step ok s (first ++ rest) ↔
    Legal step ok s first ∧ Legal step ok (after step s first) rest := by
  induction first generalizing s with
  | nil => simp [Legal]
  | cons e first ih => simp [Legal,ih,and_assoc]

lemma after_append : after step s (first ++ rest) = after step (after step s first) rest := List.foldl_append

end UbixOS.Library.Run
