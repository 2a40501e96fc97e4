import UbixOS.Views.Pointers

/-! The order of the windows on the screen: the layers, and who gets a click. -/
namespace UbixOS.Views

open Library Function
open List hiding modify

def Window.card (w : Window) : Nat × Bool := (w.zLayer,w.closing)

namespace Server

def card (s : Server) (id : Nat) : Option (Nat × Bool) := (s.windows id).map (·.card)

/-- Raised, the window is directly below the higher layers; the others keep their order. -/
def RaisesTo (s : Server) (id : Nat) : Prop := ∃ below above,
  (s.zRaise id).zStack = below ++ id :: above ∧ s.zStack.erase id = below ++ above ∧
    (∀ k ∈ below, s.layer k ≤ s.layer id) ∧ ∀ k ∈ above, s.layer id < s.layer k

/-- The cursor is in the frame of a window that is not minimised. -/
def Under (s : Server) (id : Nat) : Prop :=
  ∃ w, s.windows id = some w ∧ w.minimized = false ∧ w.x ≤ s.router.curX ∧ s.router.curX < w.x+w.w ∧
    w.y ≤ s.router.curY ∧ s.router.curY < w.y+w.decorH+w.h

end Server

open Server

variable {s u : Server} {id : Nat}

lemma layer_eq (same : u.card id = s.card id) : u.layer id = s.layer id := by
  have layers := congrArg (fun c => (c.map Prod.fst).getD 0) same
  simpa [card,layer,Function.comp_def,Window.card] using layers

/-- Every window that is not being closed is on the stack, and the stack is sorted. -/
structure Ordered (s : Server) : Prop where
  complete : ∀ id n, s.card id = some (n,false) → id ∈ s.zStack
  sorted : s.zStack.Pairwise (s.layer · ≤ s.layer ·)

lemma sorted_sublist (sorted : s.zStack.Pairwise (s.layer · ≤ s.layer ·)) (sub : l <+ s.zStack)
    (same : ∀ k ∈ l, u.card k = s.card k) : l.Pairwise (u.layer · ≤ u.layer ·) :=
  (sorted.sublist sub).imp_of_mem fun {a b} here there le => by rwa [layer_eq (same a here),layer_eq (same b there)]

lemma above_of_sorted {l : List Nat} {f : Nat → Nat} (sorted : l.Pairwise (f · ≤ f ·))
    (member : k ∈ l.dropWhile fun a => decide (f a ≤ n)) : n < f k := by
  induction l with
  | nil => cases member
  | cons a l ih =>
    obtain ⟨first,rest⟩ := pairwise_cons.mp sorted
    by_cases low : f a ≤ n
    · exact ih rest (by simpa [low] using member)
    · have inside : k = a ∨ k ∈ l := by simpa [low] using member
      rcases inside with rfl | inside
      · omega
      · exact (Nat.lt_of_not_le low).trans_le (first k inside)

/-- Where `z_raise` files a window, when the others are sorted. -/
lemma raisesTo (sorted : (s.zStack.erase id).Pairwise (s.layer · ≤ s.layer ·)) : s.RaisesTo id := by
  refine ⟨_,_,rfl,takeWhile_append_dropWhile.symm,fun k member => ?_,fun k member => above_of_sorted sorted member⟩
  have low := mem_takeWhile_imp member
  exact of_decide_eq_true low

lemma zRaise_sorted (sorted : (s.zStack.erase id).Pairwise (s.layer · ≤ s.layer ·)) :
    (s.zRaise id).zStack.Pairwise (s.layer · ≤ s.layer ·) := by
  obtain ⟨below,above,raised,rest,low,high⟩ := raisesTo sorted
  rw [rest,pairwise_append] at sorted
  obtain ⟨first,second,across⟩ := sorted
  rw [raised,pairwise_append,pairwise_cons]
  refine ⟨first,⟨fun k member => Nat.le_of_lt (high k member),second⟩,fun a here b there => ?_⟩
  rcases mem_cons.mp there with rfl | there
  · exact low a here
  · exact across a here b there

section
variable (ordered : Ordered s)
include ordered

lemma Ordered.same (cards : u.card = s.card) (stack : u.zStack = s.zStack) : Ordered u := by
  refine ⟨fun k n now => ?_,sorted_sublist ordered.sorted (stack ▸ Sublist.refl _) fun k _ => congrFun cards k⟩
  rw [cards] at now
  exact stack ▸ ordered.complete k n now

variable (once : s.zStack.Nodup) (cards : ∀ k, k ≠ id → u.card k = s.card k)
include once cards

lemma Ordered.erased : (s.zStack.erase id).Pairwise (u.layer · ≤ u.layer ·) :=
  sorted_sublist ordered.sorted erase_sublist fun k member => cards k fun same => once.not_mem_erase (same ▸ member)

/-- One window leaves the stack. -/
lemma Ordered.remove (gone : ∀ n, u.card id ≠ some (n,false)) (stack : u.zStack = s.zStack.erase id) : Ordered u := by
  refine ⟨fun k n now => ?_,stack ▸ ordered.erased once cards⟩
  have apart : k ≠ id := fun same => gone n (same ▸ now)
  rw [cards k apart] at now
  exact stack ▸ (mem_erase_of_ne apart).mpr (ordered.complete k n now)

/-- One window may have changed, and is filed again. -/
lemma Ordered.refile (stack : u.zStack = s.zStack) : Ordered (u.zRaise id) := by
  have sorted := ordered.erased once cards
  rw [← stack] at sorted
  refine ⟨fun k n now => ?_,zRaise_sorted sorted⟩
  obtain ⟨below,above,raised,rest,-⟩ := raisesTo sorted
  rw [raised]
  by_cases same : k = id
  · simp [same]
  · have member : k ∈ u.zStack.erase id :=
      (mem_erase_of_ne same).mpr (stack ▸ ordered.complete k n ((cards k same).symm.trans now))
    rw [rest] at member
    simpa [same] using member

end

lemma modify_card (same : ∀ w, (f w).card = w.card) : (s.modify id f).card = s.card := by
  funext k
  by_cases here : k = id
  · simp [card,Server.modify,here,Function.comp_def,same]
  · simp [card,Server.modify,here]

lemma modify_card_other (f : Window → Window) (apart : k ≠ id) : (s.modify id f).card k = s.card k := by
  simp [card,Server.modify,apart]

lemma resizeWindow_card (newW newH : Int) (granted : Bool) : (s.resizeWindow id newW newH granted).card = s.card ∧
    (s.resizeWindow id newW newH granted).zStack = s.zStack := by
  unfold resizeWindow
  cases found : s.windows id with
  | none => exact ⟨rfl,rfl⟩
  | some w =>
    dsimp only
    split_ifs
    · exact ⟨rfl,rfl⟩
    · exact ⟨rfl,rfl⟩
    refine ⟨funext fun k => ?_,rfl⟩
    by_cases here : k = id
    · simp [card,here,found,Window.card,Window.zLayer]
    · simp [card,here]

lemma Ordered.closeWindow (ordered : Ordered s) (sound : Sound s) : Ordered (s.closeWindow id) := by
  unfold Server.closeWindow
  cases found : s.windows id with
  | none => exact ordered
  | some w =>
    simp only [sound.mbox id w found,if_true]
    refine ordered.remove sound.once (fun k apart => modify_card_other _ apart) (fun n => ?_) rfl
    simp [card,zRemove,setFocus,Server.modify,found,Window.card]

lemma Ordered.dropWindow (ordered : Ordered s) (sound : Sound s) : Ordered (s.dropWindow id) := by
  refine ordered.remove sound.once (fun k (apart : k ≠ id) => ?_) (fun n => ?_) ?_
  · simp [card,dropWindow_windows,apart]
  · simp [card,dropWindow_windows]
  · unfold Server.dropWindow
    dsimp only
    split_ifs <;> rfl

lemma Ordered.handleClaim (ordered : Ordered s) (sound : Sound s) (granted : Bool) :
    Ordered (s.handleClaim r granted) := by
  have away : s.nextId ∉ s.zStack := fun member => by
    obtain ⟨w,found,-⟩ := sound.shown _ (.inl member)
    simp [sound.old _ le_rfl] at found
  have created : ∀ {u : Server} (v : Window) (id buf : Nat), u.windows = s.windows → u.zStack = s.zStack →
    id = s.nextId →
      Ordered ({u with windows := update u.windows id (some v), nextId := id+1, nextBuf := buf}.zPush id) := by
    rintro u v id buf windows stack rfl
    have refiled := ordered.refile sound.once (u := {u with
      windows := update u.windows s.nextId (some v), nextId := s.nextId+1, nextBuf := buf})
      (fun k (apart : k ≠ s.nextId) => by simp [card,apart,windows]) stack
    rwa [zRaise,zRemove,stack,erase_of_not_mem away,← stack] at refiled
  have moved : (s.nextCascade r.w DECOR_H r.h).windows = s.windows ∧
    (s.nextCascade r.w DECOR_H r.h).zStack = s.zStack := by
    unfold nextCascade
    dsimp only
    split_ifs <;> exact ⟨rfl,rfl⟩
  unfold Server.handleClaim
  dsimp only
  split_ifs
  · exact ordered
  · exact ordered
  · exact ordered.same (funext fun k => by simp only [card,moved.1]) moved.2
  · exact (created _ _ _ rfl rfl rfl).same rfl rfl
  · exact (created _ _ _ moved.1 moved.2 rfl).same rfl rfl

lemma Ordered.files : Files (fun s => Sound s ∧ Ordered s) fun _ _ _ => True where
  edit plain here := ⟨Sound.handles.files.edit plain here.1,
    here.2.same (modify_card fun w => Prod.ext (plain.2 w) (plain.1.1 w).1) rfl⟩
  resize fits here := ⟨Sound.handles.files.resize fits here.1,
    here.2.same (resizeWindow_card ..).1 (resizeWindow_card ..).2⟩
  raise member here := ⟨Sound.handles.files.raise member here.1,here.2.refile here.1.once (fun _ _ => rfl) rfl⟩
  pin member here := ⟨Sound.handles.files.pin member here.1,
    here.2.refile here.1.once (fun _ apart => modify_card_other _ apart) rfl⟩
  focus shown here := ⟨Sound.handles.files.focus shown here.1,here.2.same rfl rfl⟩
  route held here := ⟨Sound.handles.files.route held here.1,here.2.same rfl rfl⟩
  close here := ⟨Sound.handles.files.close here.1,here.2.closeWindow here.1⟩
  plain _ _ := trivial
  clamp _ _ := trivial

/-- At most one window has changed, and neither its layer nor the stack. -/
structure Adjusts (id : Nat) (s t : Server) : Prop where
  others : ∀ k ≠ id, t.windows k = s.windows k
  stack : t.zStack = s.zStack
  focused : t.focused = s.focused
  sent : t.router.sent = s.router.sent
  cards : t.card = s.card

namespace Adjusts

lemma refl : Adjusts id s s := ⟨fun _ _ => rfl,rfl,rfl,rfl,rfl⟩

lemma trans (first : Adjusts id s t) (second : Adjusts id t u) : Adjusts id s u :=
  ⟨fun k other => (second.others k other).trans (first.others k other),second.stack.trans first.stack,
    second.focused.trans first.focused,second.sent.trans first.sent,second.cards.trans first.cards⟩

lemma modify (before : Adjusts id s t) (same : ∀ w, (f w).card = w.card) : Adjusts id s (t.modify id f) :=
  before.trans ⟨fun k other => by simp [Server.modify,other],rfl,rfl,rfl,modify_card same⟩

lemma resizeWindow (before : Adjusts id s t) (newW newH : Int) (granted : Bool) :
    Adjusts id s (t.resizeWindow id newW newH granted) := by
  obtain ⟨cards,stack⟩ : (t.resizeWindow id newW newH granted).card = t.card ∧ _ := resizeWindow_card ..
  refine before.trans ⟨fun k other => ?_,stack,?_,?_,cards⟩ <;> unfold Server.resizeWindow
  all_goals
    cases t.windows id with
    | none => rfl
    | some w =>
      dsimp only
      split_ifs <;> simp [*]

lemma placeWindow (before : Adjusts id s t) (mode : Nat) (granted : Bool) :
    Adjusts id s (t.placeWindow id mode granted) := by
  unfold Server.placeWindow
  cases t.windows id with
  | none => exact before
  | some w =>
    dsimp only
    split_ifs
    · exact before
    · refine modify (resizeWindow (modify before ?_) ..) ?_ <;> exact fun _ => rfl
    · refine modify (resizeWindow (modify before ?_) ..) ?_ <;> exact fun _ => rfl
    · refine modify (resizeWindow (modify (modify before ?_) ?_) ..) ?_ <;> exact fun _ => rfl

end Adjusts

section
variable (ordered : Ordered s) (once : s.zStack.Nodup)
include ordered once

end

/-- The frame of this window ends behind 2^31. -/
def wide : Server :=
  {step (fun _ _ _ => .content) {screenW := 1024, screenH := 768}
    (.claim ⟨100,100,2147483647,2147483647,7,true,true,0,0,0,0⟩ true) with router := {curX := 500, curY := 500}}

end UbixOS.Views
