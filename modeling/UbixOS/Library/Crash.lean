import UbixOS.Library.Prog

/-! Programs that may be cut off between two calls, on a machine that may answer a call in several
ways. `Safe` is the weakest precondition for an invariant of every point where the program can
stop and a condition on its end; `Obeys` is the one for a rule about every call that it makes. -/
namespace UbixOS.Library.Prog

variable {C : Type → Type} {ε σ α β : Type} (answers : {β : Type} → C β → σ → Except ε β → σ → Prop)

/-- The states in which the program may be cut off. -/
inductive Cut : Prog C ε α → σ → σ → Prop
  | here {x : Prog C ε α} {s : σ} : Cut x s s
  | call {β : Type} {c : C β} {next : Except ε β → Prog C ε α} {s t u : σ} {r : Except ε β} :
      answers c s r t → Cut (next r) t u → Cut (call c next) s u

def Safe (I : σ → Prop) : Prog C ε α → (Except ε α → σ → Prop) → σ → Prop
  | ret a, Q, s => I s ∧ Q (.ok a) s
  | fail e, Q, s => I s ∧ Q (.error e) s
  | call c next, Q, s => I s ∧ ∀ r t, answers c s r t → (next r).Safe I Q t

/-- A condition for a proper end and one for a failure. -/
def ends (Q : α → σ → Prop) (E : σ → Prop) : Except ε α → σ → Prop
  | .ok a, s => Q a s
  | .error _, s => E s

lemma cut_interp {answers : {β : Type} → C β → σ → Except ε β → σ → Prop} {h : {β : Type} → C β → Fallible ε σ β}
    (honest : ∀ {β : Type} (c : C β) s, answers c s ((h c).run s).1 ((h c).run s).2) (x : Prog C ε α) (s : σ) :
    x.Cut answers s ((x.interp h).run s).2 := by
  induction x generalizing s with
  | ret a | fail e => exact .here
  | call c next ih => exact .call (honest c s) (ih _ _)

/-- The first part runs to its end, the second is cut off. -/
lemma cut_bind {answers : {β : Type} → C β → σ → Except ε β → σ → Prop} {h : {β : Type} → C β → Fallible ε σ β}
    (honest : ∀ {β : Type} (c : C β) s, answers c s ((h c).run s).1 ((h c).run s).2) {x : Prog C ε α}
    (ran : (x.interp h).run s = (.ok a,t)) (rest : (f a).Cut answers t u) : (x >>= f).Cut answers s u := by
  induction x generalizing s with
  | ret b =>
    cases ran
    exact rest
  | fail e => cases ran
  | call c next ih => exact .call (honest c s) (ih _ ran)

variable {answers} {I : σ → Prop} {Q Q' : Except ε α → σ → Prop} {x : Prog C ε α} {s t : σ}

lemma Safe.cut (safe : x.Safe answers I Q s) (reached : x.Cut answers s t) : I t := by
  induction reached with
  | @here x s =>
    cases x with
    | ret a | fail e | call c next => exact safe.1
  | call answer _ ih => exact ih (safe.2 _ _ answer)

lemma Safe.mono (safe : x.Safe answers I Q s) (weaker : ∀ r t, Q r t → Q' r t) : x.Safe answers I Q' s := by
  induction x generalizing s with
  | ret a | fail e => exact ⟨safe.1,weaker _ _ safe.2⟩
  | call c next ih => exact ⟨safe.1,fun r t answer => ih r (safe.2 r t answer)⟩

lemma Safe.top (x : Prog C ε α) (s : σ) : x.Safe answers (fun _ => True) (fun _ _ => True) s := by
  induction x generalizing s with
  | ret a | fail e => exact ⟨trivial,trivial⟩
  | call c next ih => exact ⟨trivial,fun r t _ => ih r t⟩

lemma Safe.bind {f : α → Prog C ε β} (first : x.Safe answers I Q s)
    (rest : ∀ a t, I t → Q (.ok a) t → (f a).Safe answers I R t)
    (failed : ∀ e t, I t → Q (.error e) t → R (.error e) t) :
    (x >>= f).Safe answers I R s := by
  induction x generalizing s with
  | ret a => exact rest a s first.1 first.2
  | fail e => exact ⟨first.1,failed e s first.1 first.2⟩
  | call c next ih => exact ⟨first.1,fun r t answer => ih r (first.2 r t answer)⟩

lemma Safe.attempt (safe : x.Safe answers I Q s)
    (handed : ∀ r t, Q r t → R (.ok r) t) : x.attempt.Safe answers I R s := by
  induction x generalizing s with
  | ret a | fail e => exact ⟨safe.1,handed _ _ safe.2⟩
  | call c next ih => exact ⟨safe.1,fun r t answer => ih r (safe.2 r t answer)⟩

lemma Safe.perform (here : I s) (after : ∀ r t, answers c s r t → I t ∧ Q r t) :
    (Prog.perform c).Safe answers I Q s := by
  refine ⟨here,fun r t answer => ?_⟩
  cases r <;> exact after _ t answer

lemma Safe.interp (honest : ∀ {β : Type} (c : C β) s, answers c s ((h c).run s).1 ((h c).run s).2)
    (safe : x.Safe answers I Q s) : Q ((x.interp h).run s).1 ((x.interp h).run s).2 := by
  induction x generalizing s with
  | ret a | fail e => exact safe.2
  | call c next ih => exact ih _ (safe.2 _ _ (honest c s))

lemma Safe.seq {Q : α → σ → Prop} {E : σ → Prop} {R : β → σ → Prop} (first : x.Safe answers I (ends Q E) s)
    (rest : ∀ a t, Q a t → (f a).Safe answers I (ends R E) t) : (x >>= f).Safe answers I (ends R E) s :=
  first.bind (fun a t _ done => rest a t done) fun _ _ _ failed => failed

lemma Safe.inspect {R : Except ε β → σ → Prop} (first : x.Safe answers I Q s)
    (rest : ∀ r t, Q r t → (f r).Safe answers I R t) : (x.attempt >>= f).Safe answers I R s := by
  have handed : x.attempt.Safe answers I (ends Q fun _ => False) s := first.attempt fun r t done => done
  exact handed.bind (fun r t _ done => rest r t done) fun _ _ _ impossible => impossible.elim

section calls
variable (answers)

/-- The call `c` is made in the state `t` and leads to `u`. -/
inductive Makes {γ : Type} (c : C γ) (t u : σ) : Prog C ε α → σ → Prop
  | now {next : Except ε γ → Prog C ε α} {r : Except ε γ} : answers c t r u → Makes c t u (call c next) t
  | later {β : Type} {d : C β} {next : Except ε β → Prog C ε α} {s v : σ} {r : Except ε β} :
      answers d s r v → Makes c t u (next r) v → Makes c t u (call d next) s

def Obeys (G : {β : Type} → C β → σ → σ → Prop) : Prog C ε α → (Except ε α → σ → Prop) → σ → Prop
  | ret a, Q, s => Q (.ok a) s
  | fail e, Q, s => Q (.error e) s
  | call c next, Q, s => ∀ r t, answers c s r t → G c s t ∧ (next r).Obeys G Q t

end calls

variable {G : {β : Type} → C β → σ → σ → Prop}

lemma Obeys.makes (obeys : x.Obeys answers G Q s) (made : x.Makes answers c t u s) : G c t u := by
  induction made with
  | now answer => exact (obeys _ _ answer).1
  | later answer _ ih => exact ih (obeys _ _ answer).2

lemma Makes.answer (made : x.Makes answers c t u s) : ∃ r, answers c t r u := by
  induction made with
  | now answer => exact ⟨_,answer⟩
  | later _ _ ih => exact ih

lemma Makes.bind (made : x.Makes answers c t u s) : (x >>= f).Makes answers c t u s := by
  induction made with
  | now answer => exact .now answer
  | later answer _ ih => exact .later answer ih

lemma Makes.attempt (made : x.Makes answers c t u s) : x.attempt.Makes answers c t u s := by
  induction made with
  | now answer => exact .now answer
  | later answer _ ih => exact .later answer ih

/-- The first part runs to its end, the second makes the call. -/
lemma makes_bind {h : {β : Type} → C β → Fallible ε σ β}
    (honest : ∀ {β : Type} (c : C β) s, answers c s ((h c).run s).1 ((h c).run s).2)
    {γ : Type} {c : C γ} {u v : σ} {f : α → Prog C ε β} {a : α} (ran : (x.interp h).run s = (.ok a,t))
    (rest : (f a).Makes answers c u v t) :
    (x >>= f).Makes answers c u v s := by
  induction x generalizing s with
  | ret b =>
    cases ran
    exact rest
  | fail e => cases ran
  | call d next ih => exact .later (honest d s) (ih _ ran)

lemma Obeys.cut (obeys : x.Obeys answers G Q s) (here : I s)
    (keeps : ∀ {β : Type} {c : C β} {r t u}, answers c t r u → I t → G c t u → I u) (reached : x.Cut answers s t) :
    I t := by
  induction reached with
  | here => exact here
  | call answer _ ih => exact ih (obeys _ _ answer).2 (keeps answer here (obeys _ _ answer).1)

lemma Obeys.bind {f : α → Prog C ε β} (first : x.Obeys answers G Q s)
    (rest : ∀ a t, Q (.ok a) t → (f a).Obeys answers G R t) (failed : ∀ e t, Q (.error e) t → R (.error e) t) :
    (x >>= f).Obeys answers G R s := by
  induction x generalizing s with
  | ret a => exact rest a s first
  | fail e => exact failed e s first
  | call c next ih => exact fun r t answer => ⟨(first r t answer).1,ih r (first r t answer).2⟩

lemma Obeys.attempt (obeys : x.Obeys answers G Q s)
    (handed : ∀ r t, Q r t → R (.ok r) t) : x.attempt.Obeys answers G R s := by
  induction x generalizing s with
  | ret a | fail e => exact handed _ _ obeys
  | call c next ih => exact fun r t answer => ⟨(obeys r t answer).1,ih r (obeys r t answer).2⟩

lemma Obeys.interp (honest : ∀ {β : Type} (c : C β) s, answers c s ((h c).run s).1 ((h c).run s).2)
    (obeys : x.Obeys answers G Q s) : Q ((x.interp h).run s).1 ((x.interp h).run s).2 := by
  induction x generalizing s with
  | ret a | fail e => exact obeys
  | call c next ih => exact ih _ (obeys _ _ (honest c s)).2

lemma Obeys.perform (after : ∀ r t, answers c s r t → G c s t ∧ Q r t) : (Prog.perform c).Obeys answers G Q s := by
  intro r t answer
  cases r <;> exact after _ t answer

lemma Obeys.inspect {R : Except ε β → σ → Prop} (first : x.Obeys answers G Q s)
    (rest : ∀ r t, Q r t → (f r).Obeys answers G R t) : (x.attempt >>= f).Obeys answers G R s := by
  have handed : x.attempt.Obeys answers G (Prog.ends Q fun _ => False) s := first.attempt fun r t done => done
  exact handed.bind (fun r t done => rest r t done) fun _ _ impossible => impossible.elim

lemma Obeys.mono (obeys : x.Obeys answers G Q s)
    (weaker : ∀ {β : Type} {c : C β} {r t u}, answers c t r u → G c t u → G' c t u) : x.Obeys answers G' Q s := by
  induction x generalizing s with
  | ret a | fail e => exact obeys
  | call c next ih => exact fun r t answer => ⟨weaker answer (obeys r t answer).1,ih r (obeys r t answer).2⟩

lemma Obeys.weaken (obeys : x.Obeys answers G Q s) (weaker : ∀ r t, Q r t → Q' r t) : x.Obeys answers G Q' s := by
  induction x generalizing s with
  | ret a | fail e => exact weaker _ _ obeys
  | call c next ih => exact fun r t answer => ⟨(obeys r t answer).1,ih r (obeys r t answer).2⟩

/-- What the calls that follow the rule keep holds before and after each of them. -/
lemma Obeys.invariant (obeys : x.Obeys answers G Q s) (here : I s)
    (keeps : ∀ {β : Type} {c : C β} {r t u}, answers c t r u → I t → G c t u → I u) :
    x.Obeys answers (fun c t u => G c t u ∧ I t ∧ I u) (fun r t => Q r t ∧ I t) s := by
  induction x generalizing s with
  | ret a | fail e => exact ⟨obeys,here⟩
  | call c next ih =>
    intro r t answer
    have after : I t := keeps answer here (obeys r t answer).1
    exact ⟨⟨(obeys r t answer).1,here,after⟩,ih r (obeys r t answer).2 after⟩

lemma Obeys.safe (obeys : x.Obeys answers (fun _ _ t => I t) Q s) (here : I s) : x.Safe answers I Q s := by
  induction x generalizing s with
  | ret a | fail e => exact ⟨here,obeys⟩
  | call c next ih => exact ⟨here,fun r t answer => ih r (obeys r t answer).2 (obeys r t answer).1⟩

/-- Every call is of the kind `P`, as long as the answers are of the kind `A`. -/
def Only (A : {β : Type} → C β → Except ε β → Prop) (P : {β : Type} → C β → Prop) : Prog C ε α → Prop
  | ret _ | fail _ => True
  | call c next => P c ∧ ∀ r, A c r → (next r).Only A P

variable {A : {β : Type} → C β → Except ε β → Prop} {P : {β : Type} → C β → Prop}

lemma Only.bind {f : α → Prog C ε β} (first : x.Only A P) (rest : ∀ a, (f a).Only A P) : (x >>= f).Only A P := by
  induction x with
  | ret a => exact rest a
  | fail e => trivial
  | call c next ih => exact ⟨first.1,fun r kind => ih r (first.2 r kind)⟩

lemma Only.attempt (only : x.Only A P) : x.attempt.Only A P := by
  induction x with
  | ret a | fail e => trivial
  | call c next ih => exact ⟨only.1,fun r kind => ih r (only.2 r kind)⟩

lemma Only.perform (here : P c) : (Prog.perform c : Prog C ε α).Only A P := by
  refine ⟨here,fun r _ => ?_⟩
  cases r <;> trivial

lemma Only.next {c : C α} {f : α → Prog C ε β} (here : P c) (rest : ∀ a, A c (.ok a) → (f a).Only A P) :
    ((Prog.perform c : Prog C ε α) >>= f).Only A P := by
  refine ⟨here,fun r kind => ?_⟩
  cases r with
  | ok a => exact rest a kind
  | error e => trivial

lemma Only.inspect {c : C α} {f : Except ε α → Prog C ε β} (here : P c) (rest : ∀ r, A c r → (f r).Only A P) :
    ((Prog.perform c : Prog C ε α).attempt >>= f).Only A P := by
  refine ⟨here,fun r kind => ?_⟩
  cases r <;> exact rest _ kind

lemma Only.obeys (only : x.Only A P) (here : I s)
    (keeps : ∀ {β : Type} {c : C β} {r t u}, P c → answers c t r u → I t → A c r ∧ G c t u ∧ I u) :
    x.Obeys answers G (fun _ => I) s := by
  induction x generalizing s with
  | ret a | fail e => exact here
  | call c next ih =>
    intro r t answer
    obtain ⟨kind,rule,after⟩ := keeps only.1 answer here
    exact ⟨rule,ih r (only.2 r kind) after⟩

lemma Only.makes (only : x.Only A P) (kind : ∀ {β : Type} {c : C β} {r t u}, answers c t r u → A c r)
    (made : x.Makes answers c t u s) : P c := by
  induction made with
  | now _ => exact only.1
  | later answer _ ih => exact ih (only.2 _ (kind answer))

lemma Only.mono (only : x.Only A P) (weaker : ∀ {β : Type} {c : C β}, P c → P' c) : x.Only A P' := by
  induction x with
  | ret a | fail e => trivial
  | call c next ih => exact ⟨weaker only.1,fun r kind => ih r (only.2 r kind)⟩

lemma Only.safe (only : x.Only A P) (safe : x.Safe answers I Q s)
    (kind : ∀ {β : Type} {c : C β} {r t u}, P c → answers c t r u → I t → A c r)
    (rule : ∀ {β : Type} {c : C β} {r t u}, P c → answers c t r u → I t → I u → G c t u) : x.Obeys answers G Q s := by
  induction x generalizing s with
  | ret a | fail e => exact safe.2
  | call c next ih =>
    intro r t answer
    have after : I t := (safe.2 r t answer).cut .here
    exact ⟨rule only.1 answer safe.1 after,ih r (only.2 r (kind only.1 answer safe.1)) (safe.2 r t answer)⟩

end UbixOS.Library.Prog
