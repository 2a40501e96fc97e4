import UbixOS.Vmm.ShmapKept

/-! Stores to a shared mapping reach the file: every step of a call keeps the bytes, and a call
that releases mappings returns. -/
namespace UbixOS.Vmm.Shmap

open Phase (write place flush)

open Entry (place_eq_some place_mono)

open Library Library.WriteBack Function

variable {w : World} {c : Flush}

lemma wants_iff : c.wants t e = true ↔ e.active = .used ∧ e.pid = t ∧ (c.whole ∨ e.Overlaps c.lo c.hi) := by
  simp [Flush.wants]

lemma Releases.congr {p q : Phase} (same : p.flush = q.flush) (e : Entry) : p.Releases e ↔ q.Releases e := by
  rw [Phase.Releases,Phase.Releases,same]

section
variable (sound : Sound env initial w) (searching : w.phase t = .search c)
include sound searching

/-- The entry leaves the table, and the call takes its bytes over. -/
lemma Sound.takes (release : c.release = true) (wanted : c.wants t (w.table i) = true) : Sound env initial ({ w with
      table := update w.table i { w.table i with active := .free }
      released := w.released ++ [{ w.table i with active := .used }] }.goto t
        (.write c (w.table i) (env.lookup (w.table i).path) 0)) := by
  obtain ⟨active,owner,range⟩ := wants_iff.mp wanted
  have used : (w.table i).active ≠ .free := by simp [active]
  have releases : (w.phase (w.table i).pid).Releases (w.table i) := ⟨c,by rw [owner,searching]; rfl,release,range⟩
  have flush := flush_goto (w := w) (t := t) (p := .write c (w.table i) (env.lookup (w.table i).path) 0)
    (by rw [searching]; rfl)
  have emptied : World.holding env { w with
      table := update w.table i { w.table i with active := .free }
      released := w.released ++ [{ w.table i with active := .used }] } =
        update (w.holding env) (.slot i) fun _ => none :=
    holding_update (w := w) env ⟨_,_,_,_,_,_,_,_,_,_⟩ rfl rfl
  have place : (write c (w.table i) (env.lookup (w.table i).path) 0).place env = w.holding env (.slot i) := by
    funext k
    simp [place,release,World.holding,used]
  have holds := (holding_goto env _ t (.write c (w.table i) (env.lookup (w.table i).path) 0)).trans
    (congrArg₂ (fun h g => update h (Holder.task t) g) emptied place)
  have empty k : w.holding env (.task t) k = none := by simp [World.holding,searching,Phase.place]
  have table : ∀ {j}, j ≠ i → update w.table i { w.table i with active := .free } j = w.table j :=
    fun other => update_of_ne other ..
  have kept : ∀ {j}, (update w.table i { w.table i with active := .free } j).active ≠ .free → j ≠ i := by
    rintro j still rfl
    simp at still
  have slot : ∀ {j k a}, update (update (w.holding env) (.slot i) fun _ => none) (.task t)
      (w.holding env (.slot i)) (.slot j) k = some a → j ≠ i ∧ w.holding env (.slot j) k = some a := by
    intro j k a held
    rw [update_of_ne (by simp)] at held
    by_cases same : j = i
    · simp [same] at held
    · rw [update_of_ne (by simpa using same)] at held
      exact ⟨same,held⟩
  refine ⟨holds ▸ sound.kept.pass empty,?_,?_,?_,?_,?_,?_,?_,sound.untouched,?_⟩
  · intro j still
    have other := kept still
    simp only [World.goto,table other] at still ⊢
    exact sound.entry still
  · intro v c' m f done writing
    by_cases self : v = t
    · subst self
      obtain ⟨rfl,rfl,rfl,rfl⟩ : c = c' ∧ w.table i = m ∧ env.lookup (w.table i).path = f ∧ 0 = done := by
        simpa [World.goto] using writing
      obtain ⟨lookup,-,resident,-⟩ := sound.entry used
      exact ⟨lookup,owner,resident,fun sync => by simp [release] at sync⟩
    obtain ⟨file,pid,resident,source⟩ := sound.writing (t := v) (by simpa [World.goto,self] using writing)
    refine ⟨file,pid,resident,fun sync => ?_⟩
    obtain ⟨j,inUse,owned,same⟩ := source sync
    have other : j ≠ i := by
      rintro rfl
      exact self (owned.symm.trans owner)
    refine ⟨j,?_⟩
    simp only [World.goto,table other]
    exact ⟨inUse,owned,same⟩
  · intro j mark
    have other : j ≠ i := by
      rintro rfl
      simp [World.goto] at mark
    simp only [World.goto,table other] at mark ⊢
    rw [Phase.Syncs,flush]
    exact sound.marked mark
  · intro space n k from_
    obtain ⟨j,held⟩ := sound.covered from_
    -- The addresses of the released entry are mapped no more.
    have other : j ≠ i := by
      rintro rfl
      cases (sound.cleared releases held).symm.trans from_
    refine ⟨j,?_⟩
    rw [holds,update_of_ne (by simp),update_of_ne (by simpa using other)]
    exact held
  · intro j
    rw [holds]
    by_cases same : j = i
    · refine .inr fun held => absurd same (slot held).1
    simp only [World.goto,table same]
    rw [Releases.congr (flush _)]
    exact sound.mapped.imp id fun mapped {k a} held => mapped (slot held).2
  · intro j k a release held
    rw [holds] at held
    obtain ⟨other,held⟩ := slot held
    simp only [World.goto,table other] at release
    exact sound.cleared ((Releases.congr (flush _) _).mp release) held
  · intro s k a held
    rw [holds] at held
    cases s with
    | slot j => exact sound.touched (slot held).2
    | task v =>
      by_cases self : v = t
      · rw [self,update_self] at held
        exact sound.touched held
      · rw [update_of_ne (by simpa using self),update_of_ne (by simp)] at held
        exact sound.touched held
  · have free : (update w.table i { w.table i with active := .free } i).active = .free := by simp
    have back := inUse_enter free used
    rw [update_idem,update_eq_self] at back
    refine sound.ledger.trans ((back.append_left _).trans ?_)
    simp [World.goto]

lemma Sound.marks (sync : c.release = false) (wanted : c.wants t (w.table i) = true) :
    Sound env initial ({ w with table := update w.table i { w.table i with active := .visited } }.goto t
      (.write c (w.table i) (env.lookup (w.table i).path) 0)) := by
  obtain ⟨active,owner,-⟩ := wants_iff.mp wanted
  have used : (w.table i).active ≠ .free := by simp [active]
  have syncs : (w.phase t).Syncs := ⟨c,by rw [searching]; rfl,sync⟩
  have like j : (w.table j).Like (update w.table i { w.table i with active := .visited } j) := by
    by_cases same : j = i
    · subst same
      rw [update_self]
      exact ⟨.visited,rfl,by simp [active]⟩
    · rw [update_of_ne same]
      exact .refl _
  have marked := sound.remark like fun j mark => by
    by_cases same : j = i
    · rw [same,owner]
      exact syncs
    · rw [update_of_ne same] at mark
      exact sound.marked mark
  refine marked.steps ?_ ?_ (fun _ _ => ⟨c,rfl,sync⟩) fun _ _ => Releases.congr (by simp [searching,flush]) _
  · funext k
    simp [place,sync,searching]
  rintro c' m f done ⟨⟩
  obtain ⟨lookup,-,resident,-⟩ := sound.entry used
  refine ⟨lookup,owner,resident,fun _ => ⟨i,?_⟩⟩
  simp only [update_self]
  exact ⟨by simp,owner,rfl⟩

lemma Sound.search : Sound env initial (w.search env t c) := by
  rw [World.search]
  cases found : (List.finRange slots).find? fun i => c.wants t (w.table i) with
  | some i =>
    have wanted : c.wants t (w.table i) = true := by simpa using List.find?_some found
    cases release : c.release with
    | true => exact sound.takes searching release wanted
    | false => exact sound.marks searching release wanted
  | none =>
    have unwanted i : ¬c.wants t (w.table i) = true := List.find?_eq_none.mp found i (List.mem_finRange i)
    cases release : c.release with
    | true =>
      -- Whatever the call was to release is gone: its entries carry no mark of an `msync`.
      have unmarked : ∀ {i}, (w.table i).active = .visited → (w.table i).pid ≠ t := by
        rintro i mark rfl
        obtain ⟨c',flush,sync⟩ := sound.marked mark
        rw [searching] at flush
        cases flush
        simp [release] at sync
      refine sound.steps ?_ ?_ (fun mark self => absurd self (unmarked mark)) fun {i} used self => ?_
      · rw [searching]
        cases c.whole <;> rfl
      · cases c.whole <;> nofun
      refine iff_of_false ?_ ?_
      · rintro ⟨c',flush,-⟩
        cases whole : c.whole <;> simp [whole,Phase.flush] at flush
      rintro ⟨c',flush,-,range⟩
      rw [searching] at flush
      obtain rfl := Option.some.inj flush
      refine unwanted i (wants_iff.mpr ⟨?_,self,range⟩)
      cases active : (w.table i).active with
      | used => rfl
      | free => exact absurd active used
      | visited => exact absurd self (unmarked active)
    | false =>
      have like i : (w.table i).Like (w.unmark.table i) := by
        simp only [World.unmark]
        split
        next mark => exact ⟨.used,rfl,by simp [mark]⟩
        next => exact .refl _
      have clean i : (w.unmark.table i).active ≠ .visited := by
        simp only [World.unmark]
        split
        next => simp
        next mark => exact mark
      have sound := sound.remark like fun i mark => absurd mark (clean i)
      refine Sound.steps (w := w.unmark) sound ?_ nofun (fun mark _ => absurd mark (clean _)) fun _ _ =>
        iff_of_false ?_ ?_
      · change _ = (w.phase t).place env
        rw [searching]
        rfl
      · rintro ⟨c',flush,-⟩
        cases flush
      rintro ⟨c',flush,releases,-⟩
      change (w.phase t).flush = _ at flush
      rw [searching] at flush
      obtain rfl := Option.some.inj flush
      simp [release] at releases

end

/-- The file after one page of the mapping. -/
def World.written (env : Env) (w : World) (m : Entry) (done : Nat) : Nat → Nat → UInt8 :=
  update w.file m.file fun o =>
    if m.foff + done ≤ o ∧ o < m.foff + done + min (m.len - done) PAGE_SIZE then
      w.mem (env.space m.pid) (m.va + (o - m.foff)) else w.file m.file o

lemma written_inside (held : m.place env done k = some a) (page : k.2 < m.foff + done + PAGE_SIZE) :
    uncurry (w.written env m done) k = uncurry w.mem a := by
  obtain ⟨file,low,high,rfl⟩ := place_eq_some.mp held
  obtain ⟨f,o⟩ := k
  obtain rfl : f = m.file := file
  simp only [uncurry,World.written,update_self]
  exact if_pos ⟨low,by omega⟩

lemma written_outside (unheld : m.place env done k = none) : uncurry (w.written env m done) k = uncurry w.file k := by
  obtain ⟨f,o⟩ := k
  by_cases same : f = m.file
  · subst same
    simp only [uncurry,World.written,update_self]
    refine if_neg fun inside => ?_
    have held : m.place env done (m.file,o) = some (env.space m.pid,m.va + (o - m.foff)) :=
      place_eq_some.mpr ⟨rfl,inside.1,by omega,rfl⟩
    cases unheld.symm.trans held
  · simp [World.written,same]

/-- Somebody holds every byte that the call is still to write. -/
lemma Sound.source (sound : Sound env initial w) (writing : w.phase t = .write c m f done)
    (held : m.place env done k = some a) : ∃ s, w.holding env s k = some a := by
  cases release : c.release with
  | true =>
    refine ⟨.task t,?_⟩
    rw [World.holding,writing]
    exact (if_pos release).trans held
  | false =>
    obtain ⟨-,-,-,source⟩ := sound.writing writing
    obtain ⟨i,used,-,place⟩ := source release
    exact ⟨.slot i,slot_holding used (place ▸ place_mono (Nat.zero_le _) held)⟩

lemma Sound.writes (sound : Sound env initial w) {f : Option Nat} (writing : w.phase t = .write c m f done) :
    Sound env initial ({ w with file := w.written env m done }.goto t (.write c m f (done + PAGE_SIZE))) := by
  have rest k (nobody : (∀ s, w.holding env s k = none)) : uncurry (w.written env m done) k = uncurry w.file k := by
    cases held : m.place env done k with
    | none => exact written_outside held
    | some a =>
      obtain ⟨s,holds⟩ := sound.source writing held
      cases (nobody s).symm.trans holds
  have holds := holding_goto env { w with file := w.written env m done } t (.write c m f (done + PAGE_SIZE))
  have task : w.holding env (.task t) = (write c m f done).place env := by
    funext k
    rw [World.holding,writing]
  have sub k a (held : (write c m f (done + PAGE_SIZE)).place env k = some a) :
      w.holding env (.task t) k = some a := by
    rw [task]
    simp only [place] at held ⊢
    split at held
    next release => exact (if_pos release).trans (place_mono (Nat.le_add_right ..) held)
    next => cases held
  have flush := flush_goto (w := w) (t := t) (p := .write c m f (done + PAGE_SIZE)) (by rw [writing]; rfl)
  have old : ∀ {s k a}, ({ w with file := w.written env m done }.goto t
    (.write c m f (done + PAGE_SIZE))).holding env s k = some a →
      w.holding env s k = some a := by
    intro s k a held
    rw [holds] at held
    by_cases self : s = .task t
    · rw [self,update_self] at held
      exact self ▸ sub k a held
    · rw [update_of_ne self] at held
      exact held
  refine ⟨?_,sound.entry,?_,?_,sound.covered,?_,?_,fun held => sound.touched (old held),?_,sound.ledger⟩
  · rw [holds]
    refine sound.kept.write sub ?_ rest
    intro k a held gone
    rw [task] at held
    simp only [place] at held gone
    split at held
    next release =>
      rw [if_pos release] at gone
      refine written_inside held (Nat.lt_of_not_le fun late => ?_)
      -- A byte beyond the page would still be held.
      obtain ⟨file,-,high,same⟩ := place_eq_some.mp held
      cases gone.symm.trans (place_eq_some.mpr ⟨file,by omega,high,same⟩)
    next => cases held
  · intro v c' m' f' done' now
    by_cases self : v = t
    · subst self
      obtain ⟨rfl,rfl,rfl,-⟩ : c = c' ∧ m = m' ∧ f = f' ∧ done + PAGE_SIZE = done' := by simpa [World.goto] using now
      exact sound.writing writing
    · exact sound.writing (t := v) (by simpa [World.goto,self] using now)
  · intro i mark
    simp only [World.goto]
    rw [Phase.Syncs,flush]
    exact sound.marked mark
  · intro i
    simp only [World.goto]
    rw [Releases.congr (flush _)]
    exact sound.mapped.imp id fun mapped {k a} held => mapped held
  · intro i k a release held
    exact sound.cleared ((Releases.congr (flush _) _).mp release) (old held)
  · intro f' o untouched
    obtain ⟨file,ideal⟩ := sound.untouched untouched
    refine ⟨(rest (f',o) fun s => ?_).trans file,ideal⟩
    cases held : w.holding env s (f',o) with
    | none => rfl
    | some a => cases untouched.symm.trans (sound.touched held)

lemma Sound.writePage (sound : Sound env initial w) {f : Option Nat} (writing : w.phase t = .write c m f done) :
    Sound env initial (w.writePage env t c m f done) := by
  obtain ⟨rfl,owner,resident,-⟩ := sound.writing writing
  simp only [World.writePage]
  split
  next more =>
    rw [← owner,if_pos (resident done more)]
    rw [← owner] at writing
    exact sound.writes writing
  next overrun =>
    refine sound.steps ?_ nofun (fun mark self => ?_) fun _ _ => Releases.congr (by rw [writing]; rfl) _
    · rw [writing]
      funext k
      simp only [place]
      split
      next => exact (Entry.place_end (by omega)).symm
      next => rfl
    · have syncs := sound.marked mark
      rwa [self,writing] at syncs

lemma uncurry_update [DecidableEq α] [DecidableEq β] (g : α → β → γ) (x : α) (y : β) (v : γ) :
    uncurry (update g x (update (g x) y v)) = update (uncurry g) (x,y) v := by
  funext ⟨x',y'⟩
  by_cases sx : x' = x
  · subst sx
    by_cases sy : y' = y <;> simp [sy]
  · simp [sx]

lemma Sound.store (sound : Sound env initial w) (orderly : Orderly env w (.store t n v)) :
    Sound env initial (w.store env t n v) := by
  simp only [World.store]
  split
  next =>
    cases backed : w.backed (env.space t) n with
    | none =>
      refine { sound with kept := sound.kept.scratch fun s k a held => ?_ }
      rw [uncurry_update]
      refine update_of_ne (fun same => ?_) ..
      exact orderly s k (same ▸ held) backed
    | some k =>
      obtain ⟨f,o⟩ := k
      obtain ⟨i,held⟩ := sound.covered backed
      refine { sound with kept := ?_, untouched := fun {f' o'} untouched => ?_ }
      · have assigned := sound.kept.assign held v
        rw [← uncurry_update,← uncurry_update] at assigned
        exact assigned
      obtain ⟨file,ideal⟩ := sound.untouched untouched
      refine ⟨file,Eq.trans ?_ ideal⟩
      have other : (f',o') ≠ (f,o) := by
        rintro ⟨⟩
        cases untouched.symm.trans (sound.touched held)
      have same := congrFun (uncurry_update w.ideal f o v) (f',o')
      rw [update_of_ne other] at same
      exact same
  next => exact sound

lemma fill_resident (resident : w.Resident env e) : (w.fill space va len foff f).Resident env e := by
  intro n inside
  have old := resident n inside
  by_cases same : env.space e.pid = space
  · subst same
    simp [World.fill,old]
  · simpa [World.fill,same] using old

lemma Sound.fill (sound : Sound env initial w)
    (clear : ∀ s k n, va ≤ n → n < va + pageUp len → w.holding env s k ≠ some (space,n)) :
    Sound env initial (w.fill space va len foff f) where
  kept := by
    refine sound.kept.scratch fun s k a held => ?_
    obtain ⟨x,n⟩ := a
    by_cases same : x = space
    · subst same
      simp only [uncurry,World.fill,update_self]
      exact if_neg fun inside => clear s k n inside.1 inside.2 held
    · simp [World.fill,same]
  entry := fun used =>
    have ⟨lookup,aligned,resident,short⟩ := sound.entry used
    ⟨lookup,aligned,fill_resident resident,short⟩
  writing := fun writing =>
    have ⟨file,owner,resident,source⟩ := sound.writing writing
    ⟨file,owner,fill_resident resident,source⟩
  marked := sound.marked
  covered := sound.covered
  mapped := sound.mapped
  cleared := sound.cleared
  touched := sound.touched
  untouched := sound.untouched
  ledger := sound.ledger

lemma le_pageUp (n : Nat) : n ≤ pageUp n := by
  rw [pageUp,PAGE_SIZE]
  omega

/-- What addresses stand for once the mapping is there. -/
def World.backing (env : Env) (w : World) (e : Entry) : Nat → Nat → Option (Nat × Nat) :=
  update w.backed (env.space e.pid) fun n =>
    if e.va ≤ n ∧ n < e.va + e.len then some (e.file,e.foff + (n - e.va)) else w.backed (env.space e.pid) n

/-- An address is the place of a byte of the new mapping, or as it was. -/
lemma backing_cases (env : Env) (w : World) (e : Entry) (space n : Nat) :
    (∃ k, e.place env 0 k = some (space,n) ∧ w.backing env e space n = some k) ∨
      w.backing env e space n = w.backed space n := by
  by_cases same : space = env.space e.pid
  · subst same
    rw [World.backing,update_self]
    split
    next inside =>
      refine .inl ⟨_,place_eq_some.mpr ⟨rfl,by simp,by omega,?_⟩,rfl⟩
      simp only [Prod.mk.injEq,true_and]
      omega
    next => exact .inr rfl
  · exact .inr (congrFun (update_of_ne same ..) n)

lemma Sound.enters (sound : Sound env initial w) (idle : w.phase e.pid = .idle) (free : (w.table i).active = .free)
    (active : e.active = .used) (lookup : env.lookup e.path = some e.file) (aligned : e.va % PAGE_SIZE = 0)
    (resident : w.Resident env e) (short : e.va + e.len < 2 ^ 64)
    (filled : ∀ k a, e.place env 0 k = some a → w.mem a.1 a.2 = w.file k.1 k.2)
    (unheld : ∀ s k a, e.place env 0 k = some a → w.holding env s k = none)
    (unused : ∀ s k k' a, e.place env 0 k = some a → w.holding env s k' ≠ some a) :
    Sound env initial { w with
      table := update w.table i e
      backed := w.backing env e
      touched := fun f o => (f = e.file ∧ e.foff ≤ o ∧ o < e.foff + e.len) ∨ w.touched f o
      entered := w.entered ++ [e] } := by
  have used : e.active ≠ .free := by simp [active]
  have table {j} (other : j ≠ i) : update w.table i e j = w.table j := update_of_ne other ..
  have old : ∀ {j}, (w.table j).active ≠ .free → j ≠ i := by
    rintro j used rfl
    exact used free
  have holds : ∀ b touched entered,
    (World.mk (update w.table i e) w.file w.mem w.present w.phase b w.ideal touched entered
      w.released).holding env = update (w.holding env) (.slot i) (e.place env 0) := by
    intro b touched entered
    refine (holding_update (w := w) env ⟨_,_,_,_,_,_,_,_,_,_⟩ rfl rfl).trans ?_
    simp [used]
  have slot {j k a} (other : j ≠ i) (held : update (w.holding env) (.slot i) (e.place env 0) (.slot j) k = some a) :
      w.holding env (.slot j) k = some a := by
    rwa [update_of_ne (by simpa using other)] at held
  have inj k k' a (held : e.place env 0 k = some a) (held' : e.place env 0 k' = some a) : k = k' := by
    obtain ⟨file,low,-,rfl⟩ := place_eq_some.mp held
    obtain ⟨file',low',-,same⟩ := place_eq_some.mp held'
    simp only [Prod.mk.injEq] at same
    exact Prod.ext (file.trans file'.symm) (by omega)
  have keeps {s k a} (held : w.holding env s k = some a) : w.backing env e a.1 a.2 = w.backed a.1 a.2 := by
    rcases backing_cases env w e a.1 a.2 with ⟨k',place,-⟩ | same
    · exact absurd held (unused s k' k a place)
    · exact same
  refine ⟨?_,?_,?_,?_,?_,?_,?_,?_,?_,?_⟩
  · rw [holds]
    refine sound.kept.take (fun k => ?_) unheld unused inj filled fun _ _ _ _ => rfl
    exact if_pos free
  · intro j still
    by_cases same : j = i
    · subst same
      simp only [update_self]
      exact ⟨lookup,aligned,resident,short⟩
    · simp only [table same] at still ⊢
      exact sound.entry still
  · intro v c m f done writing
    obtain ⟨file,owner,resident,source⟩ := sound.writing (t := v) writing
    refine ⟨file,owner,resident,fun sync => ?_⟩
    obtain ⟨j,inUse,owned,place⟩ := source sync
    refine ⟨j,?_⟩
    simp only [table (old inUse)]
    exact ⟨inUse,owned,place⟩
  · intro j mark
    by_cases same : j = i
    · subst same
      simp [active] at mark
    · simp only [table same] at mark ⊢
      exact sound.marked mark
  · intro space n k from_
    rw [holds]
    rcases backing_cases env w e space n with ⟨k',place,new⟩ | same
    · obtain rfl := Option.some.inj (new.symm.trans from_)
      exact ⟨i,by rwa [update_self]⟩
    obtain ⟨j,held⟩ := sound.covered (same.symm.trans from_)
    refine ⟨j,?_⟩
    rw [update_of_ne (by simpa using old (holding_slot held).1)]
    exact held
  · intro j
    rw [holds]
    by_cases same : j = i
    · subst same
      refine .inr fun {k a} held => ?_
      rw [update_self] at held
      obtain ⟨file,low,high,rfl⟩ := place_eq_some.mp held
      simp only [World.backing,update_self]
      rw [if_pos ⟨by omega,by omega⟩]
      exact congrArg some (Prod.ext file.symm (by omega))
    · simp only [table same]
      exact sound.mapped.imp id fun mapped {k a} held => (keeps (slot same held)).trans (mapped (slot same held))
  · intro j k a release held
    rw [holds] at held
    by_cases same : j = i
    · subst same
      simp only [update_self] at release
      exact absurd release (not_releases_idle idle _)
    · simp only [table same] at release
      exact (keeps (slot same held)).trans (sound.cleared release (slot same held))
  · intro s k a held
    rw [holds] at held
    by_cases new : s = .slot i
    · rw [new,update_self] at held
      obtain ⟨file,low,high,-⟩ := place_eq_some.mp held
      simp only [decide_eq_true_eq]
      exact .inl ⟨file,by omega,high⟩
    · rw [update_of_ne new] at held
      simp [sound.touched held]
  · intro f o untouched
    simp only [decide_eq_false_iff_not,not_or] at untouched
    exact sound.untouched (by simpa using untouched.2)
  · have enter := inUse_enter free used
    have same : { e with active := .used } = e := by rw [← active]
    rw [same] at enter
    refine (List.perm_append_singleton ..).trans ((sound.ledger.cons e).trans ?_)
    exact (List.perm_middle.symm).trans (enter.symm.append_left _)

lemma pageDown_aligned (n : Nat) : pageDown n % PAGE_SIZE = 0 := Nat.mul_mod_left ..

lemma fill_present (inside : n < len) : (w.fill space va len foff f).present space ((va + n) / PAGE_SIZE) = true := by
  have up := le_pageUp len
  have page := Nat.div_mul_le_self (va + n) PAGE_SIZE
  simp only [World.fill,update_self,decide_eq_true_eq]
  exact .inl ⟨Nat.div_le_div_right (by omega),by omega⟩

lemma Sound.mmap (sound : Sound env initial w) (idle : w.phase t = .idle)
    (orderly : Orderly env w (.mmap t va len foff f path)) :
    Sound env initial ((w.fill (env.space t) (pageDown va) len foff f).register env
      ⟨t,pageDown va,len,foff,path,.used,f⟩) := by
  obtain ⟨lookup,short,unheld,clear⟩ := orderly
  have filled : Sound env initial (w.fill (env.space t) (pageDown va) len foff f) := sound.fill clear
  have up := le_pageUp len
  rw [World.register]
  split
  next => exact filled
  next =>
    split
    next => exact filled
    next i found =>
      refine filled.enters (e := ⟨t,pageDown va,len,foff,path.take (pathSize - 1),.used,f⟩) idle
        (by simpa using List.find?_some found) rfl lookup (pageDown_aligned va)
          (fun n inside => fill_present inside) short
        ?_ ?_ ?_
      · intro k a held
        obtain ⟨rfl,low,high,rfl⟩ := place_eq_some.mp held
        simp only at low high
        simp only [World.fill,update_self]
        rw [if_pos ⟨by omega,by omega⟩]
        congr 1
        omega
      · intro s k a held
        obtain ⟨rfl,low,high,-⟩ := place_eq_some.mp held
        exact unheld s k.2 low high
      · intro s k k' a held
        obtain ⟨-,low,high,rfl⟩ := place_eq_some.mp held
        simp only at low high
        exact clear s k' _ (by simp only; omega) (by simp only; omega)

lemma Sound.step (sound : Sound env initial w) (event : Event) (orderly : Orderly env w event) :
    Sound env initial (w.step env event) := by
  cases event with
  | mmap t va len foff f path =>
    rw [World.step]
    split
    next idle => exact sound.mmap idle orderly
    next => exact sound
  | store t n v =>
    rw [World.step]
    split
    next => exact sound.store orderly
    next => exact sound
  | munmap t va len =>
    rw [World.step]
    split
    next idle => exact sound.munmap idle orderly
    next => exact sound
  | msync t va len =>
    rw [World.step]
    split
    next idle =>
      refine sound.leaves idle rfl nofun ?_
      rintro e ⟨c,flush,release,-⟩
      obtain rfl := Option.some.inj flush
      cases release
    next => exact sound
  | exit t last =>
    rw [World.step]
    split
    next idle =>
      cases last with
      | true => exact sound.exit idle orderly
      | false =>
        refine sound.leaves idle rfl nofun ?_
        rintro e ⟨c,flush,-⟩
        cases flush
    next => exact sound
  | resume t =>
    rw [World.step,World.resume]
    split
    next => exact sound
    next => exact sound
    next c searching => exact sound.search searching
    next c m f done writing => exact sound.writePage writing

lemma Sound.settled (sound : Sound env initial w) (unmapped : ∀ space n, w.backed space n ≠ some k)
    (rest : ¬w.AtWork env k) : uncurry w.file k = uncurry w.ideal k := by
  refine sound.kept.settled fun s => ?_
  cases held : w.holding env s k with
  | none => rfl
  | some a =>
    cases s with
    | task t => exact absurd (.inr ⟨t,a,held⟩) rest
    | slot i =>
      rcases sound.mapped (i := i) with release | mapped
      · exact absurd (.inl ⟨i,a,held,release⟩) rest
      · exact absurd (mapped held) (unmapped a.1 a.2)

def Flush.left (c : Flush) (t : Tid) (table : Fin slots → Entry) : Nat :=
    (List.finRange slots).countP fun i => c.wants t (table i)

lemma left_mark (wanted : c.wants t (w.table i) = true) (unwanted : c.wants t e = false) :
    c.left t (update w.table i e) + 1 = c.left t w.table := by
  rw [Flush.left,Flush.left,(slots_split i).countP_eq,(slots_split i).countP_eq,
    List.countP_cons_of_neg (by simpa using unwanted),List.countP_cons_of_pos (by simpa using wanted)]
  congr 1
  refine List.countP_congr fun j member => ?_
  rw [update_rest w.table e member]

/-- The task where `n` steps of its own take it. -/
def World.alone (env : Env) (w : World) (t : Tid) (n : Nat) : World :=
    Run.after (World.step env) w (List.replicate n (.resume t))

open World (holding goto search unmark written writePage fill backing mk step resume alone start)

lemma write_finishes (env : Env) (writing : w.phase t = .write c m f done) :
    ∃ n, (w.alone env t n).phase t = .search c ∧ (w.alone env t n).table = w.table := by
  -- By the bytes that are left.
  induction left : m.len - done using Nat.strong_induction_on generalizing w done with
  | _ left_ ih =>
    have resume : w.step env (.resume t) = w.writePage env t c m f done := by
      rw [step,resume,writing]
    cases f with
    | none =>
      refine ⟨1,?_⟩
      simp only [alone,List.replicate_one,Run.after_cons,resume]
      simp [writePage,goto]
    | some f =>
      by_cases more : done < m.len
      · have page : 0 < PAGE_SIZE := by decide
        have next : (w.writePage env t c m (some f) done).phase t = .write c m (some f) (done + PAGE_SIZE) := by
          simp [writePage,goto,more]
        obtain ⟨n,search,table⟩ := ih (m.len - (done + PAGE_SIZE)) (by omega) next rfl
        refine ⟨n + 1,?_⟩
        simp only [alone,List.replicate_succ,Run.after_cons,resume]
        refine ⟨search,table.trans ?_⟩
        simp only [writePage,more,if_true]
        split <;> rfl
      · refine ⟨1,?_⟩
        simp only [alone,List.replicate_one,Run.after_cons,resume]
        simp [writePage,goto,more]

lemma alone_add (n n' : Nat) : (w.alone env t n).alone env t n' = w.alone env t (n + n') := by
  rw [alone,alone,← Run.after_append,← List.replicate_add]
  rfl

/-- A search takes one entry off those left, or ends the call. -/
lemma search_moves (env : Env) (searching : w.phase t = .search c) :
    ((w.alone env t 1).phase t = .idle ∨ (w.alone env t 1).phase t = .dead) ∨
      (∃ m f, (w.alone env t 1).phase t = .write c m f 0) ∧ c.left t (w.alone env t 1).table < c.left t w.table := by
  have resume : w.alone env t 1 = w.search env t c := by
    simp [alone,step,resume,searching]
  rw [resume,search]
  cases found : (List.finRange slots).find? fun i => c.wants t (w.table i) with
  | none =>
    cases release : c.release <;> cases whole : c.whole <;> simp [goto]
  | some i =>
    have wanted : c.wants t (w.table i) = true := by simpa using List.find?_some found
    refine .inr ⟨⟨_,_,update_self ..⟩,?_⟩
    have mark x (other : x ≠ Active.used) :
        c.left t (update w.table i { w.table i with active := x }) < c.left t w.table := by
      have less := left_mark (e := { w.table i with active := x }) wanted (by simp [Flush.wants,other])
      omega
    cases release : c.release with
    | true => exact mark .free (by simp)
    | false => exact mark .visited (by simp)

lemma search_returns (env : Env) (searching : w.phase t = .search c) :
    ∃ n, (w.alone env t n).phase t = .idle ∨ (w.alone env t n).phase t = .dead := by
  induction left : c.left t w.table using Nat.strong_induction_on generalizing w with
  | _ left_ ih =>
    rcases search_moves env searching with overrun | ⟨⟨m,f,writing⟩,less⟩
    · exact ⟨1,overrun⟩
    obtain ⟨n,again,table⟩ := write_finishes env writing
    obtain ⟨n',overrun⟩ := ih _ (left ▸ less) again (by rw [table])
    refine ⟨1 + n + n',?_⟩
    rwa [← alone_add,← alone_add]

/-- Every call comes to its end. -/
lemma flush_returns (env : Env) (w : World) (t : Tid) :
    ∃ n, (w.alone env t n).phase t = .idle ∨ (w.alone env t n).phase t = .dead := by
  cases phase : w.phase t with
  | idle => exact ⟨0,.inl phase⟩
  | dead => exact ⟨0,.inr phase⟩
  | search c => exact search_returns env phase
  | write c m f done =>
    obtain ⟨n,again,-⟩ := write_finishes env phase
    obtain ⟨n',overrun⟩ := search_returns env again
    refine ⟨n + n',?_⟩
    rwa [← alone_add]

/-- What a run is to have brought about. -/
structure Delivered (env : Env) (initial : Nat → Nat → UInt8) (w : World) : Prop where
  /-- a byte that is no longer mapped, and that no call in progress is about to write, is in its file as last stored -/
  stored : ∀ {f o}, (∀ space n, w.backed space n ≠ some (f,o)) → ¬w.AtWork env (f,o) → w.file f o = w.ideal f o
  /-- the bytes that were never mapped are as they were -/
  outside : ∀ {f o}, w.touched f o = false → w.file f o = initial f o
  /-- every entry that was made is released once, or in the table -/
  once : w.entered.Perm (w.released ++ inUse w.table)
  /-- an entry in the table is about to be released, or all its pages are mapped -/
  remaining : ∀ i, (w.phase (w.table i).pid).Releases (w.table i) ∨
    ∀ {k a}, w.holding env (.slot i) k = some a → w.backed a.1 a.2 = some k
  /-- every call comes to its end -/
  returns : ∀ t, ∃ n, (w.alone env t n).phase t = .idle ∨ (w.alone env t n).phase t = .dead

theorem stores_reach_file (env : Env) (file : Nat → Nat → UInt8) (events : List Event)
    (legal : Run.Legal (World.step env) (Orderly env) (World.start file) events) :
    Delivered env file (Run.after (World.step env) (World.start file) events) := by
  have sound : Sound env file (Run.after (step env) (start file) events) :=
    legal.invariant (I := Sound env file) (fun w event sound orderly => sound.step event orderly) (Sound.start env file)
  exact ⟨sound.settled,fun untouched => (sound.untouched untouched).1,sound.ledger,fun _ => sound.mapped,
    flush_returns env _⟩

/-- Task 1 and its memory, and file 0 by its name. -/
def oneFile : Env := ⟨fun _ => 0,fun path => if path = [1] then some 0 else none⟩

def zeros : Nat → Nat → UInt8 := fun _ _ => 0

/-- A store by the only thread of a process is to no page under an `munmap`. -/
lemma Sound.store_orderly (sound : Sound env initial w) (idle : ∀ t, w.phase t = .idle) (n : Nat) (v : UInt8) :
    Orderly env w (.store t n v) := by
  intro s k held
  cases s with
  | task u => simp [holding,idle,place] at held
  | slot i =>
    rcases sound.mapped (i := i) with release | mapped
    · exact absurd release (not_releases_idle (idle _) _)
    · rw [mapped held]
      simp

/-- Two pages are mapped, written and unmapped. -/
def mapAll : List Event :=
  [.mmap 1 4096 8192 0 0 [1],.store 1 8192 7,.msync 1 4096 8192,.resume 1,.resume 1,.resume 1,.resume 1,.resume 1,
    .munmap 1 4096 8192,.resume 1,.resume 1,.resume 1,.resume 1,.resume 1]

lemma mapAll_orderly : Run.Legal (step oneFile) (Orderly oneFile) (start zeros) mapAll := by
  have first : Orderly oneFile (start zeros) (.mmap 1 4096 8192 0 0 [1]) := by
    have nobody s k : (start zeros).holding oneFile s k = none := by
      cases s <;> rfl
    exact ⟨rfl,by decide,fun s o _ _ => nobody s _,fun s k n _ _ => by simp [nobody]⟩
  have sound := (Sound.start oneFile zeros).step _ first
  refine ⟨first,sound.store_orderly (fun _ => rfl) 8192 7,trivial,trivial,trivial,trivial,trivial,trivial,?_,
    trivial,trivial,trivial,trivial,trivial,trivial⟩
  refine ⟨by decide,?_⟩
  change ∀ i : Fin slots, _
  decide +kernel

theorem stores_reach_file_mapAll : Delivered oneFile zeros (Run.after (World.step oneFile) (World.start zeros) mapAll) ∧
      (Run.after (World.step oneFile) (World.start zeros) mapAll).phase 1 = .idle ∧
      (Run.after (World.step oneFile) (World.start zeros) mapAll).file 0 4096 = 7 :=
  ⟨stores_reach_file oneFile zeros mapAll mapAll_orderly,by decide +kernel⟩

/-- The first of two pages is unmapped, then the second is written; the task exits. -/
def mapPart : List Event :=
  [.mmap 1 4096 8192 0 0 [1],.munmap 1 4096 4096,.resume 1,.resume 1,.resume 1,.resume 1,.resume 1,.store 1 8192 7,
    .exit 1 true,.resume 1]

/-- The entry of both pages is gone with the first, so that nobody writes the second. -/
theorem partial_munmap_loses_store :
    (Run.after (World.step oneFile) (World.start zeros) (mapPart.take 7)).phase 1 = .idle ∧
    (Run.after (World.step oneFile) (World.start zeros) (mapPart.take 7)).backed 0 8192 = some (0,4096) ∧
    (Run.after (World.step oneFile) (World.start zeros) mapPart).phase 1 = .dead ∧
    (Run.after (World.step oneFile) (World.start zeros) mapPart).ideal 0 4096 = 7 ∧
    (Run.after (World.step oneFile) (World.start zeros) mapPart).file 0 4096 = 0 := by
  decide +kernel

end UbixOS.Vmm.Shmap
