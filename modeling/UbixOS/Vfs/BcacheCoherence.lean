import UbixOS.Vfs.BcacheTable

namespace UbixOS.Bcache

open Library Cache

variable {i : Nat}

/-- What the write started last puts in the sector, or what the device has. -/
def Sys.latest (s : Sys) (dev : Dev) (x : UInt32) : Sector :=
  match newest s.writers dev x with
  | some w => w.req.at w.data x
  | none => s.disk dev x

lemma newest_none : newest writers dev x = none ↔ ∀ w ∈ writers, ¬w.req.Covers dev x := by
  simp [newest,List.find?_eq_none]

/-- A write's end changes which write is the newest only on its own sectors. -/
lemma newest_eraseIdx (present : writers[i]? = some w) (dev : Dev) (x : UInt32) :
    newest (writers.eraseIdx i) dev x = (newest (writers.take i) dev x).or (newest (writers.drop (i + 1)) dev x) ∧
      newest writers dev x = (newest (writers.take i) dev x).or
        (if w.req.Covers dev x then some w else newest (writers.drop (i + 1)) dev x) := by
  obtain ⟨inside,same⟩ := List.getElem?_eq_some_iff.mp present
  have split : writers = writers.take i ++ w :: writers.drop (i + 1) := by
    rw [← same,List.getElem_cons_drop,List.take_append_drop]
  constructor
  · rw [List.eraseIdx_eq_take_drop_succ]
    exact List.find?_append
  conv_lhs => rw [split]
  rw [newest,List.find?_append,List.find?_cons]
  by_cases covered : w.req.Covers dev x <;> simp [covered,newest]

lemma newest_eraseIdx_of_not (present : writers[i]? = some w) (away : ¬w.req.Covers dev x) :
    newest (writers.eraseIdx i) dev x = newest writers dev x := by
  obtain ⟨after,before⟩ := newest_eraseIdx present dev x
  rw [after,before,if_neg away]

def Sys.Clear (s : Sys) (req : Req) : Prop :=
  ∀ w ∈ s.writers, ∀ dev x, w.req.Covers dev x → ¬req.Covers dev x

/-- The steps that keep the copies current: a read miss transfers while no write of its
sectors is under way, overlapping writes reach the device in the order they started, and
a write that fails has no cached sector. -/
def Ordered (s : Sys) : Event → Prop
  | .readTransfer ok => ok = true → ∀ r, s.reader = some r → r.buf = none → s.Clear r.req
  | .writeTransfer i => ∀ w older, s.writers[i]? = some w → older ∈ s.writers.drop (i + 1) →
      ∀ dev x, w.req.Covers dev x → ¬older.req.Covers dev x
  | .writeFails i _ => ∀ w, s.writers[i]? = some w → ∀ dev x data, w.req.Covers dev x → ¬s.cache.Holds dev x data
  | _ => True

structure Reader.Ok (s : Sys) (r : Reader) : Prop where
  since : ∀ dev x data, r.since dev x = some data → s.acked dev x = some data
  clear : r.buf.isSome → s.Clear r.req
  current : ∀ buf, r.buf = some buf → ∀ dev x, r.req.Covers dev x → r.req.at buf x = s.disk dev x

/-- The read returned what the last completed write had left. -/
def Reply.Right (r : Reply) : Prop :=
  ∀ dev x data, r.req.Covers dev x → r.since dev x = some data → r.req.at r.out x = data

structure Coherent (s : Sys) : Prop where
  table : ∃ nodes, s.cache.Ok nodes
  fresh : ∀ dev x data, s.cache.Holds dev x data → data = s.latest dev x
  acked : ∀ dev x data, s.acked dev x = some data → newest s.writers dev x = none ∧ s.disk dev x = data
  reader : ∀ r, s.reader = some r → r.Ok s
  replies : ∀ r ∈ s.replies, r.Right

lemma boot_coherent (disk : Disk) : Coherent (Sys.boot disk) where
  table := ⟨_,init_ok⟩
  fresh dev x data holds := by
    obtain ⟨i,owns,_⟩ := holds
    exact absurd owns.valid (by simp [Sys.boot,Cache.init])
  acked := nofun
  reader := nofun
  replies := nofun

lemma Req.at_sector (req : Req) (f : UInt32 → Sector) (x : UInt32) :
    req.at (fun i => f (sector req.lba i)) x = f x := by
  rw [Req.at,sector_self]

section Steps

variable (coherent : Coherent s)
include coherent

lemma Coherent.acked_latest (acked : s.acked dev x = some data) : s.latest dev x = data := by
  obtain ⟨clear,same⟩ := coherent.acked dev x data acked
  rw [Sys.latest,clear]
  exact same

lemma Coherent.less (table : ∃ nodes, cache.Ok nodes) (less : s.cache.Less cache) : Coherent { s with cache } where
  table := table
  fresh dev x data holds := coherent.fresh dev x data (less.holds holds)
  acked := coherent.acked
  reader r reading :=
    have ok := coherent.reader r reading
    ⟨ok.since,ok.clear,ok.current⟩
  replies := coherent.replies

lemma Coherent.readStart (req : Req) (free : s.reader = none) : Coherent (s.readStart req) := by
  obtain ⟨nodes,table⟩ := coherent.table
  rw [Sys.readStart]
  cases hit : s.cache.allCached req.dev req.lba req.count.toNat with
  | false =>
    refine ⟨⟨nodes,table⟩,coherent.fresh,coherent.acked,fun r reading => ?_,coherent.replies⟩
    cases reading
    exact ⟨fun _ _ _ same => same,(by simp),(by simp)⟩
  | true =>
    obtain ⟨after,less,_,copied⟩ := table.copyOut req.dev req.lba req.count.toNat
    have kept := coherent.less ⟨nodes,after⟩ less
    refine ⟨kept.table,kept.fresh,kept.acked,fun r reading => absurd reading (by simp [free]),fun r member => ?_⟩
    rcases List.mem_cons.mp member with rfl | member
    · rintro dev x data ⟨rfl,inside⟩ since
      have cached := List.all_eq_true.mp hit _ (List.mem_range.mpr inside)
      have holds := copied _ inside cached
      rw [sector_self] at holds
      exact (coherent.fresh req.dev x _ holds).trans (coherent.acked_latest since)
    · exact coherent.replies r member

lemma Coherent.readTransfer (reading : s.reader = some r) (ok : Bool)
    (clear : ok = true → s.Clear r.req) : Coherent (s.readTransfer r ok) := by
  have before := coherent.reader r reading
  rw [Sys.readTransfer]
  cases ok with
  | false => exact ⟨coherent.table,coherent.fresh,coherent.acked,nofun,coherent.replies⟩
  | true =>
    refine ⟨coherent.table,coherent.fresh,coherent.acked,fun r' reading' => ?_,coherent.replies⟩
    cases reading'
    refine ⟨before.since,fun _ => clear rfl,fun buf same => ?_⟩
    cases same
    rintro dev x ⟨rfl,_⟩
    exact r.req.at_sector (s.disk r.req.dev) x

lemma Coherent.readFill (reading : s.reader = some r) (read : r.buf = some buf) : Coherent (s.readFill r buf) := by
  obtain ⟨nodes,table⟩ := coherent.table
  have before := coherent.reader r reading
  have clear := before.clear (by rw [read]; rfl)
  have current := before.current buf read
  obtain ⟨after,filled⟩ := table.fill r.req.dev r.req.lba buf r.req.count.toNat_lt.le
  refine ⟨after,fun dev x data holds => ?_,coherent.acked,nofun,fun reply member => ?_⟩
  · rcases filled dev x data holds with ⟨covered,same⟩ | ⟨_,holds⟩
    · change data = s.latest dev x
      rw [Sys.latest,newest_none.mpr fun w member covers => clear w member dev x covers covered]
      exact same.trans (current dev x covered)
    · exact coherent.fresh dev x data holds
  · rcases List.mem_cons.mp member with rfl | member
    · intro dev x data covered since
      exact (current dev x covered).trans (coherent.acked dev x data (before.since dev x data since)).2
    · exact coherent.replies reply member

lemma Coherent.writeStart (req : Req) (data : Nat → Sector) (free : s.reader = none) :
    Coherent (s.writeStart req data) := by
  obtain ⟨nodes,table⟩ := coherent.table
  obtain ⟨after,refreshed⟩ := table.refresh req.dev req.lba data req.count.toNat_lt.le
  refine ⟨⟨nodes,after⟩,fun dev x held holds => ?_,fun dev x held acked => ?_,
    fun r reading => absurd reading (by simp [Sys.writeStart,free]),coherent.replies⟩
  · obtain ⟨old,holdsOld,same⟩ := refreshed dev x held holds
    change held = if req.Covers dev x then req.at data x else old at same
    by_cases covered : req.Covers dev x
    · rw [if_pos covered] at same
      simpa [Sys.latest,Sys.writeStart,newest,covered] using same
    rw [if_neg covered] at same
    have before := same.trans (coherent.fresh dev x old holdsOld)
    simpa [Sys.latest,Sys.writeStart,newest,covered] using before
  · by_cases covered : req.Covers dev x
    · simp [Sys.writeStart,covered] at acked
    simp only [Sys.writeStart,if_neg covered] at acked
    obtain ⟨clear,same⟩ := coherent.acked dev x held acked
    refine ⟨?_,same⟩
    simpa [Sys.writeStart,newest,covered] using clear

omit coherent in
/-- An overlapping write that started later keeps its bytes on top, so nothing changes for the readers. -/
lemma latest_writeTransfer (present : s.writers[i]? = some w)
    (oldest : ∀ older ∈ s.writers.drop (i + 1), ∀ dev x, w.req.Covers dev x → ¬older.req.Covers dev x)
    (dev : Dev) (x : UInt32) : (s.writeTransfer w i).latest dev x = s.latest dev x := by
  obtain ⟨after,before⟩ := newest_eraseIdx present dev x
  by_cases covered : w.req.Covers dev x
  · have none : newest (s.writers.drop (i + 1)) dev x = none :=
      newest_none.mpr fun older member => oldest older member dev x covered
    rw [none,Option.or_none] at after
    rw [if_pos covered] at before
    simp only [Sys.latest,Sys.writeTransfer,after,before,if_pos covered]
    cases newest (s.writers.take i) dev x <;> rfl
  · have same := newest_eraseIdx_of_not present covered
    simp only [Sys.latest,Sys.writeTransfer,same,if_neg covered]

lemma Coherent.readerKept (reading : s.reader = some r)
    (present : s.writers[i]? = some w) (writers : t.writers = s.writers.eraseIdx i)
    (acked : ∀ dev x data, s.acked dev x = some data → t.acked dev x = some data)
    (disk : ∀ dev x, ¬w.req.Covers dev x → t.disk dev x = s.disk dev x) : r.Ok t := by
  have before := coherent.reader r reading
  refine ⟨fun dev x data since => acked dev x data (before.since dev x data since),fun read => ?_,
    fun buf read dev x covered => ?_⟩
  · intro w' member
    rw [writers] at member
    exact before.clear read w' (List.mem_of_mem_eraseIdx member)
  · have clear := before.clear (by rw [read]; rfl) w (List.mem_of_getElem? present)
    rw [disk dev x fun covers => clear dev x covers covered]
    exact before.current buf read dev x covered

lemma Coherent.acked_away (present : s.writers[i]? = some w)
    (acked : s.acked dev x = some data) : ¬w.req.Covers dev x :=
  newest_none.mp (coherent.acked dev x data acked).1 w (List.mem_of_getElem? present)

lemma Coherent.writeTransfer (present : s.writers[i]? = some w)
    (oldest : ∀ older ∈ s.writers.drop (i + 1), ∀ dev x, w.req.Covers dev x → ¬older.req.Covers dev x) :
    Coherent (s.writeTransfer w i) where
  table := coherent.table
  fresh dev x data holds := by
    rw [latest_writeTransfer present oldest]
    exact coherent.fresh dev x data holds
  acked dev x data acked := by
    by_cases covered : w.req.Covers dev x
    · by_cases last : newest (s.writers.eraseIdx i) dev x = none
      · simp only [Sys.writeTransfer,covered,last,Option.isNone_none,and_self,if_true] at acked
        refine ⟨last,?_⟩
        simpa [Sys.writeTransfer,covered] using acked
      · have before : s.acked dev x = some data := by simpa [Sys.writeTransfer,last] using acked
        exact absurd covered (coherent.acked_away present before)
    · have before : s.acked dev x = some data := by simpa [Sys.writeTransfer,covered] using acked
      obtain ⟨clear,same⟩ := coherent.acked dev x data before
      refine ⟨(newest_eraseIdx_of_not present covered).trans clear,?_⟩
      simpa [Sys.writeTransfer,covered] using same
  reader r reading := by
    apply coherent.readerKept reading present rfl
    · intro dev x data acked
      simpa [Sys.writeTransfer,coherent.acked_away present acked] using acked
    · intro dev x away
      simp [Sys.writeTransfer,away]
  replies := coherent.replies

lemma Coherent.writeFails (present : s.writers[i]? = some w) (written : Nat)
    (uncached : ∀ dev x data, w.req.Covers dev x → ¬s.cache.Holds dev x data) :
    Coherent (s.writeFails w i written) where
  table := coherent.table
  fresh dev x data holds := by
    have away : ¬w.req.Covers dev x := fun covers => uncached dev x data covers holds
    have same := newest_eraseIdx_of_not present away
    simp only [Sys.latest,Sys.writeFails,same,away,false_and,if_false]
    exact coherent.fresh dev x data holds
  acked dev x data acked := by
    have away := coherent.acked_away present acked
    obtain ⟨clear,same⟩ := coherent.acked dev x data acked
    refine ⟨(newest_eraseIdx_of_not present away).trans clear,?_⟩
    simpa [Sys.writeFails,away] using same
  reader r reading := by
    apply coherent.readerKept reading present rfl
    · exact fun _ _ _ acked => acked
    · intro dev x away
      simp [Sys.writeFails,away]
  replies := coherent.replies

lemma step_coherent (ordered : Ordered s e) : Coherent (step s e) := by
  cases e with
  | readStart req =>
    cases reading : s.reader with
    | none => simpa [step,reading] using coherent.readStart req reading
    | some r => simpa [step,reading] using coherent
  | readTransfer ok =>
    cases reading : s.reader with
    | none => simpa [step,reading] using coherent
    | some r =>
      obtain ⟨req,buf,since⟩ := r
      cases buf with
      | none => simpa [step,reading] using coherent.readTransfer reading ok fun done => ordered done _ reading rfl
      | some buf => simpa [step,reading] using coherent
  | readFill =>
    cases reading : s.reader with
    | none => simpa [step,reading] using coherent
    | some r =>
      obtain ⟨req,buf,since⟩ := r
      cases buf with
      | none => simpa [step,reading] using coherent
      | some buf => simpa [step,reading] using coherent.readFill reading rfl
  | writeStart req data =>
    cases reading : s.reader with
    | none => simpa [step,reading] using coherent.writeStart req data reading
    | some r => simpa [step,reading] using coherent
  | writeTransfer i =>
    cases present : s.writers[i]? with
    | none => simpa [step,present] using coherent
    | some w =>
      simpa [step,present] using coherent.writeTransfer present fun older member => ordered w older present member
  | writeFails i written =>
    cases present : s.writers[i]? with
    | none => simpa [step,present] using coherent
    | some w => simpa [step,present] using coherent.writeFails present written (ordered w present)
  | invalidate dev =>
    cases reading : s.reader with
    | none =>
      obtain ⟨nodes,table⟩ := coherent.table
      obtain ⟨after,less⟩ := table.dropDevice dev (Nat.le_refl bcacheSlots)
      simpa [step,reading,Cache.invalidate] using coherent.less after less
    | some r => simpa [step,reading] using coherent

end Steps

def Sys.Idle (s : Sys) : Prop := s.reader = none ∧ s.writers = []

/-- When nothing is in progress every cached sector is the device's, and every read that
began with its sector's last write completed and no later one begun returned that write's bytes. -/
theorem bcache_coherent (disk : Disk) (events : List Event) (ordered : Run.Legal step Ordered (Sys.boot disk) events) :
    ((Run.after step (Sys.boot disk) events).Idle → ∀ dev x data,
        (Run.after step (Sys.boot disk) events).cache.Holds dev x data →
          (Run.after step (Sys.boot disk) events).disk dev x = data) ∧
      ∀ r ∈ (Run.after step (Sys.boot disk) events).replies, r.Right := by
  have coherent : Coherent (Run.after step (Sys.boot disk) events) :=
    ordered.invariant (I := Coherent) (fun s e kept allowed => step_coherent kept allowed) (boot_coherent disk)
  refine ⟨fun idle dev x data holds => ?_,coherent.replies⟩
  rw [coherent.fresh dev x data holds,Sys.latest,idle.2]
  rfl

def plain (b : UInt8) : Sector := fun _ => b

def first : Req := ⟨0,0,1⟩

/-- A write that ends, and then a read of its sector. -/
def reread : List Event :=
  [.writeStart first fun _ => plain 1,.writeTransfer 0,.readStart first,.readTransfer true,.readFill]

theorem bcache_coherent_reread : ∃ r ∈ (Run.after step (Sys.boot fun _ _ => plain 0) reread).replies,
    r.since 0 0 = some (plain 1) ∧ r.req.at r.out 0 = plain 1 := by
  have none : (step (step (step (Sys.boot fun _ _ => plain 0) (.writeStart first fun _ => plain 1))
      (.writeTransfer 0)) (.readStart first)).writers = [] := rfl
  have ordered : Run.Legal step Ordered (Sys.boot fun _ _ => plain 0) reread := by
    refine ⟨trivial,fun w older _ member => (nomatch member),trivial,fun _ _ _ _ w member => ?_,trivial,trivial⟩
    rw [none] at member
    cases member
  refine ⟨_,List.mem_cons_self,rfl,?_⟩
  exact (bcache_coherent _ reread ordered).2 _ List.mem_cons_self 0 0 (plain 1) ⟨rfl,by decide⟩ rfl

/-- The read's miss falls between the write's critical section and its transfer. -/
def race : List Event :=
  [.writeStart first fun _ => plain 1,.readStart first,.readTransfer true,.readFill,.writeTransfer 0,.readStart first]

/-- The write is refused after its sector was cached. -/
def refused : List Event :=
  [.readStart first,.readTransfer true,.readFill,.writeStart first fun _ => plain 1,.writeFails 0 0]

theorem bcache_stale : ((Run.after step (Sys.boot fun _ _ => plain 0) race).Idle ∧
      (Run.after step (Sys.boot fun _ _ => plain 0) race).cache.Holds 0 0 (plain 0) ∧
      (Run.after step (Sys.boot fun _ _ => plain 0) race).disk 0 0 = plain 1 ∧
      ∃ r ∈ (Run.after step (Sys.boot fun _ _ => plain 0) race).replies, ¬r.Right) ∧
    (Run.after step (Sys.boot fun _ _ => plain 0) refused).Idle ∧
      (Run.after step (Sys.boot fun _ _ => plain 0) refused).cache.Holds 0 0 (plain 1) ∧
      (Run.after step (Sys.boot fun _ _ => plain 0) refused).disk 0 0 = plain 0 := by
  refine ⟨⟨⟨rfl,rfl⟩,⟨0,⟨by decide,rfl,rfl,rfl⟩,rfl⟩,rfl,_,List.mem_cons_self,fun right => ?_⟩,⟨rfl,rfl⟩,
    ⟨0,⟨by decide,rfl,rfl,rfl⟩,rfl⟩,rfl⟩
  have equal : plain 0 = plain 1 := right 0 0 (plain 1) ⟨rfl,by decide⟩ rfl
  exact absurd (congrFun equal 0) (by decide)

end UbixOS.Bcache
