import UbixOS.Ubfs.Dir

/-! Datasets (`ubfs_dsl.c`): named object sets whose records live in the object set
of the pool itself, the MOS. The new object set of a dataset is only seen as its block pointer. -/
namespace UbixOS.Ubfs

open Library List FsProg

/-- The dataset directory within the MOS. -/
abbrev mosDirObj : Nat := 1

def DatasetPhys.toBonus (dp : DatasetPhys) : Bytes 352 := ((DatasetPhys.layout.put dp).take 232).toBytes 352

def datasetPut (obj : Nat) (dp : DatasetPhys) : FsProg Unit := Prog.perform (.setBonus obj btDataset 232 dp.toBonus)

/-- `strncpy` into a zeroed field, keeping a final NUL. -/
def nameField (name : List UInt8) (n : Nat) : Bytes n := fun i =>
  if i.val < n - 1 then name.getD i.val 0 else 0

def fsPhys (bp : Blkptr) (name : List UInt8) : DatasetPhys :=
  { bp, type := dsFs, used := 0, recordsize := 4096, volsize := 0, compression := coOff.toUInt32, atime := 1
    name := nameField name 64 }

def volPhys (bp : Blkptr) (name : List UInt8) (volsize : UInt64) : DatasetPhys :=
  { bp, type := dsVol, used := 0, recordsize := 4096, volsize, compression := coOff.toUInt32, atime := 0
    name := nameField name 64 }

/-- What both creates do in the MOS once the new object set has a header: an object, its record, and a name. -/
def addDataset (dp : DatasetPhys) (name : List UInt8) : FsProg Nat := do
  let obj ← (Prog.perform (.objectAlloc otDataset btDataset)).orFail (-1)
  (datasetPut obj dp).orFail (-1)
  (dirAdd mosDirObj name obj 0).orFail (-1)
  return obj

def dslLookup (name : List UInt8) : FsProg Nat := do
  let found ← dirLookup mosDirObj name
  return found.1

def dslForeach (cb : β → List UInt8 → Nat → Int × β) (acc : β) : FsProg (Int × β) :=
  dirForeach mosDirObj (fun acc name obj _ => cb acc name obj) acc

lemma direntOf_text (short : name.length < 240) (string : 0 ∉ name) (obj : Nat) (type : UInt8) :
    (direntOf name obj type).text = name := by
  have bytes : (range 240).map (direntOf name obj type).name.toBuffer =
      name ++ replicate (240 - name.length) 0 := by
    refine ext_getElem (by simp; omega) fun i low _ => ?_
    have low : i < 240 := by simpa using low
    rw [getElem_map,getElem_range,getElem_append]
    simp only [direntOf,Bytes.toBuffer,low,dif_pos]
    split
    next inside => simp [getD,inside]
    next outside => simp [getD,outside]
  have keep c (member : c ∈ name) : (decide (c ≠ 0)) = true := by
    simpa using fun zero : c = 0 => string (zero ▸ member)
  obtain ⟨n,rest⟩ : ∃ n, 240 - name.length = n + 1 := ⟨240 - name.length - 1,by omega⟩
  rw [Dirent.text,bytes,takeWhile_append_of_pos keep,rest,replicate_succ,takeWhile_cons_of_neg (by simp),
    append_nil]

/-- A create as the MOS sees it: the header pointer of the new object set, and a C string for its name. -/
structure Create where
  phys : Blkptr → List UInt8 → DatasetPhys
  bp : Blkptr
  name : List UInt8
  string : 0 ∉ name

namespace Create

def fs (bp : Blkptr) (name : List UInt8) (string : 0 ∉ name) : Create := ⟨fsPhys,bp,name,string⟩

def volume (bp : Blkptr) (name : List UInt8) (volsize : UInt64) (string : 0 ∉ name) : Create :=
  ⟨fun bp name => volPhys bp name volsize,bp,name,string⟩

def run (c : Create) : FsProg Nat := addDataset (c.phys c.bp c.name) c.name

def step (M : Store) (c : Create) : Store := (c.run.on M).2

end Create

def newMos : Store := (Store.empty.alloc otDirectory btNone).2

/-- The datasets made so far, in the order of their creation: object `k + 2` is the `k`th, in slot `k`. -/
structure MosOk (M : Store) (names : List (List UInt8)) : Prop where
  dir : DirOk (M.obj mosDirObj)
  free : M.free = []
  next : M.next = names.length + 2
  count : (M.obj mosDirObj).count = names.length
  entry : ∀ k (low : k < names.length), (M.obj mosDirObj).entry k = direntOf names[k] (k + 2) 0
  text : ∀ name ∈ names, name.length < 240 ∧ 0 ∉ name

lemma newMos_ok : MosOk newMos [] := by
  have own (i : Nat) : (Obj.init otDirectory btNone).own i = 0 := rfl
  have count : (Obj.init otDirectory btNone).count = 0 := by
    have zero : Layout.u64.get (Obj.init otDirectory btNone).own = Layout.u64.get Buffer.zero :=
      Layout.u64.get_congr _ _ fun j _ => own j
    rw [Obj.count,zero]
    rfl
  have dir : newMos.obj mosDirObj = Obj.init otDirectory btNone := rfl
  refine ⟨?_,rfl,rfl,by rw [dir,count]; rfl,(by simp),(by simp)⟩
  rw [dir]
  refine ⟨⟨?_,?_,fun k => Nat.zero_le _,fun _ _ _ => rfl,fun _ _ => rfl⟩,rfl,?_,by rw [count]; decide⟩
  · exact (by decide : 1 ≤ (1 : UInt8).toNat)
  · exact (by decide : (1 : UInt8).toNat ≤ 14)
  · rw [count]
    exact Obj.reach_pos _

lemma find?_same {items : List α} {first second : α → Bool} (same : ∀ a ∈ items, first a = second a) :
    items.find? first = items.find? second := by
  induction items with
  | nil => rfl
  | cons a items ih =>
    rw [find?_cons,find?_cons,same a mem_cons_self,ih fun b member => same b (.tail a member)]

section Names

variable (ok : MosOk M names)
include ok

lemma MosOk.slot_obj (low : k < names.length) : ((M.obj mosDirObj).entry k).obj.toNat = k + 2 := by
  have few := ok.dir.few
  rw [ok.count] at few
  rw [ok.entry k low]
  exact UInt64.toNat_ofNat_of_lt' (Nat.lt_trans (by omega : k + 2 < 2^56) (by decide))

lemma MosOk.slot_text (low : k < names.length) : ((M.obj mosDirObj).entry k).text = names[k] := by
  obtain ⟨short,string⟩ := ok.text names[k] (getElem_mem low)
  rw [ok.entry k low,direntOf_text short string]

lemma MosOk.live (low : k < names.length) : ((M.obj mosDirObj).entry k).obj ≠ 0 := by
  intro zero
  have obj := ok.slot_obj low
  rw [zero] at obj
  cases obj

lemma MosOk.freeSlot : (M.obj mosDirObj).freeSlot = names.length := by
  have none : (M.obj mosDirObj).find (·.obj = 0) = none := by
    rw [Obj.find,find?_eq_none]
    intro k member
    have low := mem_range.mp member
    rw [ok.count] at low
    simpa using ok.live low
  rw [Obj.freeSlot,none,Option.getD_none,ok.count]

lemma MosOk.lookup (name : List UInt8) : on (dslLookup name) M =
    (match (range names.length).find? (fun k => names[k]? = some name) with
      | some k => .ok (k + 2)
      | none => .error (-1),M) := by
  have find : (M.obj mosDirObj).find (·.names name) =
      (range names.length).find? fun k => names[k]? = some name := by
    rw [Obj.find,ok.count]
    refine find?_same fun k member => ?_
    have low := mem_range.mp member
    simp [Dirent.names,ok.slot_text low,ok.live low,low]
  rw [dslLookup,on_bind,dirLookup_on ok.dir,find]
  cases hit : (range names.length).find? (fun k => names[k]? = some name) with
  | none => rfl
  | some k =>
    have low := mem_range.mp (mem_of_find?_eq_some hit)
    dsimp only
    rw [ok.slot_obj low]
    rfl

lemma MosOk.lookup_missing (missing : (on (dslLookup name) M).1 = .error e) : name ∉ names := by
  intro member
  obtain ⟨k,low,here⟩ := getElem_of_mem member
  rw [ok.lookup] at missing
  cases hit : (range names.length).find? (fun k => names[k]? = some name) with
  | none =>
    have := find?_eq_none.mp hit k (mem_range.mpr low)
    simp [low,here] at this
  | some k => simp [hit] at missing

lemma MosOk.lookup_found (distinct : names.Nodup) (low : k < names.length) :
    on (dslLookup names[k]) M = (.ok (k + 2),M) := by
  have hit : (range names.length).find? (fun i => names[i]? = some names[k]) = some k := by
    rw [find?_range_eq_some]
    refine ⟨by simp [low],mem_range.mpr low,fun j before => ?_⟩
    have other : names[j]? = some names[j] := getElem?_eq_getElem (by omega)
    simp only [other,Option.some.injEq,Bool.not_eq_eq_eq_not,Bool.not_true,decide_eq_false_iff_not]
    intro same
    exact absurd ((distinct.getElem_inj_iff).mp same) (by omega)
  rw [ok.lookup,hit]

lemma MosOk.live_entries : (M.obj mosDirObj).live = (range names.length).map (M.obj mosDirObj).entry := by
  rw [Obj.live,ok.count,filter_eq_self]
  intro e member
  obtain ⟨k,range,rfl⟩ := mem_map.mp member
  simpa using ok.live (mem_range.mp range)

lemma MosOk.live_text : (M.obj mosDirObj).live.map Dirent.text = names := by
  rw [ok.live_entries]
  refine ext_getElem (by simp) fun k low _ => ?_
  have low : k < names.length := by simpa using low
  simp [ok.slot_text low]

lemma MosOk.foreach : on (dslForeach (fun acc name obj => (0,acc ++ [(name,obj)])) []) M =
    (.ok (0,names.zip (range' 2 names.length)),M) := by
  have feeding (entries : List Dirent) (acc : List (List UInt8 × Nat)) :
      feed (fun acc name obj _ => ((0 : Int),acc ++ [(name,obj)])) entries acc =
        (0,acc ++ entries.map fun e => (e.text,e.obj.toNat)) := by
    induction entries generalizing acc with
    | nil => simp [feed]
    | cons e rest ih => simp [feed,ih]
  have listed : ((range names.length).map (M.obj mosDirObj).entry).map (fun e => (e.text,e.obj.toNat)) =
      names.zip (range' 2 names.length) := by
    refine ext_getElem (by simp) fun k low _ => ?_
    have low : k < names.length := by simpa using low
    simp [ok.slot_text low,ok.slot_obj low,Nat.add_comm]
  rw [dslForeach,dirForeach_on ok.dir,feeding,ok.live_entries,nil_append,listed]

/-- A create adds its name at the end, whatever names there are already. -/
lemma MosOk.create (c : Create) (short : c.name.length < 240) (few : names.length + 1 < 2^55) :
    on c.run M = (.ok (names.length + 2),c.step M) ∧ MosOk (c.step M) (names ++ [c.name]) := by
  have alloc : (Cmd.objectAlloc otDataset btDataset).eval M =
      (names.length + 2,{ M with next := M.next + 1 }.set M.next (Obj.init otDataset btDataset)) := by
    simp only [Cmd.eval,Store.alloc,ok.free,ok.next]
  generalize new : ({ M with next := M.next + 1 } : Store).set M.next (Obj.init otDataset btDataset) = M1 at alloc
  generalize put : ((Cmd.setBonus (names.length + 2) btDataset 232 (c.phys c.bp c.name).toBonus).eval M1).2 = M2
  have other : mosDirObj ≠ names.length + 2 := by simp only [mosDirObj]; omega
  have dir : M2.obj mosDirObj = M.obj mosDirObj := by
    rw [← put,← new]
    simp only [Cmd.eval,Store.update,Store.set,ok.next,if_neg other]
  have free : M2.free = [] := by rw [← put,← new]; exact ok.free
  have next : M2.next = names.length + 3 := by rw [← put,← new]; exact congrArg (· + 1) ok.next
  obtain ⟨o',added,place⟩ := dirAdd_on (S := M2) (d := mosDirObj) (dir ▸ ok.dir) short
    (by rw [dir,ok.count]; exact few) (names.length + 2) 0
  rw [dir,ok.freeSlot] at place
  have run : on c.run M = (.ok (names.length + 2),M2.set mosDirObj o') := by
    rw [Create.run,addDataset,on_bind_ok (on_orFail_ok (on_perform _ _)),alloc,datasetPut,
      on_bind_ok (on_orFail_ok (on_perform _ _)),put,
      on_bind_ok (on_orFail_ok added)]
    rfl
  have count : o'.count = names.length + 1 := by
    rw [place.count,ok.count]
    omega
  have step : c.step M = M2.set mosDirObj o' := by rw [Create.step,run]
  refine ⟨by rw [step,run],?_⟩
  rw [step]
  refine ⟨?_,free,next.trans (by simp),?_,fun k low => ?_,fun name member => ?_⟩
  · rw [Store.set_self]
    exact place.ok
  · rw [Store.set_self,count]
    simp
  · have low : k < names.length + 1 := by simpa using low
    rw [Store.set_self,place.entry k (count ▸ low)]
    by_cases last : k = names.length
    · subst last
      simp
    · have before : k < names.length := by omega
      rw [if_neg last,ok.entry k before,getElem_append_left before]
  · rcases mem_append.mp member with old | new
    · exact ok.text name old
    · rw [mem_singleton.mp new]
      exact ⟨short,c.string⟩

end Names

lemma Create.short {M : Store} {c : Create} (done : (on c.run M).1 = .ok obj) : c.name.length < 240 := by
  by_contra long
  have refused : dirAdd mosDirObj c.name (M.alloc otDataset btDataset).1 0 = Prog.fail (-1) := by
    rw [dirAdd,if_pos (by omega)]
  rw [Create.run,addDataset,on_bind_ok (on_orFail_ok (on_perform _ _)),datasetPut,
    on_bind_ok (on_orFail_ok (on_perform _ _)),on_bind,on_orFail] at done
  simp [Cmd.eval,refused] at done

/-- The create succeeds, and its name was not known before. -/
structure Create.Fresh (M : Store) (c : Create) : Prop where
  done : ∃ obj, (on c.run M).1 = .ok obj
  room : M.next < 2^55
  unknown : ∃ e, (on (dslLookup c.name) M).1 = .error e

/-- The records of the MOS after these creates. -/
structure Created (creates : List Create) (M : Store) : Prop where
  ok : MosOk M (creates.map Create.name)
  distinct : (creates.map Create.name).Nodup

open Run in
lemma created_after (creates : List Create) (legal : Legal Create.step Create.Fresh newMos creates) :
    Created creates (after Create.step newMos creates) := by
  induction creates using reverseRecOn with
  | nil => exact ⟨newMos_ok,nodup_nil⟩
  | append_singleton front c ih =>
    obtain ⟨before,⟨⟨obj,done⟩,room,e,unknown⟩,-⟩ := legal_append.mp legal
    have old := ih before
    have few : (front.map Create.name).length + 1 < 2^55 := by
      rw [old.ok.next] at room
      omega
    obtain ⟨-,next⟩ := old.ok.create c (Create.short done) few
    rw [after_append]
    refine ⟨by simpa using next,?_⟩
    simpa [nodup_append] using ⟨by simpa using old.distinct,by simpa using old.ok.lookup_missing unknown⟩

open Run in
/-- If every create is of a name that was not there, the names are distinct, each dataset is found by
its name, and the datasets are listed once each. -/
theorem dataset_names_unique (creates : List Create) (legal : Legal Create.step Create.Fresh newMos creates) :
    let M := after Create.step newMos creates
    ((M.obj mosDirObj).live.map Dirent.text).Nodup ∧
    (∀ front c rest, creates = front ++ c :: rest → ∃ obj, (on c.run (after Create.step newMos front)).1 = .ok obj ∧
      on (dslLookup c.name) M = (.ok obj,M)) ∧
    on (dslForeach (fun acc name obj => (0,acc ++ [(name,obj)])) []) M =
      (.ok (0,(creates.map Create.name).zip (range' 2 creates.length)),M) := by
  intro M
  have created := created_after creates legal
  refine ⟨?_,?_,?_⟩
  · rw [created.ok.live_text]
    exact created.distinct
  · rintro front c rest rfl
    obtain ⟨before,⟨⟨obj,done⟩,room,-⟩,-⟩ := legal_append.mp legal
    have old := created_after front before
    have few : (front.map Create.name).length + 1 < 2^55 := by
      rw [old.ok.next] at room
      omega
    obtain ⟨run,-⟩ := old.ok.create c (Create.short done) few
    have low : front.length < ((front ++ c :: rest).map Create.name).length := by simp
    have found := created.ok.lookup_found created.distinct low
    refine ⟨front.length + 2,by simp [run],?_⟩
    simpa using found
  · simpa using created.ok.foreach

namespace Twice

def fs : Create := .fs Blkptr.zero [97] (by decide)
def volume : Create := .volume Blkptr.zero [98] 4096 (by decide)

lemma first : on fs.run newMos = (.ok 2,fs.step newMos) ∧ MosOk (fs.step newMos) [[97]] :=
    newMos_ok.create fs (by decide) (by decide)

lemma legal : Run.Legal Create.step Create.Fresh newMos [fs,volume] := by
  obtain ⟨-,ok⟩ := first
  refine ⟨⟨⟨2,by rw [first.1]⟩,by decide,-1,?_⟩,⟨⟨3,?_⟩,?_,-1,?_⟩,trivial⟩
  · rw [newMos_ok.lookup]
    rfl
  · rw [(ok.create volume (by decide) (by decide)).1]
    rfl
  · rw [ok.next]
    decide
  · rw [ok.lookup]
    rfl

end Twice

theorem dataset_names_unique_two : Run.Legal Create.step Create.Fresh newMos [Twice.fs,Twice.volume] ∧
    (((Run.after Create.step newMos [Twice.fs,Twice.volume]).obj mosDirObj).live.map Dirent.text).Nodup :=
  ⟨Twice.legal,(dataset_names_unique _ Twice.legal).1⟩

/-- A name that is there already is given once more, and its second dataset is not found by it. -/
theorem dataset_name_twice : (on Twice.fs.run newMos).1 = .ok 2 ∧
    (on Twice.fs.run (Twice.fs.step newMos)).1 = .ok 3 ∧
    (on (dslLookup Twice.fs.name) (Run.after Create.step newMos [Twice.fs,Twice.fs])).1 = .ok 2 ∧
    ¬(((Run.after Create.step newMos [Twice.fs,Twice.fs]).obj mosDirObj).live.map Dirent.text).Nodup := by
  obtain ⟨run,ok⟩ := Twice.first
  obtain ⟨run',ok'⟩ := ok.create Twice.fs (by decide) (by decide)
  refine ⟨by rw [run],by rw [run']; rfl,?_,?_⟩
  · change (on _ (Twice.fs.step (Twice.fs.step newMos))).1 = _
    rw [ok'.lookup]
    rfl
  · change ¬(((Twice.fs.step (Twice.fs.step newMos)).obj mosDirObj).live.map Dirent.text).Nodup
    rw [ok'.live_text]
    decide

end UbixOS.Ubfs
