import Mathlib

/-! The mixer of the sound server (usr.sbin/aural) and the rings it shares with its clients. A
client may store into its ring between any two accesses of the server. -/
namespace UbixOS.Aural

open Function

def PERIOD_FRAMES : Nat := 1024
def PERIOD_BYTES : Nat := 4096
def RING_CAPACITY : Nat := 32768
def MAX_STREAMS : Nat := 16
def AURAL_GAIN_UNITY : Nat := 256
def PAGE_SIZE : Nat := 4096

/-- `sizeof(aural_ring)`, the header in front of `data`. -/
def headerBytes : Nat := 16

def pageRound (n : Nat) : Nat := (n+PAGE_SIZE-1) / PAGE_SIZE * PAGE_SIZE

/-- What the header and `data` hold at one moment. An offset that is outside of the region
stands for the memory that follows it. -/
structure Ring where
  writeIdx : UInt32
  readIdx : UInt32
  capacity : UInt32
  data : Nat → UInt8

/-- The ring as each access of the server finds it. -/
abbrev Shared := Nat → Ring

/-- A byte that `memcpy` has moved: from `data[src]` to `dst`. -/
structure Copied where
  dst : Nat
  src : Nat
  byte : UInt8

structure Drained where
  got : Nat
  copies : List Copied
  /-- what is stored into `read_idx` -/
  index : Option UInt32

def cut (n limit : UInt32) : UInt32 := if limit < n then limit else n

/-- `n` after it was cut down to `aural_ring_readable`. -/
def wanted (r : Shared) (n : UInt32) : UInt32 := cut n ((r 0).writeIdx-(r 1).readIdx)

def offset (r : Shared) : UInt32 := (r 3).readIdx &&& ((r 2).capacity-1)

/-- The bytes until the wrap point, at most `n`. -/
def first (r : Shared) (n : UInt32) : UInt32 := cut ((r 4).capacity-offset r) n

def auralRingRead (r : Shared) (bytes : UInt32) : Drained :=
  let n := (wanted r bytes).toNat
  if n = 0 then ⟨0,[],none⟩
  else
    let off := (offset r).toNat
    let first := (first r (wanted r bytes)).toNat
    ⟨n,(List.range first).map (fun k => ⟨k,off+k,(r (5+k)).data (off+k)⟩) ++
      (List.range (n-first)).map (fun k => ⟨first+k,k,(r (5+first+k)).data k⟩),
      some ((r (5+n)).readIdx+wanted r bytes)⟩

/-- Every gain went through `handle_gain` and every region through `claim`. -/
structure Stream where
  inUse : Bool := false
  active : Bool := false
  primed : Bool := false
  id : Nat := 0
  clientPid : Int := -1
  gain : Nat := AURAL_GAIN_UNITY
  regionBytes : Nat := 0
  capped : gain ≤ 4*AURAL_GAIN_UNITY := by decide
  sized : inUse → regionBytes = pageRound (headerBytes+RING_CAPACITY) := by simp

abbrev Registry := Fin MAX_STREAMS → Stream

inductive Nak where
  | format
  | noslot
  deriving DecidableEq

/-- `memory` and `shares`: whether `aligned_alloc` and `_sys_shareregion` succeed. -/
def claim (reg : Registry) (nextId : Nat) (pid : Int) (rate channels format : Nat) (memory shares : Bool) :
    Except Nak (Fin MAX_STREAMS × Registry) :=
  if rate ≠ 48000 ∨ channels ≠ 2 ∨ format ≠ 1 then .error .format
  else match (List.finRange MAX_STREAMS).find? fun i => !(reg i).inUse with
    | none => .error .noslot
    | some slot =>
      if !memory then .error .noslot
      else if !shares then .error .noslot
      else
        let total := pageRound (headerBytes+RING_CAPACITY)
        .ok (slot,update reg slot {reg slot with
          inUse := true, active := true, id := nextId, clientPid := pid, gain := AURAL_GAIN_UNITY, regionBytes := total
          capped := by decide, sized := fun _ => rfl})

/-- The stream that a client names in a message. -/
def find (reg : Registry) (id : Nat) : Option (Fin MAX_STREAMS) :=
  (List.finRange MAX_STREAMS).find? fun i => (reg i).inUse && (reg i).id == id

def release (reg : Registry) (id : Nat) : Registry :=
  match find reg id with
  | none => reg
  | some slot => update reg slot {}

def handleGain (reg : Registry) (id gain : Nat) : Registry :=
  match find reg id with
  | none => reg
  | some slot => update reg slot {reg slot with
      gain := min gain (4*AURAL_GAIN_UNITY), capped := Nat.min_le_right _ _}

/-- The messages of a client that change the registry. -/
inductive Control where
  | claim (nextId : Nat) (pid : Int) (rate channels format : Nat) (memory shares : Bool)
  | release (id : Nat)
  | gain (id gain : Nat)

def control (reg : Registry) : Control → Registry
  | .claim nextId pid rate channels format memory shares =>
    match claim reg nextId pid rate channels format memory shares with
    | .ok (_,reg') => reg'
    | .error _ => reg
  | .release id => release reg id
  | .gain id gain => handleGain reg id gain

/-- A message is about one stream; a claim takes a free slot. -/
lemma control_other (reg : Registry) (c : Control) : ∃ slot, ∀ i ≠ slot, control reg c i = reg i := by
  have same : ∃ slot : Fin MAX_STREAMS, ∀ i ≠ slot, reg i = reg i := ⟨⟨0,by decide⟩,fun _ _ => rfl⟩
  cases c with
  | claim nextId pid rate channels format memory shares =>
    simp only [control,claim]
    cases (List.finRange MAX_STREAMS).find? fun i => !(reg i).inUse with
    | none => split_ifs <;> exact same
    | some slot =>
      split_ifs
      · exact same
      · exact same
      · exact same
      · exact ⟨slot,fun i other => update_of_ne other ..⟩
  | release id =>
    simp only [control,release]
    cases find reg id with
    | none => exact same
    | some slot => exact ⟨slot,fun i other => update_of_ne other ..⟩
  | gain id gain =>
    simp only [control,handleGain]
    cases find reg id with
    | none => exact same
    | some slot => exact ⟨slot,fun i other => update_of_ne other ..⟩

def Stream.mixed (st : Stream) : Bool := st.inUse && st.active && st.primed

inductive Place where
  | accum (i : Nat)
  | scratch (i : Nat)
  | out (i : Nat)
  | readIdx (slot : Fin MAX_STREAMS)

structure Mixer where
  accum : Nat → Int
  /-- `scratch_` by its bytes -/
  scratch : Nat → UInt8
  out : Nat → Int
  anyActive : Bool
  /-- the bytes of `data` that were read, and everything that was stored -/
  reads : List (Fin MAX_STREAMS × Nat)
  writes : List Place

/-- The little-endian `int16_t` at `scratch_[i]`. -/
def sample (scratch : Nat → UInt8) (i : Nat) : Int :=
  let v := (scratch (2*i)).toNat+256*(scratch (2*i+1)).toNat
  if v < 32768 then v else (v : Int)-65536

def scale (v : Int) (gain : Nat) : Int := (v*gain) >>> (8 : Nat)

def clamp (v : Int) : Int := if 32767 < v then 32767 else if v < -32768 then -32768 else v

def store {α : Type} (buffer : Nat → α) (indices : List Nat) (f : Nat → α → α) : Nat → α :=
  indices.foldl (fun b i => update b i (f i (b i))) buffer

def addStream (reg : Registry) (shared : Fin MAX_STREAMS → Shared) (bytes : UInt32) (m : Mixer)
    (slot : Fin MAX_STREAMS) : Mixer :=
  if (reg slot).mixed then
    let ring := auralRingRead (shared slot) bytes
    let scratch := ring.copies.foldl (fun b c => update b c.dst c.byte) m.scratch
    let got := List.range (ring.got / 2)
    {m with
      anyActive := true
      scratch := scratch
      accum := store m.accum got fun i v => v+scale (sample scratch i) (reg slot).gain
      reads := m.reads ++ ring.copies.map fun c => (slot,c.src)
      writes := m.writes ++ ring.copies.map (.scratch ·.dst) ++ ring.index.toList.map (fun _ => .readIdx slot) ++
        got.map .accum}
  else m

def mix (reg : Registry) (shared : Fin MAX_STREAMS → Shared) (m : Mixer) (frames : Nat) : Mixer :=
  let frames := min frames PERIOD_FRAMES
  let samples := List.range (2*frames)
  let m := {m with
    anyActive := false, accum := store m.accum samples fun _ _ => 0, reads := [], writes := samples.map .accum}
  let m := (List.finRange MAX_STREAMS).foldl (addStream reg shared (UInt32.ofNat (4*frames))) m
  {m with out := store m.out samples fun i _ => clamp (m.accum i), writes := m.writes ++ samples.map .out}

lemma cut_toNat (n limit : UInt32) : (cut n limit).toNat = min n.toNat limit.toNat := by
  unfold cut
  split_ifs with more <;> rw [UInt32.lt_iff_toNat_lt] at more <;> omega

lemma wanted_le (r : Shared) (bytes : UInt32) : (wanted r bytes).toNat ≤ bytes.toNat := by
  rw [wanted,cut_toNat]
  exact Nat.min_le_left _ _

lemma first_le (n : UInt32) : (first r n).toNat ≤ n.toNat := by
  rw [first,cut_toNat]
  exact Nat.min_le_right _ _

/-- Where in `data` the `k`-th byte comes from, and what it is. -/
def source (r : Shared) (bytes : UInt32) (k : Nat) : Nat :=
  if k < (first r (wanted r bytes)).toNat then (offset r).toNat+k else k-(first r (wanted r bytes)).toNat

def fetched (r : Shared) (bytes : UInt32) (k : Nat) : UInt8 := (r (5+k)).data (source r bytes k)

lemma got_eq : (auralRingRead r bytes).got = (wanted r bytes).toNat := by
  simp only [auralRingRead]
  split_ifs with none
  · exact none.symm
  · rfl

/-- The two copies fill the destination from its start, every byte once. -/
lemma copies_eq : (auralRingRead r bytes).copies =
    (List.range (wanted r bytes).toNat).map fun k => ⟨k,source r bytes k,fetched r bytes k⟩ := by
  simp only [auralRingRead]
  split_ifs with none
  · simp [none]
  have split : List.range (wanted r bytes).toNat = List.range (first r (wanted r bytes)).toNat ++
      (List.range ((wanted r bytes).toNat-(first r (wanted r bytes)).toNat)).map
        ((first r (wanted r bytes)).toNat+·) := by
    rw [← List.range_add,Nat.add_sub_cancel' (first_le _)]
  rw [split,List.map_append,List.map_map]
  dsimp only
  congr 1
  · apply List.map_congr_left
    intro k member
    simp [fetched,source,List.mem_range.mp member]
  · simp [fetched,source,Nat.add_assoc,Function.comp_def]

lemma store_range (buffer : Nat → α) (n : Nat) (f : Nat → α → α) (j : Nat) :
    store buffer (List.range n) f j = if j < n then f j (buffer j) else buffer j := by
  induction n with
  | zero => rfl
  | succ n ih =>
    rw [store,List.range_succ,List.foldl_append]
    by_cases same : j = n
    · subst same
      change update (store buffer (List.range j) f) j (f j (store buffer (List.range j) f j)) j = _
      rw [update_self,ih]
      simp
    change update (store buffer (List.range n) f) n _ j = _
    rw [update_of_ne same,ih]
    congr 1
    simp only [eq_iff_iff]
    omega

lemma scratch_eq (scratch : Nat → UInt8) (below : k < (wanted r bytes).toNat) :
    (auralRingRead r bytes).copies.foldl (fun b c => update b c.dst c.byte) scratch k = fetched r bytes k := by
  rw [copies_eq,List.foldl_map]
  have filled := store_range scratch (wanted r bytes).toNat (fun k _ => fetched r bytes k) k
  rw [if_pos below] at filled
  exact filled

/-- The bytes of the region behind the header. -/
def dataBytes : Nat := pageRound (headerBytes+RING_CAPACITY)-headerBytes

/-- With these values of `capacity`, at the load for the mask and at the one for the wrap point,
no `read_idx` takes a read of `bytes` out of the region. -/
def Contained (bytes : Nat) (mask wrap : UInt32) : Prop :=
  ∀ index : UInt32, (index &&& (mask-1)) = wrap ∨ (index &&& (mask-1)).toNat+bytes ≤ dataBytes ∨
    ((index &&& (mask-1)) ≤ wrap ∧ wrap.toNat ≤ dataBytes)

lemma dataBytes_eq : dataBytes = 36848 := by decide

lemma sub_toNat (a b : UInt32) :
    (a-b).toNat = if b.toNat ≤ a.toNat then a.toNat-b.toNat else 2^32+a.toNat-b.toNat := by
  have := a.toNat_lt
  have := b.toNat_lt
  rw [UInt32.toNat_sub]
  split_ifs <;> omega

lemma source_lt (small : bytes.toNat ≤ PERIOD_BYTES) (kept : Contained bytes.toNat (r 2).capacity (r 4).capacity)
    (below : k < (wanted r bytes).toNat) : source r bytes k < dataBytes := by
  have period : PERIOD_BYTES = 4096 := rfl
  have less := wanted_le r bytes
  have length : (first r (wanted r bytes)).toNat = min ((r 4).capacity-offset r).toNat (wanted r bytes).toNat := by
    rw [first,cut_toNat]
  rw [sub_toNat] at length
  rw [source,dataBytes_eq]
  split_ifs with part
  · rcases kept (r 3).readIdx with same | near | ⟨before,inside⟩
    · rw [show offset r = (r 4).capacity from same,if_pos le_rfl,Nat.sub_self] at length
      omega
    · have near : (offset r).toNat+bytes.toNat ≤ dataBytes := near
      rw [dataBytes_eq] at near
      omega
    · rw [dataBytes_eq] at inside
      have before : (offset r).toNat ≤ (r 4).capacity.toNat := UInt32.le_iff_toNat_le.mp before
      rw [if_pos before] at length
      omega
  · omega

/-- The ring of a client that keeps `bytes` to be read from `index` on. -/
def full (index bytes mask wrap : UInt32) : Shared := fun i =>
  ⟨index+bytes,index,if i = 2 then mask else wrap,fun _ => 0⟩

lemma full_outside (positive : 0 < bytes.toNat) (apart : (index &&& (mask-1)) ≠ wrap)
    (far : dataBytes < (index &&& (mask-1)).toNat+bytes.toNat)
    (beyond : (index &&& (mask-1)) ≤ wrap → dataBytes < wrap.toNat) :
    ∃ k < (wanted (full index bytes mask wrap) bytes).toNat, dataBytes ≤
      source (full index bytes mask wrap) bytes k := by
  have all : wanted (full index bytes mask wrap) bytes = bytes := by
    rw [← UInt32.toNat_inj,wanted,cut_toNat]
    simp [full]
  have place : offset (full index bytes mask wrap) = index &&& (mask-1) := rfl
  have length : (first (full index bytes mask wrap) bytes).toNat =
      min (wrap-(index &&& (mask-1))).toNat bytes.toNat := by
    rw [first,cut_toNat]
    rfl
  have apart : (index &&& (mask-1)).toNat ≠ wrap.toNat := fun same => apart (UInt32.toNat_inj.mp same)
  have high := wrap.toNat_lt
  have low := (index &&& (mask-1)).toNat_lt
  rw [UInt32.le_iff_toNat_le] at beyond
  rw [sub_toNat] at length
  rw [dataBytes_eq] at *
  simp only [all,source,place]
  -- The last byte before the wrap point.
  refine ⟨(first (full index bytes mask wrap) bytes).toNat-1,?_,?_⟩
  · omega
  rw [if_pos] <;> split_ifs at length <;> omega

/-- A `capacity` that stays the same is safe as far as the region reaches. -/
lemma contained_self (positive : 0 < bytes) (c : UInt32) :
    Contained bytes c c ↔ 0 < c.toNat ∧ c.toNat ≤ dataBytes := by
  have high := c.toNat_lt
  have down : (c-1).toNat = if 1 ≤ c.toNat then c.toNat-1 else 2^32-1 := by
    rw [sub_toNat]
    simp only [UInt32.toNat_one]
    split_ifs <;> omega
  rw [Contained,dataBytes_eq]
  constructor
  · intro kept
    have last := kept (c-1)
    rw [UInt32.and_self,← UInt32.toNat_inj,UInt32.le_iff_toNat_le,down] at last
    split_ifs at last <;> omega
  rintro ⟨least,small⟩ index
  have below : (index &&& (c-1)).toNat ≤ (c-1).toNat := by
    rw [UInt32.toNat_and]
    exact Nat.and_le_right
  rw [UInt32.le_iff_toNat_le]
  rw [if_pos (show 1 ≤ c.toNat from least)] at down
  omega

/-- What a stream adds to sample `i`, a function of the stream and its own ring. -/
def contribution (st : Stream) (r : Shared) (bytes : UInt32) (i : Nat) : Int :=
  if st.mixed ∧ i < (wanted r bytes).toNat / 2 then scale (sample (fetched r bytes) i) st.gain else 0

def readsOf (reg : Registry) (shared : Fin MAX_STREAMS → Shared) (bytes : UInt32) (slot : Fin MAX_STREAMS) :
    List (Fin MAX_STREAMS × Nat) :=
  if (reg slot).mixed then (auralRingRead (shared slot) bytes).copies.map fun c => (slot,c.src) else []

/-- Places that belong to the mixer, for a period of `frames`; `read_idx` of a mixed stream. -/
def Place.Allowed (reg : Registry) (frames : Nat) : Place → Prop
  | .accum i | .out i => i < 2*frames
  | .scratch i => i < 4*frames
  | .readIdx slot => (reg slot).mixed

structure Passed (reg : Registry) (shared : Fin MAX_STREAMS → Shared) (frames : Nat) (slots : List (Fin MAX_STREAMS))
    (m u : Mixer) : Prop where
  accum : ∀ i, u.accum i =
    m.accum i+(slots.map fun slot => contribution (reg slot) (shared slot) (UInt32.ofNat (4*frames)) i).sum
  reads : u.reads = m.reads ++ slots.flatMap (readsOf reg shared (UInt32.ofNat (4*frames)))
  writes : ∃ places, u.writes = m.writes ++ places ∧ places.length ≤ slots.length*(6*frames+1) ∧
    ∀ place ∈ places, place.Allowed reg frames
  out : u.out = m.out

lemma bytes_toNat (small : frames ≤ PERIOD_FRAMES) : (UInt32.ofNat (4*frames)).toNat = 4*frames := by
  have : PERIOD_FRAMES = 1024 := rfl
  rw [UInt32.toNat_ofNat']
  omega

lemma addStream_passed (small : frames ≤ PERIOD_FRAMES) (m : Mixer) (slot : Fin MAX_STREAMS) :
    Passed reg shared frames [slot] m (addStream reg shared (UInt32.ofNat (4*frames)) m slot) := by
  have less := wanted_le (shared slot) (UInt32.ofNat (4*frames))
  rw [bytes_toNat small] at less
  simp only [addStream]
  split_ifs with mixed
  · refine ⟨fun i => ?_,by simp [readsOf,mixed],⟨_,by rw [List.append_assoc,List.append_assoc],?_,?_⟩,rfl⟩
    · simp only [store_range,got_eq,List.map_cons,List.map_nil,List.sum_singleton,contribution,mixed,true_and]
      split_ifs with heard
      · congr 2
        simp only [sample]
        rw [scratch_eq _ (by omega),scratch_eq _ (by omega)]
      · simp
    · have one : (auralRingRead (shared slot) (UInt32.ofNat (4*frames))).index.toList.length ≤ 1 :=
        Option.length_toList_le
      simp only [copies_eq,got_eq,List.length_append,List.length_map,List.length_range,List.length_singleton]
      omega
    intro place member
    simp only [copies_eq,got_eq,List.map_map,List.mem_append,List.mem_map,List.mem_range] at member
    rcases member with ⟨k,below,rfl⟩ | ⟨_,_,rfl⟩ | ⟨k,below,rfl⟩
    · exact below.trans_le less
    · exact mixed
    · change k < 2*frames
      omega
  · exact ⟨by simp [contribution,mixed],by simp [readsOf,mixed],⟨[],by simp⟩,rfl⟩

lemma Passed.append (first : Passed reg shared frames before m u)
    (second : Passed reg shared frames after u v) : Passed reg shared frames (before ++ after) m v := by
  obtain ⟨one,eq,short,allowed⟩ := first.writes
  obtain ⟨two,eq',short',allowed'⟩ := second.writes
  refine ⟨fun i => ?_,?_,⟨one ++ two,?_,?_,?_⟩,second.out.trans first.out⟩
  · rw [second.accum,first.accum,List.map_append,List.sum_append,add_assoc]
  · rw [second.reads,first.reads,List.flatMap_append,List.append_assoc]
  · rw [eq',eq,List.append_assoc]
  · rw [List.length_append,List.length_append,Nat.add_mul]
    exact Nat.add_le_add short short'
  · simpa [or_imp,forall_and] using ⟨allowed,allowed'⟩

section
variable (reg : Registry) (shared : Fin MAX_STREAMS → Shared) (small : frames ≤ PERIOD_FRAMES)
    (slots : List (Fin MAX_STREAMS))
include small

lemma foldl_passed (m : Mixer) :
    Passed reg shared frames slots m (slots.foldl (addStream reg shared (UInt32.ofNat (4*frames))) m) := by
  induction slots generalizing m with
  | nil => exact ⟨by simp,by simp,⟨[],by simp⟩,rfl⟩
  | cons slot slots ih => exact (addStream_passed small m slot).append (ih _)

lemma reads_length :
    (slots.flatMap (readsOf reg shared (UInt32.ofNat (4*frames)))).length ≤ slots.length*(4*frames) := by
  induction slots with
  | nil => simp
  | cons slot slots ih =>
    have less := wanted_le (shared slot) (UInt32.ofNat (4*frames))
    rw [bytes_toNat small] at less
    have one : (readsOf reg shared (UInt32.ofNat (4*frames)) slot).length ≤ 4*frames := by
      unfold readsOf
      split_ifs
      · simpa [copies_eq] using less
      · simp
    rw [List.flatMap_cons,List.length_append,List.length_cons,Nat.add_one_mul slots.length (4*frames),
      Nat.add_comm _ (4*frames)]
    exact Nat.add_le_add one ih

end

lemma sample_bounds (scratch : Nat → UInt8) (i : Nat) : -32768 ≤ sample scratch i ∧ sample scratch i ≤ 32767 := by
  have low := (scratch (2*i)).toNat_lt
  have high := (scratch (2*i+1)).toNat_lt
  simp only [sample]
  split_ifs <;> omega

/-- 16 streams of capped gain stay far from the ends of an `int32_t`, so the sum is exact. -/
lemma contribution_bounds (st : Stream) (r : Shared) (bytes : UInt32) (i : Nat) :
    |contribution st r bytes i| ≤ 131072 := by
  have cap : st.gain ≤ 1024 := st.capped
  obtain ⟨low,high⟩ := sample_bounds (fetched r bytes) i
  unfold contribution
  split_ifs
  · rw [scale,Int.shiftRight_eq_div_pow,abs_le]
    have lower : -33554432 ≤ sample (fetched r bytes) i*st.gain := by nlinarith
    have upper : sample (fetched r bytes) i*st.gain ≤ 33554432 := by nlinarith
    omega
  · simp

section
variable (reg : Registry) (shared : Fin MAX_STREAMS → Shared) (m : Mixer) (frames : Nat)

lemma mix_writes :
    let n := min frames PERIOD_FRAMES
    let u := mix reg shared m frames
    (∀ place ∈ u.writes, place.Allowed reg n) ∧
    u.reads.length+u.writes.length ≤ MAX_STREAMS*(10*n+1)+4*n ∧
    (∀ i < 2*n, u.accum i = ∑ slot, contribution (reg slot) (shared slot) (UInt32.ofNat (4*n)) i ∧
      |u.accum i| < 2^31 ∧ u.out i = clamp (u.accum i)) ∧
    ∀ i, 2*n ≤ i → u.out i = m.out i := by
  intro n u
  have small : n ≤ PERIOD_FRAMES := Nat.min_le_right _ _
  let fresh : Mixer := {m with
    anyActive := false, accum := store m.accum (List.range (2*n)) fun _ _ => 0, reads := []
    writes := (List.range (2*n)).map .accum}
  have passed := foldl_passed reg shared small (List.finRange MAX_STREAMS) fresh
  obtain ⟨places,writes,short,allowed⟩ := passed.writes
  have total i (below : i < 2*n) : u.accum i =
    ∑ slot, contribution (reg slot) (shared slot) (UInt32.ofNat (4*n)) i := by
    refine (passed.accum i).trans ?_
    rw [show fresh.accum i = 0 by simp [fresh,store_range,below],zero_add,Fin.sum_univ_def]
  have reads : u.reads = (List.finRange MAX_STREAMS).flatMap (readsOf reg shared (UInt32.ofNat (4*n))) := passed.reads
  have wrote : u.writes = ((List.range (2*n)).map .accum ++ places) ++ (List.range (2*n)).map .out :=
    congrArg (· ++ (List.range (2*n)).map Place.out) writes
  have out i : u.out i = if i < 2*n then clamp (u.accum i) else m.out i := by
    have filled := store_range m.out (2*n) (fun i _ => clamp (u.accum i)) i
    rw [← show _ = m.out from passed.out] at filled ⊢
    exact filled
  refine ⟨?_,?_,fun i below => ⟨total i below,?_,?_⟩,fun i beyond => ?_⟩
  · rw [wrote]
    simp only [List.forall_mem_append,List.forall_mem_map,List.mem_range]
    exact ⟨⟨fun i below => below,allowed⟩,fun i below => below⟩
  · have most := reads_length reg shared small (List.finRange MAX_STREAMS)
    simp only [List.length_finRange] at short most
    simp only [wrote,reads,List.length_append,List.length_map,List.length_range]
    have : MAX_STREAMS*(10*n+1) = MAX_STREAMS*(4*n)+MAX_STREAMS*(6*n+1) := by ring
    omega
  · rw [total i below]
    calc |∑ slot, contribution (reg slot) (shared slot) (UInt32.ofNat (4*n)) i|
        ≤ ∑ slot, |contribution (reg slot) (shared slot) (UInt32.ofNat (4*n)) i| := Finset.abs_sum_le_sum_abs _ _
      _ ≤ ∑ _slot : Fin MAX_STREAMS, 131072 := Finset.sum_le_sum fun slot _ => contribution_bounds _ _ _ _
      _ < 2^31 := by norm_num [MAX_STREAMS]
  · rw [out,if_pos below]
  · rw [out,if_neg (by omega)]

omit shared in
lemma mix_reads (positive : 0 < min frames PERIOD_FRAMES) (mask wrap : Fin MAX_STREAMS → UInt32) :
    (∀ shared : Fin MAX_STREAMS → Shared,
      (∀ slot, (shared slot 2).capacity = mask slot ∧ (shared slot 4).capacity = wrap slot) →
      ∀ p ∈ (mix reg shared m frames).reads, headerBytes+p.2 < (reg p.1).regionBytes) ↔
    ∀ slot, (reg slot).mixed → Contained (4*min frames PERIOD_FRAMES) (mask slot) (wrap slot) := by
  have small : min frames PERIOD_FRAMES ≤ PERIOD_FRAMES := Nat.min_le_right _ _
  have reads (shared : Fin MAX_STREAMS → Shared) := (foldl_passed reg shared small (List.finRange MAX_STREAMS) {m with
    anyActive := false, accum := store m.accum (List.range (2*min frames PERIOD_FRAMES)) fun _ _ => 0, reads := []
    writes := (List.range (2*min frames PERIOD_FRAMES)).map .accum}).reads
  have bytes := bytes_toNat small
  have fit : (UInt32.ofNat (4*min frames PERIOD_FRAMES)).toNat ≤ PERIOD_BYTES := by
    rw [bytes]
    exact Nat.mul_le_mul_left 4 small
  have sized slot (mixed : (reg slot).mixed) : (reg slot).regionBytes = headerBytes+dataBytes :=
    (reg slot).sized (by simp [Stream.mixed] at mixed; exact mixed.1.1)
  constructor
  · intro inside slot mixed
    rw [← bytes]
    intro index
    by_contra out
    simp only [not_or,not_and,not_le] at out
    obtain ⟨k,below,outside⟩ := full_outside (by omega) out.1 out.2.1 out.2.2
    have within := inside (fun i => full index (UInt32.ofNat (4*min frames PERIOD_FRAMES)) (mask i) (wrap i))
      (fun _ => ⟨rfl,rfl⟩) (slot,_) (by
        rw [show (mix reg _ m frames).reads = _ from reads _]
        refine List.mem_flatMap.mpr ⟨slot,List.mem_finRange slot,?_⟩
        rw [readsOf,if_pos mixed,copies_eq,List.map_map]
        exact List.mem_map.mpr ⟨k,List.mem_range.mpr below,rfl⟩)
    rw [sized slot mixed] at within
    exact absurd (Nat.lt_of_add_lt_add_left within) (Nat.not_lt.mpr outside)
  · intro kept shared caps p member
    rw [show (mix reg shared m frames).reads = _ from reads shared] at member
    obtain ⟨slot,-,within⟩ := List.mem_flatMap.mp member
    unfold readsOf at within
    split_ifs at within with mixed
    · rw [copies_eq,List.map_map] at within
      obtain ⟨k,below,rfl⟩ := List.mem_map.mp within
      have kept := kept slot mixed
      rw [← bytes,← (caps slot).1,← (caps slot).2] at kept
      change headerBytes+source (shared slot) _ k < (reg slot).regionBytes
      rw [sized slot mixed]
      exact Nat.add_lt_add_left (source_lt fit kept (List.mem_range.mp below)) _
    · simp at within

end

/-- Whatever the clients store, a call of `mix` writes its own buffers and the output, does a
bounded amount of work and adds up what each stream gives by itself. It reads inside of the
shared regions, for all other values in the rings, exactly when the two values of `capacity` that
it loads for a mixed stream are `Contained`; for a `capacity` that does not change these are the
values from 1 to the size of the region without the header. A message of a client changes what at
most one stream gives. -/
theorem mix_confined (reg : Registry) (m : Mixer) (frames : Nat) :
    let n := min frames PERIOD_FRAMES
    (∀ shared : Fin MAX_STREAMS → Shared,
      let u := mix reg shared m frames
      (∀ place ∈ u.writes, place.Allowed reg n) ∧
      u.reads.length+u.writes.length ≤ MAX_STREAMS*(10*n+1)+4*n ∧
      (∀ i < 2*n, u.accum i = ∑ slot, contribution (reg slot) (shared slot) (UInt32.ofNat (4*n)) i ∧
        |u.accum i| < 2^31 ∧ u.out i = clamp (u.accum i)) ∧
      ∀ i, 2*n ≤ i → u.out i = m.out i) ∧
    (0 < n → ∀ mask wrap : Fin MAX_STREAMS → UInt32,
      (∀ shared : Fin MAX_STREAMS → Shared,
        (∀ slot, (shared slot 2).capacity = mask slot ∧ (shared slot 4).capacity = wrap slot) →
        ∀ p ∈ (mix reg shared m frames).reads, headerBytes+p.2 < (reg p.1).regionBytes) ↔
      ∀ slot, (reg slot).mixed → Contained (4*n) (mask slot) (wrap slot)) ∧
    (0 < n → ∀ c : UInt32, Contained (4*n) c c ↔ 0 < c.toNat ∧ c.toNat ≤ dataBytes) ∧
    ∀ c, ∃ slot, ∀ other ≠ slot, ∀ r bytes i,
      contribution (control reg c other) r bytes i = contribution (reg other) r bytes i := by
  intro n
  refine ⟨fun shared => mix_writes reg shared m frames,
    fun positive mask wrap => mix_reads reg m frames positive mask wrap,fun positive => contained_self (by omega),
      fun c => ?_⟩
  obtain ⟨slot,others⟩ := control_other reg c
  exact ⟨slot,fun other ne r bytes i => by rw [others other ne]⟩

/-- A client that raises `capacity` to 2^30 and moves its indices far out makes the server read
half a gigabyte behind the region. -/
theorem mix_reads_outside :
    let ring : Ring := ⟨2^29+4,2^29,2^30,fun _ => 0⟩
    let stream : Stream := {inUse := true, active := true, primed := true, regionBytes := 36864, sized := fun _ => rfl}
    let slot : Fin MAX_STREAMS := ⟨0,by decide⟩
    let reg : Registry := fun i => if i = slot then stream else {}
    let u := mix reg (fun _ _ => ring) ⟨fun _ => 0,fun _ => 0,fun _ => 0,false,[],[]⟩ 1
    (slot,2^29) ∈ u.reads ∧ (reg slot).regionBytes = 36864 := by
  decide +kernel

end UbixOS.Aural
