import AntX.Lib.Run
import AntX.Hvfs.Metaslab

/-! The storage pool of services/fs/hvfs/spa.rs: metaslabs laid out over each device, and allocation
from the heaviest one with room. -/

namespace AntX.Hvfs

open AntX.Lib List Option

def hvVdevLabelSize : Nat := 262144
def hvPoolMetaslabSize : Nat := 2 ^ 24

structure HvVdevConfig where
  vdevId : UInt16
  asize : Nat
  deriving DecidableEq, Repr

structure HvSpa where
  maxVdevs : Nat
  vdevs : List HvVdevConfig
  metaslabs : List HvMetaslab

namespace HvSpa

def new : HvSpa := ⟨8, [], []⟩

def metaslabCount (asize : Nat) : Nat :=
  (asize + (hvPoolMetaslabSize - 1)) / hvPoolMetaslabSize % 2 ^ 32

def layout (c : HvVdevConfig) (i : Nat) : HvMetaslab :=
  let start := i * hvPoolMetaslabSize + hvVdevLabelSize
  let size :=
    if i < metaslabCount c.asize - 1 then hvPoolMetaslabSize
    else (c.asize + 2 ^ 64 - start % 2 ^ 64 + hvVdevLabelSize) % 2 ^ 64
  .new c.vdevId start size

def addVdev (s : HvSpa) (c : HvVdevConfig) : Bool × HvSpa :=
  if s.maxVdevs ≤ s.vdevs.length then (false, s)
  else
    let metaslabs :=
      if 0 < c.asize then
        s.metaslabs ++ (range (metaslabCount c.asize)).map (layout c)
      else s.metaslabs
    (true, { s with vdevs := s.vdevs ++ [c], metaslabs := metaslabs })

def roundUp (size : Nat) : Nat :=
  (size + (hvPoolBlockSize - 1)) / hvPoolBlockSize * hvPoolBlockSize % 2 ^ 64

def eligible (rounded : Nat) (ms : HvMetaslab) : Bool :=
  ms.isAvailable && decide (rounded ≤ ms.freeSpace)

def blockAt (vdevId : UInt16) (offset size : Nat) (kind : HvCksumType) (comp : HvCompType)
    (txg : UInt64) : HvBlockPointer :=
  { HvBlockPointer.null with
    dva0 := .new vdevId (UInt64.ofNat offset) (UInt32.ofNat (roundUp size))
    prop := { HvBpProp.default with
      cksumType := kind.toU8, compType := comp.toU8
      logicalSize := UInt32.ofNat size, physicalSize := UInt32.ofNat (roundUp size) }
    birthTxg := txg }

def allocate (s : HvSpa) (size : Nat) (kind : HvCksumType) (comp : HvCompType) (txg : UInt64) :
    Option (HvBlockPointer × HvSpa) := do
  let idx ← heaviest (eligible (roundUp size)) HvMetaslab.weight s.metaslabs
  let ms ← s.metaslabs[idx]?
  let (offset, ms') ← ms.alloc (roundUp size)
  return (blockAt ms.vdevId offset size kind comp txg, { s with metaslabs := s.metaslabs.set idx ms' })

def freeDva (d : HvDva) : List HvMetaslab → List HvMetaslab
  | [] => []
  | ms :: l =>
    if ms.vdevId = d.vdevId ∧ d.offset.toNat - ms.start < ms.size then
      ms.free d.offset.toNat d.asize.toNat :: l
    else ms :: freeDva d l

def free (s : HvSpa) (bp : HvBlockPointer) : HvSpa :=
  { s with metaslabs := bp.dvas.foldl (fun l d => freeDva d l) s.metaslabs }

end HvSpa

inductive SpaCall where
  | addVdev (c : HvVdevConfig)
  | allocate (size : Nat) (kind : HvCksumType) (comp : HvCompType) (txg : UInt64)
  | free (bp : HvBlockPointer)

def spaStep (s : HvSpa) : SpaCall → HvSpa
  | .addVdev c => (s.addVdev c).2
  | .allocate size kind comp txg =>
    match s.allocate size kind comp txg with
    | some (_, s') => s'
    | none => s
  | .free bp => s.free bp

namespace HvSpa

open HvMetaslab

variable {s s' : HvSpa} {size : Nat} {kind : HvCksumType} {comp : HvCompType} {txg : UInt64}
  {bp : HvBlockPointer}

def Chosen (s : HvSpa) (size idx : Nat) (ms : HvMetaslab) : Prop :=
  Heaviest (eligible (roundUp size)) HvMetaslab.weight s.metaslabs idx ms

theorem allocate_some (h : s.allocate size kind comp txg = some (bp, s')) :
    ∃ idx ms offset ms', s.Chosen size idx ms ∧ ms.alloc (roundUp size) = some (offset, ms') ∧
      bp = blockAt ms.vdevId offset size kind comp txg ∧
      s' = { s with metaslabs := s.metaslabs.set idx ms' } := by
  obtain ⟨idx, hidx, h⟩ := bind_eq_some_iff.mp h
  obtain ⟨ms, hms, h⟩ := bind_eq_some_iff.mp h
  obtain ⟨⟨offset, ms'⟩, halloc, h⟩ := bind_eq_some_iff.mp h
  obtain ⟨ms₀, hbest⟩ := heaviest_some hidx
  obtain rfl := some.inj (hms.symm.trans hbest.get)
  cases h
  exact ⟨idx, ms, offset, ms', hbest, halloc, rfl, rfl⟩

theorem allocate_isSome_iff : (s.allocate size kind comp txg).isSome ↔
    ∃ idx ms, s.Chosen size idx ms ∧ (ms.alloc (roundUp size)).isSome := by
  constructor
  · intro h
    obtain ⟨⟨bp, s'⟩, ha⟩ := isSome_iff_exists.mp h
    obtain ⟨idx, ms, offset, ms', hchosen, halloc, -⟩ := allocate_some ha
    exact ⟨idx, ms, hchosen, isSome_iff_exists.mpr ⟨_, halloc⟩⟩
  · rintro ⟨idx, ms, hchosen, h⟩
    obtain ⟨⟨offset, ms'⟩, halloc⟩ := isSome_iff_exists.mp h
    rw [allocate, hchosen.eq, bind_eq_bind, bind_some, hchosen.get, bind_eq_bind, bind_some, halloc]
    rfl

structure Placed (ms : HvMetaslab) : Prop where
  label : hvVdevLabelSize ≤ ms.start
  start_lt : ms.start < 2 ^ 57
  maxBlock_lt : ms.maxBlock < 2 ^ 32

theorem Placed.same {ms ms' : HvMetaslab} (h : Placed ms) (hs : SamePlace ms ms') : Placed ms' where
  label := hs.start ▸ h.label
  start_lt := hs.start ▸ h.start_lt
  maxBlock_lt := hs.maxBlock ▸ h.maxBlock_lt

theorem layout_placed (c : HvVdevConfig) {i : Nat} (hi : i < metaslabCount c.asize) :
    Placed (layout c i) where
  label := Nat.le_add_left _ _
  start_lt := by
    have hlabel : hvVdevLabelSize = 262144 := rfl
    rw [metaslabCount] at hi
    change i * hvPoolMetaslabSize + hvVdevLabelSize < 2 ^ 57
    rw [hvPoolMetaslabSize]
    omega
  maxBlock_lt := Nat.mod_lt _ (by decide)

theorem freeDva_mem {d : HvDva} {l : List HvMetaslab} {ms' : HvMetaslab} (h : ms' ∈ freeDva d l) :
    ∃ ms ∈ l, SamePlace ms ms' := by
  induction l with
  | nil => cases h
  | cons ms l ih =>
    rw [freeDva] at h
    split_ifs at h
    · rcases mem_cons.mp h with rfl | h
      · exact ⟨ms, mem_cons_self, samePlace_free⟩
      · exact ⟨ms', mem_cons_of_mem ms h, samePlace_refl ms'⟩
    · rcases mem_cons.mp h with rfl | h
      · exact ⟨ms', mem_cons_self, samePlace_refl ms'⟩
      · obtain ⟨ms₀, hmem, hsame⟩ := ih h
        exact ⟨ms₀, mem_cons_of_mem ms hmem, hsame⟩

def AllPlaced (s : HvSpa) : Prop :=
  ∀ ms ∈ s.metaslabs, Placed ms ∧ ∃ v ∈ s.vdevs, v.vdevId = ms.vdevId

theorem AllPlaced.same (h : s.AllPlaced) (hv : s'.vdevs = s.vdevs)
    (hms : ∀ ms' ∈ s'.metaslabs, ∃ ms ∈ s.metaslabs, SamePlace ms ms') : s'.AllPlaced := by
  intro ms' hmem
  obtain ⟨ms, hms, hsame⟩ := hms ms' hmem
  obtain ⟨hplaced, hhome⟩ := h ms hms
  rw [hv, hsame.vdevId]
  exact ⟨hplaced.same hsame, hhome⟩

theorem AllPlaced.addVdev (h : s.AllPlaced) (c : HvVdevConfig) : (s.addVdev c).2.AllPlaced := by
  have hold : ∀ ms ∈ s.metaslabs, Placed ms ∧ ∃ v ∈ s.vdevs ++ [c], v.vdevId = ms.vdevId := by
    intro ms hms
    obtain ⟨hplaced, v, hv, hid⟩ := h ms hms
    exact ⟨hplaced, v, mem_append_left _ hv, hid⟩
  rw [HvSpa.addVdev]
  split_ifs
  · exact h
  · intro ms hms
    rcases mem_append.mp hms with hms | hms
    · exact hold ms hms
    · obtain ⟨i, hi, rfl⟩ := mem_map.mp hms
      exact ⟨layout_placed c (mem_range.mp hi), c, by simp, rfl⟩
  · exact hold

theorem AllPlaced.allocate (h : s.AllPlaced)
    (ha : s.allocate size kind comp txg = some (bp, s')) : s'.AllPlaced := by
  obtain ⟨idx, ms, offset, ms', hchosen, halloc, -, rfl⟩ := allocate_some ha
  obtain ⟨-, -, first, -, -, rfl⟩ := alloc_some halloc
  refine h.same ?_ ?_
  · rfl
  intro m hm
  rcases mem_or_eq_of_mem_set hm with hm | rfl
  · exact ⟨m, hm, samePlace_refl m⟩
  · exact ⟨ms, mem_of_getElem? hchosen.get, samePlace_taken⟩

theorem freeDvas_mem {ds : List HvDva} {l : List HvMetaslab} {ms' : HvMetaslab}
    (h : ms' ∈ ds.foldl (fun l d => freeDva d l) l) : ∃ ms ∈ l, SamePlace ms ms' := by
  induction ds generalizing l with
  | nil => exact ⟨ms', h, samePlace_refl ms'⟩
  | cons d ds ih =>
    obtain ⟨ms₁, hmem₁, hsame₁⟩ := ih h
    obtain ⟨ms, hmem, hsame⟩ := freeDva_mem hmem₁
    exact ⟨ms, hmem, hsame.trans hsame₁⟩

theorem AllPlaced.free (h : s.AllPlaced) (bp : HvBlockPointer) : (s.free bp).AllPlaced :=
  h.same rfl fun _ hms => freeDvas_mem hms

theorem spaStep_allPlaced (h : s.AllPlaced) (c : SpaCall) : (spaStep s c).AllPlaced := by
  cases c with
  | addVdev c => exact h.addVdev c
  | allocate size kind comp txg =>
    rw [spaStep]
    cases ha : s.allocate size kind comp txg with
    | none => exact h
    | some r => exact h.allocate ha
  | free bp => exact h.free bp

def InsideDevice (s : HvSpa) (bp : HvBlockPointer) : Prop :=
  ∀ v ∈ s.vdevs, v.vdevId = bp.dva0.vdevId → hvVdevLabelSize ≤ bp.dva0.offset.toNat ∧
      bp.dva0.offset.toNat + bp.dva0.asize.toNat ≤ v.asize

def RoomInside (s : HvSpa) (size : Nat) : Prop :=
  ∃ idx ms, s.Chosen size idx ms ∧ ∀ v ∈ s.vdevs, v.vdevId = ms.vdevId →
    ∃ k, RunAt ms.bitmap k (wanted (roundUp size)) ∧ k + wanted (roundUp size) ≤ ms.maxBlock ∧
      ms.start + k * hvPoolBlockSize + roundUp size % 2 ^ 32 ≤ v.asize

theorem allocate_offset (hs : s.AllPlaced) (h : s.allocate size kind comp txg = some (bp, s')) :
    ∃ idx ms first, s.Chosen size idx ms ∧
      ms.findContiguous (blocksOf (roundUp size)) = some first ∧ bp.dva0.vdevId = ms.vdevId ∧
      bp.dva0.offset.toNat = ms.start + first * hvPoolBlockSize ∧
      bp.dva0.asize.toNat = roundUp size % 2 ^ 32 := by
  obtain ⟨idx, ms, offset, ms', hchosen, halloc, rfl, -⟩ := allocate_some h
  obtain ⟨-, -, first, hfind, rfl, -⟩ := alloc_some halloc
  refine ⟨idx, ms, first, hchosen, hfind, rfl, ?_, UInt32.toNat_ofNat'⟩
  have hplaced := (hs ms (mem_of_getElem? hchosen.get)).1
  have hstart := hplaced.start_lt
  have hmax := hplaced.maxBlock_lt
  have hbound := (findContiguous_some hfind).2.1
  have hlt : ms.start + first * hvPoolBlockSize < 2 ^ 64 := by
    rw [hvPoolBlockSize]
    omega
  change (UInt64.ofNat _).toNat = _
  rw [UInt64.toNat_ofNat', Nat.mod_mod, Nat.mod_eq_of_lt hlt]

theorem allocate_inside_iff (hs : s.AllPlaced) (h : s.allocate size kind comp txg = some (bp, s')) :
    s.InsideDevice bp ↔ s.RoomInside size := by
  obtain ⟨idx, ms, first, hchosen, hfind, hid, hoff, hasize⟩ := allocate_offset hs h
  obtain ⟨hrun, hbound, hleast⟩ := findContiguous_some hfind
  have hlabel := (hs ms (mem_of_getElem? hchosen.get)).1.label
  rw [InsideDevice, hid, hoff, hasize]
  constructor
  · intro hin
    exact ⟨idx, ms, hchosen, fun v hv hvid => ⟨first, hrun, hbound, (hin v hv hvid).2⟩⟩
  · rintro ⟨idx', ms', hchosen', hroom⟩ v hv hvid
    obtain ⟨-, rfl⟩ := hchosen.unique hchosen'
    obtain ⟨k, hrun', -, hle⟩ := hroom v hv hvid
    -- The scan takes the lowest run, so it ends no later than the one that fits.
    have hfirst := Nat.mul_le_mul_right hvPoolBlockSize (hleast k hrun')
    constructor <;> omega

/-- After any calls on a pool, a block that an allocation returns is on a device of the pool, and
inside it just when the chosen metaslab had a run of free blocks for it there. -/
theorem pool_allocate_inside_iff (cs : List SpaCall) (size : Nat) (kind : HvCksumType)
    (comp : HvCompType) (txg : UInt64) (bp : HvBlockPointer) (s' : HvSpa)
    (h : (run spaStep new cs).allocate size kind comp txg = some (bp, s')) :
    (∃ v ∈ (run spaStep new cs).vdevs, v.vdevId = bp.dva0.vdevId) ∧
      ((run spaStep new cs).InsideDevice bp ↔ (run spaStep new cs).RoomInside size) := by
  have hs := run_invariant (P := AllPlaced) (fun _ c h => spaStep_allPlaced h c)
    (fun _ h => absurd h not_mem_nil : new.AllPlaced) cs
  refine ⟨?_, allocate_inside_iff hs h⟩
  obtain ⟨idx, ms, first, hchosen, -, hid, -⟩ := allocate_offset hs h
  rw [hid]
  exact (hs ms (mem_of_getElem? hchosen.get)).2

def single (asize : Nat) : List SpaCall := [.addVdev ⟨0, asize⟩]

theorem pool_allocate_inside_half :
    ∃ bp s', (run spaStep new (single 524288)).allocate 4096 .fletcher4 .off 1 = some (bp, s') ∧
      (run spaStep new (single 524288)).InsideDevice bp := by
  refine ⟨_, _, rfl, (pool_allocate_inside_iff _ 4096 .fletcher4 .off 1 _ _ rfl).2.mpr ?_⟩
  refine ⟨0, layout ⟨0, 524288⟩ 0, ⟨rfl, by decide, by decide, ?_, ?_⟩, ?_⟩
  · omega
  · intro b hb _
    rw [mem_singleton.mp hb]
  · intro v hv _
    rw [mem_singleton.mp hv]
    exact ⟨0, fun _ _ _ => rfl, by decide, by decide⟩

/-- The label shifts the metaslabs but not their end: on a device no larger than the label the first
block already lies behind it. -/
theorem pool_allocate_outside :
    ¬ ∀ (cs : List SpaCall) (size : Nat) (kind : HvCksumType) (comp : HvCompType) (txg : UInt64)
      (bp : HvBlockPointer) (s' : HvSpa), (∀ c, .addVdev c ∈ cs → hvVdevLabelSize ≤ c.asize) →
      (run spaStep new cs).allocate size kind comp txg = some (bp, s') →
        (run spaStep new cs).InsideDevice bp := by
  intro h
  have hlabel : ∀ c, SpaCall.addVdev c ∈ single 262144 → hvVdevLabelSize ≤ c.asize := by
    intro c hc
    cases mem_singleton.mp hc
    decide
  have hin := h (single 262144) 4096 .fletcher4 .off 1 _ _ hlabel rfl ⟨0, 262144⟩ mem_cons_self rfl
  exact absurd hin.2 (by decide)

def FreeRun (ms : HvMetaslab) (nblocks : Nat) : Prop :=
  ∃ k, RunAt ms.bitmap k nblocks ∧ k + nblocks ≤ ms.maxBlock

def HasRun (s : HvSpa) (size : Nat) : Prop :=
  ∃ ms ∈ s.metaslabs, ms.state = .active ∧ FreeRun ms ((size + 4095) / 4096)

/-- The metaslab that is chosen by its weight is large enough and has the run. -/
def ChosenHasRun (s : HvSpa) (size : Nat) : Prop :=
  ∃ idx ms, s.Chosen size idx ms ∧ roundUp size ≠ 0 ∧ roundUp size ≤ ms.size ∧
    FreeRun ms (wanted (roundUp size))

/-- One metaslab is chosen, by weight, and the allocation fails if the run is in another. -/
theorem pool_allocate_complete_iff (s : HvSpa) (size : Nat) (kind : HvCksumType) (comp : HvCompType)
    (txg : UInt64) : (s.HasRun size → (s.allocate size kind comp txg).isSome) ↔
      ¬ s.HasRun size ∨ s.ChosenHasRun size := by
  rw [allocate_isSome_iff, imp_iff_not_or]
  simp only [alloc_isSome_iff]
  rfl

def halfFree (bitmap : Nat → Bool) : HvMetaslab :=
  { HvMetaslab.new 0 0 16384 with bitmap := bitmap, freeSpace := 8192 }.updateWeight

theorem heaviest_is_fragmented : ¬ ∀ (s : HvSpa) (size : Nat) (kind : HvCksumType) (comp : HvCompType)
    (txg : UInt64), s.HasRun size → (s.allocate size kind comp txg).isSome := by
  intro h
  have hrun : HasRun ⟨8, [], [halfFree (· % 2 == 0), halfFree (2 ≤ ·)]⟩ 8192 :=
    ⟨halfFree (2 ≤ ·), by simp, rfl, 2, fun j hj _ => decide_eq_true hj, by decide⟩
  exact absurd (h _ 8192 .fletcher4 .off 1 hrun) (by decide)

end HvSpa

end AntX.Hvfs
