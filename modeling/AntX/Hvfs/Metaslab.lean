import AntX.Lib.FirstFit
import AntX.Hvfs.BlockPointer

/-! Metaslabs of services/fs/hvfs/metaslab.rs: a stretch of a device with one bit per free block, first
fit for a run of blocks and the weight that the pool compares. -/

namespace AntX.Hvfs

open AntX.Lib

def hvPoolBlockSize : Nat := 4096

inductive HvMsState where
  | uninit
  | active
  | full
  deriving DecidableEq, Repr

/-- The bitmap is read below `maxBlock` only, where all its words exist. -/
structure HvMetaslab where
  vdevId : UInt16
  start : Nat
  size : Nat
  state : HvMsState
  freeSpace : Nat
  bitmap : Nat → Bool
  maxBlock : Nat
  weight : Nat

def blocksOf (size : Nat) : Nat := (size + (hvPoolBlockSize - 1)) / hvPoolBlockSize % 2 ^ 32

namespace HvMetaslab

def new (vdevId : UInt16) (start size : Nat) : HvMetaslab where
  vdevId := vdevId
  start := start
  size := size
  state := .active
  freeSpace := size
  bitmap _ := true
  maxBlock := size / hvPoolBlockSize % 2 ^ 32
  weight := size

variable (ms : HvMetaslab)

def updateWeight : HvMetaslab :=
  { ms with weight :=
      if ms.size / 2 < ms.freeSpace then ms.freeSpace else ms.freeSpace * 2 % 2 ^ 64 }

def findContiguous (nblocks : Nat) : Option Nat :=
  firstRun ms.bitmap nblocks ms.maxBlock

def taken (first nblocks : Nat) : HvMetaslab :=
  { ms with
    bitmap := fun b => if first ≤ b ∧ b < first + nblocks then false else ms.bitmap b
    freeSpace := (ms.freeSpace + 2 ^ 64 - nblocks * hvPoolBlockSize) % 2 ^ 64 }.updateWeight

def alloc (size : Nat) : Option (Nat × HvMetaslab) :=
  if size = 0 ∨ ms.size < size then none
  else if ms.maxBlock < blocksOf size then none
  else
    match ms.findContiguous (blocksOf size) with
    | none => none
    | some first =>
      some ((ms.start + first * hvPoolBlockSize) % 2 ^ 64, ms.taken first (blocksOf size))

def free (offset size : Nat) : HvMetaslab :=
  let startBlock := (offset - ms.start) / hvPoolBlockSize % 2 ^ 32
  let endBlock := (startBlock + blocksOf size) % 2 ^ 32
  { ms with
    bitmap := fun b =>
      if startBlock ≤ b ∧ b < endBlock ∧ b < ms.maxBlock then true else ms.bitmap b
    freeSpace := (ms.freeSpace + blocksOf size * hvPoolBlockSize) % 2 ^ 64 }.updateWeight

def isAvailable : Bool := ms.state == .active && decide (0 < ms.freeSpace)

variable {ms ms' : HvMetaslab} {size offset first nblocks : Nat}

def wanted (size : Nat) : Nat := max (blocksOf size) 1

theorem alloc_some (h : ms.alloc size = some (offset, ms')) :
    size ≠ 0 ∧ size ≤ ms.size ∧ ∃ first, ms.findContiguous (blocksOf size) = some first ∧
      offset = (ms.start + first * hvPoolBlockSize) % 2 ^ 64 ∧
      ms' = ms.taken first (blocksOf size) := by
  rw [alloc] at h
  split_ifs at h with hsize hblocks
  cases hfind : ms.findContiguous (blocksOf size) with
  | none =>
    rw [hfind] at h
    cases h
  | some first =>
    rw [hfind] at h
    cases h
    exact ⟨by omega, by omega, first, rfl, rfl, rfl⟩

theorem findContiguous_finds (ms : HvMetaslab) (size : Nat) :
    Finds ms.bitmap (wanted size) ms.maxBlock (ms.findContiguous (blocksOf size)) :=
  firstRun_finds ..

theorem findContiguous_some (h : ms.findContiguous (blocksOf size) = some first) :
    RunAt ms.bitmap first (wanted size) ∧ first + wanted size ≤ ms.maxBlock ∧
      ∀ k, RunAt ms.bitmap k (wanted size) → first ≤ k := by
  have hfinds := ms.findContiguous_finds size
  rwa [h] at hfinds

theorem alloc_isSome_iff : (ms.alloc size).isSome ↔ size ≠ 0 ∧ size ≤ ms.size ∧
    ∃ k, RunAt ms.bitmap k (wanted size) ∧ k + wanted size ≤ ms.maxBlock := by
  constructor
  · intro h
    obtain ⟨⟨offset, ms'⟩, halloc⟩ := Option.isSome_iff_exists.mp h
    obtain ⟨h0, hle, first, hfind, -⟩ := alloc_some halloc
    obtain ⟨hrun, hbound, -⟩ := findContiguous_some hfind
    exact ⟨h0, hle, first, hrun, hbound⟩
  · rintro ⟨h0, hle, k, hrun, hbound⟩
    have hblocks : blocksOf size ≤ wanted size := Nat.le_max_left ..
    rw [alloc, if_neg (by omega), if_neg (by omega)]
    have hfinds := ms.findContiguous_finds size
    cases hfind : ms.findContiguous (blocksOf size) with
    | none =>
      rw [hfind] at hfinds
      exact absurd (hfinds k hrun) (Nat.not_lt.mpr hbound)
    | some first => rfl

structure SamePlace (ms ms' : HvMetaslab) : Prop where
  vdevId : ms'.vdevId = ms.vdevId
  start : ms'.start = ms.start
  size : ms'.size = ms.size
  maxBlock : ms'.maxBlock = ms.maxBlock

theorem samePlace_refl (ms : HvMetaslab) : SamePlace ms ms := ⟨rfl, rfl, rfl, rfl⟩

theorem SamePlace.trans {ms₀ : HvMetaslab} (h : SamePlace ms₀ ms) (h' : SamePlace ms ms') :
    SamePlace ms₀ ms' :=
  ⟨h'.vdevId.trans h.vdevId, h'.start.trans h.start, h'.size.trans h.size, h'.maxBlock.trans h.maxBlock⟩

@[simp] theorem taken_bitmap (ms : HvMetaslab) (first nblocks : Nat) :
    (ms.taken first nblocks).bitmap = clearBits ms.bitmap first nblocks := by
  rfl

@[simp] theorem taken_state (ms : HvMetaslab) (first nblocks : Nat) :
    (ms.taken first nblocks).state = ms.state := by
  rw [taken, updateWeight]

theorem taken_freeSpace (ms : HvMetaslab) (first nblocks : Nat) : (ms.taken first nblocks).freeSpace =
      (ms.freeSpace + 2 ^ 64 - nblocks * hvPoolBlockSize) % 2 ^ 64 := by
  rw [taken, updateWeight]

theorem taken_weight (ms : HvMetaslab) (first nblocks : Nat) : (ms.taken first nblocks).weight =
      if ms.size / 2 < (ms.taken first nblocks).freeSpace then (ms.taken first nblocks).freeSpace
      else (ms.taken first nblocks).freeSpace * 2 % 2 ^ 64 := by
  rw [taken, updateWeight]

theorem samePlace_taken : SamePlace ms (ms.taken first nblocks) := by
  rw [taken, updateWeight]
  exact ⟨rfl, rfl, rfl, rfl⟩

theorem samePlace_free : SamePlace ms (ms.free offset size) := by
  exact ⟨rfl, rfl, rfl, rfl⟩

end HvMetaslab

end AntX.Hvfs
