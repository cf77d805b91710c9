import AntX.Hvfs.Spa

/-! Pools of services/fs/hvfs/spa.rs from which blocks were only allocated, and runs of a metaslab:
free space, extents handed out and bitmap account for one another. -/

namespace AntX.Hvfs

open AntX.Lib List Option

namespace HvMetaslab

variable {ms : HvMetaslab} {first nblocks : Nat}

def freeBlocks (ms : HvMetaslab) : Nat := countSet ms.bitmap ms.maxBlock

structure Tallied (ms : HvMetaslab) : Prop where
  active : ms.state = .active
  size_lt : ms.size < 2 ^ 64
  fits : ms.maxBlock * hvPoolBlockSize ≤ ms.size
  space : ms.freeSpace = ms.freeBlocks * hvPoolBlockSize + (ms.size - ms.maxBlock * hvPoolBlockSize)
  weight : ms.weight = if ms.size / 2 < ms.freeSpace then ms.freeSpace else ms.freeSpace * 2 % 2 ^ 64

theorem tallied_new (vdevId : UInt16) (start : Nat) {size : Nat} (h : size < 2 ^ 64) :
    (new vdevId start size).Tallied where
  active := rfl
  size_lt := h
  fits := by
    have hblock : hvPoolBlockSize = 4096 := rfl
    change size / hvPoolBlockSize % 2 ^ 32 * hvPoolBlockSize ≤ size
    rw [hblock]
    omega
  space := by
    have hall : (new vdevId start size).freeBlocks = (new vdevId start size).maxBlock := Nat.count_true _
    rw [hall]
    change size = size / hvPoolBlockSize % 2 ^ 32 * hvPoolBlockSize +
      (size - size / hvPoolBlockSize % 2 ^ 32 * hvPoolBlockSize)
    rw [hvPoolBlockSize]
    omega
  weight := by
    change size = if size / 2 < size then size else size * 2 % 2 ^ 64
    split_ifs
    · rfl
    · omega

theorem Tallied.space_le (h : ms.Tallied) : ms.freeSpace ≤ ms.size := by
  have hle : ms.freeBlocks ≤ ms.maxBlock := Nat.count_le _
  have hfits := h.fits
  have hspace := h.space
  rw [hvPoolBlockSize] at hfits hspace
  omega

theorem Tallied.weight_pos (h : ms.Tallied) (hpos : 0 < ms.freeSpace) : 0 < ms.weight := by
  have hlt := h.size_lt
  rw [h.weight]
  split_ifs
  · exact hpos
  · omega

theorem Tallied.weight_le (h : ms.Tallied) : ms.weight ≤ 2 * ms.size := by
  have hle := h.space_le
  rw [h.weight]
  split_ifs
  · omega
  · have hmod := Nat.mod_le (ms.freeSpace * 2) (2 ^ 64)
    omega

theorem Tallied.weight_large (h : ms.Tallied) (hmax : ms.maxBlock < 2 ^ 32) (hsize : 2 ^ 56 ≤ ms.size) :
    2 ^ 55 ≤ ms.freeSpace ∧ 2 ^ 55 ≤ ms.weight := by
  have hspace := h.space
  rw [hvPoolBlockSize] at hspace
  have hlarge : ms.size / 2 < ms.freeSpace := by omega
  rw [h.weight, if_pos hlarge]
  omega

theorem taken_freeBlocks (hrun : RunAt ms.bitmap first nblocks) (hle : first + nblocks ≤ ms.maxBlock) :
    (ms.taken first nblocks).freeBlocks + nblocks = ms.freeBlocks := by
  rw [freeBlocks, taken_bitmap, samePlace_taken.maxBlock]
  exact countSet_clear hrun hle

theorem Tallied.taken (h : ms.Tallied) (hrun : RunAt ms.bitmap first nblocks)
    (hle : first + nblocks ≤ ms.maxBlock) : (ms.taken first nblocks).Tallied := by
  have hcount := taken_freeBlocks hrun hle
  have hspace := h.space
  have hsize := h.space_le
  have hlt := h.size_lt
  have hfree : (ms.taken first nblocks).freeSpace = ms.freeSpace - nblocks * hvPoolBlockSize := by
    rw [taken_freeSpace]
    rw [hvPoolBlockSize] at hspace ⊢
    omega
  constructor
  · rw [taken_state, h.active]
  · rw [samePlace_taken.size]
    exact hlt
  · rw [samePlace_taken.size, samePlace_taken.maxBlock]
    exact h.fits
  · rw [hfree, samePlace_taken.size, samePlace_taken.maxBlock]
    rw [hvPoolBlockSize] at hspace ⊢
    omega
  · rw [taken_weight, samePlace_taken.size]

theorem Tallied.alloc_one (h : ms.Tallied) {k : Nat} (hk : k < ms.maxBlock)
    (hfree : ms.bitmap k = true) : (ms.alloc hvPoolBlockSize).isSome := by
  have hone : wanted hvPoolBlockSize = 1 := rfl
  have hfits := h.fits
  rw [alloc_isSome_iff, hone]
  refine ⟨by decide, ?_, k, fun j hj hlt => ?_, hk⟩
  · rw [hvPoolBlockSize] at hfits ⊢
    omega
  · obtain rfl : j = k := by omega
    exact hfree

end HvMetaslab

open HvMetaslab

def HvDva.Spans (d : HvDva) (v : UInt16) (byte : Nat) : Prop :=
  d.vdevId = v ∧ d.offset.toNat ≤ byte ∧ byte < d.offset.toNat + d.asize.toNat

theorem HvDva.Spans.not_null {d : HvDva} {v : UInt16} {byte : Nat} (h : d.Spans v byte) :
    d.isNull = false := by
  cases hnull : d.isNull with
  | false => rfl
  | true =>
    obtain ⟨-, hle, hlt⟩ := h
    simp only [HvDva.isNull, Bool.and_eq_true, beq_iff_eq] at hnull
    rw [hnull.2] at hlt
    exact absurd hlt (Nat.not_lt.mpr hle)

theorem HvDva.not_spans_null {v : UInt16} {byte : Nat} : ¬ HvDva.null.Spans v byte :=
  fun h => absurd h.not_null (by decide)

namespace HvBlockPointer

def Occupies (bp : HvBlockPointer) (v : UInt16) (byte : Nat) : Prop := ∃ d ∈ bp.dvas, d.Spans v byte

variable {bp : HvBlockPointer} {v : UInt16} {byte : Nat}

theorem occupies_iff : bp.Occupies v byte ↔ bp.dva0.Spans v byte ∨ bp.dva1.Spans v byte := by
  constructor
  · intro ⟨d, hd, hspans⟩
    have hmem := mem_of_mem_filter hd
    simp only [mem_cons, not_mem_nil, or_false] at hmem
    rcases hmem with rfl | rfl
    · exact .inl hspans
    · exact .inr hspans
  · intro h
    rcases h with h | h <;> exact ⟨_, mem_filter.mpr ⟨by simp, by simp [h.not_null]⟩, h⟩

theorem not_occupies_null : ¬ null.Occupies v byte := by
  intro h
  rcases occupies_iff.mp h with h | h <;> exact HvDva.not_spans_null h

end HvBlockPointer

namespace HvSpa

def fullCount (asize : Nat) : Nat := (asize + (hvPoolMetaslabSize - 1)) / hvPoolMetaslabSize

/-- The metaslabs that allocations draw on: all of them, unless their number was cut. Then the last one
takes up the rest of the device and outweighs the others for good. -/
def Lends (c : HvVdevConfig) (i : Nat) : Prop :=
  i < metaslabCount c.asize ∧ (fullCount c.asize < 2 ^ 32 ∨ i + 1 = metaslabCount c.asize)

structure Drawn (c : HvVdevConfig) (s : HvSpa) : Prop where
  length : s.metaslabs.length = metaslabCount c.asize
  placed : s.AllPlaced
  member : ∀ (i : Nat) (ms : HvMetaslab), s.metaslabs[i]? = some ms → SamePlace (layout c i) ms ∧ ms.Tallied

variable {c : HvVdevConfig} {s s' : HvSpa} {size idx : Nat} {kind : HvCksumType} {comp : HvCompType}
  {txg : UInt64} {bp : HvBlockPointer} {ms : HvMetaslab}

theorem layout_size (hc : c.asize < 2 ^ 64) {i : Nat} (hi : i < metaslabCount c.asize) : (layout c i).size =
      if i + 1 < metaslabCount c.asize then hvPoolMetaslabSize
      else c.asize - i * hvPoolMetaslabSize := by
  change (if i < metaslabCount c.asize - 1 then hvPoolMetaslabSize else
    (c.asize + 2 ^ 64 - (i * hvPoolMetaslabSize + hvVdevLabelSize) % 2 ^ 64 + hvVdevLabelSize) % 2 ^ 64) = _
  by_cases hlast : i + 1 < metaslabCount c.asize
  · rw [if_pos (by omega), if_pos hlast]
  · rw [if_neg (by omega), if_neg hlast]
    rw [metaslabCount] at hi
    rw [hvPoolMetaslabSize] at hi ⊢
    rw [hvVdevLabelSize]
    omega

theorem layout_tallied (c : HvVdevConfig) (i : Nat) : (layout c i).Tallied := by
  apply tallied_new
  split_ifs
  · decide
  · exact Nat.mod_lt _ (by decide)

theorem fresh_metaslabs (c : HvVdevConfig) :
    (new.addVdev c).2.metaslabs = (range (metaslabCount c.asize)).map (layout c) := by
  have hroom : ¬ new.maxVdevs ≤ new.vdevs.length := by decide
  rw [addVdev, if_neg hroom]
  dsimp only
  split_ifs with h0
  · rw [new, nil_append]
  · have hzero : metaslabCount c.asize = 0 := by
      obtain hasize : c.asize = 0 := by omega
      rw [hasize]
      rfl
    rw [hzero]
    rfl

theorem drawn_fresh (c : HvVdevConfig) : Drawn c (new.addVdev c).2 := by
  have hmetaslabs := fresh_metaslabs c
  constructor
  · rw [hmetaslabs, length_map, length_range]
  · have hnew : new.AllPlaced := fun _ h => absurd h not_mem_nil
    exact hnew.addVdev c
  · intro i ms hms
    rw [hmetaslabs, getElem?_map] at hms
    obtain ⟨j, hj, rfl⟩ := map_eq_some_iff.mp hms
    obtain ⟨hlt, hval⟩ := List.getElem?_eq_some_iff.mp hj
    rw [getElem_range] at hval
    subst hval
    exact ⟨samePlace_refl _, layout_tallied c _⟩

theorem Drawn.index (h : Drawn c s) {i : Nat} (hms : s.metaslabs[i]? = some ms) :
    i < metaslabCount c.asize := by
  rw [← h.length]
  exact (List.getElem?_eq_some_iff.mp hms).1

theorem Drawn.allocate_some (h : Drawn c s) (ha : s.allocate size kind comp txg = some (bp, s')) :
    ∃ idx ms first, s.Chosen size idx ms ∧ RunAt ms.bitmap first (wanted (roundUp size)) ∧
      first + wanted (roundUp size) ≤ ms.maxBlock ∧
      bp = blockAt ms.vdevId ((ms.start + first * hvPoolBlockSize) % 2 ^ 64) size kind comp txg ∧
      s' = { s with metaslabs := s.metaslabs.set idx (ms.taken first (blocksOf (roundUp size))) } ∧
      Drawn c s' := by
  obtain ⟨idx, ms, offset, ms', hchosen, halloc, rfl, rfl⟩ := HvSpa.allocate_some ha
  obtain ⟨-, -, first, hfind, rfl, rfl⟩ := alloc_some halloc
  obtain ⟨hrun, hle, -⟩ := findContiguous_some hfind
  refine ⟨idx, ms, first, hchosen, hrun, hle, rfl, rfl, ?_, h.placed.allocate ha, ?_⟩
  · exact (length_set).trans h.length
  · have hwanted : blocksOf (roundUp size) ≤ wanted (roundUp size) := Nat.le_max_left _ _
    obtain ⟨hsame, htally⟩ := h.member idx ms hchosen.get
    intro i m hm
    rw [getElem?_set] at hm
    split_ifs at hm with hi hlt
    · cases hm
      subst hi
      exact ⟨hsame.trans samePlace_taken, htally.taken (fun j hj hlt => hrun j hj (by omega)) (by omega)⟩
    · exact h.member i m hm

theorem eligible_iff (h : ms.Tallied) {rounded : Nat} :
    eligible rounded ms = true ↔ 0 < ms.freeSpace ∧ rounded ≤ ms.freeSpace := by
  simp [eligible, isAvailable, h.active]

theorem metaslabCount_eq (asize : Nat) : metaslabCount asize = fullCount asize % 2 ^ 32 := rfl

theorem layout_size_large (hc : c.asize < 2 ^ 64) (hfull : 2 ^ 32 ≤ fullCount c.asize) {i : Nat}
    (hi : i + 1 = metaslabCount c.asize) : 2 ^ 56 ≤ (layout c i).size := by
  rw [layout_size hc (by omega), if_neg (by omega)]
  rw [metaslabCount_eq] at hi
  rw [fullCount, hvPoolMetaslabSize] at hfull hi
  rw [hvPoolMetaslabSize]
  omega

theorem layout_size_le (hc : c.asize < 2 ^ 64) {i : Nat} (hi : i < metaslabCount c.asize)
    (h : fullCount c.asize < 2 ^ 32 ∨ i + 1 < metaslabCount c.asize) :
    (layout c i).size ≤ hvPoolMetaslabSize := by
  have hcount := metaslabCount_eq c.asize
  rw [fullCount, hvPoolMetaslabSize] at hcount h
  rw [layout_size hc hi, hvPoolMetaslabSize]
  split_ifs with hlast
  · exact le_rfl
  · omega

theorem Drawn.chosen_lends (h : Drawn c s) (hc : c.asize < 2 ^ 64) (hch : s.Chosen size idx ms) :
    Lends c idx := by
  have hidx := h.index hch.get
  refine ⟨hidx, ?_⟩
  by_contra hnot
  rw [not_or] at hnot
  have hfull : 2 ^ 32 ≤ fullCount c.asize := Nat.not_lt.mp hnot.1
  obtain ⟨last, hlast⟩ : ∃ last, last + 1 = metaslabCount c.asize :=
    ⟨metaslabCount c.asize - 1, by omega⟩
  obtain ⟨m, hm⟩ : ∃ m, s.metaslabs[last]? = some m := by
    have hlt : last < s.metaslabs.length := by
      rw [h.length]
      omega
    exact ⟨_, getElem?_eq_getElem hlt⟩
  obtain ⟨hsame, htally⟩ := h.member idx ms hch.get
  obtain ⟨hsame', htally'⟩ := h.member last m hm
  -- The chosen metaslab is a small one, so what it has room for the last one has too.
  have hsmall := layout_size_le hc hidx (.inr (by omega))
  rw [← hsame.size, hvPoolMetaslabSize] at hsmall
  have hlarge := layout_size_large hc hfull hlast
  rw [← hsame'.size] at hlarge
  have hmax := (h.placed m (mem_of_getElem? hm)).1.maxBlock_lt
  obtain ⟨hspace, hweight⟩ := htally'.weight_large hmax hlarge
  obtain ⟨-, hroom⟩ := (eligible_iff htally).mp hch.admissible
  have hle := htally.space_le
  have hall := hch.all m (mem_of_getElem? hm) ((eligible_iff htally').mpr (by omega))
  have hbound := htally.weight_le
  omega

structure Request where
  size : Nat
  kind : HvCksumType
  comp : HvCompType
  txg : UInt64

def handedOut : HvSpa → List Request → List HvBlockPointer
  | _, [] => []
  | s, r :: rs =>
    match s.allocate r.size r.kind r.comp r.txg with
    | some (bp, s') => bp :: handedOut s' rs
    | none => handedOut s rs

def oneBlock : Request := ⟨hvPoolBlockSize, .fletcher4, .off, 1⟩

def blockOf (c : HvVdevConfig) (i k : Nat) : HvBlockPointer :=
  blockAt (layout c i).vdevId (((layout c i).start + k * hvPoolBlockSize) % 2 ^ 64) hvPoolBlockSize
    .fletcher4 .off 1

def room (s : HvSpa) : Nat := (s.metaslabs.map freeBlocks).sum

theorem roundUp_block : roundUp hvPoolBlockSize = hvPoolBlockSize := by decide

theorem wanted_block : wanted (roundUp hvPoolBlockSize) = 1 := by decide

variable {i k : Nat}

section

variable (h : Drawn c s) (hc : c.asize < 2 ^ 64) (hi : Lends c i) (hms : s.metaslabs[i]? = some ms)
  (hk : k < ms.maxBlock) (hfree : ms.bitmap k = true)
include h hc hi hms hk hfree

theorem Drawn.chosen_free {m : HvMetaslab} (hch : s.Chosen hvPoolBlockSize idx m) :
    ∃ j, j < m.maxBlock ∧ m.bitmap j = true := by
  obtain ⟨hidx, hlends⟩ := h.chosen_lends hc hch
  by_cases hfull : fullCount c.asize < 2 ^ 32
  · have hblock : hvPoolBlockSize = 4096 := rfl
    have hmetaslab : hvPoolMetaslabSize = 2 ^ 24 := rfl
    obtain ⟨hsame, htally⟩ := h.member idx m hch.get
    have hsize := layout_size_le hc hidx (.inl hfull)
    have hmax : m.maxBlock = (layout c idx).size / hvPoolBlockSize % 2 ^ 32 := hsame.maxBlock
    rw [← hsame.size] at hsize hmax
    obtain ⟨-, hroom⟩ := (eligible_iff htally).mp hch.admissible
    have hspace := htally.space
    rw [roundUp_block] at hroom
    rw [hblock] at hroom hspace hmax
    have hpos : 0 < m.freeBlocks := by omega
    exact countSet_pos.mp hpos
  · have hlast := hlends.resolve_left hfull
    have hlast' := hi.2.resolve_left hfull
    obtain rfl : idx = i := by omega
    obtain rfl := some.inj (hms.symm.trans hch.get)
    exact ⟨k, hk, hfree⟩

theorem Drawn.allocate_block : ∃ bp s', s.allocate hvPoolBlockSize .fletcher4 .off 1 = some (bp, s') := by
  have hblock : hvPoolBlockSize = 4096 := rfl
  obtain ⟨-, htally⟩ := h.member i ms hms
  have hpos : 0 < ms.freeBlocks := countSet_pos.mpr ⟨k, hk, hfree⟩
  have hspace := htally.space
  have hroom : hvPoolBlockSize ≤ ms.freeSpace := by
    rw [hblock] at hspace ⊢
    omega
  have hok : eligible (roundUp hvPoolBlockSize) ms = true := by
    rw [roundUp_block, eligible_iff htally]
    omega
  obtain ⟨idx, hidx⟩ := heaviest_exists (mem_of_getElem? hms) hok (htally.weight_pos (by omega))
  obtain ⟨m, hch⟩ := heaviest_some hidx
  obtain ⟨j, hj, hbit⟩ := h.chosen_free hc hi hms hk hfree hch
  have halloc := (h.member idx m hch.get).2.alloc_one hj hbit
  rw [← roundUp_block] at halloc
  obtain ⟨⟨bp, s'⟩, ha⟩ := isSome_iff_exists.mp (allocate_isSome_iff.mpr ⟨idx, m, hch, halloc⟩)
  exact ⟨bp, s', ha⟩

theorem Drawn.hands_out : ∃ n, blockOf c i k ∈ s.handedOut (replicate n oneBlock) := by
  -- Each of them takes one block, so the number of free ones bounds the induction.
  induction hroom : s.room using Nat.strong_induction_on generalizing s ms with
  | _ n ih =>
    obtain ⟨bp, s', ha⟩ := h.allocate_block hc hi hms hk hfree
    obtain ⟨idx, m, first, hch, hrun, hle, hbp, hs', hdrawn⟩ := h.allocate_some ha
    rw [wanted_block] at hrun hle
    have hone : blocksOf (roundUp hvPoolBlockSize) = 1 := by decide
    rw [hone] at hs'
    have hnext : ∀ rs, s.handedOut (oneBlock :: rs) = bp :: s'.handedOut rs := by
      have ha' : s.allocate oneBlock.size oneBlock.kind oneBlock.comp oneBlock.txg = some (bp, s') := ha
      intro rs
      rw [handedOut, ha']
    by_cases hhit : idx = i ∧ first = k
    · obtain ⟨rfl, rfl⟩ := hhit
      obtain rfl := some.inj (hms.symm.trans hch.get)
      have hsame := (h.member idx ms hms).1
      refine ⟨1, ?_⟩
      rw [replicate_one, hnext, hbp, hsame.vdevId, hsame.start]
      exact mem_cons_self
    · have hless : s'.room + 1 = s.room := by
        have hsum : s'.room + m.freeBlocks = s.room + (m.taken first 1).freeBlocks := by
          rw [hs']
          exact sum_map_set freeBlocks hch.get
        have hcount := taken_freeBlocks hrun hle
        omega
      obtain ⟨ms', hms', hmax, hbit⟩ : ∃ ms', s'.metaslabs[i]? = some ms' ∧ k < ms'.maxBlock ∧
          ms'.bitmap k = true := by
        rw [hs', getElem?_set]
        split_ifs with hidx hlt
        · subst hidx
          obtain rfl := some.inj (hms.symm.trans hch.get)
          refine ⟨_, rfl, ?_, ?_⟩
          · rw [samePlace_taken.maxBlock]
            exact hk
          · rw [taken_bitmap, clearBits_outside (by omega)]
            exact hfree
        · rw [hidx] at hch
          exact absurd (List.getElem?_eq_some_iff.mp hch.get).1 (by omega)
        · exact ⟨ms, hms, hk, hfree⟩
      obtain ⟨n, hmem⟩ := ih s'.room (by omega) hdrawn hms' hmax hbit rfl
      refine ⟨n + 1, ?_⟩
      rw [replicate_succ, hnext]
      exact mem_cons_of_mem _ hmem

end

variable {v : UInt16} {byte : Nat}

def Lendable (c : HvVdevConfig) (byte : Nat) : Prop :=
  ∃ i, Lends c i ∧ (layout c i).start ≤ byte ∧
    byte < (layout c i).start + (layout c i).maxBlock * hvPoolBlockSize

theorem blockAt_occupies (v : UInt16) (offset size : Nat) (kind : HvCksumType) (comp : HvCompType)
    (txg : UInt64) {v' : UInt16} :
    (blockAt v offset size kind comp txg).Occupies v' byte ↔
      (HvDva.new v (UInt64.ofNat offset) (UInt32.ofNat (roundUp size))).Spans v' byte := by
  rw [HvBlockPointer.occupies_iff]
  constructor
  · intro h
    rcases h with h | h
    · exact h
    · exact absurd h HvDva.not_spans_null
  · exact .inl

theorem roundUp_le_wanted (size : Nat) : roundUp size % 2 ^ 32 ≤ wanted (roundUp size) * hvPoolBlockSize := by
  have hwanted : blocksOf (roundUp size) ≤ wanted (roundUp size) := Nat.le_max_left _ _
  have hsize : ∃ q, roundUp size = q * 4096 := by
    rw [roundUp, hvPoolBlockSize]
    exact ⟨(size + (4096 - 1)) / 4096 % 2 ^ 52, by omega⟩
  obtain ⟨q, hq⟩ := hsize
  rw [blocksOf, hq, hvPoolBlockSize] at hwanted
  rw [hq, hvPoolBlockSize]
  omega

theorem Drawn.allocate_lendable (h : Drawn c s) (hc : c.asize < 2 ^ 64)
    (ha : s.allocate size kind comp txg = some (bp, s')) (hocc : bp.Occupies v byte) :
    v = c.vdevId ∧ Lendable c byte := by
  obtain ⟨idx, ms, first, hch, hfind, hid, hoff, hasize⟩ := allocate_offset h.placed ha
  obtain ⟨hsame, -⟩ := h.member idx ms hch.get
  obtain ⟨-, hle, -⟩ := findContiguous_some hfind
  have hspans : bp.dva0.Spans v byte := by
    obtain ⟨_, _, _, _, _, _, hbp, _⟩ := HvSpa.allocate_some ha
    rw [hbp] at hocc ⊢
    exact (blockAt_occupies _ _ _ _ _ _).mp hocc
  obtain ⟨hv, hlow, hhigh⟩ := hspans
  have hextent := roundUp_le_wanted size
  have hblocks := Nat.mul_le_mul_right hvPoolBlockSize hle
  rw [Nat.add_mul] at hblocks
  rw [hoff] at hlow hhigh
  rw [hasize] at hhigh
  refine ⟨hv.symm.trans (hid.trans hsame.vdevId), idx, h.chosen_lends hc hch, ?_, ?_⟩
  · rw [← hsame.start]
    omega
  · rw [← hsame.start, ← hsame.maxBlock]
    omega

theorem Drawn.handedOut_lendable (h : Drawn c s) (hc : c.asize < 2 ^ 64) {rs : List Request}
    (hbp : bp ∈ s.handedOut rs) (hocc : bp.Occupies v byte) : v = c.vdevId ∧ Lendable c byte := by
  induction rs generalizing s with
  | nil => cases hbp
  | cons r rs ih =>
    rw [handedOut] at hbp
    cases ha : s.allocate r.size r.kind r.comp r.txg with
    | none =>
      rw [ha] at hbp
      exact ih h hbp
    | some res =>
      rw [ha] at hbp
      obtain ⟨_, _, _, _, _, _, _, _, hdrawn⟩ := h.allocate_some ha
      rcases mem_cons.mp hbp with rfl | hbp
      · exact h.allocate_lendable hc ha hocc
      · exact ih hdrawn hbp

theorem blockOf_occupies (hi : i < metaslabCount c.asize) (hk : k < (layout c i).maxBlock)
    (hlow : (layout c i).start + k * hvPoolBlockSize ≤ byte)
    (hhigh : byte < (layout c i).start + k * hvPoolBlockSize + hvPoolBlockSize) :
    (blockOf c i k).Occupies c.vdevId byte := by
  have hstart := (layout_placed c hi).start_lt
  have hmax := (layout_placed c hi).maxBlock_lt
  have hlt : (layout c i).start + k * hvPoolBlockSize < 2 ^ 64 := by
    rw [hvPoolBlockSize]
    omega
  have hoffset : (UInt64.ofNat (((layout c i).start + k * hvPoolBlockSize) % 2 ^ 64)).toNat =
      (layout c i).start + k * hvPoolBlockSize := by
    rw [UInt64.toNat_ofNat', Nat.mod_mod, Nat.mod_eq_of_lt hlt]
  have hasize : (UInt32.ofNat (roundUp hvPoolBlockSize)).toNat = hvPoolBlockSize := by decide
  rw [blockOf, blockAt_occupies, HvDva.Spans, HvDva.new, hoffset, hasize]
  exact ⟨rfl, hlow, hhigh⟩

theorem handedOut_fresh_iff (hc : c.asize < 2 ^ 64) :
    (∃ rs, ∃ bp ∈ (new.addVdev c).2.handedOut rs, bp.Occupies v byte) ↔ v = c.vdevId ∧ Lendable c byte := by
  constructor
  · intro ⟨rs, bp, hbp, hocc⟩
    exact (drawn_fresh c).handedOut_lendable hc hbp hocc
  · intro ⟨hv, i, hlends, hlow, hhigh⟩
    obtain ⟨k, hk⟩ : ∃ k, k = (byte - (layout c i).start) / hvPoolBlockSize := ⟨_, rfl⟩
    have hin : k < (layout c i).maxBlock ∧ (layout c i).start + k * hvPoolBlockSize ≤ byte ∧
        byte < (layout c i).start + k * hvPoolBlockSize + hvPoolBlockSize := by
      rw [hvPoolBlockSize] at hk hhigh ⊢
      omega
    have hget : (new.addVdev c).2.metaslabs[i]? = some (layout c i) := by
      rw [fresh_metaslabs, getElem?_map, getElem?_range hlends.1]
      rfl
    obtain ⟨n, hmem⟩ := (drawn_fresh c).hands_out hc hlends hget hin.1 rfl
    rw [hv]
    exact ⟨_, _, hmem, blockOf_occupies hlends.1 hin.1 hin.2.1 hin.2.2⟩

end HvSpa

structure MetaslabRun where
  ms : HvMetaslab
  extents : List (Nat × Nat)

inductive MetaslabCall where
  | alloc (size : Nat)
  | free (extent : Nat × Nat)

def needed (size : Nat) : Nat := (size + 4095) / 4096

namespace MetaslabRun

def fresh (vdevId : UInt16) (start size : Nat) : MetaslabRun := ⟨.new vdevId start size, []⟩

def step (r : MetaslabRun) : MetaslabCall → MetaslabRun
  | .alloc size =>
    match r.ms.alloc size with
    | none => r
    | some (offset, ms) => ⟨ms, (offset, size) :: r.extents⟩
  | .free e => ⟨r.ms.free e.1 e.2, r.extents.erase e⟩

def Returns (r : MetaslabRun) : MetaslabCall → Prop
  | .alloc _ => True
  | .free e => e ∈ r.extents

def held (es : List (Nat × Nat)) : Nat := (es.map fun e => needed e.2 * 4096).sum

def Apart (e f : Nat × Nat) : Prop :=
  e.1 + needed e.2 * 4096 ≤ f.1 ∨ f.1 + needed f.2 * 4096 ≤ e.1

structure Accounts (start size : Nat) (r : MetaslabRun) : Prop where
  apart : r.extents.Pairwise Apart
  inside : ∀ e ∈ r.extents, start ≤ e.1 ∧ e.1 + needed e.2 * 4096 ≤ start + size
  space : r.ms.freeSpace + held r.extents = size
  bits : r.ms.freeSpace = 4096 * r.ms.freeBlocks
  refuses : ∀ n ≠ 0, r.ms.alloc n = none → ∀ k, RunAt r.ms.bitmap k (needed n) → r.ms.maxBlock < k + needed n

structure Lies (start size : Nat) (bitmap : Nat → Bool) (e : Nat × Nat) (first : Nat) : Prop where
  offset : e.1 = start + first * 4096
  blocks : 0 < needed e.2 ∧ blocksOf e.2 = needed e.2
  fits : first + needed e.2 ≤ size / 4096
  clear : ∀ b, first ≤ b → b < first + needed e.2 → bitmap b = false

structure Kept (start size : Nat) (r : MetaslabRun) : Prop where
  place : r.ms.start = start ∧ r.ms.size = size ∧ r.ms.maxBlock = size / 4096
  tallied : r.ms.Tallied
  lies : ∀ e ∈ r.extents, ∃ first, Lies start size r.ms.bitmap e first
  apart : r.extents.Pairwise Apart
  space : r.ms.freeSpace + held r.extents = size

variable {r : MetaslabRun} {ms : HvMetaslab} {start size n offset : Nat} {e : Nat × Nat}

theorem Kept.freeSpace_eq (h : Kept start size r) (hwhole : size % 4096 = 0) :
    r.ms.freeSpace = 4096 * r.ms.freeBlocks := by
  have hspace := h.tallied.space
  have hplace := h.place
  rw [hvPoolBlockSize] at hspace
  omega

theorem needed_of_le (h0 : n ≠ 0) (h : n ≤ 2 ^ 44 - 4096) : 0 < needed n ∧ blocksOf n = needed n := by
  have hblocks : blocksOf n = needed n % 2 ^ 32 := rfl
  unfold needed at *
  omega

theorem held_cons (e : Nat × Nat) (es : List (Nat × Nat)) : held (e :: es) = needed e.2 * 4096 + held es := by
  rw [held, map_cons, sum_cons, held]

section

variable (hwhole : size % 4096 = 0) (hsmall : size < 2 ^ 44)
include hwhole hsmall

theorem Kept.alloc (h : Kept start size r) (hroom : start + size ≤ 2 ^ 64)
    (ha : r.ms.alloc n = some (offset, ms)) : Kept start size ⟨ms, (offset, n) :: r.extents⟩ := by
  obtain ⟨h0, hle, first, hfind, rfl, rfl⟩ := alloc_some ha
  obtain ⟨hstart, hsize, hmax⟩ := h.place
  obtain ⟨hpos, hneed⟩ := needed_of_le h0 (by omega)
  obtain ⟨hrun, hfits, -⟩ := findContiguous_some hfind
  rw [wanted, hneed, Nat.max_eq_left hpos] at hrun hfits
  rw [hneed, hvPoolBlockSize, Nat.mod_eq_of_lt (by omega)]
  have htallied := h.tallied.taken hrun hfits
  have hsame : SamePlace r.ms (r.ms.taken first (needed n)) := samePlace_taken
  refine ⟨⟨hsame.start.trans hstart, hsame.size.trans hsize, hsame.maxBlock.trans hmax⟩, htallied,
    ?_, pairwise_cons.mpr ⟨fun e he => ?_, h.apart⟩, ?_⟩
  · rintro e (_ | ⟨_, he⟩)
    · exact ⟨first, by rw [hstart], ⟨hpos, hneed⟩, hmax ▸ hfits, fun b hlo hhi => clearBits_inside ⟨hlo, hhi⟩⟩
    · obtain ⟨k, hk⟩ := h.lies e he
      refine ⟨k, hk.offset, hk.blocks, hk.fits, fun b hlo hhi => ?_⟩
      rw [taken_bitmap, clearBits, hk.clear b hlo hhi, ite_self]
  · obtain ⟨k, hoff, ⟨hlen, -⟩, -, hclear⟩ := h.lies e he
    by_contra hmeet
    simp only [Apart] at hmeet
    -- a block of both would be free and taken
    have hset := hrun (max first k) (Nat.le_max_left ..) (by omega)
    rw [hclear (max first k) (Nat.le_max_right ..) (by omega)] at hset
    cases hset
  · have hcount := taken_freeBlocks hrun hfits
    have hbits := h.freeSpace_eq hwhole
    have hspace := h.space
    have hbits' := htallied.space
    rw [hsame.size, hsame.maxBlock, hvPoolBlockSize] at hbits'
    have hheld := held_cons (r.ms.start + first * 4096, n) r.extents
    dsimp only at hheld ⊢
    omega

theorem Kept.free (h : Kept start size r) (he : e ∈ r.extents) :
    Kept start size ⟨r.ms.free e.1 e.2, r.extents.erase e⟩ := by
  obtain ⟨first, hoff, ⟨-, hneed⟩, hfits, hclear⟩ := h.lies e he
  obtain ⟨hbase, hsize, hmax⟩ := h.place
  have hbits := h.freeSpace_eq hwhole
  have hspace := h.space
  have hperm := perm_cons_erase he
  have hheld : held r.extents = held (e :: r.extents.erase e) := (hperm.map _).sum_nat
  rw [held_cons] at hheld
  obtain ⟨hother, hrest⟩ := pairwise_cons.mp ((hperm.pairwise_iff fun h => Or.symm h).mp h.apart)
  have hstart : (e.1 - r.ms.start) / hvPoolBlockSize % 2 ^ 32 = first := by
    rw [hoff, hbase, Nat.add_sub_cancel_left, hvPoolBlockSize]
    omega
  have hbitmap : ∀ b, (r.ms.free e.1 e.2).bitmap b =
      if first ≤ b ∧ b < first + needed e.2 then true else r.ms.bitmap b := by
    intro b
    have hstop : (first + needed e.2) % 2 ^ 32 = first + needed e.2 := Nat.mod_eq_of_lt (by omega)
    rw [HvMetaslab.free, hneed, hstart, hstop]
    exact if_congr (by omega) rfl rfl
  have hback : clearBits (r.ms.free e.1 e.2).bitmap first (needed e.2) = r.ms.bitmap := by
    funext b
    by_cases hb : first ≤ b ∧ b < first + needed e.2
    · rw [clearBits_inside hb, hclear b hb.1 hb.2]
    · rw [clearBits_outside hb, hbitmap, if_neg hb]
  have hcount : r.ms.freeBlocks + needed e.2 = (r.ms.free e.1 e.2).freeBlocks := by
    rw [freeBlocks, ← hback]
    exact countSet_clear (fun b hlo hhi => (hbitmap b).trans (if_pos ⟨hlo, hhi⟩)) (hmax ▸ hfits)
  have hfree : (r.ms.free e.1 e.2).freeSpace = r.ms.freeSpace + needed e.2 * 4096 := by
    change (r.ms.freeSpace + blocksOf e.2 * hvPoolBlockSize) % 2 ^ 64 = _
    rw [hneed, hvPoolBlockSize]
    omega
  have htallied := h.tallied
  refine ⟨h.place, ⟨htallied.active, htallied.size_lt, htallied.fits, ?_, rfl⟩, ?_, hrest, ?_⟩
  · rw [hfree, ← hcount, samePlace_free.size, samePlace_free.maxBlock, hvPoolBlockSize]
    omega
  · intro f hf
    obtain ⟨k, hk⟩ := h.lies f (mem_of_mem_erase hf)
    refine ⟨k, hk.offset, hk.blocks, hk.fits, fun b hlo hhi => ?_⟩
    have hapart := hother f hf
    have hk₁ := hk.offset
    rw [hbitmap, if_neg (by omega), hk.clear b hlo hhi]
  · dsimp only
    rw [hfree]
    omega

theorem Kept.accounts (h : Kept start size r) : r.Accounts start size := by
  obtain ⟨hstart, hsize, hmax⟩ := h.place
  refine ⟨h.apart, fun e he => ?_, h.space, h.freeSpace_eq hwhole, fun n h0 hnone k hk => ?_⟩
  · obtain ⟨first, hoff, -, hfits, -⟩ := h.lies e he
    omega
  · by_contra hle
    obtain ⟨hpos, hneed⟩ := needed_of_le h0 (by rw [needed] at hle; omega)
    have hwanted : wanted n = needed n := by rw [wanted, hneed, Nat.max_eq_left hpos]
    have hsome := @alloc_isSome_iff r.ms n
    rw [hnone, hwanted] at hsome
    cases hsome.mpr ⟨by omega, by rw [needed] at hle; omega, k, hk, by omega⟩

theorem kept_fresh (vdevId : UInt16) : Kept start size (fresh vdevId start size) := by
  refine ⟨⟨rfl, rfl, Nat.mod_eq_of_lt ?_⟩, tallied_new vdevId start (by omega), nofun, .nil, rfl⟩
  rw [hvPoolBlockSize]
  omega

end

/-- A metaslab keeps account of its region over allocations and frees of what it gave out. -/
theorem metaslab_accounts (vdevId : UInt16) (start size : Nat) (hwhole : size % 4096 = 0)
    (hsmall : size < 2 ^ 44) (hroom : start + size ≤ 2 ^ 64) (calls : List MetaslabCall)
    (h : Guarded step Returns (fresh vdevId start size) calls) :
    (run step (fresh vdevId start size) calls).Accounts start size := by
  refine Kept.accounts hwhole hsmall (h.run_invariant (kept_fresh hwhole hsmall vdevId) fun r c hr hc => ?_)
  cases c with
  | alloc n =>
    cases ha : r.ms.alloc n with
    | none => rwa [step, ha]
    | some p =>
      rw [step, ha]
      exact hr.alloc hwhole hsmall hroom ha
  | free e => exact hr.free hwhole hsmall hc

theorem metaslab_accounts_two_blocks :
    (run step (fresh 0 0 8192) [.alloc 4096, .alloc 1, .free (0, 4096)]).Accounts 0 8192 := by
  have hout : (0, 4096) ∈ (run step (fresh 0 0 8192) [.alloc 4096, .alloc 1]).extents := by
    decide +kernel
  exact metaslab_accounts 0 0 8192 rfl (by decide) (by decide) [_, _, _] ⟨trivial, trivial, hout, trivial⟩

/-- The second block of a metaslab that reaches past the last address is handed out as address 0. -/
theorem extent_wraps : ¬ ∀ vdevId start size, start < 2 ^ 64 → size % 4096 = 0 → size < 2 ^ 44 →
    ∀ calls, Guarded step Returns (fresh vdevId start size) calls →
      (run step (fresh vdevId start size) calls).Accounts start size := by
  intro h
  have hinside := (h 0 (2 ^ 64 - 4096) 8192 (by decide) rfl (by decide) [.alloc 4096, .alloc 1]
    ⟨trivial, trivial, trivial⟩).inside (0, 1) (by decide +kernel)
  exact absurd hinside.1 (by decide)

end MetaslabRun

end AntX.Hvfs
