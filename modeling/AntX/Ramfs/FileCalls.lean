import AntX.Ramfs.Truncation

/-! The bytes of a file, as they are found through its pointers, and what reading, writing and
truncating do to them when enough blocks are free. -/

namespace AntX.Ramfs

open AntX.Lib

namespace RamFsData

open Finset

variable {s s' : RamFsData} {N : Set Nat} {P : Ref → Prop} {id b idx p : Nat} {q : Ref}

def number : Ref → Nat
  | .direct i => i
  | .entry i => directBlocks + i
  | .leaf i j => indirectLimit + (i * indirectBlocksPerBlock + j)
  | .indirect | .double | .middle _ => 0

theorem number_leafRef (idx : Nat) : number (leafRef idx) = idx := by
  rw [leafRef]
  split
  · rfl
  · split
    · simp only [number]
      omega
    · simp only [number, indirectBlocksPerBlock, indirectLimit, directBlocks] at *
      omega

theorem leafRef_inj {i j : Nat} (h : leafRef i = leafRef j) : i = j := by
  have hnumber := congrArg number h
  rwa [number_leafRef, number_leafRef] at hnumber

def byteAt (s : RamFsData) (id : Nat) : Memory := fun p =>
  let b := s.pointer id (leafRef (p / ramfsBlockSize))
  if b = 0 then 0 else s.dataArea (b * ramfsBlockSize + p % ramfsBlockSize)

theorem byteAt_hole (h : s.pointer id (leafRef (p / ramfsBlockSize)) = 0) : s.byteAt id p = 0 := if_pos h

theorem byteAt_block (h : s.pointer id (leafRef (p / ramfsBlockSize)) = b) (h0 : b ≠ 0) :
    s.byteAt id p = s.dataArea (b * ramfsBlockSize + p % ramfsBlockSize) := by
  rw [byteAt, h, if_neg h0]

theorem block_of_addr (b p : Nat) : (b * ramfsBlockSize + p % ramfsBlockSize) / ramfsBlockSize = b := by
  simp only [ramfsBlockSize]
  omega

/-- A node in use whose pointers are its own, none of them `u32::MAX`. -/
structure NodeOk (s : RamFsData) (id : Nat) : Prop where
  sound : s.Sound {id}
  first : s.pointer id (.direct 0) ≠ u32Max
  used : (s.nodes id).used = true

/-- Such a node with zeros behind its size. -/
structure FileOk (s : RamFsData) (id : Nat) : Prop extends NodeOk s id where
  small : (s.nodes id).size < 2 ^ 32
  tail : ∀ p, (s.nodes id).size ≤ p → s.byteAt id p = 0

theorem NodeOk.marked (h : s.NodeOk id) (h0 : s.pointer id q ≠ 0) : s.Marked (s.pointer id q) := by
  refine @Owned.taken _ _ _ _ h.sound.owned (id, q) _ ⟨rfl, rfl, h0, fun hmax hq => ?_⟩
  rw [show q = .direct 0 from hq] at hmax
  exact h.first hmax

theorem Grown.byteAt (h : Grown s s' {id} id P) (hok : s.NodeOk id) : s'.byteAt id = s.byteAt id := by
  funext p
  by_cases h0 : s.pointer id (leafRef (p / ramfsBlockSize)) = 0
  · rw [byteAt_hole h0]
    by_cases h0' : s'.pointer id (leafRef (p / ramfsBlockSize)) = 0
    · exact byteAt_hole h0'
    · have hne : s'.pointer id (leafRef (p / ramfsBlockSize)) ≠ s.pointer id (leafRef (p / ramfsBlockSize)) := by
        rw [h0]
        exact h0'
      obtain ⟨-, -, -, -, hclear⟩ := h.changed id rfl _ hne
      rw [byteAt_block rfl h0']
      exact hclear (leafRef_isIndex _) _ (block_of_addr _ p)
  · have hkept := h.kept id rfl _ h0
    have hmark := hok.marked h0
    rw [byteAt_block rfl h0, byteAt_block hkept h0]
    apply h.frame
    · rw [block_of_addr]
      exact hmark
    · rw [block_of_addr]
      exact hok.sound.notIndex rfl (leafRef_isIndex _) hmark id rfl

theorem Grown.nodeOk (h : Grown s s' {id} id P) (hok : s.NodeOk id) : s'.NodeOk id := by
  refine ⟨h.sound, ?_, h.used.trans hok.used⟩
  by_cases hsame : s'.pointer id (.direct 0) = s.pointer id (.direct 0)
  · rw [hsame]
    exact hok.first
  · obtain ⟨-, -, -, hmark, -⟩ := h.changed id rfl _ hsame
    exact hmark.ne_max

theorem Grown.fileOk (h : Grown s s' {id} id P) (hok : s.FileOk id) : s'.FileOk id where
  toNodeOk := h.nodeOk hok.toNodeOk
  small := by
    rw [h.size]
    exact hok.small
  tail p hp := by
    rw [h.byteAt hok.toNodeOk]
    exact hok.tail p (h.size ▸ hp)

def withData (s : RamFsData) (mem : Memory) : RamFsData := { s with dataArea := mem }

section

variable {mem : Memory} (hs : s.Sound {id}) (hb : s.pointer id (leafRef idx) = b)
  (hmark : s.Marked b) (hmem : ∀ a, a / ramfsBlockSize ≠ b → mem a = s.dataArea a)

include hs hb hmark hmem

theorem withData_pointer (q : Ref) : (s.withData mem).pointer id q = s.pointer id q :=
  (hb ▸ hs.notIndex rfl (leafRef_isIndex idx) (hb ▸ hmark)).pointer rfl hmem q

theorem withData_sound : (s.withData mem).Sound {id} := by
  have hpointer : ∀ m ∈ ({id} : Set Nat), ∀ q, (s.withData mem).pointer m q = s.pointer m q := by
    intro m hm q
    rw [show m = id from hm]
    exact withData_pointer hs hb hmark hmem q
  exact hs.congr hpointer fun _ => Iff.rfl

end

theorem withData_byteAt (hs : s.Sound {id}) (hb : s.pointer id (leafRef idx) = b) (hb0 : b ≠ 0)
    (hmark : s.Marked b) {mem : Memory} (hmem : ∀ a, a / ramfsBlockSize ≠ b → mem a = s.dataArea a)
    (p : Nat) : (s.withData mem).byteAt id p =
      if p / ramfsBlockSize = idx then mem (b * ramfsBlockSize + p % ramfsBlockSize) else s.byteAt id p := by
  have hpointer := withData_pointer hs hb hmark hmem (leafRef (p / ramfsBlockSize))
  by_cases hidx : p / ramfsBlockSize = idx
  · rw [if_pos hidx, byteAt_block (hpointer.trans (hidx ▸ hb)) hb0]
    rfl
  · rw [if_neg hidx]
    by_cases h0 : s.pointer id (leafRef (p / ramfsBlockSize)) = 0
    · rw [byteAt_hole h0, byteAt_hole (hpointer.trans h0)]
    · rw [byteAt_block rfl h0, byteAt_block hpointer h0]
      apply hmem
      rw [block_of_addr]
      intro hsame
      have heq := hs.eq_of_pointer rfl rfl hmark hb0 hsame hb
      exact hidx (leafRef_inj (Prod.mk.inj heq).2)

def withSize (s : RamFsData) (id size : Nat) : RamFsData := s.modifyNode id fun n => { n with size := size }

theorem withSize_node (s : RamFsData) (id size : Nat) :
    (s.withSize id size).nodes id = { s.nodes id with size := size } := by
  simp [withSize, modifyNode]

theorem withSize_pointer (s : RamFsData) (id size : Nat) (q : Ref) :
    (s.withSize id size).pointer id q = s.pointer id q := by
  rw [pointer, withSize_node]
  cases q <;> rfl

theorem withSize_byteAt (s : RamFsData) (id size : Nat) : (s.withSize id size).byteAt id = s.byteAt id := by
  funext p
  rw [byteAt, byteAt, withSize_pointer]
  rfl

theorem NodeOk.withSize (hok : s.NodeOk id) {size : Nat} (hsmall : size < 2 ^ 32)
    (htail : ∀ p, size ≤ p → s.byteAt id p = 0) : (s.withSize id size).FileOk id where
  sound := by
    have hpointer : ∀ m ∈ ({id} : Set Nat), ∀ q, (s.withSize id size).pointer m q = s.pointer m q := by
      intro m hm q
      rw [show m = id from hm]
      exact withSize_pointer s id size q
    exact hok.sound.congr hpointer fun _ => Iff.rfl
  first := by
    rw [withSize_pointer]
    exact hok.first
  used := by
    rw [withSize_node]
    exact hok.used
  small := by
    rw [withSize_node]
    exact hsmall
  tail p hp := by
    rw [withSize_node] at hp
    rw [withSize_byteAt]
    exact htail p hp

theorem growSize_eq {offset : Nat} (h : offset < 2 ^ 32) :
    s.growSize id offset = s.withSize id (max (s.nodes id).size offset) := by
  rw [growSize]
  by_cases hlt : (s.nodes id).size < offset
  · rw [if_pos hlt, Nat.mod_eq_of_lt h, max_eq_right hlt.le]
    rfl
  · rw [if_neg hlt, max_eq_left (by omega)]
    simp [RamFsData.withSize, modifyNode]

def freeSet (s : RamFsData) : Finset Nat :=
  (Finset.range ramfsMaxBlocks).filter fun b => s.blockBitmap b = false

def emptyRefs (s : RamFsData) (id : Nat) (P : Finset Ref) : Finset Ref :=
  P.filter fun q => s.pointer id q = 0

def Enough (s : RamFsData) (id : Nat) (P : Finset Ref) : Prop :=
  (s.emptyRefs id P).card ≤ s.freeSet.card

theorem mem_freeSet : b ∈ s.freeSet ↔ b < ramfsMaxBlocks ∧ s.blockBitmap b = false := by simp [freeSet]

variable {R : Finset Ref}

theorem Enough.congr (h : s.Enough id R) (hp : ∀ q, s'.pointer id q = s.pointer id q)
    (hm : s'.blockBitmap = s.blockBitmap) : s'.Enough id R := by
  simp only [Enough, emptyRefs, freeSet, hp, hm] at *
  exact h

theorem Grown.enough (h : Grown s s' {id} id P) (hs : s.Sound {id})
    (hR : ∀ q, P q → q ∈ R) (he : s.Enough id R) : s'.Enough id R := by
  have hempty : s'.emptyRefs id R ⊆ s.emptyRefs id R := by
    intro q hq
    obtain ⟨hq, h0⟩ := mem_filter.mp hq
    refine mem_filter.mpr ⟨hq, ?_⟩
    by_contra hne
    exact hne ((h.kept id rfl q hne).symm.trans h0)
  have hfree : s'.freeSet ⊆ s.freeSet := by
    intro b hb
    obtain ⟨hlt, hbit⟩ := mem_freeSet.mp hb
    refine mem_freeSet.mpr ⟨hlt, ?_⟩
    by_contra hused
    have hmark := h.marks b ⟨hlt, by simpa using hused⟩
    simp [hmark.2] at hbit
  have himage : s.freeSet \ s'.freeSet ⊆ (s.emptyRefs id R \ s'.emptyRefs id R).image (s'.pointer id) := by
    intro b hb
    obtain ⟨hold, hnew⟩ := mem_sdiff.mp hb
    obtain ⟨hlt, hbit⟩ := mem_freeSet.mp hold
    have hmark : s'.Marked b := ⟨hlt, by simpa [mem_freeSet, hlt] using hnew⟩
    have hunmarked : ¬ s.Marked b := fun hm => by simp [hm.2] at hbit
    obtain ⟨q, hq, h0, hqb⟩ := h.news b hmark hunmarked
    have hb0 : b ≠ 0 := fun hzero => hunmarked (hzero ▸ hs.zero)
    refine mem_image.mpr ⟨q, mem_sdiff.mpr ⟨?_, ?_⟩, hqb⟩
    · exact mem_filter.mpr ⟨hR q hq, h0⟩
    · intro hstill
      exact hb0 (hqb.symm.trans (mem_filter.mp hstill).2)
  have hcount := (card_le_card himage).trans card_image_le
  have hempties := card_sdiff_add_card_eq_card hempty
  have hfrees := card_sdiff_add_card_eq_card hfree
  simp only [Enough] at *
  omega

theorem leafRef_mem_path (idx : Nat) : leafRef idx ∈ path idx := by
  rw [path]
  split
  · simp
  · split <;> simp

theorem getOrAllocBlock_served (hok : s.FileOk id) (hidx : idx < doubleIndirectLimit)
    (hpath : ∀ q ∈ path idx, q ∈ R) (he : s.Enough id R) :
    ∃ b s', s.getOrAllocBlock id idx = some (some b, s') ∧ Grown s s' {id} id (· ∈ path idx) ∧
      b ≠ 0 ∧ s'.Marked b ∧ s'.pointer id (leafRef idx) = b ∧ s'.Enough id R := by
  obtain ⟨⟨found, s'⟩, hget, hgrown, hfound⟩ := getOrAllocBlock_answered hok.sound rfl hidx
  have he' := hgrown.enough hok.sound hpath he
  cases found with
  | none =>
    obtain ⟨hfull, h0⟩ := hfound
    have hnone : s'.freeSet.card = 0 := by
      rw [card_eq_zero, eq_empty_iff_forall_notMem]
      intro b hb
      obtain ⟨hlt, hbit⟩ := mem_freeSet.mp hb
      have hused : s'.blockBitmap b = true := hfull b hlt
      rw [hused] at hbit
      cases hbit
    have hsome : leafRef idx ∈ s'.emptyRefs id R :=
      mem_filter.mpr ⟨hpath _ (leafRef_mem_path idx), h0⟩
    have hpos := card_pos.mpr ⟨_, hsome⟩
    simp only [Enough] at he'
    omega
  | some b =>
    obtain ⟨hb0, hb⟩ := hfound
    have hmark := (hgrown.nodeOk hok.toNodeOk).marked (hb ▸ hb0)
    rw [hb] at hmark
    exact ⟨b, s', hget, hgrown, hb0, hmark, hb, he'⟩

end RamFsData

open List Memory Option

namespace RamFsData

variable {s s' : RamFsData} {R : Finset Ref} {id b idx p size fuel offset : Nat} {q : Ref} {buf : List UInt8}
  {newSize : Nat}

def touched (offset len : Nat) : Finset Ref :=
  (Finset.range len).biUnion fun i => (path ((offset + i) / ramfsBlockSize)).toFinset

theorem mem_touched {len : Nat} (hle : offset ≤ p) (hlt : p < offset + len)
    (hq : q ∈ path (p / ramfsBlockSize)) : q ∈ touched offset len := by
  refine Finset.mem_biUnion.mpr ⟨p - offset, Finset.mem_range.mpr (by omega), ?_⟩
  rw [show offset + (p - offset) = p by omega]
  exact mem_toFinset.mpr hq

theorem idx_lt (h : p < 2 ^ 32) : p / ramfsBlockSize < doubleIndirectLimit := by
  simp only [ramfsBlockSize, doubleIndirectLimit, indirectLimit, directBlocks, indirectBlocksPerBlock]
  omega

theorem block_fits (hmark : s.Marked b) {n : Nat} (hn : n ≤ ramfsBlockSize - offset % ramfsBlockSize) :
    b * ramfsBlockSize + offset % ramfsBlockSize + n ≤ dataLen := by
  have hblt := hmark.1
  simp only [dataLen, ramfsBlockSize, ramfsMaxBlocks] at *
  omega

theorem load_block (hb : s.pointer id (leafRef (offset / ramfsBlockSize)) = b) (hb0 : b ≠ 0) {n : Nat}
    (hn : n ≤ ramfsBlockSize - offset % ramfsBlockSize) :
    s.dataArea.load (b * ramfsBlockSize + offset % ramfsBlockSize) n = (s.byteAt id).load offset n := by
  apply load_congr
  intro i hi
  have hidx : (offset + i) / ramfsBlockSize = offset / ramfsBlockSize := by
    simp only [ramfsBlockSize] at *
    omega
  have hmod : (offset + i) % ramfsBlockSize = offset % ramfsBlockSize + i := by
    simp only [ramfsBlockSize] at *
    omega
  rw [byteAt_block (hidx ▸ hb) hb0, hmod, Nat.add_assoc]

theorem readLoop_spec (hfuel : buf.length ≤ fuel) (hok : s.FileOk id) (hsize : (s.nodes id).size = size)
    (hR : ∀ p, offset ≤ p → p < offset + min buf.length (size - offset) →
      ∀ q ∈ path (p / ramfsBlockSize), q ∈ R) (he : s.Enough id R) :
    ∃ s', readLoop id size fuel s offset buf =
        some ((s.byteAt id).load offset (min buf.length (size - offset)) ++
          buf.drop (min buf.length (size - offset)), min buf.length (size - offset), s') ∧
      s'.FileOk id ∧ s'.byteAt id = s.byteAt id ∧ (s'.nodes id).size = size := by
  -- the induction is on the turns; each takes the part of the request that lies in one block
  induction fuel generalizing s offset buf with
  | zero =>
    have hnil : buf = [] := eq_nil_of_length_eq_zero (by omega)
    subst hnil
    exact ⟨s, by simp [readLoop, load], hok, rfl, hsize⟩
  | succ fuel ih =>
    by_cases hend : buf = [] ∨ size ≤ offset
    · have hzero : min buf.length (size - offset) = 0 := by
        rcases hend with rfl | hle
        · simp
        · omega
      exact ⟨s, by simp [readLoop, hend, hzero, load], hok, rfl, hsize⟩
    · have hlen : 0 < buf.length := length_pos_iff.mpr fun h => hend (Or.inl h)
      obtain ⟨n, hturn⟩ : ∃ n, n =
          min (min (ramfsBlockSize - offset % ramfsBlockSize) buf.length) (size - offset) := ⟨_, rfl⟩
      have hn : n ≤ ramfsBlockSize - offset % ramfsBlockSize ∧ 0 < n ∧ n ≤ min buf.length (size - offset) := by
        have hmod : offset % ramfsBlockSize < ramfsBlockSize := Nat.mod_lt _ (by decide)
        omega
      have hsmall := hok.small
      obtain ⟨b, s₁, hget, hgrown, hb0, hmark, hb, he₁⟩ := getOrAllocBlock_served hok
        (idx_lt (by omega)) (hR offset le_rfl (by omega)) he
      have hbytes := hgrown.byteAt hok.toNodeOk
      have hrest : min (buf.drop n).length (size - (offset + n)) = min buf.length (size - offset) - n := by
        rw [length_drop]
        omega
      obtain ⟨s', hloop, hok', hbytes', hsize'⟩ := @ih s₁ (offset + n) (buf.drop n)
        (by rw [length_drop]; omega) (hgrown.fileOk hok) (hgrown.size.trans hsize)
        (fun p hle hp => hR p (by omega) (by omega)) he₁
      refine ⟨s', ?_, hok', hbytes'.trans hbytes, hsize'⟩
      have hchunk := load_block hb hb0 hn.1
      rw [hbytes] at hchunk
      rw [hbytes, hrest] at hloop
      rw [readLoop, if_neg hend]
      rw [← hturn, hget, bind_some]
      dsimp only
      rw [if_pos (block_fits hmark hn.1), hchunk, hloop, map_some, drop_drop, ← append_assoc, ← load_add,
        Nat.add_sub_cancel' hn.2.2]

theorem storeBytes_eq (hmark : s.Marked b) (hn : buf.length ≤ ramfsBlockSize - offset % ramfsBlockSize) :
    s.storeBytes (b * ramfsBlockSize + offset % ramfsBlockSize) buf =
      s.withData (s.dataArea.store (b * ramfsBlockSize + offset % ramfsBlockSize) buf) := by
  rw [storeBytes, if_pos (block_fits hmark hn)]
  rfl

theorem store_in_block {m : Memory} (hidx : p / ramfsBlockSize = offset / ramfsBlockSize) (bytes : Memory)
    (hold : bytes p = m (b * ramfsBlockSize + p % ramfsBlockSize)) :
    m.store (b * ramfsBlockSize + offset % ramfsBlockSize) buf (b * ramfsBlockSize + p % ramfsBlockSize) =
      bytes.store offset buf p := by
  by_cases hp : offset ≤ p ∧ p < offset + buf.length
  · have hshift : p % ramfsBlockSize = offset % ramfsBlockSize + (p - offset) := by
      simp only [ramfsBlockSize] at *
      omega
    have hsub : b * ramfsBlockSize + p % ramfsBlockSize - (b * ramfsBlockSize + offset % ramfsBlockSize) =
        p - offset := by omega
    rw [store_inside hp.1 hp.2, store_inside (by omega) (by omega), hsub]
  · rw [@Memory.store_outside bytes offset p buf (by omega), hold]
    apply store_outside
    simp only [ramfsBlockSize] at *
    omega

theorem withData_store_byteAt (hs : s.Sound {id}) (hb : s.pointer id (leafRef (offset / ramfsBlockSize)) = b)
    (hb0 : b ≠ 0) (hmark : s.Marked b) (hn : buf.length ≤ ramfsBlockSize - offset % ramfsBlockSize) :
    (s.withData (s.dataArea.store (b * ramfsBlockSize + offset % ramfsBlockSize) buf)).byteAt id =
      (s.byteAt id).store offset buf := by
  funext p
  rw [withData_byteAt hs hb hb0 hmark fun _ ha => store_outside_block hn ha]
  by_cases hidx : p / ramfsBlockSize = offset / ramfsBlockSize
  · rw [if_pos hidx]
    exact store_in_block hidx (s.byteAt id) (byteAt_block (hidx ▸ hb) hb0)
  · rw [if_neg hidx, store_outside]
    simp only [ramfsBlockSize] at *
    omega

theorem storeBytes_spec (hok : s.FileOk id) (hb : s.pointer id (leafRef (offset / ramfsBlockSize)) = b)
    (hb0 : b ≠ 0) (hmark : s.Marked b) (hn : buf.length ≤ ramfsBlockSize - offset % ramfsBlockSize)
    (hend : offset + buf.length < 2 ^ 32) (he : s.Enough id R) {s' : RamFsData}
    (hs' : s' = (s.storeBytes (b * ramfsBlockSize + offset % ramfsBlockSize) buf).growSize id
      (offset + buf.length)) :
    s'.FileOk id ∧ s'.byteAt id = (s.byteAt id).store offset buf ∧
      (s'.nodes id).size = max (s.nodes id).size (offset + buf.length) ∧ s'.Enough id R := by
  have hmem : ∀ a, a / ramfsBlockSize ≠ b →
      s.dataArea.store (b * ramfsBlockSize + offset % ramfsBlockSize) buf a = s.dataArea a :=
    fun _ ha => store_outside_block hn ha
  have hbytes := withData_store_byteAt hok.sound hb hb0 hmark hn
  have hpointer := withData_pointer hok.sound hb hmark hmem
  rw [storeBytes_eq hmark hn, growSize_eq hend] at hs'
  subst hs'
  refine ⟨NodeOk.withSize ⟨withData_sound hok.sound hb hmark hmem, hok.first, hok.used⟩
    (max_lt hok.small hend) fun p hp => ?_, ?_, ?_, ?_⟩
  · -- behind the bytes that were written there were zeros
    have hlarge : (s.nodes id).size ≤ p ∧ offset + buf.length ≤ p := max_le_iff.mp hp
    rw [hbytes, store_outside (Or.inr hlarge.2)]
    exact hok.tail p hlarge.1
  · rw [withSize_byteAt, hbytes]
  · rw [withSize_node]
    rfl
  · apply he.congr (fun q => (withSize_pointer _ _ _ q).trans (hpointer q))
    rfl

theorem writeLoop_spec (hfuel : buf.length ≤ fuel) (hok : s.FileOk id) (hend : offset + buf.length < 2 ^ 32)
    (hR : ∀ p, offset ≤ p → p < offset + buf.length → ∀ q ∈ path (p / ramfsBlockSize), q ∈ R)
    (he : s.Enough id R) :
    ∃ s', writeLoop id fuel s offset buf = some (buf.length, s') ∧ s'.FileOk id ∧
      s'.byteAt id = (s.byteAt id).store offset buf ∧
      (s'.nodes id).size =
        if buf = [] then (s.nodes id).size else max (s.nodes id).size (offset + buf.length) := by
  induction fuel generalizing s offset buf with
  | zero =>
    have hnil : buf = [] := eq_nil_of_length_eq_zero (by omega)
    subst hnil
    exact ⟨s, rfl, hok, store_nil.symm, rfl⟩
  | succ fuel ih =>
    by_cases hnil : buf = []
    · subst hnil
      exact ⟨s, rfl, hok, store_nil.symm, rfl⟩
    · have hlen : 0 < buf.length := length_pos_iff.mpr hnil
      let n := min (ramfsBlockSize - offset % ramfsBlockSize) buf.length
      have hn : n ≤ ramfsBlockSize - offset % ramfsBlockSize ∧ 0 < n ∧ n ≤ buf.length := by
        have hmod : offset % ramfsBlockSize < ramfsBlockSize := Nat.mod_lt _ (by decide)
        omega
      have htake : (buf.take n).length = n := length_take_of_le hn.2.2
      obtain ⟨b, s₁, hget, hgrown, hb0, hmark, hb, he₁⟩ := getOrAllocBlock_served hok
        (idx_lt (by omega)) (hR offset le_rfl (by omega)) he
      obtain ⟨hok₂, hbytes₂, hsize₂, he₂⟩ := storeBytes_spec (hgrown.fileOk hok) hb hb0 hmark
        (by rw [htake]; exact hn.1) (by omega) he₁ rfl
      rw [htake] at hok₂ hbytes₂ hsize₂ he₂
      obtain ⟨s', hloop, hok', hbytes', hsize'⟩ := @ih _ (offset + n) (buf.drop n)
        (by rw [length_drop]; omega) hok₂ (by rw [length_drop]; omega)
        (fun p hle hp => hR p (by omega) (by rw [length_drop] at hp; omega)) he₂
      refine ⟨s', ?_, hok', ?_, ?_⟩
      · rw [writeLoop, if_neg hnil]
        rw [hget, bind_some]
        dsimp only
        rw [hloop, map_some, length_drop, Nat.add_sub_cancel' hn.2.2]
      · have hstore := @Memory.store_append (s.byteAt id) offset (buf.take n) (buf.drop n)
        rw [htake, take_append_drop] at hstore
        rw [hbytes', hbytes₂, hgrown.byteAt hok.toNodeOk, hstore]
      · rw [hsize', hsize₂, hgrown.size, if_neg hnil, length_drop]
        split
        · rename_i hall
          have hfull : buf.length ≤ n := by simpa using hall
          omega
        · omega

/-- The bytes that shrinking to `newSize` leaves in the file behind it are zero already: those of the block
after the last, and those behind the reach of the indirect block when that is what is freed. -/
def LeavesZeros (s : RamFsData) (id newSize : Nat) : Prop :=
  let last := (newSize - 1) / ramfsBlockSize
  ∀ p < (s.nodes id).size, (p / ramfsBlockSize = last + 1 ∨
    last + 2 < indirectLimit ∧ indirectLimit ≤ p / ramfsBlockSize) → s.byteAt id p = 0

theorem clearLastBlock_returns (hok : s.FileOk id) (hnew : newSize < 2 ^ 32) :
    ∃ s', s.clearLastBlock id newSize = some s' := by
  obtain ⟨⟨found, s₁⟩, hget, hgrown, hfound⟩ := getOrAllocBlock_answered hok.sound rfl
    (idx_lt (show newSize - 1 < 2 ^ 32 by omega))
  rw [clearLastBlock, hget, bind_some]
  cases found with
  | none => exact ⟨s₁, rfl⟩
  | some b =>
    obtain ⟨hb0, hb⟩ := hfound
    have hmark := (hgrown.nodeOk hok.toNodeOk).marked (hb ▸ hb0)
    have hslice : b * ramfsBlockSize + (newSize - 1) % ramfsBlockSize + 1 ≤
        min ((b + 1) * ramfsBlockSize) dataLen := by
      have hlt := hmark.1
      simp only [dataLen, ramfsBlockSize, ramfsMaxBlocks] at *
      omega
    simp only [if_neg hb0, zeroTail, if_pos hslice]
    exact ⟨_, rfl⟩

theorem clearLastBlock_spec (hok : s.FileOk id) (h0 : 0 < newSize)
    (hnew : newSize < 2 ^ 32) (hk : s.KeepsIndex id newSize) :
    ∃ s', s.clearLastBlock id newSize = some s' ∧ s'.NodeOk id ∧
      IndexGoes (s'.nodes id) ((newSize - 1) / ramfsBlockSize + 2) ∧
      ∀ p, s'.byteAt id p =
        if p / ramfsBlockSize = (newSize - 1) / ramfsBlockSize ∧ newSize ≤ p then 0 else s.byteAt id p := by
  obtain ⟨s', hclear⟩ := clearLastBlock_returns hok hnew
  obtain ⟨s₁, hgrown, hcases⟩ := clearLastBlock_cases hok.sound rfl
    (idx_lt (show newSize - 1 < 2 ^ 32 by omega)) hclear
  have hbytes := hgrown.byteAt hok.toNodeOk
  have hnode := hgrown.nodeOk hok.toNodeOk
  have hgoes := hgrown.indexGoes rfl hk
  rcases hcases with ⟨rfl, -, hhole⟩ | ⟨b, hb0, hmark, hb, rfl⟩
  · refine ⟨s', hclear, hnode, hgoes, fun p => ?_⟩
    split
    · rename_i hp
      exact byteAt_hole (hp.1 ▸ hhole)
    · rw [hbytes]
  · let mem := s₁.dataArea.zero (b * ramfsBlockSize + (newSize - 1) % ramfsBlockSize + 1)
      ((b + 1) * ramfsBlockSize)
    have hmem : ∀ a, a / ramfsBlockSize ≠ b → mem a = s₁.dataArea a := by
      intro a ha
      apply zero_outside
      simp only [ramfsBlockSize] at *
      omega
    refine ⟨s₁.withData mem, hclear, ⟨withData_sound hnode.sound hb hmark hmem, hnode.first, hnode.used⟩, hgoes,
      fun p => ?_⟩
    rw [withData_byteAt hnode.sound hb hb0 hmark hmem, hbytes]
    by_cases hidx : p / ramfsBlockSize = (newSize - 1) / ramfsBlockSize
    · rw [if_pos hidx]
      by_cases hp : newSize ≤ p
      · rw [if_pos ⟨hidx, hp⟩]
        apply zero_inside <;> simp only [ramfsBlockSize] at * <;> omega
      · rw [if_neg (fun h => hp h.2), ← hbytes, byteAt_block (hidx ▸ hb) hb0]
        apply zero_outside
        simp only [ramfsBlockSize] at *
        omega
    · rw [if_neg hidx, if_neg (fun h => hidx h.1)]

theorem Pruned.byteAt_same {first : Nat} (h : Pruned s s' id first)
    (hp : s'.pointer id (leafRef (p / ramfsBlockSize)) = s.pointer id (leafRef (p / ramfsBlockSize))) :
    s'.byteAt id p = s.byteAt id p := by
  rw [byteAt, byteAt, hp, h.dataArea]

theorem Pruned.byteAt_zero {first : Nat} (h : Pruned s s' id first) (h0 : s.byteAt id p = 0) :
    s'.byteAt id p = 0 := by
  rcases h.pointer (leafRef (p / ramfsBlockSize)) with hsame | hzero
  · rw [h.byteAt_same hsame, h0]
  · exact byteAt_hole hzero

theorem Pruned.nodeOk {first : Nat} (h : Pruned s s' id first) (hok : s.NodeOk id) : s'.NodeOk id := by
  refine ⟨h.sound hok.sound rfl, ?_, h.used.trans hok.used⟩
  rcases h.pointer (.direct 0) with hsame | hzero
  · rw [hsame]
    exact hok.first
  · rw [hzero]
    decide

/-- A position behind the new size whose block number is past the first freed block: its pointer is cleared,
or it is behind the old size, or behind the reach of the indirect block. -/
theorem cleared_or_beyond {first lastBlock : Nat} (hfirst : first ≤ idx)
    (hdirect : ∀ i, first ≤ i → i < lastBlock → i < directBlocks → s.pointer id (.direct i) = 0)
    (hentry : first < indirectLimit → ∀ i, s.pointer id (.entry i) = 0)
    (hleaf : indirectLimit ≤ first → ∀ i j, s.pointer id (.leaf i j) = 0) :
    s.pointer id (leafRef idx) = 0 ∨ lastBlock ≤ idx ∨ first < indirectLimit ∧ indirectLimit ≤ idx := by
  by_cases hd : idx < directBlocks
  · by_cases hlast : idx < lastBlock
    · left
      rw [leafRef, if_pos hd]
      exact hdirect idx hfirst hlast hd
    · exact .inr (Or.inl (by omega))
  · by_cases hi : idx < indirectLimit
    · left
      rw [leafRef, if_neg hd, if_pos hi]
      exact hentry (by omega) _
    · by_cases hlow : first < indirectLimit
      · exact .inr (Or.inr ⟨hlow, by omega⟩)
      · left
        rw [leafRef, if_neg hd, if_neg hi]
        exact hleaf (by omega) _ _

theorem shrink_spec (hok : s.FileOk id) (h0 : 0 < newSize)
    (hlt : newSize < (s.nodes id).size) (hk : s.KeepsIndex id newSize) (hz : s.LeavesZeros id newSize) :
    ∃ s', s.shrink id newSize (s.nodes id).size = some s' ∧ s'.NodeOk id ∧
      s'.byteAt id = (s.byteAt id).upTo newSize := by
  have hsmall := hok.small
  obtain ⟨s₁, hclear, hnode, hgoes, hbytes⟩ := clearLastBlock_spec hok h0 (by omega) hk
  obtain ⟨s', hfree, hpruned, hdirect, hentry, hleaf⟩ :=
    freeBlocks_pruned hnode.sound rfl hgoes (blockCount (s.nodes id).size)
  refine ⟨s', ?_, hpruned.nodeOk hnode, ?_⟩
  · rw [shrink, hclear, bind_some, blockCount_eq h0]
    exact hfree
  · funext p
    by_cases hp : p < newSize
    · -- in a block that stays
      have hidx : p / ramfsBlockSize < (newSize - 1) / ramfsBlockSize + 2 := by
        simp only [ramfsBlockSize]
        omega
      rw [hpruned.byteAt_same (hpruned.low _ hidx), hbytes, if_neg (fun h => by omega), upTo, if_pos hp]
    · rw [upTo, if_neg hp]
      by_cases hlast : p / ramfsBlockSize = (newSize - 1) / ramfsBlockSize
      · apply hpruned.byteAt_zero
        rw [hbytes, if_pos ⟨hlast, by omega⟩]
      · -- what stays behind the last block was zero before
        have hold : ∀ p, (newSize - 1) / ramfsBlockSize < p / ramfsBlockSize → s.byteAt id p = 0 →
            s'.byteAt id p = 0 := by
          intro p hbehind hzero
          apply hpruned.byteAt_zero
          rw [hbytes, if_neg (fun h => by omega), hzero]
        have hbehind : (newSize - 1) / ramfsBlockSize < p / ramfsBlockSize := by
          simp only [ramfsBlockSize] at *
          omega
        by_cases hsize : (s.nodes id).size ≤ p
        · exact hold p hbehind (hok.tail p hsize)
        · by_cases hnext : p / ramfsBlockSize = (newSize - 1) / ramfsBlockSize + 1
          · exact hold p hbehind (hz p (by omega) (Or.inl hnext))
          · have hle : (newSize - 1) / ramfsBlockSize + 2 ≤ p / ramfsBlockSize := by omega
            rcases cleared_or_beyond hle hdirect hentry hleaf with hhole | hge | hfar
            · exact byteAt_hole hhole
            · simp only [blockCount, ramfsBlockSize] at hge hsize
              omega
            · exact hold p hbehind (hz p (by omega) (Or.inr hfar))

theorem resize_spec (hok : s.FileOk id) (hnew : newSize < 2 ^ 32)
    (hk : 0 < newSize → newSize < (s.nodes id).size → s.KeepsIndex id newSize)
    (hz : 0 < newSize → newSize < (s.nodes id).size → s.LeavesZeros id newSize) :
    ∃ s', s.resize id newSize = some s' ∧ s'.FileOk id ∧ s'.byteAt id = (s.byteAt id).upTo newSize ∧
      (s'.nodes id).size = newSize := by
  -- each way ends with the size set in a state whose bytes are cut at it
  have hend : ∀ t : RamFsData, t.NodeOk id → t.byteAt id = (s.byteAt id).upTo newSize →
      (t.setSize id newSize).FileOk id ∧ (t.setSize id newSize).byteAt id = (s.byteAt id).upTo newSize ∧
        ((t.setSize id newSize).nodes id).size = newSize := by
    intro t hnode hbytes
    have hset : t.setSize id newSize = t.withSize id newSize := by
      rw [setSize, Nat.mod_eq_of_lt hnew]
      rfl
    rw [hset]
    refine ⟨hnode.withSize hnew fun p hp => ?_, ?_, ?_⟩
    · rw [hbytes, upTo, if_neg (by omega)]
    · rw [withSize_byteAt, hbytes]
    · rw [withSize_node]
  by_cases hshrink : newSize < (s.nodes id).size ∧ 0 < newSize
  · obtain ⟨t, hrun, hnode, hbytes⟩ := shrink_spec hok hshrink.2 hshrink.1
      (hk hshrink.2 hshrink.1) (hz hshrink.2 hshrink.1)
    refine ⟨_, ?_, hend t hnode hbytes⟩
    simp only [resize, if_pos hshrink, hrun, map_some]
  · by_cases hzero : newSize = 0
    · obtain ⟨t, hrun, hpruned, hempty⟩ := releaseAll_pruned hok.sound (Set.mem_singleton id)
      have hbytes : t.byteAt id = (s.byteAt id).upTo newSize := by
        funext p
        rw [byteAt_hole (hempty _), upTo, if_neg (by omega)]
      refine ⟨_, ?_, hend t (hpruned.nodeOk hok.toNodeOk) hbytes⟩
      simp only [resize, if_neg hshrink, if_pos hzero, hrun, map_some]
    · have hbytes : s.byteAt id = (s.byteAt id).upTo newSize := by
        funext p
        rw [upTo]
        split
        · rfl
        · exact hok.tail p (by omega)
      refine ⟨_, ?_, hend s hok.toNodeOk hbytes⟩
      simp only [resize, if_neg hshrink, if_neg hzero, map_some]

end RamFsData

end AntX.Ramfs
