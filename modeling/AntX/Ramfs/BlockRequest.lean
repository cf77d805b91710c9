import AntX.Lib.Ownership
import AntX.Ramfs.RamFsData

/-! Block pointers of a node as references to blocks, and requests for the block of a file position,
which only fill empty pointers, each with a free block. -/

namespace AntX.Ramfs

open AntX.Lib Memory RamFsNode RamFsData

inductive Ref where
  | direct (i : Nat)
  | indirect
  | entry (i : Nat)
  | double
  | middle (i : Nat)
  | leaf (i j : Nat)
  deriving DecidableEq

namespace Ref

def base : Ref → Option (Ref × Nat)
  | .entry i => some (.indirect, i)
  | .middle i => some (.double, i)
  | .leaf i j => some (.middle i, j)
  | .direct _ | .indirect | .double => none

def isIndex : Ref → Bool
  | .indirect | .double | .middle _ => true
  | .direct _ | .entry _ | .leaf _ _ => false

variable {q q' r : Ref} {i : Nat}

theorem isIndex_of_base (h : q.base = some (r, i)) : r.isIndex = true := by
  cases q <;> simp [base] at h <;> obtain ⟨rfl, rfl⟩ := h <;> rfl

theorem ne_of_base (h : q.base = some (r, i)) : q ≠ r := by
  cases q <;> simp [base] at h <;> obtain ⟨rfl, rfl⟩ := h <;> simp

theorem eq_of_base (h : q.base = some (r, i)) (h' : q'.base = some (r, i)) : q = q' := by
  cases q <;> simp [base] at h <;> obtain ⟨rfl, rfl⟩ := h <;> cases q' <;> simp_all [base]

end Ref

def entryOf (m : Memory) (index i : Nat) : Nat :=
  if index = 0 ∨ indirectBlocksPerBlock ≤ i then 0 else m.word (RamFsData.ptrAddr index i)

section Cells

variable {m m' : Memory} {p p' i j k b : Nat}

theorem ptrAddr_block (hi : i < indirectBlocksPerBlock) (hk : k < 4) :
    (ptrAddr p i + k) / ramfsBlockSize = p := by
  simp only [ptrAddr, ramfsBlockSize, indirectBlocksPerBlock] at *
  omega

theorem entryOf_zero (m : Memory) (i : Nat) : entryOf m 0 i = 0 := by simp [entryOf]

theorem entryOf_congr (h : ∀ a, a / ramfsBlockSize = p → m' a = m a) : entryOf m' p i = entryOf m p i := by
  by_cases hp : p = 0 ∨ indirectBlocksPerBlock ≤ i
  · rw [entryOf, entryOf, if_pos hp, if_pos hp]
  · rw [entryOf, entryOf, if_neg hp, if_neg hp]
    apply word_congr
    intro k hk
    exact h _ (ptrAddr_block (by omega) hk)

theorem entryOf_cleared (h : ∀ a, a / ramfsBlockSize = p → m a = 0) : entryOf m p i = 0 := by
  by_cases hp : p = 0 ∨ indirectBlocksPerBlock ≤ i
  · rw [entryOf, if_pos hp]
  · rw [entryOf, if_neg hp]
    apply word_of_zero
    intro k hk
    exact h _ (ptrAddr_block (by omega) hk)

theorem entryOf_store (hp : p ≠ 0) (hi : i < indirectBlocksPerBlock) (hb : b < 2 ^ 32) :
    entryOf (m.store (ptrAddr p i) (leBytes 4 b)) p i = b := by
  have hcell : ¬ (p = 0 ∨ indirectBlocksPerBlock ≤ i) := by omega
  rw [entryOf, if_neg hcell, word_store hb]

theorem entryOf_store_of_ne (hi : i < indirectBlocksPerBlock) (hne : p' ≠ p ∨ j ≠ i) :
    entryOf (m.store (ptrAddr p i) (leBytes 4 b)) p' j = entryOf m p' j := by
  by_cases hp : p' = 0 ∨ indirectBlocksPerBlock ≤ j
  · rw [entryOf, entryOf, if_pos hp, if_pos hp]
  · rw [entryOf, entryOf, if_neg hp, if_neg hp]
    apply word_congr
    intro k hk
    apply store_outside
    rw [length_leBytes]
    simp only [ptrAddr, ramfsBlockSize, indirectBlocksPerBlock] at *
    omega

theorem store_ptr_outside (hi : i < indirectBlocksPerBlock) {a : Nat} (ha : a / ramfsBlockSize ≠ p) :
    m.store (ptrAddr p i) (leBytes 4 b) a = m a := by
  apply store_outside
  rw [length_leBytes]
  simp only [ptrAddr, ramfsBlockSize, indirectBlocksPerBlock] at *
  omega

end Cells

namespace RamFsNode

def pointer (n : RamFsNode) (m : Memory) : Ref → Nat
  | .direct i => if i < Ramfs.directBlocks then n.directBlocks i else 0
  | .indirect => n.indirectBlock
  | .entry i => entryOf m n.indirectBlock i
  | .double => n.doubleIndirectBlock
  | .middle i => entryOf m n.doubleIndirectBlock i
  | .leaf i j => entryOf m (entryOf m n.doubleIndirectBlock i) j

variable {n n' : RamFsNode} {m m' : Memory} {q r c : Ref} {i b p : Nat}

theorem pointer_of_base (h : q.base = some (r, i)) : n.pointer m q = entryOf m (n.pointer m r) i := by
  cases q <;> simp [Ref.base] at h <;> obtain ⟨rfl, rfl⟩ := h <;> rfl

theorem pointer_of_root (h : q.base = none) : n.pointer m' q = n.pointer m q := by
  cases q <;> simp [Ref.base] at h <;> rfl

theorem ref_induction {P : Ref → Prop} (root : ∀ q, q.base = none → P q)
    (inner : ∀ q r i, q.base = some (r, i) → P r → P q) (q : Ref) : P q := by
  have hindirect : P .indirect := root _ rfl
  have hdouble : P .double := root _ rfl
  cases q with
  | direct i => exact root _ rfl
  | indirect => exact hindirect
  | entry i => exact inner _ _ i rfl hindirect
  | double => exact hdouble
  | middle i => exact inner _ _ i rfl hdouble
  | leaf i j => exact inner _ _ j rfl (inner _ _ i rfl hdouble)

theorem pointer_congr (h : ∀ r, r.isIndex = true → n.pointer m r ≠ 0 → ∀ a,
    a / ramfsBlockSize = n.pointer m r → m' a = m a) (q : Ref) : n.pointer m' q = n.pointer m q := by
  induction q using ref_induction with
  | root q hq => exact pointer_of_root hq
  | inner q r i hq ih =>
    rw [pointer_of_base hq, pointer_of_base hq, ih]
    by_cases hr : n.pointer m r = 0
    · rw [hr, entryOf_zero, entryOf_zero]
    · exact entryOf_congr (h r (Ref.isIndex_of_base hq) hr)

theorem pointer_store (hc : c.base = some (r, i)) (hp : n.pointer m r = p) (hp0 : p ≠ 0)
    (hi : i < indirectBlocksPerBlock) (hb : b < 2 ^ 32) (hbp : b ≠ p) (hempty : n.pointer m c = 0)
    (hclear : ∀ a, a / ramfsBlockSize = b → m a = 0)
    (honce : ∀ r', n.pointer m r' = p → r' = r) (q : Ref) :
    n.pointer (m.store (ptrAddr p i) (leBytes 4 b)) q =
      if q = c then b else n.pointer m q := by
  induction q using ref_induction with
  | root q hq =>
    have hne : q ≠ c := by
      rintro rfl
      rw [hc] at hq
      cases hq
    rw [if_neg hne]
    exact pointer_of_root hq
  | inner q r' j hq ih =>
    rw [pointer_of_base hq, ih]
    by_cases hr' : r' = c
    · -- what lies in the new block is empty, and its pointer was empty before
      subst hr'
      have hne : q ≠ r' := Ref.ne_of_base hq
      rw [if_pos rfl, if_neg hne, pointer_of_base hq, hempty, entryOf_zero,
        entryOf_store_of_ne hi (Or.inl hbp), entryOf_cleared hclear]
    · rw [if_neg hr']
      by_cases hsame : q = c
      · subst hsame
        obtain ⟨rfl, rfl⟩ : r = r' ∧ i = j := by
          rw [hc] at hq
          simpa using hq
        rw [if_pos rfl, hp, entryOf_store hp0 hi hb]
      · rw [if_neg hsame, pointer_of_base hq]
        apply entryOf_store_of_ne hi
        by_contra hcell
        have hcell : n.pointer m r' = p ∧ j = i := by
          constructor <;> by_contra hne <;> exact hcell (by simp [hne])
        obtain rfl := honce r' hcell.1
        exact hsame (Ref.eq_of_base (hcell.2 ▸ hq) hc)

/-! Storing a block in an empty pointer of the record. -/

theorem pointer_setDirect (hi : i < Ramfs.directBlocks) (q : Ref) :
    { n with directBlocks := Function.update n.directBlocks i b }.pointer m q =
      if q = .direct i then b else n.pointer m q := by
  cases q with
  | direct j =>
    by_cases hj : j = i
    · subst hj
      simp [pointer, hi]
    · simp [pointer, hj]
  | _ => simp [pointer]

theorem pointer_setIndirect (hempty : n.indirectBlock = 0)
    (hclear : ∀ a, a / ramfsBlockSize = b → m a = 0) (q : Ref) :
    { n with indirectBlock := b }.pointer m q = if q = .indirect then b else n.pointer m q := by
  cases q with
  | entry i => simp [pointer, hempty, entryOf_zero, entryOf_cleared hclear]
  | _ => simp [pointer]

theorem pointer_setDoubleIndirect (hempty : n.doubleIndirectBlock = 0)
    (hclear : ∀ a, a / ramfsBlockSize = b → m a = 0) (q : Ref) :
    { n with doubleIndirectBlock := b }.pointer m q = if q = .double then b else n.pointer m q := by
  cases q with
  | middle i | leaf i j => simp [pointer, hempty, entryOf_zero, entryOf_cleared hclear]
  | _ => simp [pointer]

def header (n : RamFsNode) : RamFsNode :=
  { n with directBlocks := fun _ => 0, indirectBlock := 0, doubleIndirectBlock := 0 }

end RamFsNode

namespace RamFsData

def pointer (s : RamFsData) (id : Nat) (q : Ref) : Nat := (s.nodes id).pointer s.dataArea q

def Marked (s : RamFsData) (b : Nat) : Prop := b < ramfsMaxBlocks ∧ s.blockBitmap b = true

def NoFree (s : RamFsData) : Prop := ∀ b < ramfsMaxBlocks, s.blockBitmap b = true

instance (s : RamFsData) (b : Nat) : Decidable (s.Marked b) := inferInstanceAs (Decidable (_ ∧ _))

instance (s : RamFsData) : Decidable s.NoFree := inferInstanceAs (Decidable (∀ b < _, _))

/-- The references of a set of nodes. `u32::MAX` in the first direct pointer stands for no block: the
node was made when none was free. -/
def Points (s : RamFsData) (N : Set Nat) (x : Nat × Ref) (b : Nat) : Prop :=
  x.1 ∈ N ∧ s.pointer x.1 x.2 = b ∧ b ≠ 0 ∧ (b = u32Max → x.2 ≠ .direct 0)

/-- Block 0, which `mount` takes for the root directory, is never free, so no pointer to a block is 0. -/
structure Sound (s : RamFsData) (N : Set Nat) : Prop where
  owned : Owned (s.Points N) s.Marked
  zero : s.Marked 0

variable {s s' s₁ : RamFsData} {N : Set Nat} {id m b c i p : Nat} {q r : Ref} {P P' : Ref → Prop}

theorem ne_max_of_lt (h : b < ramfsMaxBlocks) : b ≠ u32Max := by
  simp only [ramfsMaxBlocks, u32Max] at *
  omega

theorem Marked.ne_max (h : s.Marked b) : b ≠ u32Max := ne_max_of_lt h.1

/-- A block number inside the data area is not `u32::MAX`, so it is one the node owns. -/
theorem Sound.marked_of_inside (hs : s.Sound N) (hid : id ∈ N) (hb : s.pointer id q = b) (hb0 : b ≠ 0)
    (hin : b * ramfsBlockSize ≤ dataLen) : s.Marked b := by
  have hmax : b ≠ u32Max := by
    simp only [dataLen, ramfsBlockSize, ramfsMaxBlocks, u32Max] at *
    omega
  exact @Owned.taken _ _ _ _ hs.owned (id, q) b ⟨hid, hb, hb0, fun h => absurd h hmax⟩

theorem readU32_entry (hp : p < ramfsMaxBlocks) (hp0 : p ≠ 0) (hi : i < indirectBlocksPerBlock) :
    s.readU32 (ptrAddr p i) = some (entryOf s.dataArea p i) := by
  have hin : ptrAddr p i + 4 ≤ dataLen := by
    simp only [ptrAddr, dataLen, ramfsBlockSize, ramfsMaxBlocks, indirectBlocksPerBlock] at *
    omega
  have hcell : ¬ (p = 0 ∨ indirectBlocksPerBlock ≤ i) := by omega
  rw [readU32, if_pos hin, entryOf, if_neg hcell]

theorem Sound.index_marked (hs : s.Sound N) (hid : id ∈ N) (hr : r.isIndex = true)
    (h0 : s.pointer id r ≠ 0) : s.Marked (s.pointer id r) := by
  refine @Owned.taken _ _ _ _ hs.owned (id, r) _ ⟨hid, rfl, h0, fun _ hd => ?_⟩
  rw [show r = .direct 0 from hd] at hr
  cases hr

theorem Sound.eq_of_pointer (hs : s.Sound N) (hid : id ∈ N) (hm : m ∈ N) (hb : s.Marked b) (h0 : b ≠ 0)
    (hq : s.pointer id q = b) (hr : s.pointer m r = b) : (id, q) = (m, r) :=
  hs.owned.once ⟨hid, hq, h0, fun hmax => absurd hmax hb.ne_max⟩
    ⟨hm, hr, h0, fun hmax => absurd hmax hb.ne_max⟩

theorem Sound.congr (hs : s.Sound N) (hp : ∀ m ∈ N, ∀ q, s'.pointer m q = s.pointer m q)
    (hm : ∀ b, s'.Marked b ↔ s.Marked b) : s'.Sound N := by
  refine ⟨hs.owned.release ?_ fun b hb => .inl ((hm b).mpr hb), (hm 0).mpr hs.zero⟩
  intro x b hx
  exact ⟨hx.1, by rw [← hp x.1 hx.1 x.2, hx.2.1], hx.2.2⟩

theorem Sound.mono (hs : s.Sound N) {M : Set Nat} (h : M ⊆ N) : s.Sound M :=
  ⟨hs.owned.release (fun _ _ hx => ⟨h hx.1, hx.2⟩) fun _ hb => .inl hb, hs.zero⟩

def NotIndex (s : RamFsData) (N : Set Nat) (b : Nat) : Prop :=
  ∀ m ∈ N, ∀ r : Ref, r.isIndex = true → s.pointer m r ≠ 0 → s.pointer m r ≠ b

theorem Sound.notIndex (hs : s.Sound N) (hid : id ∈ N) (hq : q.isIndex = false)
    (hb : s.Marked (s.pointer id q)) : s.NotIndex N (s.pointer id q) := by
  intro m hm r hr h0 hsame
  have heq := hs.eq_of_pointer hid hm hb (hsame ▸ h0) rfl hsame
  obtain rfl := (Prod.mk.inj heq).2
  rw [hr] at hq
  cases hq

theorem NotIndex.pointer (h : s.NotIndex N b) (hm : m ∈ N) {mem : Memory}
    (hmem : ∀ a, a / ramfsBlockSize ≠ b → mem a = s.dataArea a) (q : Ref) :
    (s.nodes m).pointer mem q = s.pointer m q := by
  apply pointer_congr
  intro r hr h0 a ha
  apply hmem
  rw [ha]
  exact h m hm r hr h0

theorem blockAlloc_cases (s : RamFsData) : s.NoFree ∧ s.blockAlloc = (u32Max, s) ∨
    ∃ b, b < ramfsMaxBlocks ∧ s.blockBitmap b = false ∧ s.blockAlloc = (b, s.takeBlock b) := by
  cases hfind : firstFrom s.blockIsFree ramfsMaxBlocks 0 with
  | none =>
    refine .inl ⟨fun b hb => ?_, by rw [blockAlloc, hfind]⟩
    have hnot := firstFrom_none hfind b (Nat.zero_le b) (by omega)
    simpa [blockIsFree, hb] using hnot
  | some b =>
    have hfree := (firstFrom_some hfind).2.2
    have hparts : b < ramfsMaxBlocks ∧ s.blockBitmap b = false := by simpa [blockIsFree] using hfree
    exact .inr ⟨b, hparts.1, hparts.2, by rw [blockAlloc, hfind]⟩

theorem takeBlock_eq (hb : b < ramfsMaxBlocks) : s.takeBlock b = { s with
      blockBitmap := Function.update s.blockBitmap b true
      dataArea := s.dataArea.zero (b * ramfsBlockSize) (b * ramfsBlockSize + ramfsBlockSize) } := by
  rw [takeBlock, blockSetUsed, if_neg (Nat.not_le.mpr hb)]
  rfl

theorem takeBlock_marked (hb : b < ramfsMaxBlocks) : (s.takeBlock b).Marked c ↔ c = b ∨ s.Marked c := by
  rw [takeBlock_eq hb, Marked, Marked]
  by_cases hc : c = b
  · subst hc
    simp [hb]
  · simp [hc]

theorem takeBlock_inside {a : Nat} (ha : a / ramfsBlockSize = b) : (s.takeBlock b).dataArea a = 0 := by
  apply zero_inside <;> simp only [ramfsBlockSize] at * <;> omega

theorem takeBlock_outside (hb : b < ramfsMaxBlocks) {a : Nat} (ha : a / ramfsBlockSize ≠ b) :
    (s.takeBlock b).dataArea a = s.dataArea a := by
  rw [takeBlock_eq hb]
  apply zero_outside
  simp only [ramfsBlockSize] at *
  omega

theorem takeBlock_pointer (hs : s.Sound N) (hm : m ∈ N) (hb : b < ramfsMaxBlocks)
    (hfree : s.blockBitmap b = false) (q : Ref) :
    (s.nodes m).pointer (s.takeBlock b).dataArea q = s.pointer m q := by
  apply pointer_congr
  intro r hr h0 a ha
  apply takeBlock_outside hb
  rintro rfl
  have hmark := hs.index_marked hm hr h0
  rw [pointer, ← ha] at hmark
  simp [hmark.2] at hfree

/-- Nothing but the block pointers of `id`, the bitmap and the data area has changed. -/
structure Same (s s' : RamFsData) (id : Nat) : Prop where
  others : ∀ m, m ≠ id → s'.nodes m = s.nodes m
  header : (s'.nodes id).header = (s.nodes id).header
  aces : s'.aces = s.aces
  rootNode : s'.rootNode = s.rootNode

theorem Same.refl (s : RamFsData) (id : Nat) : Same s s id := ⟨fun _ _ => rfl, rfl, rfl, rfl⟩

theorem Same.trans (h : Same s s₁ id) (h' : Same s₁ s' id) : Same s s' id :=
  ⟨fun m hm => (h'.others m hm).trans (h.others m hm), h'.header.trans h.header, h'.aces.trans h.aces,
    h'.rootNode.trans h.rootNode⟩

theorem Same.modifyNode (h : s'.nodes = s.nodes) (ha : s'.aces = s.aces) (hr : s'.rootNode = s.rootNode)
    {f : RamFsNode → RamFsNode} (hf : (f (s.nodes id)).header = (s.nodes id).header) :
    Same s (s'.modifyNode id f) id :=
  ⟨fun m hm => by simp [RamFsData.modifyNode, hm, h], by simp [RamFsData.modifyNode, h, hf], ha, hr⟩

section

variable (h : Same s s' id)
include h

theorem Same.size : (s'.nodes id).size = (s.nodes id).size := (congrArg RamFsNode.size h.header :)

theorem Same.used : (s'.nodes id).used = (s.nodes id).used := (congrArg RamFsNode.used h.header :)

theorem Same.fileType : (s'.nodes id).fileType = (s.nodes id).fileType := (congrArg RamFsNode.fileType h.header :)

end

/-- The states before and after the free block `b` is stored in the empty pointer `q` of `id`. -/
structure Attached (s s' : RamFsData) (N : Set Nat) (id : Nat) (q : Ref) (b : Nat) : Prop extends Same s s' id where
  marks : ∀ c, s'.Marked c ↔ c = b ∨ s.Marked c
  here : s'.pointer id q = b
  elsewhere : ∀ m ∈ N, ∀ q', (m, q') ≠ (id, q) → s'.pointer m q' = s.pointer m q'
  cleared : ∀ a, a / ramfsBlockSize = b → s'.dataArea a = 0
  frame : ∀ a, a / ramfsBlockSize ≠ b →
    (∀ r, r.isIndex = true → s.pointer id r ≠ 0 → s.pointer id r ≠ a / ramfsBlockSize) →
      s'.dataArea a = s.dataArea a

section
variable (hs : s.Sound N) (hid : id ∈ N) (hb : b < ramfsMaxBlocks) (hfree : s.blockBitmap b = false)
include hs hid hb hfree

theorem attached_record {f : RamFsNode → RamFsNode} (hheader : (f (s.nodes id)).header = (s.nodes id).header)
    (hpointer : ∀ q', (f (s.nodes id)).pointer (s.takeBlock b).dataArea q' =
      if q' = q then b else (s.nodes id).pointer (s.takeBlock b).dataArea q') :
    Attached s ((s.takeBlock b).modifyNode id f) N id q b := by
  have hnodes : (s.takeBlock b).nodes = s.nodes := by rw [takeBlock_eq hb]
  have hsame := Same.modifyNode hnodes (by rw [takeBlock_eq hb]) (by rw [takeBlock_eq hb]) hheader
  have hself : ((s.takeBlock b).modifyNode id f).nodes id = f (s.nodes id) := by simp [modifyNode, hnodes]
  refine ⟨hsame, fun c => takeBlock_marked hb, ?_, ?_, fun a ha => takeBlock_inside ha,
    fun a ha _ => takeBlock_outside hb ha⟩
  · have hp := hpointer q
    rw [if_pos rfl] at hp
    rw [pointer, hself]
    exact hp
  · intro m hm q' hne
    by_cases hmid : m = id
    · subst hmid
      have hq : q' ≠ q := fun h => hne (by rw [h])
      rw [pointer, hself]
      have hp := hpointer q'
      rw [if_neg hq, takeBlock_pointer hs hm hb hfree] at hp
      exact hp
    · rw [pointer, hsame.others m hmid]
      exact takeBlock_pointer hs hm hb hfree q'

variable (hpm : s.Marked p) (hp0 : p ≠ 0) (hi : i < indirectBlocksPerBlock)

omit hs hid hb in
include hpm in
theorem ne_of_marked : b ≠ p := by
  rintro rfl
  simp [hpm.2] at hfree

include hpm hp0 hi

theorem takeBlock_writeU32_self (hq : q.base = some (r, i)) (hp : s.pointer id r = p)
    (hempty : s.pointer id q = 0) (q' : Ref) :
    ((s.takeBlock b).writeU32 (ptrAddr p i) b).pointer id q' = if q' = q then b else s.pointer id q' := by
  have hb32 : b < 2 ^ 32 := by
    simp only [ramfsMaxBlocks] at hb
    omega
  have hold := fun x => takeBlock_pointer hs hid hb hfree x
  rw [pointer, show ((s.takeBlock b).writeU32 (ptrAddr p i) b).nodes id = s.nodes id by
    rw [writeU32, takeBlock_eq hb], ← hold q']
  apply pointer_store hq (by rw [hold, hp]) hp0 hi hb32 (ne_of_marked hfree hpm) (by rw [hold, hempty])
    (fun a ha => takeBlock_inside ha)
  intro r' hr'
  rw [hold] at hr'
  have hsame := hs.eq_of_pointer hid hid hpm hp0 hr' hp
  exact (Prod.mk.inj hsame).2

theorem takeBlock_writeU32_other (hp : s.pointer id r = p) (hm : m ∈ N) (hmid : m ≠ id) (q' : Ref) :
    ((s.takeBlock b).writeU32 (ptrAddr p i) b).pointer m q' = s.pointer m q' := by
  rw [pointer, show ((s.takeBlock b).writeU32 (ptrAddr p i) b).nodes m = s.nodes m by
    rw [writeU32, takeBlock_eq hb], ← takeBlock_pointer hs hm hb hfree q']
  apply pointer_congr
  intro r' hr' h0 a ha
  rw [takeBlock_pointer hs hm hb hfree] at h0 ha
  apply store_ptr_outside hi
  intro hap
  have hsame := hs.eq_of_pointer hm hid hpm hp0 (by rw [← ha, hap]) hp
  exact hmid (Prod.mk.inj hsame).1

theorem attached_entry (hq : q.base = some (r, i)) (hp : s.pointer id r = p) (hempty : s.pointer id q = 0) :
    Attached s ((s.takeBlock b).writeU32 (ptrAddr p i) b) N id q b := by
  have hself := takeBlock_writeU32_self hs hid hb hfree hpm hp0 hi hq hp hempty
  have hsame : Same s ((s.takeBlock b).writeU32 (ptrAddr p i) b) id := by
    rw [takeBlock_eq hb]
    exact ⟨fun _ _ => rfl, rfl, rfl, rfl⟩
  refine ⟨hsame, fun c => takeBlock_marked hb, ?_, ?_, ?_, ?_⟩
  · rw [hself, if_pos rfl]
  · intro m hm q' hne
    by_cases hmid : m = id
    · subst hmid
      rw [hself, if_neg (fun h => hne (by rw [h]))]
    · exact takeBlock_writeU32_other hs hid hb hfree hpm hp0 hi hp hm hmid q'
  · intro a ha
    have hne : a / ramfsBlockSize ≠ p := by rw [ha]; exact ne_of_marked hfree hpm
    exact (store_ptr_outside hi hne).trans (takeBlock_inside ha)
  · intro a ha hout
    have hne : a / ramfsBlockSize ≠ p := by
      intro hap
      exact hout r (Ref.isIndex_of_base hq) (by rw [hp]; exact hp0) (by rw [hp, hap])
    exact (store_ptr_outside hi hne).trans (takeBlock_outside hb ha)

end

/-- Empty pointers of `id` among `P` have been filled with free blocks, and nothing else happened. -/
structure Grown (s s' : RamFsData) (N : Set Nat) (id : Nat) (P : Ref → Prop) : Prop extends Same s s' id where
  sound : s'.Sound N
  marks : ∀ c, s.Marked c → s'.Marked c
  news : ∀ c, s'.Marked c → ¬ s.Marked c → ∃ q, P q ∧ s.pointer id q = 0 ∧ s'.pointer id q = c
  kept : ∀ m ∈ N, ∀ q, s.pointer m q ≠ 0 → s'.pointer m q = s.pointer m q
  changed : ∀ m ∈ N, ∀ q, s'.pointer m q ≠ s.pointer m q → m = id ∧ P q ∧
    ¬ s.Marked (s'.pointer m q) ∧ s'.Marked (s'.pointer m q) ∧
      (q.isIndex = false → ∀ a, a / ramfsBlockSize = s'.pointer m q → s'.dataArea a = 0)
  frame : ∀ a, s.Marked (a / ramfsBlockSize) →
    (∀ r, r.isIndex = true → s.pointer id r ≠ 0 → s.pointer id r ≠ a / ramfsBlockSize) →
      s'.dataArea a = s.dataArea a

theorem Grown.refl (hs : s.Sound N) (id : Nat) (P : Ref → Prop) : Grown s s N id P where
  toSame := .refl s id
  sound := hs
  marks _ h := h
  news _ h hn := absurd h hn
  kept _ _ _ _ := rfl
  changed _ _ _ h := absurd rfl h
  frame _ _ _ := rfl

theorem Grown.mono (h : Grown s s' N id P) (hP : ∀ q, P q → P' q) : Grown s s' N id P' :=
  { h with
    news := fun c hc hn => by
      obtain ⟨q, hq, h0, hp⟩ := h.news c hc hn
      exact ⟨q, hP q hq, h0, hp⟩
    changed := fun m hm q hne => by
      obtain ⟨hid, hq, hrest⟩ := h.changed m hm q hne
      exact ⟨hid, hP q hq, hrest⟩ }

theorem Attached.grown (h : Attached s s' N id q b) (hs : s.Sound N) (hid : id ∈ N)
    (hb : ¬ s.Marked b) (hb0 : b ≠ 0) (hempty : s.pointer id q = 0) : Grown s s' N id (· = q) where
  toSame := h.toSame
  sound := by
    refine ⟨hs.owned.attach hb ((h.marks b).mpr (Or.inl rfl)) (fun c hc => (h.marks c).mpr (Or.inr hc))
      (i := (id, q)) ?_, (h.marks 0).mpr (Or.inr hs.zero)⟩
    intro x c hx
    by_cases hxq : x = (id, q)
    · subst hxq
      exact .inr ⟨rfl, by rw [← hx.2.1, h.here]⟩
    · have hold := h.elsewhere x.1 hx.1 x.2 hxq
      exact .inl ⟨hx.1, by rw [← hold, hx.2.1], hx.2.2⟩
  marks c hc := (h.marks c).mpr (Or.inr hc)
  news c hc hn := by
    rcases (h.marks c).mp hc with rfl | hold
    · exact ⟨q, rfl, hempty, h.here⟩
    · exact absurd hold hn
  kept m hm q' h0 := by
    apply h.elsewhere m hm
    intro hsame
    obtain ⟨rfl, rfl⟩ := Prod.mk.inj hsame
    exact h0 hempty
  changed m hm q' hne := by
    by_cases hsame : (m, q') = (id, q)
    · obtain ⟨rfl, rfl⟩ := Prod.mk.inj hsame
      rw [h.here]
      exact ⟨rfl, rfl, hb, (h.marks b).mpr (Or.inl rfl), fun _ => h.cleared⟩
    · exact absurd (h.elsewhere m hm q' hsame) hne
  frame a ha hout := by
    apply h.frame a _ hout
    intro hab
    exact hb (hab ▸ ha)

theorem Grown.pointer_cases (h : Grown s s' N id P) (hid : id ∈ N) (q : Ref) :
    s'.pointer id q = s.pointer id q ∨ s.pointer id q = 0 ∧ ¬ s.Marked (s'.pointer id q) := by
  by_cases hsame : s'.pointer id q = s.pointer id q
  · exact .inl hsame
  · refine .inr ⟨?_, (h.changed id hid q hsame).2.2.1⟩
    by_contra h0
    exact hsame (h.kept id hid q h0)

theorem Grown.changed_trans (h : Grown s s₁ N id P) (h' : Grown s₁ s' N id P) (hid : id ∈ N)
    (hne : s₁.pointer id q ≠ s.pointer id q) : P q ∧ ¬ s.Marked (s'.pointer id q) ∧
      s'.Marked (s'.pointer id q) ∧
        (q.isIndex = false → ∀ a, a / ramfsBlockSize = s'.pointer id q → s'.dataArea a = 0) := by
  obtain ⟨-, hP, hfree, hmark, hclear⟩ := h.changed id hid q hne
  have h0 : s₁.pointer id q ≠ 0 := by
    rcases h.pointer_cases hid q with hsame | ⟨hempty, -⟩
    · exact absurd hsame hne
    · exact hempty ▸ hne
  rw [h'.kept id hid q h0]
  refine ⟨hP, hfree, h'.marks _ hmark, fun hq a ha => ?_⟩
  rw [← hclear hq a ha]
  apply h'.frame a (ha ▸ hmark)
  intro r hr _ hra
  have hsame := h.sound.eq_of_pointer hid hid hmark h0 rfl (hra.trans ha)
  obtain rfl := (Prod.mk.inj hsame).2
  rw [hr] at hq
  cases hq

theorem Grown.trans (h : Grown s s₁ N id P) (h' : Grown s₁ s' N id P) (hs : s.Sound N) (hid : id ∈ N) :
    Grown s s' N id P where
  toSame := h.toSame.trans h'.toSame
  sound := h'.sound
  marks c hc := h'.marks c (h.marks c hc)
  news c hc hn := by
    by_cases hmid : s₁.Marked c
    · obtain ⟨q, hq, h0, hp⟩ := h.news c hmid hn
      refine ⟨q, hq, h0, ?_⟩
      rw [← hp]
      apply h'.kept id hid q
      rw [hp]
      rintro rfl
      exact hn hs.zero
    · obtain ⟨q, hq, h0, hp⟩ := h'.news c hc hmid
      refine ⟨q, hq, ?_, hp⟩
      by_contra hold
      exact hold ((h.kept id hid q hold).symm.trans h0)
  kept m hm q h0 := by
    have hfirst := h.kept m hm q h0
    rw [← hfirst]
    apply h'.kept m hm q
    rwa [hfirst]
  changed m hm q hne := by
    by_cases hfirst : s₁.pointer m q = s.pointer m q
    · rw [← hfirst] at hne
      obtain ⟨hmid, hP, hfree, hrest⟩ := h'.changed m hm q hne
      exact ⟨hmid, hP, fun hc => hfree (h.marks _ hc), hrest⟩
    · obtain ⟨rfl, -⟩ := h.changed m hm q hfirst
      exact ⟨rfl, h.changed_trans h' hm hfirst⟩
  frame a ha hout := by
    rw [← h.frame a ha hout]
    apply h'.frame a (h.marks _ ha)
    intro r hr h0 hra
    rcases h.pointer_cases hid r with hsame | ⟨-, hfree⟩
    · exact hout r hr (hsame ▸ h0) (hsame ▸ hra)
    · exact hfree (hra ▸ ha)

def Answered (s : RamFsData) (N : Set Nat) (id : Nat) (P : Ref → Prop) (q : Ref)
    (r : Option Nat × RamFsData) : Prop :=
  Grown s r.2 N id P ∧
    match r.1 with
    | some b => b ≠ 0 ∧ r.2.pointer id q = b
    | none => r.2.NoFree ∧ r.2.pointer id q = 0

def leafRef (idx : Nat) : Ref :=
  if idx < directBlocks then .direct idx
  else if idx < indirectLimit then .entry (idx - directBlocks)
  else .leaf ((idx - indirectLimit) / indirectBlocksPerBlock) ((idx - indirectLimit) % indirectBlocksPerBlock)

theorem leafRef_isIndex (idx : Nat) : (leafRef idx).isIndex = false := by
  rw [leafRef]
  split
  · rfl
  · split <;> rfl

def path (idx : Nat) : List Ref :=
  if idx < directBlocks then [leafRef idx]
  else if idx < indirectLimit then [.indirect, leafRef idx]
  else [.double, .middle ((idx - indirectLimit) / indirectBlocksPerBlock), leafRef idx]

theorem Answered.mono {a : Option Nat × RamFsData} (h : Answered s N id P q a) (hP : ∀ x, P x → P' x) :
    Answered s N id P' q a := ⟨h.1.mono hP, h.2⟩

theorem follow_bind (a : Option Nat × RamFsData) (f g : Nat → RamFsData → Option (Option Nat × RamFsData)) :
    (follow a fun b s => (f b s).bind fun r => follow r g) = (follow a f).bind fun r => follow r g := by
  obtain ⟨found, s⟩ := a
  cases found <;> rfl

section

variable (hs : s.Sound N) (hid : id ∈ N)
include hs hid

theorem obtainBlock_answered {put : Nat → RamFsData → RamFsData}
    (hput : s.pointer id q = 0 → ∀ b < ramfsMaxBlocks, s.blockBitmap b = false →
      Attached s (put b (s.takeBlock b)) N id q b) :
    Answered s N id (· = q) q (s.obtainBlock (s.pointer id q) put) := by
  by_cases h0 : s.pointer id q = 0
  · rw [obtainBlock, if_pos h0, allocBlockInternal]
    rcases blockAlloc_cases s with ⟨hfull, halloc⟩ | ⟨b, hb, hfree, halloc⟩
    · rw [halloc, if_pos rfl]
      exact ⟨Grown.refl hs id _, hfull, h0⟩
    · have hunmarked : ¬ s.Marked b := fun h => by simp [h.2] at hfree
      have hb0 : b ≠ 0 := fun h => hunmarked (h ▸ hs.zero)
      have hatt := hput h0 b hb hfree
      rw [halloc, if_neg (ne_max_of_lt hb)]
      exact ⟨hatt.grown hs hid hunmarked hb0 h0, hb0, hatt.here⟩
  · rw [obtainBlock, if_neg h0]
    exact ⟨Grown.refl hs id _, h0, rfl⟩

theorem entryBlock_answered (hq : q.base = some (r, i))
    (hi : i < indirectBlocksPerBlock) (hp : s.pointer id r = p) (hp0 : p ≠ 0) :
    ∃ a, s.entryBlock p i = some a ∧ Answered s N id (· = q) q a := by
  have hmark : s.Marked p := hp ▸ hs.index_marked hid (Ref.isIndex_of_base hq) (by rwa [hp])
  have hread : s.readU32 (ptrAddr p i) = some (s.pointer id q) := by
    rw [readU32_entry hmark.1 hp0 hi, pointer, pointer_of_base hq, show (s.nodes id).pointer s.dataArea r = p from hp]
  refine ⟨_, by rw [entryBlock, hread]; rfl, ?_⟩
  apply obtainBlock_answered hs hid
  intro h0 b hb hfree
  exact attached_entry hs hid hb hfree hmark hp0 hi hq hp h0

theorem follow_answered {a : Option Nat × RamFsData}
    (ha : Answered s N id P r a) (hq : q.base = some (r, i)) (hi : i < indirectBlocksPerBlock) :
    ∃ a', follow a (fun index s => s.entryBlock index i) = some a' ∧
      Answered s N id (fun x => P x ∨ x = q) q a' := by
  obtain ⟨found, s₁⟩ := a
  obtain ⟨hgrown, hfound⟩ := ha
  cases found with
  | none =>
    refine ⟨_, rfl, hgrown.mono fun _ h => .inl h, hfound.1, ?_⟩
    have hindex : s₁.pointer id r = 0 := hfound.2
    rw [pointer, pointer_of_base hq, show (s₁.nodes id).pointer s₁.dataArea r = 0 from hindex, entryOf_zero]
  | some p =>
    obtain ⟨a', ha', hgrown', hans⟩ := entryBlock_answered hgrown.sound hid hq hi hfound.2 hfound.1
    refine ⟨a', ha', ?_, hans⟩
    exact (hgrown.mono fun _ h => .inl h).trans (hgrown'.mono fun _ h => .inr h) hs hid

theorem direct_answered (hi : i < directBlocks) : Answered s N id (· = .direct i) (.direct i)
      (s.obtainBlock ((s.nodes id).directBlocks i) (setDirect id i)) := by
  have hcur : (s.nodes id).directBlocks i = s.pointer id (.direct i) := by
    simp [pointer, RamFsNode.pointer, hi]
  rw [hcur]
  apply obtainBlock_answered hs hid
  intro _ b hb hfree
  exact attached_record hs hid hb hfree rfl (pointer_setDirect hi)

theorem indirect_answered : Answered s N id (· = .indirect) .indirect
      (s.obtainBlock (s.nodes id).indirectBlock (setIndirect id)) := by
  apply obtainBlock_answered hs hid
  intro h0 b hb hfree
  exact attached_record hs hid hb hfree rfl (pointer_setIndirect h0 fun a ha => takeBlock_inside ha)

theorem double_answered : Answered s N id (· = .double) .double
      (s.obtainBlock (s.nodes id).doubleIndirectBlock (setDoubleIndirect id)) := by
  apply obtainBlock_answered hs hid
  intro h0 b hb hfree
  exact attached_record hs hid hb hfree rfl (pointer_setDoubleIndirect h0 fun a ha => takeBlock_inside ha)

theorem getOrAllocBlock_answered {idx : Nat} (hidx : idx < doubleIndirectLimit) :
    ∃ a, s.getOrAllocBlock id idx = some a ∧ Answered s N id (· ∈ path idx) (leafRef idx) a := by
  by_cases hdirect : idx < directBlocks
  · refine ⟨_, by rw [getOrAllocBlock, if_pos hdirect], ?_⟩
    rw [leafRef, path, leafRef, if_pos hdirect, if_pos hdirect]
    exact (direct_answered hs hid hdirect).mono fun q hq => by simp [hq]
  · by_cases hindirect : idx < indirectLimit
    · have hi : idx - directBlocks < indirectBlocksPerBlock := by
        simp only [indirectLimit] at hindirect
        omega
      obtain ⟨a, ha, hans⟩ := follow_answered hs hid (indirect_answered hs hid)
        (q := .entry (idx - directBlocks)) rfl hi
      refine ⟨a, by rw [getOrAllocBlock, if_neg hdirect, if_pos hindirect, ha], ?_⟩
      rw [leafRef, path, leafRef, if_neg hdirect, if_pos hindirect, if_neg hdirect, if_pos hindirect]
      exact hans.mono fun q hq => by simpa using hq
    · have hi : (idx - indirectLimit) / indirectBlocksPerBlock < indirectBlocksPerBlock := by
        simp only [doubleIndirectLimit, indirectBlocksPerBlock] at *
        omega
      have hj : (idx - indirectLimit) % indirectBlocksPerBlock < indirectBlocksPerBlock :=
        Nat.mod_lt _ (by decide)
      obtain ⟨a₁, ha₁, hans₁⟩ := follow_answered hs hid (double_answered hs hid)
        (q := .middle ((idx - indirectLimit) / indirectBlocksPerBlock)) rfl hi
      obtain ⟨a, ha, hans⟩ := follow_answered hs hid hans₁
        (q := .leaf _ ((idx - indirectLimit) % indirectBlocksPerBlock)) rfl hj
      refine ⟨a, ?_, ?_⟩
      · rw [getOrAllocBlock, if_neg hdirect, if_neg hindirect, if_pos hidx, follow_bind, ha₁]
        exact ha
      · rw [leafRef, path, leafRef, if_neg hdirect, if_neg hindirect, if_neg hdirect, if_neg hindirect]
        exact hans.mono fun q hq => by simpa [or_assoc] using hq

end

theorem getOrAllocBlock_beyond {idx : Nat} (hidx : doubleIndirectLimit ≤ idx) :
    s.getOrAllocBlock id idx = some (none, s) := by
  have hdirect : ¬ idx < directBlocks := by
    simp only [doubleIndirectLimit, indirectLimit] at hidx
    omega
  have hindirect : ¬ idx < indirectLimit := by
    simp only [doubleIndirectLimit] at hidx
    omega
  rw [getOrAllocBlock, if_neg hdirect, if_neg hindirect, if_neg (Nat.not_lt.mpr hidx)]

end RamFsData

end AntX.Ramfs
