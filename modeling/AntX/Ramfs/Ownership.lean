import AntX.Ramfs.Truncation

/-! Who owns a block: what a node refers to, and that writing and truncating a node stays within the blocks
of that node and the free ones. -/

namespace AntX.Ramfs

open AntX.Lib Option

namespace RamFsData

variable {s s' s₁ : RamFsData} {P : Ref → Prop} {id m b idx offset : Nat} {q : Ref} {buf : List UInt8}

/-- The blocks a used node refers to. A directory keeps its entries in the block its first pointer names,
even when that is block 0; `u32::MAX` there stands for no block. -/
def Refers (s : RamFsData) (x : Nat × Ref) (b : Nat) : Prop :=
  (s.nodes x.1).used = true ∧ s.pointer x.1 x.2 = b ∧
    (b ≠ 0 ∨ x.2 = .direct 0 ∧ (s.nodes x.1).fileType = .dir) ∧ (b = u32Max → x.2 ≠ .direct 0)

/-- Every block that a used node refers to is marked in the bitmap, and is referred to once. -/
def BlocksOwned (s : RamFsData) : Prop := Owned s.Refers s.Marked

/-- The same for all nodes, used or not, and block 0 is the directory block of the root node only. -/
structure Intact (s : RamFsData) : Prop where
  sound : s.Sound Set.univ
  rooted : ∀ n, (s.nodes n).fileType = .dir → (s.nodes n).directBlocks 0 = 0 → n = 1

theorem pointer_first (s : RamFsData) (n : Nat) : s.pointer n (.direct 0) = (s.nodes n).directBlocks 0 := rfl

theorem Intact.refers_zero (h : s.Intact) {x : Nat × Ref} (hx : s.Refers x 0) : x = (1, .direct 0) := by
  obtain ⟨n, q⟩ := x
  obtain ⟨-, hp, hzero, -⟩ := hx
  rcases hzero with h0 | ⟨hq, hdir⟩
  · exact absurd rfl h0
  · obtain rfl : q = .direct 0 := hq
    rw [show n = 1 from h.rooted n hdir hp]

theorem Intact.blocksOwned (h : s.Intact) : s.BlocksOwned := by
  have hpoints : ∀ {x b}, s.Refers x b → b ≠ 0 → s.Points Set.univ x b :=
    fun hx h0 => ⟨trivial, hx.2.1, h0, hx.2.2.2⟩
  constructor
  · intro x b hx
    by_cases h0 : b = 0
    · exact h0 ▸ h.sound.zero
    · exact h.sound.owned.taken (hpoints hx h0)
  · intro x y b hx hy
    by_cases h0 : b = 0
    · subst h0
      rw [h.refers_zero hx, h.refers_zero hy]
    · exact h.sound.owned.once (hpoints hx h0) (hpoints hy h0)

/-- Only blocks of `id` and blocks that were free have been written, freed or taken. -/
structure Confined (s s' : RamFsData) (id : Nat) : Prop where
  frame : ∀ a, s.Marked (a / ramfsBlockSize) →
    (∀ q, s.pointer id q ≠ 0 → s.pointer id q ≠ a / ramfsBlockSize) → s'.dataArea a = s.dataArea a
  marks : ∀ b, s.Marked b → (∀ q, s.pointer id q ≠ 0 → s.pointer id q ≠ b) → s'.Marked b
  gained : ∀ q, s'.pointer id q ≠ 0 → (∃ r, s.pointer id r = s'.pointer id q) ∨ ¬ s.Marked (s'.pointer id q)

theorem Confined.refl (s : RamFsData) (id : Nat) : Confined s s id :=
  ⟨fun _ _ _ => rfl, fun _ h _ => h, fun q _ => .inl ⟨q, rfl⟩⟩

theorem Confined.not_held (h : Confined s s' id) (hb : s.Marked b)
    (hout : ∀ q, s.pointer id q ≠ 0 → s.pointer id q ≠ b) :
    ∀ q, s'.pointer id q ≠ 0 → s'.pointer id q ≠ b := by
  intro q h0 hq
  rcases h.gained q h0 with ⟨r, hr⟩ | hfree
  · exact hout r (hr ▸ h0) (hr.trans hq)
  · exact hfree (hq ▸ hb)

theorem Confined.trans (h : Confined s s₁ id) (h' : Confined s₁ s' id) : Confined s s' id where
  frame a ha hout :=
    (h'.frame a (h.marks _ ha hout) (h.not_held ha hout)).trans (h.frame a ha hout)
  marks b hb hout := h'.marks b (h.marks b hb hout) (h.not_held hb hout)
  gained q h0 := by
    rcases h'.gained q h0 with ⟨r, hr⟩ | hfree
    · rw [← hr]
      exact h.gained r (hr ▸ h0)
    · by_contra hnone
      have hmark : s.Marked (s'.pointer id q) := by
        by_contra hunmarked
        exact hnone (Or.inr hunmarked)
      exact hfree (h.marks _ hmark fun r _ hr => hnone (Or.inl ⟨r, hr⟩))

theorem Grown.confined (h : Grown s s' Set.univ id P) : Confined s s' id where
  frame a ha hout := h.frame a ha fun r _ => hout r
  marks b hb _ := h.marks b hb
  gained q _ := by
    rcases h.pointer_cases trivial q with hsame | ⟨-, hfree⟩
    · exact .inl ⟨q, hsame.symm⟩
    · exact .inr hfree

variable {first newSize : Nat} {f : RamFsNode → RamFsNode}

theorem Pruned.confined (h : Pruned s s' id first) : Confined s s' id where
  frame a _ _ := by rw [h.dataArea]
  marks b hb hout := by
    rcases h.lost b hb with hkept | ⟨h0, q, hq, -⟩
    · exact hkept
    · exact absurd hq (hout q (hq ▸ h0))
  gained q h0 := by
    rcases h.pointer q with hsame | hzero
    · exact .inl ⟨q, hsame.symm⟩
    · exact absurd hzero h0

structure Inside (s s' : RamFsData) (id : Nat) : Prop where
  sound : s'.Sound Set.univ
  confined : Confined s s' id
  others : ∀ m, m ≠ id → s'.nodes m = s.nodes m
  fileType : (s'.nodes id).fileType = (s.nodes id).fileType

structure Within (s s' : RamFsData) (id : Nat) : Prop extends Inside s s' id where
  first : (s'.nodes id).directBlocks 0 = 0 → (s.nodes id).directBlocks 0 = 0

theorem Within.refl (hs : s.Sound Set.univ) (id : Nat) : Within s s id :=
  ⟨⟨hs, Confined.refl s id, fun _ _ => rfl, rfl⟩, fun h => h⟩

theorem Inside.trans (h : Inside s s₁ id) (h' : Inside s₁ s' id) : Inside s s' id where
  sound := h'.sound
  confined := h.confined.trans h'.confined
  others m hm := (h'.others m hm).trans (h.others m hm)
  fileType := h'.fileType.trans h.fileType

theorem Within.trans (h : Within s s₁ id) (h' : Within s₁ s' id) : Within s s' id where
  toInside := h.toInside.trans h'.toInside
  first h0 := h.first (h'.first h0)

theorem Within.intact (h : Within s s' id) (hs : s.Intact) : s'.Intact where
  sound := h.sound
  rooted n hdir h0 := by
    by_cases hn : n = id
    · subst hn
      exact hs.rooted n (h.fileType ▸ hdir) (h.first h0)
    · rw [h.others n hn] at hdir h0
      exact hs.rooted n hdir h0

theorem Pruned.inside (h : Pruned s s' id first) (hs : s.Sound Set.univ) : Inside s s' id where
  sound := h.sound hs trivial
  confined := h.confined
  others := h.others
  fileType := h.fileType

theorem Grown.within (h : Grown s s' Set.univ id P) : Within s s' id where
  sound := h.sound
  confined := h.confined
  others := h.others
  fileType := h.fileType
  first h0 := by
    by_contra hne
    exact hne ((h.kept id trivial (.direct 0) hne).symm.trans h0)

theorem Pruned.within (h : Pruned s s' id first) (hs : s.Sound Set.univ) (hfirst : 0 < first) :
    Within s s' id where
  toInside := h.inside hs
  first h0 := (h.low 0 hfirst).symm.trans h0

section

variable (hs : s.Sound Set.univ)

include hs

theorem within_data (hq : q.isIndex = false) (hb : s.pointer id q = b) (hb0 : b ≠ 0)
    (hmark : s.Marked b) (hdata : ∀ a, a / ramfsBlockSize ≠ b → s'.dataArea a = s.dataArea a)
    (hnodes : s'.nodes = s.nodes) (hbits : s'.blockBitmap = s.blockBitmap) : Within s s' id := by
  have hpointer : ∀ m ∈ Set.univ, ∀ q, s'.pointer m q = s.pointer m q := by
    intro m hm r
    rw [pointer, hnodes]
    exact (hb ▸ hs.notIndex trivial hq (hb ▸ hmark)).pointer hm hdata r
  have hmarked : ∀ c, s'.Marked c ↔ s.Marked c := by
    intro c
    rw [Marked, Marked, hbits]
  refine ⟨⟨hs.congr hpointer hmarked, ⟨?_, ?_, ?_⟩, fun m _ => by rw [hnodes], by rw [hnodes]⟩,
    fun h => by rwa [hnodes] at h⟩
  · intro a _ hout
    apply hdata
    intro hab
    exact hout q (hb ▸ hb0) (hb.trans hab.symm)
  · intro c hc _
    exact (hmarked c).mpr hc
  · intro r _
    exact .inl ⟨r, (hpointer id trivial r).symm⟩

omit hs in
theorem modifyNode_pointer (hf : ∀ n mem q, (f n).pointer mem q = n.pointer mem q) (m : Nat)
    (q : Ref) : (s.modifyNode id f).pointer m q = s.pointer m q := by
  by_cases hm : m = id
  · subst hm
    simp only [pointer, modifyNode, Function.update_self]
    exact hf _ _ q
  · simp only [pointer, modifyNode, Function.update_of_ne hm]

theorem modifyNode_sound (hf : ∀ n mem q, (f n).pointer mem q = n.pointer mem q) :
    (s.modifyNode id f).Sound Set.univ :=
  hs.congr (fun m _ q => modifyNode_pointer hf m q) fun _ => Iff.rfl

theorem within_record (hf : ∀ n mem q, (f n).pointer mem q = n.pointer mem q)
    (htype : ∀ n, (f n).fileType = n.fileType) : Within s (s.modifyNode id f) id := by
  refine ⟨⟨modifyNode_sound hs hf, ⟨fun _ _ _ => rfl, fun _ h _ => h, ?_⟩, ?_, ?_⟩, ?_⟩
  · intro r _
    exact .inl ⟨r, (modifyNode_pointer hf id r).symm⟩
  · intro m hm
    simp [modifyNode, hm]
  · simp [modifyNode, htype]
  · intro h0
    exact (modifyNode_pointer hf id (.direct 0)).symm.trans h0

theorem getOrAllocBlock_within {a : Option Nat × RamFsData} (h : s.getOrAllocBlock id idx = some a) :
    Within s a.2 id ∧ ∀ b, a.1 = some b → b ≠ 0 ∧ a.2.pointer id (leafRef idx) = b := by
  by_cases hidx : idx < doubleIndirectLimit
  · obtain ⟨⟨found, s₁⟩, hget, hgrown, hfound⟩ := getOrAllocBlock_answered hs trivial hidx
    cases hget.symm.trans h
    refine ⟨hgrown.within, fun b hb => ?_⟩
    subst hb
    exact hfound
  · rw [getOrAllocBlock_beyond (by omega)] at h
    cases h
    exact ⟨Within.refl hs id, fun b hb => by cases hb⟩

theorem storeBytes_within (hb : s.pointer id (leafRef idx) = b) (hb0 : b ≠ 0)
    (hlen : buf.length ≤ ramfsBlockSize - offset % ramfsBlockSize) :
    Within s (s.storeBytes (b * ramfsBlockSize + offset % ramfsBlockSize) buf) id := by
  rw [storeBytes]
  split
  · exact within_data hs (leafRef_isIndex idx) hb hb0 (hs.marked_of_inside trivial hb hb0 (by omega))
      (fun _ ha => Memory.store_outside_block hlen ha) rfl rfl
  · exact Within.refl hs id

theorem growSize_within (id offset : Nat) : Within s (s.growSize id offset) id := by
  rw [growSize]
  split
  · exact within_record hs (fun n mem q => by cases q <;> rfl) fun n => rfl
  · exact Within.refl hs id

theorem writeLoop_within {fuel k : Nat} (h : writeLoop id fuel s offset buf = some (k, s')) :
    Within s s' id := by
  induction fuel generalizing s offset buf k with
  | zero =>
    cases h
    exact Within.refl hs id
  | succ fuel ih =>
    rw [writeLoop] at h
    by_cases hnil : buf = []
    · rw [if_pos hnil] at h
      cases h
      exact Within.refl hs id
    · rw [if_neg hnil] at h
      obtain ⟨⟨found, s₁⟩, hget, hrest⟩ := bind_eq_some_iff.mp h
      obtain ⟨hfirst, hblock⟩ := getOrAllocBlock_within hs hget
      cases found with
      | none =>
        cases hrest
        exact hfirst
      | some b =>
        obtain ⟨hb0, hb⟩ := hblock b rfl
        obtain ⟨r, hloop, hr⟩ := map_eq_some_iff.mp hrest
        have hlen : (buf.take (min (ramfsBlockSize - offset % ramfsBlockSize) buf.length)).length ≤
            ramfsBlockSize - offset % ramfsBlockSize := by
          rw [List.length_take]
          omega
        have hstore := storeBytes_within hfirst.sound hb hb0 hlen
        have hgrow := growSize_within hstore.sound id
          (offset + min (ramfsBlockSize - offset % ramfsBlockSize) buf.length)
        cases hr
        exact ((hfirst.trans hstore).trans hgrow).trans (ih hgrow.sound hloop)

theorem clearLastBlock_within (hk : s.KeepsIndex id newSize) (h : s.clearLastBlock id newSize = some s') :
    Within s s' id ∧ IndexGoes (s'.nodes id) ((newSize - 1) / ramfsBlockSize + 2) := by
  by_cases hidx : (newSize - 1) / ramfsBlockSize < doubleIndirectLimit
  · obtain ⟨s₁, hgrown, hcases⟩ := clearLastBlock_cases hs trivial hidx h
    have hgoes := hgrown.indexGoes trivial hk
    rcases hcases with ⟨rfl, -⟩ | ⟨b, hb0, hmark, hb, rfl⟩
    · exact ⟨hgrown.within, hgoes⟩
    · refine ⟨hgrown.within.trans (within_data hgrown.sound (leafRef_isIndex _) hb hb0 hmark ?_ rfl rfl), hgoes⟩
      intro a ha
      apply Memory.zero_outside
      simp only [ramfsBlockSize] at *
      omega
  · rw [clearLastBlock, getOrAllocBlock_beyond (by omega)] at h
    cases h
    exact ⟨Within.refl hs id, (Grown.refl hs id _).indexGoes trivial hk⟩

theorem shrink_within {oldSize : Nat} (h0 : 0 < newSize) (hk : s.KeepsIndex id newSize)
    (h : s.shrink id newSize oldSize = some s') : Within s s' id := by
  obtain ⟨s₁, hclear, hrest⟩ := bind_eq_some_iff.mp h
  obtain ⟨hfirst, hgoes⟩ := clearLastBlock_within hs hk hclear
  rw [← blockCount_eq h0] at hgoes
  obtain ⟨s₂, hfree, hpruned, -⟩ := freeBlocks_pruned hfirst.sound trivial hgoes (blockCount oldSize)
  cases hfree.symm.trans hrest
  exact hfirst.trans (hpruned.within hfirst.sound (Nat.succ_pos _))

theorem setSize_within (id size : Nat) : Within s (s.setSize id size) id :=
  within_record hs (fun n mem q => by cases q <;> rfl) fun n => rfl

theorem resize_inside (hk : 0 < newSize → newSize < (s.nodes id).size → s.KeepsIndex id newSize)
    (h : s.resize id newSize = some s') :
    Inside s s' id ∧ (0 < newSize → Within s s' id) ∧ (newSize = 0 → s'.dataArea = s.dataArea) := by
  obtain ⟨s₁, hrun, rfl⟩ := map_eq_some_iff.mp h
  by_cases hshrink : newSize < (s.nodes id).size ∧ 0 < newSize
  · rw [if_pos hshrink] at hrun
    have hwithin := shrink_within hs hshrink.2 (hk hshrink.2 hshrink.1) hrun
    have hall := hwithin.trans (setSize_within hwithin.sound id newSize)
    exact ⟨hall.toInside, fun _ => hall, fun h0 => by omega⟩
  · rw [if_neg hshrink] at hrun
    by_cases hzero : newSize = 0
    · rw [if_pos hzero] at hrun
      obtain ⟨s₂, hrel, hpruned, -⟩ := releaseAll_pruned hs (Set.mem_univ id)
      cases hrel.symm.trans hrun
      have hinside := hpruned.inside hs
      exact ⟨hinside.trans (setSize_within hinside.sound id newSize).toInside, fun h0 => by omega,
        fun _ => hpruned.dataArea⟩
    · rw [if_neg hzero] at hrun
      cases hrun
      have hall := setSize_within hs id newSize
      exact ⟨hall.toInside, fun _ => hall, fun h0 => absurd h0 hzero⟩

end

end RamFsData

end AntX.Ramfs
