import AntX.Ramfs.BlockRequest

/-! Truncation: which blocks are freed, and which pointers are cleared with them. A block may only be
freed when the pointer to it goes. -/

namespace AntX.Ramfs

open AntX.Lib List Option

/-- The pointer of the record that leads to a block. -/
def Ref.top : Ref → Ref
  | .direct i => .direct i
  | .indirect | .entry _ => .indirect
  | .double | .middle _ | .leaf _ _ => .double

namespace RamFsData

variable {s s' s₁ : RamFsData} {N : Set Nat} {F F' : Nat → Prop} {id m b c i p : Nat} {q r : Ref}

structure Frees (s s' : RamFsData) (F : Nat → Prop) : Prop where
  nodes : s'.nodes = s.nodes
  dataArea : s'.dataArea = s.dataArea
  aces : s'.aces = s.aces
  rootNode : s'.rootNode = s.rootNode
  back : ∀ b, s'.Marked b → s.Marked b
  lost : ∀ b, s.Marked b → s'.Marked b ∨ F b

theorem Frees.refl (s : RamFsData) (F : Nat → Prop) : Frees s s F :=
  ⟨rfl, rfl, rfl, rfl, fun _ h => h, fun _ h => .inl h⟩

theorem Frees.mono (h : Frees s s' F) (hF : ∀ b, F b → F' b) : Frees s s' F' :=
  { h with lost := fun b hb => (h.lost b hb).imp_right (hF b) }

theorem Frees.trans (h : Frees s s₁ F) (h' : Frees s₁ s' F) : Frees s s' F where
  nodes := h'.nodes.trans h.nodes
  dataArea := h'.dataArea.trans h.dataArea
  aces := h'.aces.trans h.aces
  rootNode := h'.rootNode.trans h.rootNode
  back b hb := h.back b (h'.back b hb)
  lost b hb := by
    rcases h.lost b hb with hmid | hF
    · exact h'.lost b hmid
    · exact .inr hF

theorem blockSetFree_frees (s : RamFsData) (b : Nat) : Frees s (s.blockSetFree b) (· = b) := by
  rw [blockSetFree]
  split
  · exact Frees.refl s _
  · refine ⟨rfl, rfl, rfl, rfl, fun c hc => ?_, fun c hc => ?_⟩
    · refine ⟨hc.1, ?_⟩
      by_cases hcb : c = b
      · have hbit := hc.2
        simp [hcb] at hbit
      · simpa [hcb] using hc.2
    · by_cases hcb : c = b
      · exact .inr hcb
      · exact .inl ⟨hc.1, by simpa [hcb] using hc.2⟩

theorem foldl_blockSetFree_frees (bs : List Nat) (s : RamFsData) :
    Frees s (bs.foldl blockSetFree s) (· ∈ bs) := by
  induction bs generalizing s with
  | nil => exact Frees.refl s _
  | cons b bs ih =>
    have hfirst : Frees s (s.blockSetFree b) (· ∈ b :: bs) :=
      (blockSetFree_frees s b).mono fun c hc => by simp [hc]
    exact hfirst.trans ((ih _).mono fun c hc => by simp [hc])

theorem foldlM_frees {f : RamFsData → Nat → Option RamFsData} {l : List Nat} {mem : Memory}
    (hf : ∀ s, s.dataArea = mem → ∀ i ∈ l, ∃ s', f s i = some s' ∧ Frees s s' F)
    (hs : s.dataArea = mem) : ∃ s', l.foldlM f s = some s' ∧ Frees s s' F := by
  induction l generalizing s with
  | nil => exact ⟨s, rfl, Frees.refl s F⟩
  | cons i l ih =>
    obtain ⟨s₁, hstep, hfrees⟩ := hf s hs i (by simp)
    obtain ⟨s', hrest, hfrees'⟩ := ih (fun s h i hi => hf s h i (by simp [hi])) (hfrees.dataArea.trans hs)
    refine ⟨s', ?_, hfrees.trans hfrees'⟩
    rw [foldlM_cons, hstep]
    exact hrest

/-- What all turns over the pointers of an index block free, and the index block itself. -/
theorem freeIndex_frees {f : RamFsData → Nat → Option RamFsData} (start stop : Nat) (hF : F p)
    (hf : ∀ t, t.dataArea = s.dataArea → ∀ i < indirectBlocksPerBlock, ∃ t', f t i = some t' ∧ Frees t t' F) :
    ∃ s', ((List.range' start (min stop indirectBlocksPerBlock - start)).foldlM f s).map
      (fun s => s.blockSetFree p) = some s' ∧ Frees s s' F := by
  have hturn : ∀ t, t.dataArea = s.dataArea → ∀ i ∈ List.range' start (min stop indirectBlocksPerBlock - start),
      ∃ t', f t i = some t' ∧ Frees t t' F := by
    intro t ht i hi
    rw [mem_range'_1] at hi
    exact hf t ht i (by omega)
  obtain ⟨s₁, hloop, hfrees⟩ := foldlM_frees hturn rfl
  rw [hloop]
  exact ⟨_, rfl, hfrees.trans ((blockSetFree_frees s₁ p).mono fun b hb => hb ▸ hF)⟩

theorem freePointer_frees (hp : p < ramfsMaxBlocks) (hp0 : p ≠ 0) (hi : i < indirectBlocksPerBlock) :
    ∃ s', freePointer p s i = some s' ∧ Frees s s' fun b => b ≠ 0 ∧ entryOf s.dataArea p i = b := by
  rw [freePointer, readU32_entry hp hp0 hi, map_some]
  refine ⟨_, rfl, ?_⟩
  by_cases h0 : entryOf s.dataArea p i = 0
  · rw [if_pos h0]
    exact Frees.refl s _
  · rw [if_neg h0]
    exact (blockSetFree_frees s _).mono fun b hb => ⟨hb ▸ h0, hb.symm⟩

def InChain (mem : Memory) (p b : Nat) : Prop := b ≠ 0 ∧ (b = p ∨ ∃ i, entryOf mem p i = b)

theorem freeIndirectChain_frees (hp : p < ramfsMaxBlocks) (start stop : Nat) :
    ∃ s', s.freeIndirectChain p start stop = some s' ∧ Frees s s' (InChain s.dataArea p) := by
  rw [freeIndirectChain]
  by_cases hp0 : p = 0
  · exact ⟨s, if_pos hp0, Frees.refl s _⟩
  rw [if_neg hp0]
  refine freeIndex_frees start stop ⟨hp0, .inl rfl⟩ fun t ht i hi => ?_
  obtain ⟨t', ht', hfrees⟩ := freePointer_frees (s := t) hp hp0 hi
  rw [ht] at hfrees
  exact ⟨t', ht', hfrees.mono fun b hb => ⟨hb.1, .inr ⟨i, hb.2⟩⟩⟩

def InDoubleChain (mem : Memory) (p b : Nat) : Prop :=
  b ≠ 0 ∧ (b = p ∨ ∃ i, InChain mem (entryOf mem p i) b)

theorem freeDoubleIndirectChain_frees (hp : p < ramfsMaxBlocks)
    (hmiddle : ∀ i, entryOf s.dataArea p i < ramfsMaxBlocks) (start stop : Nat) :
    ∃ s', s.freeDoubleIndirectChain p start stop = some s' ∧ Frees s s' (InDoubleChain s.dataArea p) := by
  rw [freeDoubleIndirectChain]
  by_cases hp0 : p = 0
  · exact ⟨s, if_pos hp0, Frees.refl s _⟩
  rw [if_neg hp0]
  refine freeIndex_frees _ _ ⟨hp0, .inl rfl⟩ fun t ht i hi => ?_
  rw [freeChainAt, readU32_entry hp hp0 hi, bind_some, ht]
  dsimp only
  generalize (if i = _ then start % indirectBlocksPerBlock else 0) = localStart
  generalize (if i = _ then stop % indirectBlocksPerBlock else _) = localEnd
  split
  · obtain ⟨t', ht', hfrees⟩ := freeIndirectChain_frees (s := t) (hmiddle i) _ _
    rw [ht] at hfrees
    exact ⟨t', ht', hfrees.mono fun b hb => ⟨hb.1, .inr ⟨i, hb⟩⟩⟩
  · exact ⟨t, rfl, Frees.refl t _⟩

/-- Blocks of `id` have been freed together with the pointers to them, and the blocks of the file below
number `first` are still there. -/
structure Pruned (s s' : RamFsData) (id first : Nat) : Prop extends Same s s' id where
  dataArea : s'.dataArea = s.dataArea
  pointer : ∀ q, s'.pointer id q = s.pointer id q ∨ s'.pointer id q = 0
  low : ∀ idx < first, s'.pointer id (leafRef idx) = s.pointer id (leafRef idx)
  back : ∀ b, s'.Marked b → s.Marked b
  lost : ∀ b, s.Marked b → s'.Marked b ∨ b ≠ 0 ∧ ∃ q, s.pointer id q = b ∧ s'.pointer id q = 0

variable {first lastBlock start stop : Nat}

theorem Pruned.refl (s : RamFsData) (id first : Nat) : Pruned s s id first :=
  ⟨.refl s id, rfl, fun _ => .inl rfl, fun _ _ => rfl, fun _ h => h, fun _ h => .inl h⟩

theorem Pruned.zero (h : Pruned s s' id first) (h0 : s.pointer id q = 0) : s'.pointer id q = 0 := by
  rcases h.pointer q with hsame | hzero
  · exact hsame.trans h0
  · exact hzero

theorem Pruned.trans (h : Pruned s s₁ id first) (h' : Pruned s₁ s' id first) : Pruned s s' id first where
  toSame := h.toSame.trans h'.toSame
  dataArea := h'.dataArea.trans h.dataArea
  pointer q := by
    rcases h'.pointer q with hsame | hzero
    · rw [hsame]
      exact h.pointer q
    · exact .inr hzero
  low idx hidx := (h'.low idx hidx).trans (h.low idx hidx)
  back b hb := h.back b (h'.back b hb)
  lost b hb := by
    rcases h.lost b hb with hmid | ⟨h0, q, hq, hzero⟩
    · rcases h'.lost b hmid with hlast | ⟨h0, q, hq, hzero⟩
      · exact .inl hlast
      · refine .inr ⟨h0, q, ?_, hzero⟩
        rcases h.pointer q with hsame | hgone
        · exact hsame.symm.trans hq
        · exact absurd (hq.symm.trans hgone) h0
    · exact .inr ⟨h0, q, hq, h'.zero hzero⟩

theorem Pruned.pointer_other (h : Pruned s s' id first) (hm : m ≠ id) (q : Ref) :
    s'.pointer m q = s.pointer m q := by
  rw [RamFsData.pointer, RamFsData.pointer, h.others m hm, h.dataArea]

theorem Pruned.sound (h : Pruned s s' id first) (hs : s.Sound N) (hid : id ∈ N) : s'.Sound N := by
  have hlost : ∀ b, s.Marked b → s'.Marked b ∨ ∃ x, s.Points N x b ∧ ¬ s'.Points N x b := by
    intro b hb
    rcases h.lost b hb with hkept | ⟨h0, q, hq, hzero⟩
    · exact .inl hkept
    · refine .inr ⟨(id, q), ⟨hid, hq, h0, fun hmax => absurd hmax hb.ne_max⟩, fun hx => h0 ?_⟩
      exact hx.2.1.symm.trans hzero
  refine ⟨hs.owned.release ?_ hlost, ?_⟩
  · intro x b hx
    refine ⟨hx.1, ?_, hx.2.2⟩
    by_cases hxid : x.1 = id
    · have hx1 := hx.2.1
      rw [hxid] at hx1 ⊢
      rcases h.pointer x.2 with hsame | hzero
      · exact hsame.symm.trans hx1
      · exact absurd (hx1.symm.trans hzero) hx.2.2.1
    · rw [← h.pointer_other hxid, hx.2.1]
  · rcases h.lost 0 hs.zero with hkept | ⟨h0, -⟩
    · exact hkept
    · exact absurd rfl h0

theorem Frees.pruned (h : Frees s s₁ F) (id first : Nat) {f : RamFsNode → RamFsNode} {C : Ref → Prop}
    (hheader : (f (s.nodes id)).header = (s.nodes id).header)
    (hclear : ∀ q, C q → (f (s.nodes id)).pointer s.dataArea q = 0)
    (hkeep : ∀ q, ¬ C q → (f (s.nodes id)).pointer s.dataArea q = s.pointer id q)
    (hlow : ∀ idx < first, ¬ C (leafRef idx)) (hF : ∀ b, F b → b ≠ 0 ∧ ∃ q, C q ∧ s.pointer id q = b) :
    Pruned s (s₁.modifyNode id f) id first ∧ (∀ q, C q → (s₁.modifyNode id f).pointer id q = 0) ∧
      ∀ q, ¬ C q → (s₁.modifyNode id f).pointer id q = s.pointer id q := by
  have hself : (s₁.modifyNode id f).nodes id = f (s.nodes id) := by simp [modifyNode, h.nodes]
  have hpointer : ∀ q, (s₁.modifyNode id f).pointer id q = (f (s.nodes id)).pointer s.dataArea q := by
    intro q
    rw [RamFsData.pointer, hself, ← h.dataArea]
    rfl
  have hzero : ∀ q, C q → (s₁.modifyNode id f).pointer id q = 0 :=
    fun q hq => (hpointer q).trans (hclear q hq)
  have hsame : ∀ q, ¬ C q → (s₁.modifyNode id f).pointer id q = s.pointer id q :=
    fun q hq => (hpointer q).trans (hkeep q hq)
  refine ⟨⟨.modifyNode h.nodes h.aces h.rootNode hheader, h.dataArea, ?_, ?_, h.back, ?_⟩, hzero, hsame⟩
  · intro q
    by_cases hq : C q
    · exact .inr (hzero q hq)
    · exact .inl (hsame q hq)
  · intro idx hidx
    exact hsame _ (hlow idx hidx)
  · intro b hb
    rcases h.lost b hb with hkept | hfreed
    · exact .inl hkept
    · obtain ⟨h0, q, hq, hqb⟩ := hF b hfreed
      exact .inr ⟨h0, q, hqb, hzero q hq⟩

theorem freeDirect_pruned (s : RamFsData) (id first : Nat) (hstop : stop ≤ directBlocks) :
    Pruned s (s.freeDirect id first stop) id first ∧
      (∀ i, first ≤ i → i < stop → (s.freeDirect id first stop).pointer id (.direct i) = 0) ∧
      ∀ q, (∀ i, q ≠ .direct i) → (s.freeDirect id first stop).pointer id q = s.pointer id q := by
  have hpruned := (foldl_blockSetFree_frees (directIn (s.nodes id) first stop) s).pruned id first
    (C := fun q => ∃ i, q = .direct i ∧ first ≤ i ∧ i < stop)
    (f := fun n => { n with
      directBlocks := fun i => if first ≤ i ∧ i < stop then 0 else n.directBlocks i }) rfl ?_ ?_ ?_ ?_
  · refine ⟨hpruned.1, fun i hle hlt => hpruned.2.1 _ ⟨i, rfl, hle, hlt⟩, fun q hq => hpruned.2.2 q ?_⟩
    rintro ⟨i, hi, -⟩
    exact hq i hi
  · rintro q ⟨i, rfl, hle, hlt⟩
    simp [RamFsNode.pointer, hle, hlt]
  · intro q hq
    cases q with
    | direct i =>
      have hout : ¬ (first ≤ i ∧ i < stop) := fun hin => hq ⟨i, rfl, hin⟩
      simp [RamFsData.pointer, RamFsNode.pointer, hout]
    | _ => rfl
  · rintro idx hidx ⟨i, hi, hle, -⟩
    rw [leafRef] at hi
    split at hi
    · cases hi
      omega
    · split at hi <;> cases hi
  · intro b hb
    obtain ⟨hin, h0⟩ := mem_filter.mp hb
    obtain ⟨i, hi, rfl⟩ := mem_map.mp hin
    rw [mem_range'_1] at hi
    have hlt : i < directBlocks := by omega
    exact ⟨by simpa using h0, .direct i, ⟨i, rfl, hi.1, by omega⟩,
      by simp [RamFsData.pointer, RamFsNode.pointer, hlt]⟩

theorem pointer_lt (hs : s.Sound N) (hid : id ∈ N) (hr : r.isIndex = true) :
    s.pointer id r < ramfsMaxBlocks := by
  by_cases h0 : s.pointer id r = 0
  · rw [h0]
    exact hs.zero.1
  · exact (hs.index_marked hid hr h0).1

theorem leafRef_top (idx : Nat) :
    (directBlocks ≤ idx ∨ (leafRef idx).top ≠ .indirect) ∧ (indirectLimit ≤ idx ∨ (leafRef idx).top ≠ .double) := by
  have hlimit : directBlocks ≤ indirectLimit := by decide
  rw [leafRef]
  split_ifs with hdirect hindirect
  · simp [Ref.top]
  · exact ⟨.inl (by omega), by simp [Ref.top]⟩
  · exact ⟨.inl (by omega), .inl (by omega)⟩

theorem dropIndirect_pruned (hs : s.Sound N) (hid : id ∈ N) (hfirst : first ≤ directBlocks)
    (start stop : Nat) :
    ∃ s', (s.freeIndirectChain (s.nodes id).indirectBlock start stop).map (setIndirect id 0) = some s' ∧
      Pruned s s' id first ∧ (∀ q, q.top = .indirect → s'.pointer id q = 0) ∧
        ∀ q, q.top ≠ .indirect → s'.pointer id q = s.pointer id q := by
  have hlt : (s.nodes id).indirectBlock < ramfsMaxBlocks := pointer_lt hs hid (r := .indirect) rfl
  obtain ⟨s₁, hchain, hfrees⟩ := freeIndirectChain_frees (s := s) hlt start stop
  rw [hchain]
  refine ⟨_, rfl, hfrees.pruned id first rfl ?_ ?_ (fun idx hidx => ?_) ?_⟩
  · intro q hq
    cases q <;> simp_all [Ref.top, RamFsNode.pointer, entryOf_zero]
  · intro q hq
    cases q <;> simp_all [Ref.top, RamFsData.pointer, RamFsNode.pointer]
  · exact (leafRef_top idx).1.resolve_left (by omega)
  · rintro b ⟨h0, rfl | ⟨i, hi⟩⟩
    · exact ⟨h0, .indirect, rfl, rfl⟩
    · exact ⟨h0, .entry i, rfl, hi⟩

theorem dropDouble_pruned (hs : s.Sound N) (hid : id ∈ N) (hfirst : first ≤ indirectLimit)
    (start stop : Nat) :
    ∃ s', (s.freeDoubleIndirectChain (s.nodes id).doubleIndirectBlock start stop).map
        (setDoubleIndirect id 0) = some s' ∧ Pruned s s' id first ∧
      (∀ q, q.top = .double → s'.pointer id q = 0) ∧ ∀ q, q.top ≠ .double → s'.pointer id q = s.pointer id q := by
  have hlt : (s.nodes id).doubleIndirectBlock < ramfsMaxBlocks := pointer_lt hs hid (r := .double) rfl
  have hmiddle : ∀ i, entryOf s.dataArea (s.nodes id).doubleIndirectBlock i < ramfsMaxBlocks :=
    fun i => pointer_lt hs hid (r := .middle i) rfl
  obtain ⟨s₁, hchain, hfrees⟩ := freeDoubleIndirectChain_frees (s := s) hlt hmiddle start stop
  rw [hchain]
  refine ⟨_, rfl, hfrees.pruned id first rfl ?_ ?_ (fun idx hidx => ?_) ?_⟩
  · intro q hq
    cases q <;> simp_all [Ref.top, RamFsNode.pointer, entryOf_zero]
  · intro q hq
    cases q <;> simp_all [Ref.top, RamFsData.pointer, RamFsNode.pointer]
  · exact (leafRef_top idx).2.resolve_left (by omega)
  · rintro b ⟨h0, rfl | ⟨i, -, rfl | ⟨j, hj⟩⟩⟩
    · exact ⟨h0, .double, rfl, rfl⟩
    · exact ⟨h0, .middle i, rfl, rfl⟩
    · exact ⟨h0, .leaf i j, rfl, hj⟩

def IndexGoes (node : RamFsNode) (first : Nat) : Prop :=
  (first < indirectLimit → node.indirectBlock ≠ 0 → first ≤ directBlocks) ∧
    (indirectLimit ≤ first → node.doubleIndirectBlock ≠ 0 → first = indirectLimit)

theorem Pruned.indexGoes (h : Pruned s s' id first) (hgoes : IndexGoes (s.nodes id) first) :
    IndexGoes (s'.nodes id) first :=
  ⟨fun hlt hne => hgoes.1 hlt fun h0 => hne (h.zero (q := .indirect) h0),
    fun hle hne => hgoes.2 hle fun h0 => hne (h.zero (q := .double) h0)⟩

section

variable (hs : s.Sound N) (hid : id ∈ N) (hgoes : IndexGoes (s.nodes id) first)

include hs hid hgoes

theorem shrinkIndirect_pruned (lastBlock : Nat) :
    ∃ s', s.shrinkIndirect id first lastBlock = some s' ∧ Pruned s s' id first ∧
      (first < indirectLimit → ∀ i, s'.pointer id (.entry i) = 0) := by
  by_cases hcond : first < indirectLimit ∧ (s.nodes id).indirectBlock ≠ 0
  · have hfirst := hgoes.1 hcond.1 hcond.2
    obtain ⟨s', hdrop, hpruned, hzero, -⟩ := dropIndirect_pruned hs hid hfirst 0
      (min (lastBlock - directBlocks) indirectBlocksPerBlock)
    refine ⟨s', ?_, hpruned, fun _ i => hzero _ rfl⟩
    simp only [shrinkIndirect, if_pos hcond, Nat.sub_eq_zero_of_le hfirst, if_true]
    exact hdrop
  · refine ⟨s, by simp only [shrinkIndirect, if_neg hcond], Pruned.refl s id first, fun hlt i => ?_⟩
    have h0 : (s.nodes id).indirectBlock = 0 := by
      by_contra hne
      exact hcond ⟨hlt, hne⟩
    simp [RamFsData.pointer, RamFsNode.pointer, h0, entryOf_zero]

theorem shrinkDouble_pruned (lastBlock : Nat) :
    ∃ s', s.shrinkDouble id first lastBlock = some s' ∧ Pruned s s' id first ∧
      (indirectLimit ≤ first → ∀ i j, s'.pointer id (.leaf i j) = 0) := by
  by_cases hcond : indirectLimit ≤ first ∧ (s.nodes id).doubleIndirectBlock ≠ 0
  · have hfirst := hgoes.2 hcond.1 hcond.2
    obtain ⟨s', hdrop, hpruned, hzero, -⟩ := dropDouble_pruned hs hid hfirst.le 0 (lastBlock - indirectLimit)
    refine ⟨s', ?_, hpruned, fun _ i j => hzero _ rfl⟩
    simp only [shrinkDouble, if_pos hcond, Nat.sub_eq_zero_of_le hfirst.le, if_true]
    exact hdrop
  · refine ⟨s, by simp only [shrinkDouble, if_neg hcond], Pruned.refl s id first, fun hle i j => ?_⟩
    have h0 : (s.nodes id).doubleIndirectBlock = 0 := by
      by_contra hne
      exact hcond ⟨hle, hne⟩
    simp [RamFsData.pointer, RamFsNode.pointer, h0, entryOf_zero]

theorem freeBlocks_pruned (lastBlock : Nat) :
    ∃ s', ((s.freeDirect id first (min lastBlock directBlocks)).shrinkIndirect id first lastBlock).bind
        (fun s => s.shrinkDouble id first lastBlock) = some s' ∧ Pruned s s' id first ∧
      (∀ i, first ≤ i → i < lastBlock → i < directBlocks → s'.pointer id (.direct i) = 0) ∧
      (first < indirectLimit → ∀ i, s'.pointer id (.entry i) = 0) ∧
      (indirectLimit ≤ first → ∀ i j, s'.pointer id (.leaf i j) = 0) := by
  obtain ⟨hdirect, hcleared, -⟩ := freeDirect_pruned s id first (Nat.min_le_right lastBlock directBlocks)
  obtain ⟨s₁, hind, hindirect, hentry⟩ :=
    shrinkIndirect_pruned (hdirect.sound hs hid) hid (hdirect.indexGoes hgoes) lastBlock
  have hboth := hdirect.trans hindirect
  obtain ⟨s', hdbl, hdouble, hleaf⟩ :=
    shrinkDouble_pruned (hboth.sound hs hid) hid (hboth.indexGoes hgoes) lastBlock
  refine ⟨s', by rw [hind]; exact hdbl, hboth.trans hdouble, ?_, ?_, hleaf⟩
  · intro i hle hlt hi
    exact hdouble.zero (hindirect.zero (hcleared i hle (by omega)))
  · intro hlt i
    exact hdouble.zero (hentry hlt i)

end

theorem releaseAll_pruned (hs : s.Sound N) (hid : id ∈ N) :
    ∃ s', s.releaseAll id = some s' ∧ Pruned s s' id 0 ∧ ∀ q, s'.pointer id q = 0 := by
  obtain ⟨hdirect, hcleared, hindex⟩ := freeDirect_pruned s id 0 (Nat.le_refl directBlocks)
  obtain ⟨s₁, hind, hindirect, hizero, hikept⟩ := dropIndirect_pruned (hdirect.sound hs hid) hid
    (Nat.zero_le _) 0 indirectBlocksPerBlock
  have hboth := hdirect.trans hindirect
  obtain ⟨s', hdbl, hlast, hdzero, -⟩ := dropDouble_pruned (hboth.sound hs hid) hid
    (Nat.zero_le _) 0 (indirectBlocksPerBlock * indirectBlocksPerBlock)
  refine ⟨s', ?_, hboth.trans hlast, ?_⟩
  · obtain ⟨t, ht, rfl⟩ := map_eq_some_iff.mp hind
    have hindexEq : ((s.freeDirect id 0 directBlocks).nodes id).indirectBlock = (s.nodes id).indirectBlock :=
      hindex .indirect (by simp)
    have hdoubleEq : ((setIndirect id 0 t).nodes id).doubleIndirectBlock = (s.nodes id).doubleIndirectBlock :=
      (hikept .double (by decide)).trans (hindex .double (by simp))
    rw [hindexEq] at ht
    rw [hdoubleEq] at hdbl
    rw [releaseAll, ht]
    exact hdbl
  · intro q
    cases q with
    | direct i =>
      by_cases hi : i < directBlocks
      · exact hlast.zero (hindirect.zero (hcleared i (Nat.zero_le i) hi))
      · simp [RamFsData.pointer, RamFsNode.pointer, hi]
    | indirect | entry i => exact hlast.zero (hizero _ rfl)
    | double | middle i | leaf i j => exact hdzero _ rfl

variable {newSize idx : Nat}

theorem clearLastBlock_cases (hs : s.Sound N) (hid : id ∈ N)
    (hidx : (newSize - 1) / ramfsBlockSize < doubleIndirectLimit)
    (h : s.clearLastBlock id newSize = some s') :
    ∃ s₁, Grown s s₁ N id (· ∈ path ((newSize - 1) / ramfsBlockSize)) ∧
      (s' = s₁ ∧ s₁.NoFree ∧ s₁.pointer id (leafRef ((newSize - 1) / ramfsBlockSize)) = 0 ∨
        ∃ b, b ≠ 0 ∧ s₁.Marked b ∧ s₁.pointer id (leafRef ((newSize - 1) / ramfsBlockSize)) = b ∧
          s' = s₁.zeroBytes (b * ramfsBlockSize + (newSize - 1) % ramfsBlockSize + 1)
            ((b + 1) * ramfsBlockSize)) := by
  obtain ⟨⟨found, s₁⟩, hget, hgrown, hfound⟩ := getOrAllocBlock_answered hs hid hidx
  rw [clearLastBlock, hget, bind_some] at h
  cases found with
  | none =>
    cases h
    exact ⟨s₁, hgrown, .inl ⟨rfl, hfound⟩⟩
  | some b =>
    obtain ⟨hb0, hb⟩ := hfound
    simp only [if_neg hb0, zeroTail, ite_none_right_eq_some, some.injEq] at h
    obtain ⟨hle, rfl⟩ := h
    have hmark : s₁.Marked b := hgrown.sound.marked_of_inside hid hb hb0 (by omega)
    have hlt := hmark.1
    have hstop : min ((b + 1) * ramfsBlockSize) dataLen = (b + 1) * ramfsBlockSize := by
      simp only [dataLen, ramfsBlockSize, ramfsMaxBlocks] at *
      omega
    exact ⟨s₁, hgrown, .inr ⟨b, hb0, hmark, hb, by rw [hstop]⟩⟩

theorem blockCount_eq (h0 : 0 < newSize) : blockCount newSize + 1 = (newSize - 1) / ramfsBlockSize + 2 := by
  simp only [blockCount, ramfsBlockSize]
  omega

theorem mem_path (idx : Nat) :
    (.indirect ∈ path idx → directBlocks ≤ idx) ∧ (.double ∈ path idx → indirectLimit ≤ idx) := by
  have hlimit : directBlocks ≤ indirectLimit := by decide
  rw [path, leafRef]
  split_ifs with hdirect hindirect
  · simp
  · simp
    omega
  · exact ⟨fun _ => by omega, fun _ => by omega⟩

/-- Shrinking to `newSize` leaves no pointer to an index block that it frees. From the block of the last
byte on, `last`, it frees the blocks from `last + 2` on, and an index block on every occasion; the pointer to
it is cleared only when all that it leads to is freed. The request for the block of the last byte brings an
index block back unless no block is free. -/
def KeepsIndex (s : RamFsData) (id newSize : Nat) : Prop :=
  let last := (newSize - 1) / ramfsBlockSize
  (directBlocks < last + 2 → last + 2 < indirectLimit →
      (s.nodes id).indirectBlock = 0 ∧ (last < directBlocks ∨ s.NoFree)) ∧
    (indirectLimit < last + 2 → (s.nodes id).doubleIndirectBlock = 0 ∧ (last < indirectLimit ∨ s.NoFree))

instance (s : RamFsData) (id newSize : Nat) : Decidable (s.KeepsIndex id newSize) :=
  inferInstanceAs (Decidable (_ ∧ _))

theorem Grown.stays_empty (h : Grown s s' N id (· ∈ path idx)) (hid : id ∈ N)
    (h0 : s.pointer id q = 0) (hno : q ∉ path idx ∨ s.NoFree) : s'.pointer id q = 0 := by
  by_contra hne
  have hchanged : s'.pointer id q ≠ s.pointer id q := by rwa [h0]
  obtain ⟨-, hpath, hfree, hmark, -⟩ := h.changed id hid q hchanged
  rcases hno with hout | hfull
  · exact hout hpath
  · exact hfree ⟨hmark.1, hfull _ hmark.1⟩

theorem Grown.indexGoes (h : Grown s s' N id (· ∈ path ((newSize - 1) / ramfsBlockSize))) (hid : id ∈ N)
    (hk : s.KeepsIndex id newSize) : IndexGoes (s'.nodes id) ((newSize - 1) / ramfsBlockSize + 2) := by
  constructor
  · intro hlt hne
    by_contra hle
    obtain ⟨h0, hno⟩ := hk.1 (by omega) hlt
    refine hne (h.stays_empty hid (q := .indirect) h0 (hno.imp_left fun hlast hmem => ?_))
    have hge := (mem_path _).1 hmem
    omega
  · intro hle hne
    by_contra hneq
    obtain ⟨h0, hno⟩ := hk.2 (by omega)
    refine hne (h.stays_empty hid (q := .double) h0 (hno.imp_left fun hlast hmem => ?_))
    have hge := (mem_path _).2 hmem
    omega

end RamFsData

end AntX.Ramfs
