import AntX.Mm.Slab

/-! Runs of a cache: clients allocate, free what they hold and write inside what they hold. -/

namespace AntX.Mm

open Lib Lib.Links Function Finset KmemCache

namespace KmemCache

variable {c : KmemCache} {slabs objs : List Nat} {lists : SlabList → List Nat} {w : SlabList} {s k o : Nat}

theorem SlabsOk.recount (h : SlabsOk c slabs lists) (allocs frees hits misses : Nat) :
    SlabsOk { c with totalAllocs := allocs, totalFrees := frees, cacheHits := hits,
                     cacheMisses := misses } slabs lists :=
  ⟨⟨h.layout.size_pos, h.layout.count_pos, h.layout.fits⟩, h.chains, h.listed,
    fun w s hs => (h.ok w s hs).congr rfl rfl rfl, h.apart, h.count⟩

theorem Holds.recount (h : Holds c slabs objs) (allocs frees hits misses : Nat) :
    Holds { c with totalAllocs := allocs, totalFrees := frees, cacheHits := hits,
                   cacheMisses := misses } slabs objs := ⟨h.nodup, h.mem_iff⟩

theorem joined_holds (h : SlabsOk c slabs lists) (hh : Holds c slabs objs) {p : Nat}
    (hp : ∀ t ∈ slabs, Apart p t) : Holds (joined c p) (p :: slabs) objs := by
  have hconf := opened_confined h.layout p
  have hempty : (joined c p).usedBits p = ∅ := opened_usedBits c p
  have hold : ∀ t ∈ slabs, (joined c p).usedBits t = c.usedBits t := by
    intro t ht
    obtain ⟨w, hw⟩ := (h.listed t).mp ht
    have hne : t ≠ p := by
      rintro rfl
      exact not_apart_self t (hp t ht)
    exact hconf.usedBits h.layout (hp t ht) hne (h.ok w t hw)
  refine ⟨hh.nodup, fun o => ?_⟩
  rw [hh.mem_iff]
  constructor
  · rintro ⟨t, ht, j, hj, rfl⟩
    exact ⟨t, List.mem_cons_of_mem _ ht, j, by rwa [hold t ht], rfl⟩
  · rintro ⟨t, ht, j, hj, rfl⟩
    rcases List.mem_cons.mp ht with rfl | ht
    · rw [hempty] at hj
      exact absurd hj (notMem_empty j)
    · rw [hold t ht] at hj
      exact ⟨t, ht, j, hj, rfl⟩

def slabTaken (c : KmemCache) (page : Option Nat) : List Nat :=
  match c.heads .slabsPartial, c.heads .slabsFree with
  | none, none => (c.newSlab page).2.toList
  | _, _ => []

theorem mem_of_head (h : SlabsOk c slabs lists) (hs : c.heads w = some s) : s ∈ lists w := by
  rw [(h.chains.chain w).head_eq] at hs
  exact List.mem_of_head? hs

theorem allocate_holds (h : SlabsOk c slabs lists) (hh : Holds c slabs objs) {page : Option Nat}
    (hpage : ∀ p, page = some p → ∀ t ∈ slabs, Apart p t) :
    ∃ lists', SlabsOk (c.allocate page).1 (c.slabTaken page ++ slabs) lists' ∧
      Holds (c.allocate page).1 (c.slabTaken page ++ slabs) ((c.allocate page).2.toList ++ objs) := by
  have h' := h.recount (c.totalAllocs + 1) c.totalFrees (c.cacheHits + 1) c.cacheMisses
  have hh' := hh.recount (c.totalAllocs + 1) c.totalFrees (c.cacheHits + 1) c.cacheMisses
  unfold allocate slabTaken
  cases hpart : c.heads .slabsPartial with
  | some s =>
    obtain ⟨c', o, lists', heq, hs', ho'⟩ :=
      allocFromSlab_holds h' hh' (mem_of_head h hpart) (.inl rfl)
    simp only [hpart, heq]
    exact ⟨lists', hs', ho'⟩
  | none =>
    cases hfree : c.heads .slabsFree with
    | some s =>
      obtain ⟨c', o, lists', heq, hs', ho'⟩ :=
        allocFromSlab_holds h' hh' (mem_of_head h hfree) (.inr ⟨rfl, hpart⟩)
      simp only [hpart, hfree, heq]
      exact ⟨lists', hs', ho'⟩
    | none =>
      have h' := h.recount (c.totalAllocs + 1) c.totalFrees c.cacheHits (c.cacheMisses + 1)
      have hh' := hh.recount (c.totalAllocs + 1) c.totalFrees c.cacheHits (c.cacheMisses + 1)
      cases page with
      | none =>
        simp only [hpart, hfree, newSlab]
        exact ⟨lists, h', hh'⟩
      | some p =>
        have hp := hpage p rfl
        obtain ⟨c', o, lists', heq, hs', ho'⟩ :=
          allocFromSlab_holds (joined_slabsOk h' hp) (joined_holds h' hh' hp)
            (Chains.mem_cons_iff.mpr (.inl ⟨rfl, rfl⟩)) (.inr ⟨rfl, hpart⟩)
        simp only [hpart, hfree, newSlab_eq h.layout, newSlab_eq h'.layout, linkNew_opened, heq]
        exact ⟨lists', hs', ho'⟩

def shrunk (c : KmemCache) (s k : Nat) (full : Bool) : KmemCache :=
  { c with byte := clearBitAt c.byte (c.bitmapPtr s) k }.setHeader s
    { c.header s with activeCount := ((c.header s).activeCount + (2 ^ 32 - 1)) % 2 ^ 32,
                      isFull := full }

theorem releaseObject_eq (h : SlabsOk c slabs lists) (hs : s ∈ lists w) (hk : k < c.objectsPerSlab) :
    c.releaseObject (s + slabHeaderSize + k * c.objectSize) =
      if w = .slabsFull then
        ((shrunk c s k false).listRemove .slabsFull s).listPushFront .slabsPartial s
      else if ((c.header s).activeCount + (2 ^ 32 - 1)) % 2 ^ 32 = 0 then
        ((shrunk c s k false).listRemove .slabsPartial s).listPushFront .slabsFree s
      else shrunk c s k false := by
  have hok := h.ok w s hs
  have hpos := h.layout.size_pos
  have hfind := h.findObjectSlab_eq (h.mem_slabs hs)
    (show s + slabHeaderSize ≤ s + slabHeaderSize + k * c.objectSize ∧ _ by
      have := record_end hk c.objectSize
      omega)
  have hidx : (s + slabHeaderSize + k * c.objectSize - (c.header s).startAddr) / c.objectSize =
      k := by
    rw [hok.start, Nat.add_sub_cancel_left, Nat.mul_div_cancel _ hpos]
  unfold releaseObject
  simp only [hfind, hidx]
  rw [if_neg (show ¬k ≥ (c.header s).objCount by rw [hok.count]; omega)]
  rw [show (c.clearBit s k).header s = c.header s from rfl]
  by_cases hw : w = .slabsFull
  · rw [if_pos (hok.full.mpr hw), if_pos hw, setHeader_setHeader]
    rfl
  · have hnotFull : (c.header s).isFull = false := by
      rw [← Bool.not_eq_true, hok.full]
      exact hw
    have hset : (c.clearBit s k).setHeader s { c.header s with
        activeCount := ((c.header s).activeCount + (2 ^ 32 - 1)) % 2 ^ 32 } =
          shrunk c s k false := by
      rw [← hnotFull]
      rfl
    rw [hset, if_neg (by simp [hnotFull]), if_neg hw]

theorem holds_erase {c' : KmemCache} (h : SlabsOk c slabs lists) (hh : Holds c slabs objs)
    (hs : s ∈ slabs) (hk : k ∈ c.usedBits s) (hconf : Confined c c' s)
    (hu : c'.usedBits s = (c.usedBits s).erase k) :
    Holds c' slabs (objs.erase (s + slabHeaderSize + k * c.objectSize)) := by
  refine ⟨hh.nodup.erase _, fun o => ?_⟩
  rw [hh.nodup.mem_erase_iff, hh.mem_iff, hconf.objectSize]
  constructor
  · rintro ⟨hne, t, ht, j, hj, rfl⟩
    refine ⟨t, ht, j, ?_, rfl⟩
    by_cases hts : t = s
    · subst hts
      rw [hu]
      refine mem_erase.mpr ⟨?_, hj⟩
      rintro rfl
      exact hne rfl
    · rwa [h.usedBits_other hs hconf ht hts]
  · rintro ⟨t, ht, j, hj, rfl⟩
    by_cases hts : t = s
    · subst hts
      rw [hu] at hj
      have hjk := mem_erase.mp hj
      refine ⟨fun he => hjk.1 ?_, t, ht, j, hjk.2, rfl⟩
      exact (h.object_inj ht ht (h.used_lt ht hjk.2) (h.used_lt ht hk) he).2
    · rw [h.usedBits_other hs hconf ht hts] at hj
      refine ⟨fun he => hts ?_, t, ht, j, hj, rfl⟩
      exact (h.object_inj ht hs (h.used_lt ht hj) (h.used_lt hs hk) he).1

theorem SlabOk.active_pos (hok : SlabOk c w s) (hk : k ∈ c.usedBits s) : 0 < (c.header s).activeCount := by
  rw [hok.active]
  exact card_pos.mpr ⟨k, hk⟩

theorem SlabOk.count_down (hok : SlabOk c w s) (hl : c.Layout) (hk : k ∈ c.usedBits s) :
    ((c.header s).activeCount + (2 ^ 32 - 1)) % 2 ^ 32 = (c.header s).activeCount - 1 := by
  have hle := hok.active_le
  have hactive := hok.active_pos hk
  have hsize := Nat.le_mul_of_pos_right c.objectsPerSlab hl.size_pos
  have hfits := hl.fits
  simp only [slabDefaultSize] at hfits
  omega

theorem SlabOk.shrink_one (hok : SlabOk c w s) (hl : c.Layout) (hk : k ∈ c.usedBits s) (w' : SlabList)
    (hw' : w' ≠ .slabsFull) (hlevel : Level w' ((c.header s).activeCount - 1) c.objectsPerSlab) :
    Confined c (shrunk c s k false) s ∧ (shrunk c s k false).usedBits s = (c.usedBits s).erase k ∧
      SlabOk (shrunk c s k false) w' s := by
  have hbytes : ∀ x, x < s ∨ s + slabDefaultSize ≤ x →
      clearBitAt c.byte (c.bitmapPtr s) k x = c.byte x := fun x hx =>
    update_of_ne (hok.bitmap_inside hl (hok.used k hk) hx) _ _
  have hcard : (c.header s).activeCount - 1 = ((c.usedBits s).erase k).card := by
    rw [card_erase_of_mem hk, hok.active]
  unfold shrunk
  rw [hok.count_down hl hk]
  exact hok.rewrite w' false hbytes setBits_clearBitAt
    (fun j hj => hok.used j (mem_of_mem_erase hj)) hcard (by simp [hw']) hlevel

theorem releaseObject_spec (h : SlabsOk c slabs lists) (hmem : s ∈ slabs) (hk : k ∈ c.usedBits s) :
    ∃ c' lists', c.releaseObject (s + slabHeaderSize + k * c.objectSize) = c' ∧
      SlabsOk c' slabs lists' ∧ Confined c c' s ∧ c'.usedBits s = (c.usedBits s).erase k := by
  obtain ⟨w, hs⟩ := (h.listed s).mp hmem
  have hok := h.ok w s hs
  have hl := h.layout
  have hlevel := hok.level
  have hactive := hok.active_pos hk
  rw [releaseObject_eq h hs (hok.used k hk), hok.count_down hl hk]
  by_cases hfull : w = .slabsFull
  · subst hfull
    have hall : (c.header s).activeCount = c.objectsPerSlab := hlevel
    obtain ⟨hconf, hu, hok'⟩ := hok.shrink_one hl hk .slabsPartial (by decide) ⟨by omega, by omega⟩
    exact ⟨_, _, rfl, h.move_spec hs hconf rfl rfl hu hok'⟩
  · have hpart : w = .slabsPartial := by
      cases w with
      | slabsFull => exact absurd rfl hfull
      | slabsPartial => rfl
      | slabsFree =>
        simp only [Level] at hlevel
        omega
    subst hpart
    by_cases hzero : (c.header s).activeCount - 1 = 0
    · obtain ⟨hconf, hu, hok'⟩ := hok.shrink_one hl hk .slabsFree (by decide) hzero
      rw [if_pos hzero]
      exact ⟨_, _, rfl, h.move_spec hs hconf rfl rfl hu hok'⟩
    · obtain ⟨hconf, hu, hok'⟩ := hok.shrink_one hl hk .slabsPartial (by decide)
        ⟨by have := hlevel.1; omega, by omega⟩
      rw [if_neg hzero]
      exact ⟨_, _, rfl, h.stay hs hconf rfl rfl hok', hconf, hu⟩

theorem deallocate_holds (h : SlabsOk c slabs lists) (hh : Holds c slabs objs) (ho : o ∈ objs) :
    ∃ lists', SlabsOk (c.deallocate o) slabs lists' ∧ Holds (c.deallocate o) slabs (objs.erase o) := by
  have h' := h.recount c.totalAllocs (c.totalFrees + 1) c.cacheHits c.cacheMisses
  have hh' := hh.recount c.totalAllocs (c.totalFrees + 1) c.cacheHits c.cacheMisses
  obtain ⟨s, hmem, k, hk, rfl⟩ := (hh'.mem_iff o).mp ho
  obtain ⟨c', lists', heq, hslabs, hconf, hu⟩ := releaseObject_spec h' hmem hk
  have hne : s + slabHeaderSize + k * c.objectSize ≠ 0 := by simp [slabHeaderSize]
  rw [deallocate, if_neg hne, heq]
  exact ⟨lists', hslabs, holds_erase h' hh' hmem hk hconf hu⟩

def clientStore (c : KmemCache) (addr : Nat) (value : BitVec 8) (junk : SlabMemory) : KmemCache :=
  let hit (t : Nat) : Bool := decide (t ≤ addr ∧ addr < t + slabHeaderSize)
  { c with
    header := fun t => if hit t then junk.header t else c.header t
    links :=
      { next := fun t => if hit t then junk.links.next t else c.links.next t
        prev := fun t => if hit t then junk.links.prev t else c.links.prev t }
    byte := update c.byte addr value }

theorem SlabsOk.object_clear (h : SlabsOk c slabs lists) (hs : s ∈ slabs)
    (hk : k < c.objectsPerSlab) {t : Nat} (ht : t ∈ slabs) :
    (s + slabHeaderSize + k * c.objectSize + c.objectSize ≤ t ∨
        t + slabHeaderSize ≤ s + slabHeaderSize + k * c.objectSize) ∧
      (s + slabHeaderSize + k * c.objectSize + c.objectSize ≤
          t + slabHeaderSize + c.objectsPerSlab * c.objectSize ∨
        t + slabHeaderSize + c.objectsPerSlab * c.objectSize + bytesFor c.objectsPerSlab ≤
          s + slabHeaderSize + k * c.objectSize) := by
  have hle := record_end hk c.objectSize
  have hfits := h.layout.fits
  by_cases hne : s = t
  · omega
  · rcases h.apart s hs t ht hne with hap | hap <;> omega

theorem SlabsOk.objects_apart (h : SlabsOk c slabs lists) (hs : s ∈ slabs) {t : Nat}
    (ht : t ∈ slabs) {j : Nat} (hk : k < c.objectsPerSlab) (hj : j < c.objectsPerSlab)
    (hne : s + slabHeaderSize + k * c.objectSize ≠ t + slabHeaderSize + j * c.objectSize) :
    s + slabHeaderSize + k * c.objectSize + c.objectSize ≤ t + slabHeaderSize + j * c.objectSize ∨
      t + slabHeaderSize + j * c.objectSize + c.objectSize ≤ s + slabHeaderSize + k * c.objectSize := by
  have hk' := record_end hk c.objectSize
  have hj' := record_end hj c.objectSize
  have hfits := h.layout.fits
  by_cases hst : s = t
  · subst hst
    have hkj : k ≠ j := by
      rintro rfl
      exact hne rfl
    have := records_apart hkj c.objectSize
    omega
  · rcases h.apart s hs t ht hst with hap | hap <;> omega

theorem clientStore_holds (h : SlabsOk c slabs lists) (hh : Holds c slabs objs) (ho : o ∈ objs)
    {addr : Nat} (ha : o ≤ addr ∧ addr < o + c.objectSize) (value : BitVec 8) (junk : SlabMemory) :
    SlabsOk (c.clientStore addr value junk) slabs lists ∧
      Holds (c.clientStore addr value junk) slabs objs := by
  obtain ⟨s, hs, k, hk, rfl⟩ := (hh.mem_iff o).mp ho
  have hclear {t : Nat} (ht : t ∈ slabs) := h.object_clear hs (h.used_lt hs hk) ht
  have hmiss : ∀ t ∈ slabs, ¬(t ≤ addr ∧ addr < t + slabHeaderSize) := by
    intro t ht
    have := (hclear ht).1
    omega
  have hheader : ∀ t ∈ slabs, (c.clientStore addr value junk).header t = c.header t := by
    intro t ht
    simp only [clientStore, hmiss t ht, decide_false, Bool.false_eq_true, if_false]
  have hused : ∀ t ∈ slabs, (c.clientStore addr value junk).usedBits t = c.usedBits t := by
    intro t ht
    obtain ⟨w, hw⟩ := (h.listed t).mp ht
    have hok := h.ok w t hw
    rw [usedBits, usedBits, bitmapPtr, bitmapPtr, hheader t ht]
    refine setBits_congr fun i hi => update_of_ne ?_ _ _
    have hout := (hclear ht).2
    rw [hok.count] at hi
    rw [hok.start, hok.count]
    change t + slabHeaderSize + c.objectsPerSlab * c.objectSize + i ≠ addr
    omega
  have hlinks : Chains (c.clientStore addr value junk).links c.heads lists := by
    refine h.chains.frame ?_ ?_
    all_goals
      intro w y hy
      simp only [clientStore, hmiss y (h.mem_slabs hy), decide_false, Bool.false_eq_true, if_false]
  refine ⟨⟨⟨h.layout.size_pos, h.layout.count_pos, h.layout.fits⟩, hlinks, h.listed,
    fun w t ht => (h.ok w t ht).congr (hheader t (h.mem_slabs ht)) rfl
      (hused t (h.mem_slabs ht)), h.apart, h.count⟩, hh.nodup, fun o => ?_⟩
  rw [hh.mem_iff]
  constructor
  · rintro ⟨t, ht, j, hj, rfl⟩
    exact ⟨t, ht, j, by rwa [hused t ht], rfl⟩
  · rintro ⟨t, ht, j, hj, rfl⟩
    rw [hused t ht] at hj
    exact ⟨t, ht, j, hj, rfl⟩

end KmemCache

inductive SlabOp where
  | allocate (page : Option Nat)
  | deallocate (obj : Nat)
  | clientWrite (obj addr : Nat) (value : BitVec 8) (junk : SlabMemory)

structure SlabSys where
  cache : KmemCache
  slabs : List Nat
  objects : List Nat

def slabStep (sys : SlabSys) : SlabOp → SlabSys
  | .allocate page =>
    let (cache, obj) := sys.cache.allocate page
    { cache := cache
      slabs := sys.cache.slabTaken page ++ sys.slabs
      objects := obj.toList ++ sys.objects }
  | .deallocate obj =>
    { sys with cache := sys.cache.deallocate obj, objects := sys.objects.erase obj }
  | .clientWrite _ addr value junk => { sys with cache := sys.cache.clientStore addr value junk }

def SlabOp.Allowed (sys : SlabSys) : SlabOp → Prop
  | .allocate none => True
  | .allocate (some page) => ∀ t ∈ sys.slabs, page + slabDefaultSize ≤ t ∨ t + slabDefaultSize ≤ page
  | .deallocate obj => obj ∈ sys.objects
  | .clientWrite obj addr _ _ =>
    obj ∈ sys.objects ∧ obj ≤ addr ∧ addr < obj + sys.cache.objectSize

instance SlabOp.Allowed.decidable (sys : SlabSys) : (op : SlabOp) → Decidable (op.Allowed sys)
  | .allocate none => isTrue trivial
  | .allocate (some _) => inferInstanceAs (Decidable (∀ t ∈ sys.slabs, _))
  | .deallocate _ => inferInstanceAs (Decidable (_ ∈ _))
  | .clientWrite .. => inferInstanceAs (Decidable (_ ∧ _))

def SlabInv (sys : SlabSys) : Prop :=
  ∃ lists, sys.cache.SlabsOk sys.slabs lists ∧ sys.cache.Holds sys.slabs sys.objects

theorem SlabInv.step {sys : SlabSys} (h : SlabInv sys) {op : SlabOp} (hop : op.Allowed sys) :
    SlabInv (slabStep sys op) := by
  obtain ⟨lists, hs, hh⟩ := h
  cases op with
  | allocate page =>
    refine allocate_holds hs hh (fun p hp => ?_)
    subst hp
    exact hop
  | deallocate obj => exact deallocate_holds hs hh hop
  | clientWrite obj addr value junk =>
    exact ⟨lists, clientStore_holds hs hh hop.1 hop.2 value junk⟩

theorem SlabInv.create {mem : SlabMemory} {size : Nat} {c : KmemCache}
    (h : KmemCache.create mem size = .ok c) : SlabInv ⟨c, [], []⟩ := by
  have hl := create_layout h
  have hempty : (∀ w, c.heads w = none) ∧ c.slabCount = 0 := by
    unfold KmemCache.create at h
    cases hn : normalizeObjectSize size with
    | none =>
      rw [hn] at h
      cases h
    | some n =>
      rw [hn] at h
      obtain rfl := Except.ok.inj h
      exact ⟨fun _ => rfl, rfl⟩
  refine ⟨fun _ => [], ⟨hl, Chains.empty hempty.1, by simp, by simp, by simp, hempty.2⟩,
    List.nodup_nil, by simp⟩

structure SlabSound (sys : SlabSys) : Prop where
  disjoint : sys.objects.Pairwise fun o o' =>
    o + sys.cache.objectSize ≤ o' ∨ o' + sys.cache.objectSize ≤ o
  inside : ∀ o ∈ sys.objects, ∃ s ∈ sys.slabs, (sys.cache.header s).startAddr ≤ o ∧ o + sys.cache.objectSize ≤
      (sys.cache.header s).startAddr + (sys.cache.header s).objCount * sys.cache.objectSize
  clear : ∀ o ∈ sys.objects, ∀ s ∈ sys.slabs, (o + sys.cache.objectSize ≤ s ∨ s + slabHeaderSize ≤ o) ∧
      (o + sys.cache.objectSize ≤ sys.cache.bitmapPtr s ∨
        sys.cache.bitmapPtr s + bytesFor (sys.cache.header s).objCount ≤ o)
  lists : ∃ lists : SlabList → List Nat,
    (∀ w, Chain sys.cache.links none (sys.cache.heads w) (lists w) ∧ (lists w).Nodup) ∧
    (∀ w, ∀ s ∈ lists w, s ∈ sys.slabs) ∧ (∀ s ∈ sys.slabs, ∃! w, s ∈ lists w) ∧
    (∀ s ∈ lists .slabsFull, (sys.cache.header s).activeCount = (sys.cache.header s).objCount) ∧
    (∀ s ∈ lists .slabsPartial, (sys.cache.header s).activeCount < (sys.cache.header s).objCount) ∧
    ∀ s ∈ lists .slabsFree, (sys.cache.header s).activeCount = 0
  active : ∀ s ∈ sys.slabs, (sys.cache.header s).activeCount =
    (setBits sys.cache.byte (sys.cache.bitmapPtr s) (sys.cache.header s).objCount).card

theorem SlabInv.sound {sys : SlabSys} (h : SlabInv sys) : SlabSound sys := by
  obtain ⟨lists, hs, hh⟩ := h
  have hplace {o : Nat} (ho : o ∈ sys.objects) := (hh.mem_iff o).mp ho
  constructor
  · refine hh.nodup.pairwise_of_forall_ne fun o ho o' ho' hne => ?_
    obtain ⟨s, hmem, k, hk, rfl⟩ := hplace ho
    obtain ⟨t, hmem', j, hj, rfl⟩ := hplace ho'
    exact hs.objects_apart hmem hmem' (hs.used_lt hmem hk) (hs.used_lt hmem' hj) hne
  · intro o ho
    obtain ⟨s, hmem, k, hk, rfl⟩ := hplace ho
    obtain ⟨w, hw⟩ := (hs.listed s).mp hmem
    have hok := hs.ok w s hw
    have hle := record_end (hok.used k hk) sys.cache.objectSize
    refine ⟨s, hmem, ?_⟩
    rw [hok.start, hok.count]
    omega
  · intro o ho t ht
    obtain ⟨s, hmem, k, hk, rfl⟩ := hplace ho
    obtain ⟨w, hw⟩ := (hs.listed t).mp ht
    have hok := hs.ok w t hw
    rw [hok.bitmapPtr_eq, hok.count]
    exact hs.object_clear hmem (hs.used_lt hmem hk) ht
  · refine ⟨lists, fun w => ⟨hs.chains.chain w, hs.chains.nodup w⟩,
      fun w s hw => hs.mem_slabs hw, fun s hmem => ?_, fun s hw => ?_, fun s hw => ?_,
      fun s hw => (hs.ok _ s hw).level⟩
    · obtain ⟨w, hw⟩ := (hs.listed s).mp hmem
      exact ⟨w, hw, fun w' hw' => hs.chains.apart _ _ _ hw' hw⟩
    · rw [(hs.ok _ s hw).count]
      exact (hs.ok _ s hw).level
    · rw [(hs.ok _ s hw).count]
      exact (hs.ok _ s hw).level.1
  · intro s hmem
    obtain ⟨w, hw⟩ := (hs.listed s).mp hmem
    exact (hs.ok w s hw).active

/-- Slab soundness: after any run of a new cache the objects, the slabs and the lists are
as promised. -/
theorem slab_run_sound {mem : SlabMemory} {size : Nat} {c : KmemCache}
    (hc : KmemCache.create mem size = .ok c) {ops : List SlabOp}
    (hops : Guarded slabStep (fun sys op => op.Allowed sys) ⟨c, [], []⟩ ops) :
    SlabSound (run slabStep ⟨c, [], []⟩ ops) :=
  (hops.run_invariant (SlabInv.create hc) (fun _ _ h hop => h.step hop)).sound

def SlabMemory.blank : SlabMemory :=
  ⟨fun _ => SlabHeader.default, ⟨fun _ => none, fun _ => none⟩, fun _ => 0xFF#8⟩

def slabHistory : List SlabOp :=
  [.allocate (some 4096), .allocate none, .allocate (some 8192),
    .clientWrite 6136 8135 7#8 SlabMemory.blank, .deallocate 8232, .deallocate 4136, .allocate none]

theorem slab_run_sound_two_slabs : ∃ c, KmemCache.create SlabMemory.blank 2000 = .ok c ∧
    (run slabStep ⟨c, [], []⟩ slabHistory).objects = [4136, 6136] ∧
    SlabSound (run slabStep ⟨c, [], []⟩ slabHistory) := by
  have hcreate : KmemCache.create SlabMemory.blank 2000 = .ok _ := rfl
  exact ⟨_, hcreate, by decide +kernel, slab_run_sound hcreate (by decide +kernel)⟩

end AntX.Mm
