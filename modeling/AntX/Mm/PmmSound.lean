import AntX.Mm.BuddyOps

/-! The calls of the page allocator as operations on a pool of pages, which the bitmap, the metadata
and the free lists go on describing. -/

namespace AntX.Mm

open Lib Lib.Links Bitmap List Pmm

def BuddyInv (s : Pmm) : Prop :=
  ∃ lists, FreeLists s lists ∧ cover lists = clearBelow s.bitmap s.info.totalPages

structure PmmSound (s : Pmm) : Prop where
  buddy : BuddyInv s
  size : ∀ x < s.info.totalPages, x / 32 < s.bitmap.size
  initialized : s.initialized = true
  buddyReady : s.buddyReady = true

structure Takes (s s' : Pmm) (a n : Nat) : Prop where
  sound : PmmSound s'
  below : a + n ≤ s.info.totalPages
  wasFree : ∀ x, a ≤ x → x < a + n → s.bitmap.bit x = false
  bitmap : s'.bitmap = s.bitmap.setRange a n
  info : s'.info = (s.statsAlloc n).info

structure Returns (s s' : Pmm) (a n : Nat) : Prop where
  sound : PmmSound s'
  bitmap : s'.bitmap = s.bitmap.clearRange a n
  total : s'.info.totalPages = s.info.totalPages

variable {a n o : Nat} {s' s : Pmm} {lists' : Nat → List Nat}

theorem Returns.statsFree (h : Returns s s' a n ∧ s'.info = s.info) (k : Nat) :
    Returns s (s'.statsFree k) a n ∧ (s'.statsFree k).info = (s.statsFree k).info := by
  obtain ⟨⟨⟨⟨lists, hf, hcov⟩, hsize, hinit, hready⟩, hbit, htotal⟩, hinfo⟩ := h
  refine ⟨⟨⟨⟨lists, hf, hcov⟩, hsize, hinit, hready⟩, hbit, htotal⟩, ?_⟩
  simp only [Pmm.statsFree, hinfo]

namespace PmmSound

variable {s : Pmm}

theorem testBit (h : PmmSound s) {x : Nat} (hx : x < s.info.totalPages) :
    s.bitmap.testBit x = s.bitmap.bit x := by
  simp [Bitmap.testBit, h.size x hx]

theorem allFree_iff (h : PmmSound s) (hb : a + n ≤ s.info.totalPages) :
    s.allFree a n = true ↔ ∀ x, a ≤ x → x < a + n → s.bitmap.bit x = false := by
  simp only [allFree, all_eq_true, mem_range, Bool.not_eq_true']
  constructor
  · intro hf x h1 h2
    have := hf (x - a) (by omega)
    rwa [Nat.add_sub_cancel' h1, h.testBit (by omega)] at this
  · intro hf j hj
    rw [h.testBit (by omega)]
    exact hf (a + j) (by omega) (by omega)

end PmmSound

section Pool

variable {s : Pmm} {a n : Nat}

section

variable (h : PmmSound s) (hb : a + n ≤ s.info.totalPages)

include h hb

theorem clearBelow_setRange : clearBelow (s.bitmap.setRange a n) s.info.totalPages =
      clearBelow s.bitmap s.info.totalPages \ Set.Ico a (a + n) := by
  ext x
  rw [Set.mem_sdiff, mem_clearBelow, mem_clearBelow, Set.mem_Ico, writeRange_bit]
  by_cases hx : a ≤ x ∧ x < a + n
  · rw [if_pos ⟨hx.1, hx.2, h.size x (by omega)⟩]
    simp [hx]
  · rw [if_neg (fun hc => hx ⟨hc.1, hc.2.1⟩)]
    tauto

theorem clearBelow_clearRange : clearBelow (s.bitmap.clearRange a n) s.info.totalPages =
      Set.Ico a (a + n) ∪ clearBelow s.bitmap s.info.totalPages := by
  ext x
  rw [Set.mem_union, mem_clearBelow, mem_clearBelow, Set.mem_Ico, writeRange_bit]
  by_cases hx : a ≤ x ∧ x < a + n
  · rw [if_pos ⟨hx.1, hx.2, h.size x (by omega)⟩]
    simp only [hx, and_self, and_true, true_or, iff_true]
    omega
  · rw [if_neg (fun hc => hx ⟨hc.1, hc.2.1⟩)]
    tauto

theorem takes_of_lists (hfree : ∀ x, a ≤ x → x < a + n → s.bitmap.bit x = false) (hf : FreeLists s' lists')
    (hcov : cover lists' = clearBelow s.bitmap s.info.totalPages \ Set.Ico a (a + n))
    (honly : ListsOnly (({ s with bitmap := s.bitmap.setRange a n }).statsAlloc n) s') :
    Takes s s' a n := by
  obtain ⟨m, hd, l, rfl⟩ := honly
  refine ⟨⟨⟨lists', hf, ?_⟩, ?_, h.initialized, h.buddyReady⟩, hb, hfree, rfl, rfl⟩
  · exact hcov.trans (clearBelow_setRange h hb).symm
  · intro x hx
    simp only [statsAlloc, writeRange_size]
    exact h.size x hx

theorem loose_clearRange (hset : ∀ x, a ≤ x → x < a + n → s.bitmap.bit x = true) :
    ∃ lists, Loose { s with bitmap := s.bitmap.clearRange a n } lists (Set.Ico a (a + n)) ∧
      ∀ s', Inserts { s with bitmap := s.bitmap.clearRange a n } s' lists (Set.Ico a (a + n)) →
        Returns s s' a n ∧ s'.info = s.info := by
  obtain ⟨lists, hf, hcov⟩ := h.buddy
  have hclear : Set.Ico a (a + n) ∪ cover lists = clearBelow (s.bitmap.clearRange a n) s.info.totalPages := by
    rw [clearBelow_clearRange h hb, hcov]
  refine ⟨lists, ⟨hf, fun x hx => Nat.lt_of_lt_of_le hx.2 hb, fun x hx hx' => ?_, fun x hx => ?_⟩, ?_⟩
  · rw [hcov] at hx'
    have := hset x hx.1 hx.2
    rw [hx'.2] at this
    exact absurd this (by decide)
  · rw [hclear] at hx
    exact hx.2
  · rintro s' ⟨lists', hf', hc', m, hd, l, rfl⟩
    refine ⟨⟨⟨⟨lists', hf', hc'.trans hclear⟩, fun x hx => ?_, h.initialized, h.buddyReady⟩,
      rfl, rfl⟩, rfl⟩
    rw [writeRange_size]
    exact h.size x hx

end

end Pool

theorem doAlloc_spec (h : PmmSound s) (ho : o ≤ maxBuddyOrder) :
    (s.doAlloc o = (s, none) ∧ ∀ o', o ≤ o' → o' ≤ maxBuddyOrder → s.heads o' = none) ∨
      ∃ s' p, s.doAlloc o = (s', some (pageToPhys p)) ∧ Takes s s' p (2 ^ o) ∧ p % 2 ^ o = 0 ∧
        ∃ o', o ≤ o' ∧ o' ≤ maxBuddyOrder ∧ s.heads o' ≠ none := by
  obtain ⟨lists, hf, hcov⟩ := h.buddy
  have hclear : ∀ x ∈ cover lists, s.bitmap.bit x = false := by
    intro x hx
    rw [hcov] at hx
    exact hx.2
  rcases buddyAlloc_spec hf ho hclear with ⟨he, hnone⟩ | ⟨s₁, p, lists₁, he, hh, hc, honly, hsome⟩
  · left
    exact ⟨by simp [doAlloc, h.initialized, h.buddyReady, he], hnone⟩
  · right
    have heq : s.doAlloc o = (({ s₁ with bitmap := s₁.bitmap.setRange p (2 ^ o) }).statsAlloc (2 ^ o),
        some (pageToPhys p)) := by
      simp [doAlloc, h.initialized, h.buddyReady, he]
    refine ⟨_, p, heq, ?_, hh.aligned, hsome⟩
    have hbelow := hh.below
    rw [honly.info] at hbelow
    refine takes_of_lists h hbelow ?_ hh.free ?_ ?_
    · intro x h1 h2
      refine hclear x ?_
      rw [← hc]
      exact .inl ⟨h1, h2⟩
    · rw [← hcov, ← hc]
      ext x
      constructor
      · intro hx
        exact ⟨.inr hx, fun hx' => hh.apart x hx' hx⟩
      · rintro ⟨hx | hx, hn⟩
        · exact absurd hx hn
        · exact hx
    · obtain ⟨m, hd, l, rfl⟩ := honly
      exact ⟨m, hd, l, rfl⟩

theorem doFree_spec (h : PmmSound s) {addr : Nat} (ho : o ≤ maxBuddyOrder)
    (ha : physToPage addr % 2 ^ o = 0) (hb : physToPage addr + 2 ^ o ≤ s.info.totalPages)
    (hset : ∀ x, physToPage addr ≤ x → x < physToPage addr + 2 ^ o → s.bitmap.bit x = true) :
    Returns s (s.doFree addr o) (physToPage addr) (2 ^ o) ∧
      (s.doFree addr o).info = (s.statsFree (2 ^ o)).info := by
  generalize hp : physToPage addr = p at *
  obtain ⟨lists, hloose, hreturns⟩ := loose_clearRange h hb hset
  have hlt : ¬ p ≥ s.info.totalPages := by omega
  have htest : s.bitmap.testBit p = true := by
    rw [h.testBit (by omega)]
    exact hset p le_rfl (by omega)
  obtain ⟨s', p', o', he, hins, _⟩ :=
    tryMerge_push_spec s.info.totalPages (Loose.held hloose ho ha) hloose
  have heq : s.doFree addr o = (s'.buddyListPush p' o').statsFree (2 ^ o) := by
    rw [doFree, if_neg (by simp [h.initialized])]
    simp only [hp]
    rw [if_neg hlt, if_neg (by simp [htest]), if_neg (by simp [h.buddyReady])]
    simp only [he]
  rw [heq]
  exact Returns.statsFree (hreturns _ hins) _

theorem reservePfnRange_takes (h : PmmSound s) (hb : a + n ≤ s.info.totalPages)
    (hfree : ∀ x, a ≤ x → x < a + n → s.bitmap.bit x = false) :
    Takes s (s.buddyReservePfnRange a n) a n := by
  obtain ⟨lists, hf, hcov⟩ := h.buddy
  obtain ⟨lists', hf', hc', honly⟩ := reservePfnRange_spec hf a n (fun x hx => by
    rw [hcov] at hx
    exact hx.2)
  rw [hcov] at hc'
  exact takes_of_lists h hb hfree hf' hc' honly

theorem reserveRange_cases (h : PmmSound s) (base size : Nat) :
    (∃ e, s.reserveRange base size = (s, .error e)) ∨ ∃ s', s.reserveRange base size = (s', .ok ()) ∧
        Takes s s' (physToPage base) (size / pageSize) ∧ 0 < size / pageSize := by
  unfold reserveRange
  dsimp only
  split_ifs with h1 h2 h3 h4 h5 h6
  iterate 6 exact .inl ⟨_, rfl⟩
  refine .inr ⟨_, rfl, ?_, ?_⟩
  · exact reservePfnRange_takes h (by omega) ((h.allFree_iff (by omega)).mp (by simpa using h6))
  · simp only [pageSize] at h3 ⊢
    omega

theorem unreserveRange_cases (h : PmmSound s) (base size : Nat)
    (hset : ∀ x, physToPage base ≤ x → x < physToPage base + size / pageSize → s.bitmap.bit x = true) :
    (∃ e, s.unreserveRange base size = (s, .error e)) ∨ ∃ s', s.unreserveRange base size = (s', .ok ()) ∧
        Returns s s' (physToPage base) (size / pageSize) ∧
        s'.info = (s.statsFree (size / pageSize)).info := by
  unfold unreserveRange
  dsimp only
  split_ifs with h1 h2 h3 h4 h5
  iterate 6 exact .inl ⟨_, rfl⟩
  obtain ⟨lists, hloose, hreturns⟩ :=
    loose_clearRange h (show _ ≤ s.info.totalPages by omega) hset
  exact .inr ⟨_, rfl, Returns.statsFree (hreturns _ (freeInsertRange_spec hloose)) _⟩

theorem directAllocLoop_cases (h : PmmSound s) (count align fuel i : Nat) :
    s.directAllocLoop count align fuel i = (s, none) ∨
      ∃ s' p, s.directAllocLoop count align fuel i = (s', some (pageToPhys p)) ∧
        Takes s s' p count := by
  induction fuel generalizing i with
  | zero => exact .inl rfl
  | succ fuel ih =>
    rw [directAllocLoop]
    split_ifs with h1 h2
    · right
      exact ⟨_, i, rfl, reservePfnRange_takes h h1 ((h.allFree_iff h1).mp h2.2)⟩
    · exact ih (i + align)
    · exact .inl rfl

theorem writeRange_true_of_bit {b : Bitmap} {x : Nat} (hx : b.bit x = true) (a n : Nat) :
    (b.setRange a n).bit x = true := by
  rw [writeRange_bit]
  split_ifs
  · rfl
  · exact hx

theorem reservePages_clear {b : Bitmap} {x total : Nat} (hx : total ≤ x) (a z : Nat) :
    (Pmm.reservePages b a z total).bit x = b.bit x := by
  rw [reservePages, writeRange_bit, if_neg (by omega)]

theorem markReserved_spec (s : Pmm) (r a m : Nat) :
    (s.markReserved r a m).size = Pmm.divCeil s.info.totalPages 32 ∧
      (0 < s.info.totalPages → (s.markReserved r a m).bit 0 = true) ∧
      ∀ x, s.info.totalPages ≤ x → (s.markReserved r a m).bit x = false := by
  unfold markReserved
  simp only
  by_cases ht : s.info.totalPages > 0
  · have hword : 0 / 32 < divCeil s.info.totalPages 32 := by
      simp only [divCeil]
      omega
    rw [if_pos ht]
    refine ⟨?_, fun _ => ?_, fun x hx => ?_⟩
    · simp [reservePages, setBit, writeBit, hword]
    · refine writeRange_true_of_bit (writeRange_true_of_bit ?_ _ _) _ _
      simp [reservePages, setBit, writeBit, hword]
    · rw [reservePages_clear hx, reservePages_clear hx, setBit, writeBit]
      split_ifs
      · simp only [Function.update_of_ne (show x ≠ 0 by omega)]
        rw [reservePages_clear hx]
      · rw [reservePages_clear hx]
  · rw [if_neg ht]
    refine ⟨?_, fun hc => absurd hc ht, fun x hx => ?_⟩
    · simp [reservePages]
    · rw [reservePages_clear hx, reservePages_clear hx, reservePages_clear hx]

theorem freeLists_empty (hram : s.info.totalPages * pageSize ≤ s.memSize)
    (hr : s.metaReady = true) (hm : ∀ p, s.buddyMeta p = buddyAllocated)
    (hh : ∀ o, s.heads o = none) : FreeLists s (fun _ => []) := by
  refine ⟨hram, hr, Links.Chains.empty hh, fun o p => ?_, fun p _ => .inr (hm p), ?_, ?_⟩
  · refine iff_of_false not_mem_nil (fun hx => ?_)
    have h1 := hx.2.1
    have h2 := hx.2.2
    rw [hm p] at h2
    simp only [maxBuddyOrder, buddyAllocated] at h1 h2
    omega
  · exact fun o p hp => absurd hp not_mem_nil
  · exact fun o p hp => absurd hp not_mem_nil

theorem initFreeLists_sound (hf : FreeLists s (fun _ => []))
    (hsize : ∀ x < s.info.totalPages, x / 32 < s.bitmap.size) :
    ∃ lists, FreeLists (s.buddyInitFreeLists s.info.totalPages) lists ∧
      cover lists = clearBelow s.bitmap s.info.totalPages ∧
      ListsOnly s (s.buddyInitFreeLists s.info.totalPages) := by
  have heq : s.buddyInitFreeLists s.info.totalPages = initLoop s.info.totalPages s.info.totalPages s 0 := by
    simp [buddyInitFreeLists, hf.ready]
  rw [heq]
  refine initLoop_spec hf rfl hsize (by omega) (Nat.zero_le _) ?_
  ext x
  refine iff_of_false ?_ (fun hx => Nat.not_lt_zero _ hx.1)
  rintro ⟨o, p, hp, _⟩
  exact absurd hp not_mem_nil

def bootBitmap (memSize kernelEnd reserved : Nat) : Bitmap :=
  let s := Pmm.new.init memSize kernelEnd
  let bitmapAligned := pageUp (wadd s.earlyCurrent (pageUp reserved))
  s.markReserved (pageUp reserved) bitmapAligned
    (pageUp (wadd bitmapAligned (Pmm.divCeil s.info.totalPages 32 * 4)))

theorem bootBitmap_spec (memSize kernelEnd reserved : Nat) :
    (bootBitmap memSize kernelEnd reserved).size = Pmm.divCeil (memSize / pageSize) 32 ∧
      (0 < memSize / pageSize → (bootBitmap memSize kernelEnd reserved).bit 0 = true) ∧
      ∀ x, memSize / pageSize ≤ x → (bootBitmap memSize kernelEnd reserved).bit x = false :=
  markReserved_spec (Pmm.new.init memSize kernelEnd) _ _ _

theorem boot_sound (memSize kernelEnd reserved : Nat) : PmmSound (Pmm.boot memSize kernelEnd reserved) ∧
      (Pmm.boot memSize kernelEnd reserved).bitmap = bootBitmap memSize kernelEnd reserved ∧
      (Pmm.boot memSize kernelEnd reserved).info.totalPages = memSize / pageSize := by
  obtain ⟨s₀, hboot, hf, hbit, hinfo⟩ : ∃ s₀ : Pmm, boot memSize kernelEnd reserved =
        ({ s₀.buddyInitFreeLists s₀.info.totalPages with
            buddyReady := true, initialized := true }).updateStats ∧
      FreeLists s₀ (fun _ => []) ∧ s₀.bitmap = bootBitmap memSize kernelEnd reserved ∧
      s₀.info.totalPages = memSize / pageSize := by
    refine ⟨_, rfl, freeLists_empty ?_ rfl (fun _ => rfl) (fun _ => rfl), rfl, rfl⟩
    exact Nat.div_mul_le_self memSize pageSize
  have hword : ∀ x < s₀.info.totalPages, x / 32 < s₀.bitmap.size := by
    rw [hbit, (bootBitmap_spec memSize kernelEnd reserved).1, ← hinfo]
    simp only [divCeil]
    omega
  obtain ⟨lists, hf', hcov, honly⟩ := initFreeLists_sound hf hword
  rw [hboot]
  have hbit' := honly.bitmap
  have hinfo' := honly.info
  refine ⟨⟨⟨lists, hf', ?_⟩, ?_, rfl, rfl⟩, ?_, ?_⟩
  · simpa only [updateStats, hbit', hinfo'] using hcov
  · simpa only [updateStats, hbit', hinfo'] using hword
  · simpa only [updateStats, hbit'] using hbit
  · simpa only [updateStats, hinfo'] using hinfo

end AntX.Mm
