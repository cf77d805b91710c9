import AntX.Mm.BuddyLists

/-! What merging, splitting, inserting and reserving do to the pages covered by free blocks. -/

namespace AntX.Mm

open Lib Lib.Links Function List Set Pmm

namespace Bitmap

variable {b : Bitmap} {start n : Nat}

@[simp] theorem writeRange_size (v : Bool) (b : Bitmap) (start n : Nat) :
    (writeRange v b start n).size = b.size := by
  induction n with
  | zero => rfl
  | succ n ih =>
    rw [writeRange, writeBit]
    split_ifs <;> exact ih

theorem writeRange_bit (v : Bool) (b : Bitmap) (start n x : Nat) : (writeRange v b start n).bit x =
      if start ≤ x ∧ x < start + n ∧ x / 32 < b.size then v else b.bit x := by
  induction n with
  | zero =>
    rw [if_neg (by omega)]
    rfl
  | succ n ih =>
    rw [writeRange, writeBit, writeRange_size]
    by_cases hx : x = start + n
    · subst hx
      by_cases hs : (start + n) / 32 < b.size
      · rw [if_pos hs, if_pos ⟨by omega, by omega, hs⟩]
        simp only [update_self]
      · rw [if_neg hs, ih, if_neg (by omega), if_neg (by omega)]
    · have hiff : (start ≤ x ∧ x < start + (n + 1) ∧ x / 32 < b.size) ↔
          (start ≤ x ∧ x < start + n ∧ x / 32 < b.size) := by omega
      rw [if_congr hiff rfl rfl, ← ih]
      by_cases hs : (start + n) / 32 < b.size
      · rw [if_pos hs]
        simp only [update_of_ne hx]
      · rw [if_neg hs]

theorem ext' {b c : Bitmap} (hs : b.size = c.size) (hb : ∀ x, b.bit x = c.bit x) : b = c := by
  cases b
  simp only at hs hb
  rw [hs, funext hb]

theorem clearRange_of_clear (h : ∀ x, start ≤ x → x < start + n → b.bit x = false) :
    b.clearRange start n = b := by
  refine ext' (writeRange_size false b start n) (fun x => ?_)
  rw [writeRange_bit]
  split_ifs with hx
  · exact (h x hx.1 hx.2.1).symm
  · rfl

end Bitmap

structure Held (s : Pmm) (lists : Nat → List Nat) (p o : Nat) : Prop where
  free : FreeLists s lists
  order_le : o ≤ maxBuddyOrder
  aligned : p % 2 ^ o = 0
  below : p + 2 ^ o ≤ s.info.totalPages
  apart : ∀ x ∈ block p o, x ∉ cover lists

def Inserts (s s' : Pmm) (lists : Nat → List Nat) (pages : Set Nat) : Prop :=
  ∃ lists', FreeLists s' lists' ∧ cover lists' = pages ∪ cover lists ∧ ListsOnly s s'

namespace Held

variable {s : Pmm} {lists : Nat → List Nat} {p o : Nat}

theorem writeMeta_self (h : Held s lists p o) : s.writeMeta p buddyAllocated = s := by
  have hlt := h.below
  have hpow := Nat.two_pow_pos o
  have hval : s.buddyMeta p = buddyAllocated := by
    refine (h.free.vals p (by omega)).resolve_left (fun hle => ?_)
    have hin := (h.free.tag _ p).mpr ⟨by omega, hle, rfl⟩
    exact h.apart p (self_mem_block p o) (block_subset_cover hin (self_mem_block p _))
  rw [writeMeta, ← hval, update_eq_self]

theorem merge (h : Held s lists p o) (ho : o < maxBuddyOrder) (hb : buddy p o ∈ lists o) :
    Held ((s.buddyListRemove (buddy p o) o).writeMeta (buddy p o) buddyAllocated)
      (update lists o ((lists o).erase (buddy p o))) (min p (buddy p o)) (o + 1) := by
  obtain ⟨hm, hblock⟩ := block_min_buddy h.aligned
  have hfit := h.free.fits o _ hb
  have hinfo : ((s.buddyListRemove (buddy p o) o).writeMeta (buddy p o) buddyAllocated).info =
      s.info := by
    unfold buddyListRemove
    split_ifs <;> rfl
  refine ⟨h.free.remove hb, ho, hm, ?_, ?_⟩
  · have := h.below
    rw [hinfo, Nat.pow_succ]
    rcases buddy_cases h.aligned with ⟨he, _⟩ | ⟨he, _⟩ <;> omega
  · intro x hx
    rw [hblock] at hx
    rw [h.free.cover_erase hb]
    rcases hx with hx | hx
    · exact fun hc => h.apart x hx hc.1
    · exact fun hc => hc.2 hx

theorem merge_cover (h : Held s lists p o) (hb : buddy p o ∈ lists o) : block (min p (buddy p o)) (o + 1) ∪
      cover (update lists o ((lists o).erase (buddy p o))) = block p o ∪ cover lists := by
  rw [(block_min_buddy h.aligned).2, h.free.cover_erase hb, union_assoc]
  congr 1
  exact union_sdiff_cancel (block_subset_cover hb)

theorem release (h : Held s lists p o) (hc : ∀ x ∈ block p o, s.bitmap.bit x = false) :
    Inserts s ((s.writeMeta p o).buddyListPush p o) lists (block p o) := by
  refine ⟨_, h.free.push h.order_le h.aligned h.below h.apart, cover_cons lists o p, ?_⟩
  have hb : (s.writeMeta p o).bitmap.clearRange p (2 ^ o) = s.bitmap :=
    Bitmap.clearRange_of_clear (fun x h1 h2 => hc x ⟨h1, h2⟩)
  exact ⟨_, _, _, by rw [buddyListPush, hb]; rfl⟩

end Held

theorem ListsOnly.writeMeta (s : Pmm) (i v : Nat) : ListsOnly s (s.writeMeta i v) :=
  ⟨_, _, _, rfl⟩

theorem ListsOnly.listRemove (s : Pmm) (p o : Nat) : ListsOnly s (s.buddyListRemove p o) := by
  unfold buddyListRemove
  by_cases hr : (!s.inRam p) = true
  · rw [if_pos hr]
    exact ⟨_, _, _, rfl⟩
  · rw [if_neg hr]
    exact ⟨_, _, _, rfl⟩

theorem fitOrder_spec (cur remaining m : Nat) :
    Pmm.fitOrder cur remaining m ≤ m ∧ cur % 2 ^ Pmm.fitOrder cur remaining m = 0 ∧
      (0 < remaining → 2 ^ Pmm.fitOrder cur remaining m ≤ remaining) := by
  induction m with
  | zero => exact ⟨le_rfl, Nat.mod_one _, id⟩
  | succ m ih =>
    rw [Pmm.fitOrder]
    split_ifs with hc
    · exact ⟨le_rfl, hc.1, fun _ => hc.2⟩
    · exact ⟨Nat.le_succ_of_le ih.1, ih.2⟩

structure Loose (s : Pmm) (lists : Nat → List Nat) (pages : Set Nat) : Prop where
  free : FreeLists s lists
  below : ∀ x ∈ pages, x < s.info.totalPages
  apart : ∀ x ∈ pages, x ∉ cover lists
  clear : ∀ x ∈ pages ∪ cover lists, s.bitmap.bit x = false

namespace Loose

variable {s s₁ s₂ : Pmm} {lists : Nat → List Nat} {A B : Set Nat} {cur stop o : Nat}

theorem mono (h : Loose s lists A) (hs : B ⊆ A) : Loose s lists B :=
  ⟨h.free, fun x hx => h.below x (hs hx), fun x hx => h.apart x (hs hx),
    fun x hx => h.clear x (hx.imp (fun hx => hs hx) id)⟩

theorem nothing (h : Loose s lists A) (hA : A = ∅) : Inserts s s lists A :=
  ⟨lists, h.free, by rw [hA, empty_union], ListsOnly.refl s⟩

theorem rest (h : Loose s lists (A ∪ B)) (hd : Disjoint A B) {lists₁ : Nat → List Nat}
    (hf : FreeLists s₁ lists₁) (hcov : cover lists₁ = A ∪ cover lists) (honly : ListsOnly s s₁) :
    Loose s₁ lists₁ B := by
  refine ⟨hf, fun x hx => ?_, fun x hx => ?_, fun x hx => ?_⟩
  · rw [honly.info]
    exact h.below x (.inr hx)
  · rw [hcov]
    rintro (hx' | hx')
    · exact disjoint_left.mp hd hx' hx
    · exact h.apart x (.inr hx) hx'
  · rw [honly.bitmap]
    refine h.clear x ?_
    rwa [union_comm A, union_assoc, ← hcov]

theorem seq (h : Loose s lists (A ∪ B)) (hd : Disjoint A B) (hA : Inserts s s₁ lists A)
    (hB : ∀ lists₁, Loose s₁ lists₁ B → Inserts s₁ s₂ lists₁ B) :
    Inserts s s₂ lists (A ∪ B) := by
  obtain ⟨lists₁, hf, hcov, honly⟩ := hA
  obtain ⟨lists₂, hf₂, hcov₂, honly₂⟩ := hB lists₁ (h.rest hd hf hcov honly)
  refine ⟨lists₂, hf₂, ?_, honly.trans honly₂⟩
  rw [hcov₂, hcov, ← union_assoc, union_comm B]

theorem held (h : Loose s lists (block cur o)) (ho : o ≤ maxBuddyOrder) (ha : cur % 2 ^ o = 0) :
    Held s lists cur o := by
  have hend := h.below (cur + 2 ^ o - 1) ⟨by omega, by omega⟩
  exact ⟨h.free, ho, ha, by omega, h.apart⟩

theorem next (h : Loose s lists (Set.Ico cur stop)) (hle : cur + 2 ^ o ≤ stop)
    (hA : Inserts s s₁ lists (block cur o))
    (hB : ∀ lists₁, Loose s₁ lists₁ (Set.Ico (cur + 2 ^ o) stop) →
      Inserts s₁ s₂ lists₁ (Set.Ico (cur + 2 ^ o) stop)) :
    Inserts s s₂ lists (Set.Ico cur stop) := by
  have hsplit : Set.Ico cur stop = block cur o ∪ Set.Ico (cur + 2 ^ o) stop :=
    (Ico_union_Ico_eq_Ico (Nat.le_add_right _ _) hle).symm
  rw [hsplit] at h ⊢
  exact h.seq (disjoint_left.mpr fun x hx hx' => Nat.not_lt.mpr hx'.1 hx.2) hA hB

theorem fitOrder {m : Nat} (h : Loose s lists (Set.Ico cur stop)) (hm : m ≤ maxBuddyOrder)
    (hlt : cur < stop) : ∃ o, Pmm.fitOrder cur (stop - cur) m = o ∧ cur + 2 ^ o ≤ stop ∧
      Loose s lists (block cur o) ∧ Held s lists cur o := by
  obtain ⟨h1, h2, h3⟩ := fitOrder_spec cur (stop - cur) m
  generalize Pmm.fitOrder cur (stop - cur) m = o at h1 h2 h3
  have hfit : cur + 2 ^ o ≤ stop := by
    omega
  have hb : Loose s lists (block cur o) := h.mono (Ico_subset_Ico_right hfit)
  exact ⟨o, rfl, hfit, hb, hb.held (Nat.le_trans h1 hm) h2⟩

end Loose

structure MergeResult (s : Pmm) (lists : Nat → List Nat) (p o limit : Nat)
    (r : Pmm × Nat × Nat) (lists' : Nat → List Nat) : Prop where
  held : Held r.1 lists' r.2.1 r.2.2
  cover : block r.2.1 r.2.2 ∪ cover lists' = block p o ∪ Mm.cover lists
  lower : r.2.1 ≤ p
  upper : p + 2 ^ o ≤ r.2.1 + 2 ^ r.2.2
  limited : r.2.1 + 2 ^ r.2.2 ≤ max limit (p + 2 ^ o)
  only : ListsOnly s r.1

theorem MergeResult.refl {s : Pmm} {lists : Nat → List Nat} {p o limit : Nat}
    (h : Held s lists p o) : MergeResult s lists p o limit (s, p, o) lists :=
  ⟨h, rfl, le_rfl, le_rfl, Nat.le_max_right _ _, ListsOnly.refl s⟩

variable {s : Pmm} {p o cur remaining fuel n stop a pfn start : Nat} {lists : Nat → List Nat}

theorem tryMergeLoop_spec {limit left : Nat} (h : Held s lists p o) (hleft : o + left = maxBuddyOrder) :
    ∃ lists', MergeResult s lists p o limit (tryMergeLoop limit left s p o) lists' := by
  induction left generalizing s lists p o with
  | zero => exact ⟨lists, .refl h⟩
  | succ left ih =>
    simp only [tryMergeLoop]
    split_ifs with h1 h2 h3 h4
    iterate 4 exact ⟨lists, .refl h⟩
    have hb : buddy p o ∈ lists o := (h.free.tag o _).mpr ⟨by omega, by omega, by omega⟩
    obtain ⟨lists', hr⟩ := ih (h.merge (by omega) hb) (by omega)
    have hup : p + 2 ^ o ≤ min p (buddy p o) + 2 ^ (o + 1) ∧
        min p (buddy p o) + 2 ^ (o + 1) ≤ max limit (p + 2 ^ o) := by
      rcases buddy_cases h.aligned with ⟨he, _⟩ | ⟨he, _⟩ <;> omega
    refine ⟨lists', hr.held, hr.cover.trans (h.merge_cover hb), ?_, ?_, ?_, ?_⟩
    · exact Nat.le_trans hr.lower (Nat.min_le_left _ _)
    · exact Nat.le_trans hup.1 hr.upper
    · have := hr.limited
      omega
    · exact ((ListsOnly.listRemove s _ o).trans (ListsOnly.writeMeta _ _ _)).trans hr.only

theorem tryMerge_push_spec (limit : Nat) (h : Held s lists p o) (hl : Loose s lists (block p o)) :
    ∃ s' p' o', s.buddyTryMerge p o limit = (s', p', o') ∧
      Inserts s (s'.buddyListPush p' o') lists (block p o) ∧
      block p' o' ⊆ block p o ∪ cover lists ∧ p' ≤ p ∧
      p + 2 ^ o ≤ p' + 2 ^ o' ∧ p' + 2 ^ o' ≤ max limit (p + 2 ^ o) := by
  obtain ⟨lists', hr⟩ := @tryMergeLoop_spec s p o lists limit (maxBuddyOrder - o) h
    (Nat.add_sub_cancel' h.order_le)
  rcases r : tryMergeLoop limit (maxBuddyOrder - o) s p o with ⟨s', p', o'⟩
  rw [r] at hr
  have hsub : block p' o' ⊆ block p o ∪ cover lists := hr.cover ▸ subset_union_left
  obtain ⟨lists'', hf, hcov, honly⟩ := hr.held.release (fun x hx => by
    rw [hr.only.bitmap]
    exact hl.clear x (hsub hx))
  refine ⟨s'.writeMeta p' o', p', o', ?_, ⟨lists'', hf, hcov.trans hr.cover, hr.only.trans honly⟩,
    hsub, hr.lower, hr.upper, hr.limited⟩
  simp [buddyTryMerge, h.free.ready, r]

theorem freeInsertLoop_spec {endPfn : Nat} (h : Loose s lists (Set.Ico cur endPfn))
    (hfuel : endPfn - cur ≤ fuel) :
    Inserts s (freeInsertLoop endPfn fuel s cur) lists (Set.Ico cur endPfn) := by
  induction fuel generalizing s lists cur with
  | zero => exact h.nothing (Ico_eq_empty (by omega))
  | succ fuel ih =>
    rw [freeInsertLoop]
    by_cases hlt : cur < endPfn
    · rw [if_pos hlt]
      obtain ⟨o, ho, hfit, hloose, hheld⟩ := h.fitOrder
        (Nat.min_le_right (Nat.log2 (endPfn - cur)) maxBuddyOrder) hlt
      obtain ⟨s', p', o', he, hins, hblock, hlow, hup, hlim⟩ :=
        tryMerge_push_spec endPfn hheld hloose
      have hpow := Nat.two_pow_pos o
      -- A merge to the right would need a page of the range that is already free.
      have hend : p' + 2 ^ o' = cur + 2 ^ o := by
        by_contra hne
        rcases hblock (mem_block.mpr ⟨by omega, by omega⟩ : cur + 2 ^ o ∈ block p' o') with hin | hin
        · have := (mem_block.mp hin).2
          omega
        · exact h.apart (cur + 2 ^ o) ⟨by omega, by omega⟩ hin
      simp only [ho, he, hend]
      exact h.next hfit hins (fun lists' h' => ih h' (by omega))
    · rw [if_neg hlt]
      exact h.nothing (Ico_eq_empty hlt)

theorem freeInsertRange_spec (h : Loose s lists (Set.Ico start (start + n))) :
    Inserts s (s.buddyFreeInsertRange start n) lists (Set.Ico start (start + n)) := by
  have hr : s.buddyFreeInsertRange start n = freeInsertLoop (start + n) n s start := by
    simp [buddyFreeInsertRange, h.free.ready]
  rw [hr]
  exact freeInsertLoop_spec h (by omega)

theorem writeMetaRange_eq (v start n : Nat) (s : Pmm) : writeMetaRange v start n s = { s with
      buddyMeta := fun x => if start ≤ x ∧ x < start + n then v else s.buddyMeta x } := by
  induction n with
  | zero =>
    have hf : (fun x => if start ≤ x ∧ x < start + 0 then v else s.buddyMeta x) = s.buddyMeta := by
      funext x
      rw [if_neg (by omega)]
    rw [hf]
    rfl
  | succ n ih =>
    rw [writeMetaRange, ih, writeMeta]
    congr 1
    funext x
    by_cases hx : x = start + n
    · subst hx
      rw [update_self, if_pos (by omega)]
    · rw [update_of_ne hx]
      exact if_congr (by omega) rfl rfl

theorem FreeLists.remove_range (h : FreeLists s lists) (hp : p ∈ lists o) :
    FreeLists (writeMetaRange buddyAllocated p (2 ^ o) (s.buddyListRemove p o))
      (update lists o ((lists o).erase p)) := by
  rw [writeMetaRange_eq]
  have hm : (s.buddyListRemove p o).buddyMeta = s.buddyMeta := by
    unfold buddyListRemove
    split_ifs <;> rfl
  have hsame : (fun x => if p ≤ x ∧ x < p + 2 ^ o then buddyAllocated else s.buddyMeta x) =
      update s.buddyMeta p buddyAllocated := by
    funext x
    by_cases hx : x = p
    · subst hx
      rw [update_self, if_pos (mem_block.mp (self_mem_block x o))]
    · rw [update_of_ne hx]
      split_ifs with hin
      · exact (h.meta_inside hp (mem_block.mpr hin) hx).symm
      · rfl
  have hremove := h.remove hp
  rw [writeMeta, hm] at hremove
  rw [hm, hsame]
  exact hremove

def Deferred.pages (d : Pmm.Deferred) : Set Nat := Set.Ico d.blockPfn (d.blockPfn + d.size)

structure Pending (start stop : Nat) (pages : Set Nat) (lists : Nat → List Nat)
    (ds : List Pmm.Deferred) : Prop where
  fields : ∀ d ∈ ds, d.start = start ∧ d.stop = stop ∧ d.blockPfn < stop ∧ start < d.blockPfn + d.size
  size_pos : ∀ d ∈ ds, 0 < d.size
  apart : ds.Pairwise (fun d e => Disjoint (Deferred.pages d) (Deferred.pages e))
  off : ∀ d ∈ ds, ∀ x ∈ Deferred.pages d, x ∉ cover lists
  all : ∀ x, x ∈ pages ↔ (∃ d ∈ ds, x ∈ Deferred.pages d) ∨ x ∈ cover lists

variable {ds : List Pmm.Deferred}

theorem Pending.cons {pages : Set Nat}
    (h : Pending start stop pages lists ds) (hf : FreeLists s lists) (hp : p ∈ lists o)
    (hov : p < stop ∧ p + 2 ^ o > start) :
    Pending start stop pages (update lists o ((lists o).erase p))
      ({ blockPfn := p, start, stop, size := 2 ^ o } :: ds) := by
  have hcov := hf.cover_erase hp
  have hsub : block p o ⊆ cover lists := block_subset_cover hp
  constructor
  · intro d hd
    rcases mem_cons.mp hd with rfl | hd
    · exact ⟨rfl, rfl, hov⟩
    · exact h.fields d hd
  · intro d hd
    rcases mem_cons.mp hd with rfl | hd
    · exact Nat.two_pow_pos o
    · exact h.size_pos d hd
  · refine pairwise_cons.mpr ⟨fun d hd => ?_, h.apart⟩
    exact disjoint_left.mpr (fun x hx hx' => h.off d hd x hx' (hsub hx))
  · intro d hd x hx
    rw [hcov]
    rcases mem_cons.mp hd with rfl | hd
    · exact fun hc => hc.2 hx
    · exact fun hc => h.off d hd x hx hc.1
  · intro x
    rw [h.all, hcov, exists_mem_cons_iff]
    constructor
    · rintro (hd | hc)
      · exact .inl (.inr hd)
      · by_cases hx : x ∈ block p o
        · exact .inl (.inl hx)
        · exact .inr ⟨hc, hx⟩
    · rintro ((hx | hd) | hc)
      · exact .inr (hsub hx)
      · exact .inl hd
      · exact .inr hc.1

theorem reserveWalk_spec {pages : Set Nat} {kept rest : List Nat} {node : Option Nat} (h : FreeLists s lists)
    (hp : Pending start stop pages lists ds) (hl : lists o = kept ++ rest)
    (hn : node = rest.head?) (hfuel : rest.length ≤ fuel) :
    ∃ lists' s' ds', reserveWalk start stop o fuel s node ds = (s', ds') ∧
      FreeLists s' lists' ∧ Pending start stop pages lists' ds' ∧ ListsOnly s s' ∧
      (∀ o' ≠ o, lists' o' = lists o') ∧
      ∀ p ∈ lists' o, p ∈ kept ∨ ¬ (p < stop ∧ p + 2 ^ o > start) := by
  induction rest generalizing s lists ds kept node fuel with
  | nil =>
    refine ⟨lists, s, ds, ?_, h, hp, ListsOnly.refl s, fun _ _ => rfl, ?_⟩
    · cases fuel <;> simp [hn, reserveWalk]
    · intro p hm
      rw [hl, append_nil] at hm
      exact .inl hm
  | cons p rest ih =>
    obtain ⟨fuel, rfl⟩ : ∃ f, fuel = f + 1 := ⟨fuel - 1, by simp at hfuel; omega⟩
    have hlen : rest.length ≤ fuel := by simpa using hfuel
    have hmem : p ∈ lists o := by simp [hl]
    have hram := h.inRam ((h.tag o p).mp hmem).1
    have hchain := h.chains.chain o
    rw [hl] at hchain
    have hnext := hchain.next_at
    simp only [hn, head?_cons, reserveWalk, hram, Bool.not_true, Bool.false_eq_true, if_false]
    by_cases hov : p < stop ∧ p + 2 ^ o > start
    · have hready : (s.buddyListRemove p o).metaReady = true := by
        have := (h.remove hmem).ready
        exact this
      rw [if_pos hov, if_pos hready]
      have herase : update lists o ((lists o).erase p) o = kept ++ rest := by
        have hnd := h.chains.nodup o
        rw [hl] at hnd
        have hk : p ∉ kept := fun hk => (disjoint_of_nodup_append hnd) hk (by simp)
        rw [update_self, hl, erase_append_right _ hk, erase_cons_head]
      obtain ⟨lists', s', ds', he, hf, hpend, honly, hother, hres⟩ :=
        ih (h.remove_range hmem) (hp.cons h hmem hov) herase hnext hlen
      refine ⟨lists', s', ds', he, hf, hpend, ?_, ?_, hres⟩
      · refine ((ListsOnly.listRemove s p o).trans ?_).trans honly
        rw [writeMetaRange_eq]
        exact ⟨_, _, _, rfl⟩
      · intro o' ho'
        rw [hother o' ho', update_of_ne ho']
    · rw [if_neg hov]
      have hl' : lists o = (kept ++ [p]) ++ rest := by simp [hl]
      obtain ⟨lists', s', ds', he, hf, hpend, honly, hother, hres⟩ := ih h hp hl' hnext hlen
      refine ⟨lists', s', ds', he, hf, hpend, honly, hother, ?_⟩
      intro q hq
      rcases hres q hq with hk | hk
      · rcases mem_append.mp hk with hk | hk
        · exact .inl hk
        · rw [mem_singleton.mp hk]
          exact .inr hov
      · exact .inr hk

theorem FreeLists.length_le (h : FreeLists s lists) (o : Nat) : (lists o).length ≤ s.info.totalPages := by
  have hsub : (lists o).Subperm (List.range s.info.totalPages) := by
    refine (h.chains.nodup o).subperm (fun p hp => ?_)
    exact mem_range.mpr ((h.tag o p).mp hp).1
  simpa using hsub.length_le

theorem reserveWalks_spec (h : FreeLists s lists) (n : Nat) :
    ∃ lists' s' ds', reserveWalks start stop n s = (s', ds') ∧ FreeLists s' lists' ∧
      Pending start stop (cover lists) lists' ds' ∧ ListsOnly s s' ∧
      ∀ o < n, ∀ p ∈ lists' o, ¬ (p < stop ∧ p + 2 ^ o > start) := by
  induction n with
  | zero =>
    refine ⟨lists, s, [], rfl, h, ⟨by simp, by simp, .nil, by simp, by simp⟩, ListsOnly.refl s, by simp⟩
  | succ n ih =>
    obtain ⟨lists', s', ds', he, hf, hp, honly, hres⟩ := ih
    have hlen : (lists' n).length ≤ s'.info.totalPages := hf.length_le n
    obtain ⟨lists'', s'', ds'', he', hf', hp', honly', hother, hres'⟩ :=
      reserveWalk_spec hf hp (nil_append (lists' n)).symm (hf.chains.chain n).head_eq hlen
    refine ⟨lists'', s'', ds'', ?_, hf', hp', honly.trans honly', ?_⟩
    · simp only [reserveWalks, he, he']
    · intro o ho p hp
      by_cases hon : o = n
      · subst hon
        exact (hres' p hp).resolve_left not_mem_nil
      · rw [hother o hon] at hp
        exact hres o (by omega) p hp

theorem insertBetween_spec {b : Nat} (h : Loose s lists (Set.Ico a b)) :
    Inserts s (if a < b then s.buddyFreeInsertRange a (b - a) else s) lists (Set.Ico a b) := by
  by_cases hlt : a < b
  · have hadd : a + (b - a) = b := by omega
    rw [← hadd] at h
    rw [if_pos hlt]
    have := freeInsertRange_spec h
    rwa [hadd] at this
  · rw [if_neg hlt]
    exact h.nothing (Ico_eq_empty hlt)

theorem pushBack_spec {d : Deferred}
    (hov : d.blockPfn < d.stop ∧ d.start < d.blockPfn + d.size) (hle : d.start ≤ d.stop)
    (h : Loose s lists (Deferred.pages d \ Set.Ico d.start d.stop)) :
    Inserts s (s.pushBack d) lists (Deferred.pages d \ Set.Ico d.start d.stop) := by
  have hparts : Deferred.pages d \ Set.Ico d.start d.stop =
      Set.Ico d.blockPfn d.start ∪ Set.Ico d.stop (d.blockPfn + d.size) := by
    ext x
    simp only [Deferred.pages, mem_sdiff, mem_Ico, mem_union]
    omega
  have hmax : max d.blockPfn d.stop = d.stop := Nat.max_eq_right (by omega)
  rw [hparts] at h ⊢
  simp only [pushBack, hmax]
  refine h.seq (disjoint_left.mpr fun x hx hx' => ?_)
    (insertBetween_spec (h.mono subset_union_left)) (fun lists₁ h₁ => insertBetween_spec h₁)
  have := hx.2
  have := hx'.1
  omega

theorem pushBack_foldl_spec (hle : start ≤ stop)
    (hf : ∀ d ∈ ds, d.start = start ∧ d.stop = stop ∧ d.blockPfn < stop ∧ start < d.blockPfn + d.size)
    (hap : ds.Pairwise (fun d e => Disjoint (Deferred.pages d) (Deferred.pages e)))
    (h : Loose s lists {x | (∃ d ∈ ds, x ∈ Deferred.pages d) ∧ x ∉ Set.Ico start stop}) :
    Inserts s (ds.foldl pushBack s) lists
      {x | (∃ d ∈ ds, x ∈ Deferred.pages d) ∧ x ∉ Set.Ico start stop} := by
  induction ds generalizing s lists with
  | nil => exact h.nothing (by simp)
  | cons d ds ih =>
    obtain ⟨rfl, rfl, hov⟩ := hf d (by simp)
    obtain ⟨hap1, hap2⟩ := pairwise_cons.mp hap
    have hparts : {x | (∃ e ∈ d :: ds, x ∈ Deferred.pages e) ∧ x ∉ Set.Ico d.start d.stop} =
        (Deferred.pages d \ Set.Ico d.start d.stop) ∪
          {x | (∃ e ∈ ds, x ∈ Deferred.pages e) ∧ x ∉ Set.Ico d.start d.stop} := by
      ext x
      rw [mem_ofPred_eq, exists_mem_cons_iff, or_and_right]
      rfl
    rw [hparts] at h ⊢
    refine h.seq (disjoint_left.mpr ?_) (pushBack_spec hov hle (h.mono subset_union_left))
      (fun lists₁ h₁ => ih (fun e he => hf e (by simp [he])) hap2 h₁)
    rintro x hx ⟨⟨e, he, hx'⟩, _⟩
    exact disjoint_left.mp (hap1 e he) hx.1 hx'

theorem reservePfnRange_spec (h : FreeLists s lists) (start n : Nat)
    (hc : ∀ x ∈ cover lists, s.bitmap.bit x = false) :
    ∃ lists', FreeLists (s.buddyReservePfnRange start n) lists' ∧
      cover lists' = cover lists \ Set.Ico start (start + n) ∧
      ListsOnly (({ s with bitmap := s.bitmap.setRange start n }).statsAlloc n)
        (s.buddyReservePfnRange start n) := by
  obtain ⟨lists₁, s₁, ds, he, hf, hp, honly, hres⟩ :=
    @reserveWalks_spec s (start + n) start lists h (maxBuddyOrder + 1)
  have hout : ∀ x ∈ cover lists₁, x ∉ Set.Ico start (start + n) := by
    rintro x ⟨o, p, hm, hx⟩ hi
    have ho := ((hf.tag o p).mp hm).2.1
    obtain ⟨h1, h2⟩ := mem_block.mp hx
    refine hres o (by omega) p hm ⟨?_, ?_⟩
    · have := hi.2
      omega
    · have := hi.1
      omega
  have hbase : ListsOnly (({ s with bitmap := s.bitmap.setRange start n }).statsAlloc n)
      (({ s₁ with bitmap := s₁.bitmap.setRange start n }).statsAlloc n) := by
    obtain ⟨m, hd, l, rfl⟩ := honly
    exact ⟨m, hd, l, rfl⟩
  have hf₂ : FreeLists (({ s₁ with bitmap := s₁.bitmap.setRange start n }).statsAlloc n) lists₁ := hf
  obtain ⟨lists₂, hf₃, hcov, honly₃⟩ := pushBack_foldl_spec (Nat.le_add_right start n)
    hp.fields hp.apart ⟨hf₂, fun x hx => hbase.info ▸ h.cover_below ((hp.all x).mpr (.inl hx.1)),
      fun x hx => hx.1.elim (fun d hd => hp.off d hd.1 x hd.2), fun x hx => by
        have hnot : x ∉ Set.Ico start (start + n) := hx.elim (fun hx => hx.2) (hout x)
        have hx' : x ∈ cover lists := (hp.all x).mpr (hx.imp (fun hx => hx.1) id)
        rw [hbase.bitmap]
        simp only [statsAlloc, Bitmap.writeRange_bit]
        rw [if_neg (fun hc => hnot ⟨hc.1, hc.2.1⟩)]
        exact hc x hx'⟩
  simp only [buddyReservePfnRange, he]
  refine ⟨lists₂, hf₃, ?_, hbase.trans honly₃⟩
  ext x
  rw [hcov, mem_union, mem_ofPred_eq, mem_sdiff, hp.all]
  constructor
  · rintro (hx | hx)
    · exact ⟨.inl hx.1, hx.2⟩
    · exact ⟨.inr hx, hout x hx⟩
  · rintro ⟨hx | hx, hn⟩
    · exact .inl ⟨hx, hn⟩
    · exact .inr hx

theorem splitLoop_spec (h : Loose s lists (block p (o + n))) (ho : o + n ≤ maxBuddyOrder)
    (ha : p % 2 ^ (o + n) = 0) : ∃ lists', Held (splitLoop p o n s) lists' p o ∧
      block p o ∪ cover lists' = block p (o + n) ∪ cover lists ∧
      ListsOnly s (splitLoop p o n s) := by
  induction n generalizing s lists with
  | zero => exact ⟨lists, h.held ho ha, rfl, ListsOnly.refl s⟩
  | succ n ih =>
    have hal := mod_two_pow_of_succ ha
    rw [← Nat.add_assoc, block_succ] at h ⊢
    have hright : Held s lists (p + 2 ^ (o + n)) (o + n) :=
      (h.mono subset_union_right).held (by omega) (by rw [Nat.add_mod_right]; exact hal)
    obtain ⟨lists₁, hf, hcov, honly⟩ := hright.release (fun x hx => h.clear x (.inl (.inr hx)))
    rw [union_comm] at h
    have hleft := h.rest (disjoint_left.mpr fun x hx hx' => Nat.not_lt.mpr hx.1 hx'.2) hf hcov honly
    obtain ⟨lists', hh, hcov', honly'⟩ := ih hleft (by omega) hal
    refine ⟨lists', hh, ?_, honly.trans honly'⟩
    rw [hcov', hcov, union_assoc]

theorem buddyAlloc_spec (h : FreeLists s lists) (ho : o ≤ maxBuddyOrder)
    (hc : ∀ x ∈ cover lists, s.bitmap.bit x = false) :
    (s.buddyAlloc o = (s, none) ∧ ∀ o', o ≤ o' → o' ≤ maxBuddyOrder → s.heads o' = none) ∨
      ∃ s' p lists', s.buddyAlloc o = (s', some (p, o)) ∧ Held s' lists' p o ∧
        block p o ∪ cover lists' = cover lists ∧ ListsOnly s s' ∧
        ∃ o', o ≤ o' ∧ o' ≤ maxBuddyOrder ∧ s.heads o' ≠ none := by
  have hle : ¬ o > maxBuddyOrder := by omega
  cases ha : firstFrom (fun o => (s.heads o).isSome) (maxBuddyOrder + 1 - o) o with
  | none =>
    left
    refine ⟨by simp [buddyAlloc, hle, ha], fun o' h1 h2 => ?_⟩
    simpa using firstFrom_none ha o' h1 (by omega)
  | some a =>
    right
    obtain ⟨h1, h2, hsome⟩ := firstFrom_some ha
    obtain ⟨p, hp⟩ := Option.isSome_iff_exists.mp hsome
    obtain ⟨hm, hpop⟩ := h.pop_eq_remove hp
    have hready : (s.buddyListRemove p a).metaReady = true := (h.remove hm).ready
    have hfit := h.fits a p hm
    have honly₁ : ListsOnly s ((s.buddyListRemove p a).writeMeta p buddyAllocated) :=
      (ListsOnly.listRemove s p a).trans (ListsOnly.writeMeta _ _ _)
    have hcov₁ := h.cover_erase hm
    have hsub : block p a ⊆ cover lists := block_subset_cover hm
    have hsum : o + (a - o) = a := by omega
    have hback : block p a ∪ cover (update lists a ((lists a).erase p)) = cover lists := by
      rw [hcov₁]
      exact union_sdiff_cancel hsub
    have hloose : Loose ((s.buddyListRemove p a).writeMeta p buddyAllocated)
        (update lists a ((lists a).erase p)) (block p (o + (a - o))) := by
      rw [hsum]
      refine ⟨h.remove hm, fun x hx => ?_, fun x hx => ?_, fun x hx => ?_⟩
      · rw [honly₁.info]
        exact h.cover_below (hsub hx)
      · rw [hcov₁]
        exact fun hx' => hx'.2 hx
      · rw [honly₁.bitmap]
        exact hc x (hback ▸ hx)
    obtain ⟨lists', hh, hcov, honly⟩ := splitLoop_spec hloose (by omega) (by rw [hsum]; exact hfit.1)
    rw [hsum, hback] at hcov
    -- The last write repeats the value the page has.
    have hlast := hh.writeMeta_self
    refine ⟨_, p, lists', ?_, hh, hcov, honly₁.trans honly, a, h1, by omega, by simp [hp]⟩
    simp only [buddyAlloc, if_neg hle, ha, hpop, hready, Bool.not_true, Bool.false_eq_true, if_false, hlast]

theorem initRun_spec (hstop : cur + remaining = stop) (h : Loose s lists (Set.Ico cur stop))
    (hfuel : remaining ≤ fuel) :
    Inserts s (initRun fuel s cur remaining) lists (Set.Ico cur stop) := by
  induction fuel generalizing s lists cur remaining with
  | zero => exact h.nothing (Ico_eq_empty (by omega))
  | succ fuel ih =>
    rw [initRun]
    by_cases hpos : remaining > 0
    · rw [if_pos hpos]
      have hrem : stop - cur = remaining := by omega
      obtain ⟨o, ho, hfit, hloose, hheld⟩ := @Loose.fitOrder s lists cur stop
        (initMaxOrder remaining) h (Nat.min_le_right _ _) (by omega)
      have hpow := Nat.two_pow_pos o
      rw [hrem] at ho
      simp only [ho]
      exact h.next hfit (hheld.release fun x hx => hloose.clear x (.inl hx))
        (fun lists' h' => ih (by omega) h' (by omega))
    · rw [if_neg hpos]
      exact h.nothing (Ico_eq_empty (by omega))

theorem scanFree_spec (s : Pmm) (total n pfn : Nat) : pfn ≤ scanFree s total n pfn ∧
      (∀ x, pfn ≤ x → x < scanFree s total n pfn → x < total ∧ s.bitmap.testBit x = false) ∧
      (0 < n → pfn < total → s.bitmap.testBit pfn = false → pfn < scanFree s total n pfn) := by
  induction n generalizing pfn with
  | zero =>
    simp only [scanFree]
    exact ⟨le_rfl, fun x h1 h2 => by omega, by omega⟩
  | succ n ih =>
    rw [scanFree]
    split_ifs with hc
    · obtain ⟨h1, h2, _⟩ := ih (pfn + 1)
      refine ⟨by omega, fun x hx1 hx2 => ?_, fun _ _ _ => by omega⟩
      by_cases hx : x = pfn
      · rw [hx]
        exact hc
      · exact h2 x (by omega) hx2
    · exact ⟨le_rfl, fun x h1 h2 => by omega, fun _ h1 h2 => absurd ⟨h1, h2⟩ hc⟩

def clearBelow (b : Bitmap) (n : Nat) : Set Nat := {x | x < n ∧ b.bit x = false}

theorem mem_clearBelow {b : Bitmap} {x : Nat} : x ∈ clearBelow b n ↔ x < n ∧ b.bit x = false :=
  Iff.rfl

theorem clearBelow_succ_of_set {b : Bitmap} (hbit : b.bit pfn = true) :
    clearBelow b (pfn + 1) = clearBelow b pfn := by
  ext x
  rw [mem_clearBelow, mem_clearBelow]
  refine ⟨fun hx => ⟨?_, hx.2⟩, fun hx => ⟨by omega, hx.2⟩⟩
  by_contra hc
  have hxp : x = pfn := by omega
  rw [hxp, hbit] at hx
  exact absurd hx.2 (by decide)

theorem clearBelow_of_run {b : Bitmap} {r : Nat} (hle : pfn ≤ r)
    (hclear : ∀ x, pfn ≤ x → x < r → b.bit x = false) :
    Set.Ico pfn r ∪ clearBelow b pfn = clearBelow b r := by
  ext x
  rw [mem_union, mem_Ico, mem_clearBelow, mem_clearBelow]
  constructor
  · rintro (hx | hx)
    · exact ⟨hx.2, hclear x hx.1 hx.2⟩
    · exact ⟨by omega, hx.2⟩
  · rintro ⟨hx1, hx2⟩
    by_cases hxp : x < pfn
    · exact .inr ⟨hxp, hx2⟩
    · exact .inl ⟨by omega, hx1⟩

theorem initLoop_spec {total : Nat} (h : FreeLists s lists)
    (ht : s.info.totalPages = total) (hsize : ∀ x < total, x / 32 < s.bitmap.size)
    (hfuel : total - pfn ≤ fuel) (hle : pfn ≤ total)
    (hcov : cover lists = clearBelow s.bitmap pfn) :
    ∃ lists', FreeLists (initLoop total fuel s pfn) lists' ∧
      cover lists' = clearBelow s.bitmap total ∧ ListsOnly s (initLoop total fuel s pfn) := by
  have htest : ∀ x < total, s.bitmap.testBit x = s.bitmap.bit x := by
    intro x hx
    simp [Bitmap.testBit, hsize x hx]
  induction fuel generalizing s lists pfn with
  | zero =>
    have hpt : pfn = total := by omega
    exact ⟨lists, h, by rw [hcov, hpt], ListsOnly.refl s⟩
  | succ fuel ih =>
    rw [initLoop]
    by_cases hlt : pfn < total
    · rw [if_pos hlt]
      by_cases hbit : s.bitmap.testBit pfn = true
      · rw [if_pos hbit]
        rw [htest pfn hlt] at hbit
        apply ih h ht hsize (by omega) hlt _ htest
        rw [hcov, clearBelow_succ_of_set hbit]
      · rw [if_neg hbit]
        have hbit : s.bitmap.testBit pfn = false := by simpa using hbit
        obtain ⟨h1, h2, h3⟩ := scanFree_spec s total (total - pfn) pfn
        have h3 := h3 (by omega) hlt hbit
        generalize scanFree s total (total - pfn) pfn = r at h1 h2 h3 ⊢
        have hr : r ≤ total := by
          have := h2 (r - 1) (by omega) (by omega)
          omega
        have hclear : ∀ x, pfn ≤ x → x < r → s.bitmap.bit x = false := by
          intro x hx1 hx2
          have := h2 x hx1 hx2
          rw [← htest x this.1]
          exact this.2
        have hloose : Loose s lists (Set.Ico pfn r) := by
          refine ⟨h, fun x hx => ht ▸ Nat.lt_of_lt_of_le hx.2 hr, fun x hx hx' => ?_, ?_⟩
          · rw [hcov] at hx'
            exact Nat.not_lt.mpr hx.1 hx'.1
          · rintro x (hx | hx)
            · exact hclear x hx.1 hx.2
            · rw [hcov] at hx
              exact hx.2
        obtain ⟨lists', hf, hcov', honly⟩ :=
          initRun_spec (Nat.add_sub_cancel' h1) hloose le_rfl
        have hcov'' : cover lists' = clearBelow s.bitmap r := by
          rw [hcov', hcov, clearBelow_of_run (by omega) hclear]
        have hnext := @ih (initRun (r - pfn) s pfn (r - pfn)) r lists' hf
        rw [honly.bitmap, honly.info] at hnext
        obtain ⟨lists'', hf', hc', honly'⟩ := hnext ht hsize (by omega) hr hcov'' htest
        exact ⟨lists'', hf', hc', honly.trans honly'⟩
    · rw [if_neg hlt]
      have hpt : pfn = total := by omega
      exact ⟨lists, h, by rw [hcov, hpt], ListsOnly.refl s⟩

end AntX.Mm
