import AntX.Mm.Pmm
import Mathlib.Data.Set.Lattice
import Mathlib.Order.CompletePartialOrder

/-! The free lists against the order metadata. `cover` is the set of pages that lie in free blocks;
a block taken off the lists or about to go back is `Held`. -/

namespace AntX.Mm

open Lib Lib.Links Function
open Chains hiding relink

def cover (lists : Nat → List Nat) : Set Nat := {x | ∃ o, ∃ p ∈ lists o, x ∈ block p o}

structure ListsOk (memSize total : Nat) (isReady : Bool) (links : Links Nat) (heads : Nat → Option Nat)
    (orders : Nat → Nat) (lists : Nat → List Nat) : Prop where
  ram : total * pageSize ≤ memSize
  ready : isReady = true
  chains : Chains links heads lists
  tag : ∀ o p, p ∈ lists o ↔ p < total ∧ o ≤ maxBuddyOrder ∧ orders p = o
  vals : ∀ p < total, orders p ≤ maxBuddyOrder ∨ orders p = buddyAllocated
  fits : ∀ o, ∀ p ∈ lists o, p % 2 ^ o = 0 ∧ p + 2 ^ o ≤ total
  apart : ∀ o, ∀ p ∈ lists o, ∀ o', ∀ p' ∈ lists o', ∀ x, x ∈ block p o → x ∈ block p' o' → p = p'

def FreeLists (s : Pmm) : (Nat → List Nat) → Prop :=
  ListsOk s.memSize s.info.totalPages s.metaReady s.links s.heads s.buddyMeta

def ListsOnly (s s' : Pmm) : Prop :=
  ∃ meta' heads' links', s' = { s with buddyMeta := meta', heads := heads', links := links' }

theorem ListsOnly.refl (s : Pmm) : ListsOnly s s := ⟨_, _, _, rfl⟩

theorem ListsOnly.trans {s s' s'' : Pmm} (h : ListsOnly s s') (h' : ListsOnly s' s'') :
    ListsOnly s s'' := by
  obtain ⟨m, hd, l, rfl⟩ := h
  obtain ⟨m', hd', l', rfl⟩ := h'
  exact ⟨m', hd', l', rfl⟩

theorem ListsOnly.bitmap {s s' : Pmm} (h : ListsOnly s s') : s'.bitmap = s.bitmap := by
  obtain ⟨_, _, _, rfl⟩ := h
  rfl

theorem ListsOnly.info {s s' : Pmm} (h : ListsOnly s s') : s'.info = s.info := by
  obtain ⟨_, _, _, rfl⟩ := h
  rfl

section Cover

variable {lists : Nat → List Nat} {o p : Nat}

theorem block_subset_cover (hp : p ∈ lists o) : block p o ⊆ cover lists :=
  fun _ hx => ⟨o, p, hp, hx⟩

theorem cover_cons (lists : Nat → List Nat) (o p : Nat) :
    cover (update lists o (p :: lists o)) = block p o ∪ cover lists := by
  ext x
  constructor
  · rintro ⟨o', p', hp', hx⟩
    rcases mem_cons_iff.mp hp' with ⟨rfl, rfl⟩ | hp'
    · exact .inl hx
    · exact .inr ⟨o', p', hp', hx⟩
  · rintro (hx | ⟨o', p', hp', hx⟩)
    · exact ⟨o, p, mem_cons_iff.mpr (.inl ⟨rfl, rfl⟩), hx⟩
    · exact ⟨o', p', mem_cons_iff.mpr (.inr hp'), hx⟩

end Cover

namespace FreeLists

variable {s : Pmm} {lists : Nat → List Nat} {o p : Nat}

section

variable (h : FreeLists s lists)

include h

theorem inRam (hp : p < s.info.totalPages) : s.inRam p = true := by
  have hr := h.ram
  have := Nat.mul_lt_mul_of_pos_right hp (show 0 < pageSize by decide)
  exact decide_eq_true (Nat.lt_of_lt_of_le this hr)

theorem cover_below {x : Nat} (hx : x ∈ cover lists) : x < s.info.totalPages := by
  obtain ⟨o, p, hp, hx⟩ := hx
  have := (h.fits o p hp).2
  have := (mem_block.mp hx).2
  omega

theorem cover_erase (hp : p ∈ lists o) :
    cover (update lists o ((lists o).erase p)) = cover lists \ block p o := by
  ext x
  constructor
  · rintro ⟨o', p', hp', hx⟩
    have hmem := (h.chains.mem_erase_iff hp).mp hp'
    exact ⟨⟨o', p', hmem.1, hx⟩, fun hx' => hmem.2 (h.apart o' p' hmem.1 o p hp x hx hx')⟩
  · rintro ⟨⟨o', p', hp', hx⟩, hn⟩
    refine ⟨o', p', (h.chains.mem_erase_iff hp).mpr ⟨hp', ?_⟩, hx⟩
    rintro rfl
    exact hn (h.chains.apart _ _ _ hp' hp ▸ hx)

theorem remove (hp : p ∈ lists o) : FreeLists ((s.buddyListRemove p o).writeMeta p buddyAllocated)
      (update lists o ((lists o).erase p)) := by
  have hlt := ((h.tag o p).mp hp).1
  have hram := h.inRam hlt
  simp only [Pmm.buddyListRemove, hram, Bool.not_true, Bool.false_eq_true, if_false, Pmm.writeMeta, FreeLists]
  constructor
  · exact h.ram
  · exact h.ready
  · exact h.chains.relink hp
  · intro o' p'
    by_cases hpp : p' = p
    · subst hpp
      rw [update_self]
      refine iff_of_false (fun hm => ((h.chains.mem_erase_iff hp).mp hm).2 rfl) (fun hx => ?_)
      simp only [maxBuddyOrder, buddyAllocated] at *
      omega
    · rw [update_of_ne hpp, ← h.tag o' p', h.chains.mem_erase_iff hp]
      exact and_iff_left hpp
  · intro p' hp'
    by_cases hpp : p' = p
    · subst hpp
      exact .inr (by rw [update_self])
    · rw [update_of_ne hpp]
      exact h.vals p' hp'
  · intro o' p' hp'
    exact h.fits o' p' ((h.chains.mem_erase_iff hp).mp hp').1
  · intro o' p' hp' o'' p'' hp''
    exact h.apart o' p' ((h.chains.mem_erase_iff hp).mp hp').1 o'' p'' ((h.chains.mem_erase_iff hp).mp hp'').1

theorem meta_inside (hp : p ∈ lists o) {x : Nat} (hx : x ∈ block p o) (hne : x ≠ p) :
    s.buddyMeta x = buddyAllocated := by
  have hlt := h.cover_below (block_subset_cover hp hx)
  refine (h.vals x hlt).resolve_left (fun hle => ?_)
  have hm := (h.tag (s.buddyMeta x) x).mpr ⟨hlt, hle, rfl⟩
  exact hne (h.apart _ x hm o p hp x (self_mem_block x _) hx)

theorem pop_eq_remove (hh : s.heads o = some p) :
    p ∈ lists o ∧ s.buddyListPop o = (s.buddyListRemove p o, some p) := by
  have hc := h.chains.chain o
  have hhead := hc.head_eq
  rw [hh] at hhead
  obtain ⟨r, hr⟩ : ∃ r, lists o = p :: r := by
    cases hl : lists o with
    | nil => simp [hl] at hhead
    | cons q r => exact ⟨r, by simpa [hl, eq_comm] using hhead⟩
  have hp : p ∈ lists o := by simp [hr]
  have hprev : s.links.prev p = none := by
    rw [hr] at hc
    exact hc.2.1
  have hram := h.inRam ((h.tag o p).mp hp).1
  refine ⟨hp, ?_⟩
  simp [Pmm.buddyListPop, Pmm.buddyListRemove, hh, hram, hprev, relink, setNext?]

theorem push (ho : o ≤ maxBuddyOrder) (ha : p % 2 ^ o = 0) (hb : p + 2 ^ o ≤ s.info.totalPages)
    (hd : ∀ x ∈ block p o, x ∉ cover lists) :
    FreeLists ((s.writeMeta p o).buddyListPush p o) (update lists o (p :: lists o)) := by
  have hnew : ∀ o', p ∉ lists o' := fun o' hp =>
    hd p (self_mem_block p o) (block_subset_cover hp (self_mem_block p o'))
  have hlt : p < s.info.totalPages := by
    omega
  simp only [Pmm.buddyListPush, Pmm.writeMeta, FreeLists]
  constructor
  · exact h.ram
  · exact h.ready
  · exact h.chains.pushFront hnew
  · intro o' p'
    by_cases hpp : p' = p
    · subst hpp
      rw [update_self]
      rw [mem_cons_iff]
      constructor
      · rintro (⟨rfl, _⟩ | hm)
        · exact ⟨hlt, ho, rfl⟩
        · exact absurd hm (hnew o')
      · rintro ⟨_, _, rfl⟩
        exact .inl ⟨rfl, rfl⟩
    · rw [update_of_ne hpp, ← h.tag o' p', mem_cons_iff]
      exact or_iff_right (fun hc => hpp hc.2)
  · intro p' hp'
    by_cases hpp : p' = p
    · subst hpp
      exact .inl (by rwa [update_self])
    · rw [update_of_ne hpp]
      exact h.vals p' hp'
  · intro o' p' hp'
    rcases mem_cons_iff.mp hp' with ⟨rfl, rfl⟩ | hp'
    · exact ⟨ha, hb⟩
    · exact h.fits o' p' hp'
  · intro o' p' hp' o'' p'' hp'' x hx hx'
    rcases mem_cons_iff.mp hp' with ⟨rfl, rfl⟩ | hq <;> rcases mem_cons_iff.mp hp'' with ⟨rfl, rfl⟩ | hq'
    · rfl
    · exact absurd (block_subset_cover hq' hx') (hd x hx)
    · exact absurd (block_subset_cover hq hx) (hd x hx')
    · exact h.apart o' p' hq o'' p'' hq' x hx hx'

end

end FreeLists

end AntX.Mm
