import AntX.Lib.Run
import AntX.Mm.PmmSound

/-! Whole runs of the page allocator. A run is proper when every call that gives back names an entry
of the ledger of extents handed out. -/

namespace AntX.Mm

open Lib Lib.Links

inductive Grant
  | page (addr : Nat)
  | pages (addr count : Nat)
  | range (base size : Nat)
  | huge (addr : Nat) (sizeType : PageSize)
deriving DecidableEq, Repr

namespace Grant

def start : Grant → Nat
  | page addr => physToPage addr
  | pages addr _ => physToPage addr
  | range base _ => physToPage base
  | huge addr _ => physToPage addr

def taken : Grant → Nat
  | page _ => 1
  | pages _ count => 2 ^ countToOrder count
  | range _ size => size / pageSize
  | huge _ sizeType => sizeType.size / pageSize

def asked : Grant → Nat
  | page _ => 1
  | pages _ count => count
  | range _ size => size / pageSize
  | huge _ sizeType => sizeType.size / pageSize

def takenPages (g : Grant) : Set Nat := Set.Ico g.start (g.start + g.taken)

def askedPages (g : Grant) : Set Nat := Set.Ico g.start (g.start + g.asked)

end Grant

inductive PmmOp
  | allocPage
  | allocPages (policy : AllocContext → AllocDecision) (count : Nat)
  | freePage (addr : Nat)
  | freePages (addr count : Nat)
  | reserveRange (base size : Nat)
  | unreserveRange (base size : Nat)
  | allocHugePage (policy : AllocContext → AllocDecision) (sizeType : PageSize)
  | freeHugePage (addr : Nat) (sizeType : PageSize)
  /-- The owner of a page writes where a free-list node would lie. -/
  | clientWrite (page : Nat) (next prev : Option Nat)

structure PmmSys where
  pmm : Pmm
  grants : List Grant

def PmmSys.boot (memSize kernelEnd reserved : Nat) : PmmSys :=
  { pmm := Pmm.boot memSize kernelEnd reserved, grants := [] }

def granted (grants : List Grant) (mk : Nat → Grant) : Pmm × Option Nat → PmmSys
  | (s, none) => { pmm := s, grants }
  | (s, some a) => { pmm := s, grants := mk a :: grants }

def pmmStep (sys : PmmSys) : PmmOp → PmmSys
  | .allocPage => granted sys.grants .page sys.pmm.allocPage
  | .allocPages policy count =>
    granted sys.grants (.pages · count) (sys.pmm.allocPages policy count)
  | .freePage addr =>
    { pmm := sys.pmm.freePage addr, grants := sys.grants.erase (.page addr) }
  | .freePages addr count =>
    { pmm := sys.pmm.freePages addr count, grants := sys.grants.erase (.pages addr count) }
  | .reserveRange base size =>
    match sys.pmm.reserveRange base size with
    | (s, .ok ()) => { pmm := s, grants := .range base size :: sys.grants }
    | (s, .error _) => { pmm := s, grants := sys.grants }
  | .unreserveRange base size =>
    match sys.pmm.unreserveRange base size with
    | (s, .ok ()) => { pmm := s, grants := sys.grants.erase (.range base size) }
    | (s, .error _) => { pmm := s, grants := sys.grants }
  | .allocHugePage policy sizeType =>
    granted sys.grants (.huge · sizeType) (sys.pmm.allocHugePage policy sizeType)
  | .freeHugePage addr sizeType =>
    { pmm := sys.pmm.freeHugePage addr sizeType, grants := sys.grants.erase (.huge addr sizeType) }
  | .clientWrite page next prev =>
    { sys with pmm := { sys.pmm with links := (sys.pmm.links.setNext page next).setPrev page prev } }

/-- What is given back is outstanding from the matching call, and clients write
to pages in use only. -/
def Matching (sys : PmmSys) : PmmOp → Prop
  | .freePage addr => .page addr ∈ sys.grants
  | .freePages addr count => .pages addr count ∈ sys.grants
  | .unreserveRange base size => .range base size ∈ sys.grants
  | .freeHugePage addr sizeType => .huge addr sizeType ∈ sys.grants
  | .clientWrite page _ _ =>
    page < sys.pmm.info.totalPages → sys.pmm.bitmap.bit page = true
  | _ => True

instance (sys : PmmSys) : (op : PmmOp) → Decidable (Matching sys op)
  | .freePage _ | .freePages .. | .unreserveRange .. | .freeHugePage .. => inferInstanceAs (Decidable (_ ∈ _))
  | .clientWrite .. => inferInstanceAs (Decidable (_ → _))
  | .allocPage | .allocPages .. | .reserveRange .. | .allocHugePage .. => isTrue trivial

def Grant.Aligned : Grant → Prop
  | page _ => True
  | pages addr count => count ≠ 0 ∧ physToPage addr % 2 ^ countToOrder count = 0
  | range _ _ => True
  | huge addr .size2M => physToPage addr % 2 ^ countToOrder 512 = 0
  | huge _ _ => True

structure GrantOk (s : Pmm) (g : Grant) : Prop where
  below : 1 ≤ g.start ∧ g.start + g.taken ≤ s.info.totalPages
  aligned : g.Aligned
  marked : ∀ x ∈ g.takenPages, s.bitmap.bit x = true

structure PmmInv (sys : PmmSys) : Prop where
  sound : PmmSound sys.pmm
  zero : 0 < sys.pmm.info.totalPages → sys.pmm.bitmap.bit 0 = true
  grant : ∀ g ∈ sys.grants, GrantOk sys.pmm g
  apart : sys.grants.Pairwise (fun g g' => Disjoint g.takenPages g'.takenPages)

inductive Effect (sys : PmmSys) (leaky : Prop) : PmmSys → Prop
  | keep {s' : Pmm} (sound : PmmSound s') (bitmap : s'.bitmap = sys.pmm.bitmap)
      (info : s'.info = sys.pmm.info) : Effect sys leaky { pmm := s', grants := sys.grants }
  | take {s' : Pmm} {g : Grant} (takes : Takes sys.pmm s' g.start g.taken) (pos : 0 < g.taken)
      (aligned : g.Aligned) : Effect sys leaky { pmm := s', grants := g :: sys.grants }
  | give {s' : Pmm} {g : Grant} (mem : g ∈ sys.grants) (returns : Returns sys.pmm s' g.start g.taken)
      (info : s'.info = (sys.pmm.statsFree g.taken).info ∨ leaky ∧ s'.info = sys.pmm.info) :
      Effect sys leaky { pmm := s', grants := sys.grants.erase g }

theorem physToPage_pageToPhys (p : Nat) : physToPage (pageToPhys p) = p :=
  Nat.mul_div_cancel p (by decide)

theorem countToOrder_le (count : Nat) : countToOrder count ≤ maxBuddyOrder := by
  unfold countToOrder
  simp only
  split_ifs <;> omega

variable {addr o : Nat} {sys : PmmSys} {ops : List PmmOp} {g : Grant} {policy : AllocContext → AllocDecision}

namespace PmmInv

variable {sys : PmmSys} {s' : Pmm} {g : Grant} {leaky : Prop}

section

variable (h : PmmInv sys)

include h

theorem take (ht : Takes sys.pmm s' g.start g.taken) (hpos : 0 < g.taken) (ha : g.Aligned) :
    PmmInv { pmm := s', grants := g :: sys.grants } := by
  have htotal : s'.info.totalPages = sys.pmm.info.totalPages := by rw [ht.info]; rfl
  have hkeep : ∀ x, sys.pmm.bitmap.bit x = true → s'.bitmap.bit x = true := by
    intro x hx
    rw [ht.bitmap]
    exact writeRange_true_of_bit hx _ _
  have hstart : 1 ≤ g.start := by
    by_contra hc
    have hz := ht.wasFree 0 (by omega) (by omega)
    have := h.zero (by have := ht.below; omega)
    rw [hz] at this
    exact absurd this (by decide)
  have hnew : ∀ x ∈ g.takenPages, sys.pmm.bitmap.bit x = false := fun x hx => ht.wasFree x hx.1 hx.2
  constructor
  · exact ht.sound
  · intro hz
    exact hkeep 0 (h.zero (by rw [htotal] at hz; exact hz))
  · intro g' hg'
    rcases List.mem_cons.mp hg' with rfl | hg'
    · refine ⟨htotal ▸ ⟨hstart, ht.below⟩, ha, fun x hx => ?_⟩
      have hlt : x < sys.pmm.info.totalPages := by
        have := ht.below
        have := hx.2
        omega
      rw [ht.bitmap, Bitmap.writeRange_bit, if_pos ⟨hx.1, hx.2, h.sound.size x hlt⟩]
    · have hold := h.grant g' hg'
      exact ⟨htotal ▸ hold.below, hold.aligned, fun x hx => hkeep x (hold.marked x hx)⟩
  · refine List.pairwise_cons.mpr ⟨fun g' hg' => ?_, h.apart⟩
    refine Set.disjoint_left.mpr (fun x hx hx' => ?_)
    have := (h.grant g' hg').marked x hx'
    rw [hnew x hx] at this
    exact absurd this (by decide)

theorem giveBack (hg : g ∈ sys.grants) (hr : Returns sys.pmm s' g.start g.taken) :
    PmmInv { pmm := s', grants := sys.grants.erase g } := by
  have hperm := List.perm_cons_erase hg
  obtain ⟨hfirst, hrest⟩ := List.pairwise_cons.mp
    ((hperm.pairwise_iff (fun hd => Disjoint.symm hd)).mp h.apart)
  have hsub : ∀ g' ∈ sys.grants.erase g, g' ∈ sys.grants := fun g' => List.mem_of_mem_erase
  have hkeep : ∀ x, x ∉ g.takenPages → s'.bitmap.bit x = sys.pmm.bitmap.bit x := by
    intro x hx
    rw [hr.bitmap, Bitmap.writeRange_bit, if_neg (fun hc => hx ⟨hc.1, hc.2.1⟩)]
  constructor
  · exact hr.sound
  · intro hz
    rw [hr.total] at hz
    rw [hkeep 0]
    · exact h.zero hz
    · intro hx
      have := (h.grant g hg).below.1
      have := hx.1
      omega
  · intro g' hg'
    have hold := h.grant g' (hsub g' hg')
    refine ⟨hr.total ▸ hold.below, hold.aligned, fun x hx => ?_⟩
    rw [hkeep x (fun hx' => Set.disjoint_left.mp (hfirst g' hg') hx' hx)]
    exact hold.marked x hx
  · exact hrest

theorem marked_at (hg : g ∈ sys.grants) :
    ∀ x, g.start ≤ x → x < g.start + g.taken → sys.pmm.bitmap.bit x = true :=
  fun x h1 h2 => (h.grant g hg).marked x ⟨h1, h2⟩

omit h in
theorem addr_ne_zero (h : 1 ≤ physToPage addr) : addr ≠ 0 := by
  rintro rfl
  simp [physToPage] at h

theorem idle : Effect sys leaky sys := .keep h.sound rfl rfl

theorem doAlloc_effect (ho : o ≤ maxBuddyOrder) (mk : Nat → Grant)
    (hmk : ∀ p, (mk (pageToPhys p)).start = p ∧ (mk (pageToPhys p)).taken = 2 ^ o)
    (ha : ∀ p, p % 2 ^ o = 0 → (mk (pageToPhys p)).Aligned) :
    Effect sys leaky (granted sys.grants mk (sys.pmm.doAlloc o)) := by
  rcases doAlloc_spec h.sound ho with ⟨he, _⟩ | ⟨s', p, he, ht, hp, _⟩
  · rw [he]
    exact h.idle
  · rw [he]
    refine .take ?_ ?_ (ha p hp)
    · rw [(hmk p).1, (hmk p).2]
      exact ht
    · rw [(hmk p).2]
      exact Nat.two_pow_pos o

theorem allocPages_effect (policy : AllocContext → AllocDecision) (count : Nat) (mk : Nat → Grant)
    (hmk : ∀ p, (mk (pageToPhys p)).start = p ∧ (mk (pageToPhys p)).taken = 2 ^ countToOrder
      count) (ha : ∀ p, count ≠ 0 → p % 2 ^ countToOrder count = 0 → (mk (pageToPhys p)).Aligned) :
    Effect sys leaky (granted sys.grants mk (sys.pmm.allocPages policy count)) := by
  unfold Pmm.allocPages
  split_ifs with hz
  · exact h.idle
  · simp only
    split
    · exact h.doAlloc_effect (countToOrder_le count) mk hmk (fun p => ha p hz)
    · exact h.idle
    · exact h.idle

theorem doFree_effect (ho : o ≤ maxBuddyOrder) (hg : g ∈ sys.grants)
    (hs : g.start = physToPage addr) (ht : g.taken = 2 ^ o) (ha : physToPage addr % 2 ^ o = 0) :
    Effect sys leaky { pmm := sys.pmm.doFree addr o, grants := sys.grants.erase g } := by
  have hb := (h.grant g hg).below.2
  have hm := h.marked_at hg
  rw [hs, ht] at hb hm
  obtain ⟨hr, hinfo⟩ := doFree_spec h.sound ho ha hb hm
  refine .give hg ?_ (.inl ?_)
  · rw [hs, ht]
    exact hr
  · rw [ht]
    exact hinfo

theorem freePages_effect {count : Nat} (hc : count ≠ 0) (hg : g ∈ sys.grants)
    (hs : g.start = physToPage addr) (ht : g.taken = 2 ^ countToOrder count)
    (ha : physToPage addr % 2 ^ countToOrder count = 0) :
    Effect sys leaky { pmm := sys.pmm.freePages addr count, grants := sys.grants.erase g } := by
  have hpos := (h.grant g hg).below.1
  rw [hs] at hpos
  rw [Pmm.freePages, if_neg (by simp [addr_ne_zero hpos, hc])]
  exact h.doFree_effect (countToOrder_le count) hg hs ht ha

theorem freePage_effect (hg : g ∈ sys.grants) (hs : g.start = physToPage addr) (ht : g.taken = 1) :
    Effect sys leaky { pmm := sys.pmm.freePage addr, grants := sys.grants.erase g } := by
  have hpos := (h.grant g hg).below.1
  rw [hs] at hpos
  rw [Pmm.freePage, if_neg (addr_ne_zero hpos)]
  exact h.doFree_effect (Nat.zero_le _) hg hs ht (Nat.mod_one _)

theorem allocHugePage_effect (policy : AllocContext → AllocDecision) (sizeType : PageSize) : Effect sys leaky
      (granted sys.grants (.huge · sizeType) (sys.pmm.allocHugePage policy sizeType)) := by
  cases sizeType with
  | size4K =>
    exact h.doAlloc_effect (Nat.zero_le _) _ (fun p => ⟨physToPage_pageToPhys p, rfl⟩) (fun _ _ => trivial)
  | size2M =>
    refine h.allocPages_effect policy 512 _ (fun p => ⟨physToPage_pageToPhys p, rfl⟩) (fun p _ hp => ?_)
    rw [Grant.Aligned, physToPage_pageToPhys]
    exact hp
  | size1G =>
    rcases directAllocLoop_cases h.sound (PageSize.size1G.size / pageSize)
      (PageSize.size1G.size / pageSize) (sys.pmm.info.totalPages + 1)
      (PageSize.size1G.size / pageSize) with he | ⟨s', p, he, ht⟩
    · rw [Pmm.allocHugePage, Pmm.buddyDirectAllocAligned, he]
      exact h.idle
    · rw [Pmm.allocHugePage, Pmm.buddyDirectAllocAligned, he]
      refine .take ?_ (show 0 < PageSize.size1G.size / pageSize by decide) trivial
      rw [Grant.start, physToPage_pageToPhys]
      exact ht

theorem freeHuge1G_returns (hg : Grant.huge addr .size1G ∈ sys.grants) :
    Returns sys.pmm (sys.pmm.freeHugePage addr .size1G) (physToPage addr) (PageSize.size1G.size / pageSize) ∧
      (sys.pmm.freeHugePage addr .size1G).info = sys.pmm.info := by
  obtain ⟨lists, hloose, hreturns⟩ := loose_clearRange h.sound (h.grant _ hg).below.2 (h.marked_at hg)
  exact hreturns _ (freeInsertRange_spec hloose)

theorem clientWrite_effect {page : Nat} (next prev : Option Nat)
    (hm : page < sys.pmm.info.totalPages → sys.pmm.bitmap.bit page = true) :
    Effect sys leaky { sys with pmm := { sys.pmm with
      links := (sys.pmm.links.setNext page next).setPrev page prev } } := by
  obtain ⟨lists, hf, hcov⟩ := h.sound.buddy
  have hout : ∀ o, ∀ y ∈ lists o, y ≠ page := by
    rintro o y hy rfl
    have hc : y ∈ cover lists := block_subset_cover hy (self_mem_block y o)
    rw [hcov] at hc
    have := hm hc.1
    rw [hc.2] at this
    exact absurd this (by decide)
  have hf' : FreeLists { sys.pmm with
      links := (sys.pmm.links.setNext page next).setPrev page prev } lists := by
    refine ⟨hf.ram, hf.ready, ?_, hf.tag, hf.vals, hf.fits, hf.apart⟩
    refine hf.chains.frame ?_ ?_
    all_goals
      intro o y hy
      simp [setNext, setPrev, Function.update_of_ne (hout o y hy)]
  exact .keep ⟨⟨lists, hf', hcov⟩, h.sound.size, h.sound.initialized, h.sound.buddyReady⟩ rfl rfl

end

end PmmInv

def PmmOp.Leaky : PmmOp → Prop
  | .freeHugePage _ .size1G => True
  | _ => False

theorem pmmStep_effect (h : PmmInv sys) (op : PmmOp) (hm : Matching sys op) :
    Effect sys op.Leaky (pmmStep sys op) := by
  cases op with
  | allocPage =>
    exact h.doAlloc_effect (Nat.zero_le _) _ (fun p => ⟨physToPage_pageToPhys p, rfl⟩) (fun _ _ => trivial)
  | allocPages policy count =>
    refine h.allocPages_effect policy count _ (fun p => ⟨physToPage_pageToPhys p, rfl⟩) (fun p hz hp => ?_)
    rw [Grant.Aligned, physToPage_pageToPhys]
    exact ⟨hz, hp⟩
  | freePage addr => exact h.freePage_effect hm rfl rfl
  | freePages addr count =>
    have ha := (h.grant _ hm).aligned
    exact h.freePages_effect ha.1 hm rfl rfl ha.2
  | reserveRange base size =>
    rcases reserveRange_cases h.sound base size with ⟨e, he⟩ | ⟨s', he, ht, hpos⟩
    · simpa only [pmmStep, he] using h.idle
    · simp only [pmmStep, he]
      exact .take (g := .range base size) ht hpos trivial
  | unreserveRange base size =>
    rcases unreserveRange_cases h.sound base size (h.marked_at hm) with ⟨e, he⟩ | ⟨s', he, hr, hi⟩
    · simpa only [pmmStep, he] using h.idle
    · simp only [pmmStep, he]
      exact .give hm hr (.inl hi)
  | allocHugePage policy sizeType => exact h.allocHugePage_effect policy sizeType
  | freeHugePage addr sizeType =>
    cases sizeType with
    | size4K => exact h.freePage_effect hm rfl rfl
    | size2M => exact h.freePages_effect (by decide) hm rfl rfl ((h.grant _ hm).aligned)
    | size1G =>
      obtain ⟨hr, hinfo⟩ := h.freeHuge1G_returns hm
      exact .give hm hr (.inr ⟨trivial, hinfo⟩)
  | clientWrite page next prev => exact h.clientWrite_effect next prev hm

namespace PmmInv

variable {sys sys' : PmmSys} {leaky : Prop}

theorem of_effect (h : PmmInv sys) (he : Effect sys leaky sys') : PmmInv sys' := by
  cases he with
  | keep sound bitmap info =>
    refine ⟨sound, ?_, fun g hg => ?_, h.apart⟩
    · simpa only [bitmap, info] using h.zero
    · obtain ⟨hbelow, haligned, hmarked⟩ := h.grant g hg
      exact ⟨info ▸ hbelow, haligned, bitmap ▸ hmarked⟩
  | take takes pos aligned => exact h.take takes pos aligned
  | give mem returns info => exact h.giveBack mem returns

theorem step (h : PmmInv sys) (op : PmmOp) (hm : Matching sys op) : PmmInv (pmmStep sys op) :=
  h.of_effect (pmmStep_effect h op hm)

theorem boot (memSize kernelEnd reserved : Nat) : PmmInv (PmmSys.boot memSize kernelEnd reserved) := by
  obtain ⟨hs, hbit, htotal⟩ := boot_sound memSize kernelEnd reserved
  refine ⟨hs, fun hz => ?_, by simp [PmmSys.boot], .nil⟩
  simp only [PmmSys.boot, hbit, htotal] at hz ⊢
  exact (bootBitmap_spec memSize kernelEnd reserved).2.1 hz

theorem run (h : PmmInv sys) (hg : Guarded pmmStep Matching sys ops) : PmmInv (Lib.run pmmStep sys ops) :=
  hg.run_invariant h (fun _ op h hm => h.step op hm)

end PmmInv

def PmmOp.AsksWithin : PmmOp → Prop
  | .allocPages _ count => count ≤ 512
  | _ => True

variable {count : Nat}

theorem le_two_pow_countToOrder (h : count ≤ 512) : count ≤ 2 ^ countToOrder count := by
  unfold countToOrder
  by_cases h1 : count ≤ 1
  · rw [if_pos h1]
    exact h1
  · simp only
    split_ifs with h2
    · exact h
    · have := @Nat.lt_log2_self (count - 1)
      omega

theorem countToOrder_large (h : 512 < count) : countToOrder count = maxBuddyOrder := by
  have hlog : maxBuddyOrder ≤ Nat.log2 (count - 1) := by
    rw [Nat.le_log2 (by omega)]
    simp only [maxBuddyOrder]
    omega
  unfold countToOrder
  rw [if_neg (by omega)]
  rw [if_pos (by omega)]

theorem granted_mem {grants : List Grant} {mk : Nat → Grant} {r : Pmm × Option Nat}
    (hg : g ∈ (granted grants mk r).grants) : g ∈ grants ∨ ∃ a, g = mk a := by
  obtain ⟨s, o⟩ := r
  cases o with
  | none => exact .inl hg
  | some a => exact (List.mem_cons.mp hg).symm.imp id (fun h => ⟨a, h⟩)

theorem asked_le_taken_step {op : PmmOp} (h : ∀ g ∈ sys.grants, g.asked ≤ g.taken)
    (hop : op.AsksWithin) : ∀ g ∈ (pmmStep sys op).grants, g.asked ≤ g.taken := by
  intro g hg
  have herase : ∀ g', g ∈ sys.grants.erase g' → g.asked ≤ g.taken :=
    fun g' hg => h g (List.mem_of_mem_erase hg)
  cases op with
  | allocPage | allocHugePage policy sizeType =>
    rcases granted_mem hg with hg | ⟨a, rfl⟩
    · exact h g hg
    · exact le_rfl
  | allocPages policy count =>
    rcases granted_mem hg with hg | ⟨a, rfl⟩
    · exact h g hg
    · exact le_two_pow_countToOrder hop
  | freePage addr | freePages addr count | freeHugePage addr sizeType => exact herase _ hg
  | reserveRange base size =>
    simp only [pmmStep] at hg
    split at hg
    · rcases List.mem_cons.mp hg with rfl | hg
      · exact le_rfl
      · exact h g hg
    · exact h g hg
  | unreserveRange base size =>
    simp only [pmmStep] at hg
    split at hg
    · exact herase _ hg
    · exact h g hg
  | clientWrite page next prev => exact h g hg

theorem asked_le_taken_run (h : ∀ g ∈ sys.grants, g.asked ≤ g.taken)
    (hops : ∀ op ∈ ops, op.AsksWithin) : ∀ g ∈ (run pmmStep sys ops).grants, g.asked ≤ g.taken := by
  induction ops generalizing sys with
  | nil => exact h
  | cons op ops ih =>
    exact ih (asked_le_taken_step h (hops op (by simp))) (fun o ho => hops o (by simp [ho]))

theorem askedPages_subset (h : g.asked ≤ g.taken) : g.askedPages ⊆ g.takenPages :=
  fun _ hx => ⟨hx.1, Nat.lt_of_lt_of_le hx.2 (Nat.add_le_add_left h _)⟩

/-- In every state of a proper run the bitmap, the metadata and the free lists
describe the same pages. While no caller asks for more than the largest block,
the extents handed out are in use and share no page. -/
theorem buddy_run_sound (memSize kernelEnd reserved : Nat) (ops : List PmmOp)
    (hg : Guarded pmmStep Matching (PmmSys.boot memSize kernelEnd reserved) ops) :
    BuddyInv (run pmmStep (PmmSys.boot memSize kernelEnd reserved) ops).pmm ∧ ((∀ op ∈ ops, op.AsksWithin) →
        (run pmmStep (PmmSys.boot memSize kernelEnd reserved) ops).grants.Pairwise
          (fun g g' => Disjoint g.askedPages g'.askedPages) ∧
        ∀ g ∈ (run pmmStep (PmmSys.boot memSize kernelEnd reserved) ops).grants, ∀ x ∈ g.askedPages,
            (run pmmStep (PmmSys.boot memSize kernelEnd reserved) ops).pmm.bitmap.bit x = true) := by
  have h := (PmmInv.boot memSize kernelEnd reserved).run hg
  refine ⟨h.sound.buddy, fun hops => ?_⟩
  have hnone : ∀ g ∈ (PmmSys.boot memSize kernelEnd reserved).grants, g.asked ≤ g.taken := by
    simp [PmmSys.boot]
  have hle := asked_le_taken_run hnone hops
  refine ⟨h.apart.imp_of_mem (fun hg hg' hd => ?_), fun g hg x hx => ?_⟩
  · exact hd.mono (askedPages_subset (hle _ hg)) (askedPages_subset (hle _ hg'))
  · exact (h.grant g hg).marked x (askedPages_subset (hle g hg) hx)

theorem buddy_run_sound_small : BuddyInv (run pmmStep (PmmSys.boot (64 * 4096) 0 0)
      [.reserveRange 0x8000 0x3000, .allocPages (fun _ => .allow) 3, .clientWrite 12 (some 5) none,
        .allocPage, .freePages 0xC000 3, .unreserveRange 0x8000 0x3000]).pmm :=
  (buddy_run_sound (64 * 4096) 0 0 _ (by decide +kernel)).1

/-- A request for 513 pages gets a block of 512 pages; the page behind it goes to
the next caller. -/
theorem buddy_run_shares_page : ¬ ∀ (memSize kernelEnd reserved : Nat) (ops : List PmmOp),
      Guarded pmmStep Matching (PmmSys.boot memSize kernelEnd reserved) ops →
      BuddyInv (run pmmStep (PmmSys.boot memSize kernelEnd reserved) ops).pmm ∧
        (run pmmStep (PmmSys.boot memSize kernelEnd reserved) ops).grants.Pairwise
          (fun g g' => Disjoint g.askedPages g'.askedPages) := by
  intro h
  have hd := (h (1025 * 4096) 0 0 [.allocPages (fun _ => .allow) 513, .allocPage]
    ⟨trivial, trivial, trivial⟩).2
  have he : (run pmmStep (PmmSys.boot (1025 * 4096) 0 0)
      [.allocPages (fun _ => .allow) 513, .allocPage]).grants =
      [.page (1024 * 4096), .pages (512 * 4096) 513] := by decide +kernel
  rw [he] at hd
  have hdis := (List.pairwise_cons.mp hd).1 (.pages (512 * 4096) 513) (by simp)
  exact Set.disjoint_left.mp hdis (show 1024 ∈ _ from ⟨by decide, by decide⟩) ⟨by decide, by decide⟩

/-- If the call returns an address, the pages asked for were free and are in use
now, and as long as the extent is outstanding no other call holds one of them. -/
def AllocGives (policy : AllocContext → AllocDecision) (sys : PmmSys) (count : Nat) : Prop :=
  ∀ a, (sys.pmm.allocPages policy count).2 = some a → (∀ x, physToPage a ≤ x → x < physToPage a + count →
      (x < sys.pmm.info.totalPages ∧ sys.pmm.bitmap.bit x = false) ∧
        (sys.pmm.allocPages policy count).1.bitmap.bit x = true) ∧
    ∀ ops, Guarded pmmStep Matching (pmmStep sys (.allocPages policy count)) ops →
      .pages a count ∈ (run pmmStep (pmmStep sys (.allocPages policy count)) ops).grants →
      ∀ g ∈ (run pmmStep (pmmStep sys (.allocPages policy count)) ops).grants.erase (.pages a count),
        ∀ x, physToPage a ≤ x → x < physToPage a + count → x ∉ g.takenPages

theorem allocPages_cases {s : Pmm} (h : PmmSound s) (policy : AllocContext → AllocDecision) (hc : count ≠ 0) :
    (s.allocPages policy count = (s, none) ∧ (policy (s.allocContext (2 ^ countToOrder count)) ≠ .allow ∨
        s.heads maxBuddyOrder = none)) ∨
      ∃ s' p, s.allocPages policy count = (s', some (pageToPhys p)) ∧ Takes s s' p (2 ^ countToOrder count) ∧
        policy (s.allocContext (2 ^ countToOrder count)) = .allow ∧
        ∃ o', countToOrder count ≤ o' ∧ o' ≤ maxBuddyOrder ∧ s.heads o' ≠ none := by
  unfold Pmm.allocPages
  rw [if_neg hc]
  simp only
  cases hp : policy (s.allocContext (2 ^ countToOrder count)) with
  | deny | retryAfterReclaim => exact .inl ⟨rfl, .inl (by decide)⟩
  | allow =>
    rcases doAlloc_spec h (countToOrder_le count) with ⟨he, hn⟩ | ⟨s', p, he, ht, _, hs⟩
    · exact .inl ⟨he, .inr (hn _ (countToOrder_le count) le_rfl)⟩
    · exact .inr ⟨s', p, he, ht, rfl, hs⟩

theorem allocGives_of_le (h : PmmInv sys) (hc : count ≠ 0) (hle : count ≤ 512) :
    AllocGives policy sys count := by
  intro a ha
  have hpow := le_two_pow_countToOrder hle
  rcases allocPages_cases h.sound policy hc with ⟨he, _⟩ | ⟨s', p, he, ht, _, _⟩
  · rw [he] at ha
    exact absurd ha (by simp)
  · rw [he] at ha ⊢
    cases ha
    rw [physToPage_pageToPhys]
    constructor
    · intro x h1 h2
      have hlt : x < sys.pmm.info.totalPages := by
        have := ht.below
        omega
      refine ⟨⟨hlt, ht.wasFree x h1 (by omega)⟩, ?_⟩
      rw [ht.bitmap, Bitmap.writeRange_bit, if_pos ⟨h1, by omega, h.sound.size x hlt⟩]
    · intro ops hg hmem g hge x h1 h2 hx
      have hlater := (h.step (.allocPages policy count) trivial).run hg
      obtain ⟨hfirst, _⟩ := List.pairwise_cons.mp
        (((List.perm_cons_erase hmem).pairwise_iff (fun hd => Disjoint.symm hd)).mp hlater.apart)
      refine Set.disjoint_left.mp (hfirst g hge) ?_ hx
      rw [Grant.takenPages, Grant.start, physToPage_pageToPhys]
      exact ⟨h1, Nat.lt_of_lt_of_le h2 (Nat.add_le_add_left hpow _)⟩

theorem not_allocGives_of_large {count a : Nat} (h : PmmInv sys) (hc : 512 < count)
    (ha : (sys.pmm.allocPages policy count).2 = some a) : ¬ AllocGives policy sys count := by
  intro hgive
  have ho := countToOrder_large hc
  rcases allocPages_cases h.sound policy (show count ≠ 0 by omega) with ⟨he, _⟩ | ⟨s', p, he, ht, _⟩
  · rw [he] at ha
    exact absurd ha (by simp)
  · have hpage := (hgive (pageToPhys p) (by rw [he])).1 (p + 512)
      (by rw [physToPage_pageToPhys]; omega) (by rw [physToPage_pageToPhys]; omega)
    have hset := hpage.2
    rw [he, ht.bitmap, Bitmap.writeRange_bit, ho, if_neg (by simp [maxBuddyOrder]), hpage.1.2] at hset
    exact absurd hset (by decide)

/-- The pages asked for are delivered exactly when they fit the largest block or
the call returns nothing. -/
theorem alloc_pages_gives_iff (memSize kernelEnd reserved : Nat) (ops : List PmmOp)
    (hg : Guarded pmmStep Matching (PmmSys.boot memSize kernelEnd reserved) ops)
    (policy : AllocContext → AllocDecision) (count : Nat) (hc : 1 ≤ count) :
    AllocGives policy (run pmmStep (PmmSys.boot memSize kernelEnd reserved) ops) count ↔ count ≤ 512 ∨
      policy ((run pmmStep (PmmSys.boot memSize kernelEnd reserved) ops).pmm.allocContext
        (2 ^ countToOrder count)) ≠ .allow ∨
      (run pmmStep (PmmSys.boot memSize kernelEnd reserved) ops).pmm.heads maxBuddyOrder = none := by
  have h := (PmmInv.boot memSize kernelEnd reserved).run hg
  by_cases hle : count ≤ 512
  · exact iff_of_true (allocGives_of_le h (by omega) hle) (.inl hle)
  rcases allocPages_cases h.sound policy (show count ≠ 0 by omega) with
    ⟨he, hn⟩ | ⟨s', p, he, ht, hp, o', h1, h2, h3⟩
  · refine iff_of_true (fun a ha => ?_) (.inr hn)
    rw [he] at ha
    exact absurd ha (by simp)
  · refine iff_of_false (not_allocGives_of_large h (by omega) (by rw [he])) ?_
    have ho := countToOrder_large (show 512 < count by omega)
    have : o' = maxBuddyOrder := by omega
    rw [this] at h3
    simp [hle, hp, h3]

theorem alloc_pages_gives_eight :
    AllocGives (fun _ => .allow) (run pmmStep (PmmSys.boot (64 * 4096) 0 0) [.allocPage]) 8 :=
  (alloc_pages_gives_iff (64 * 4096) 0 0 [.allocPage] (by decide +kernel) (fun _ => .allow) 8
    (by decide)).mpr (.inl (by decide))

theorem alloc_pages_short : ¬ ∀ (memSize kernelEnd reserved : Nat) (ops : List PmmOp),
      Guarded pmmStep Matching (PmmSys.boot memSize kernelEnd reserved) ops →
      ∀ (policy : AllocContext → AllocDecision) (count : Nat), 1 ≤ count →
        AllocGives policy (run pmmStep (PmmSys.boot memSize kernelEnd reserved) ops) count := by
  intro h
  have hgive := h (1025 * 4096) 0 0 [] trivial (fun _ => .allow) 513 (by decide)
  have he : ((Pmm.boot (1025 * 4096) 0 0).allocPages (fun _ => .allow) 513).2 =
      some (512 * 4096) := by decide +kernel
  exact not_allocGives_of_large (PmmInv.boot _ _ _) (by decide) he hgive

end AntX.Mm
