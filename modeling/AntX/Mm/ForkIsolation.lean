import AntX.Mm.ForkClone
import AntX.Mm.PmmRun

/-! Processes that come from one by forks and write to its private pages. They are isolated when
every one of them reads its own view. -/

namespace AntX.Mm

open Lib Kernel Function Entry PageTable Option List

namespace Kernel

def readByte (k : Kernel) (root a : Nat) : Option (BitVec 8) :=
  (k.getPhysicalInPml4 root a).map k.mem

def store (k : Kernel) (root a : Nat) (byte : BitVec 8) : Option Kernel :=
  if (k.tables root).userWritable a then
    (k.getPhysicalInPml4 root a).map fun p => { k with mem := update k.mem p byte }
  else none

end Kernel

/-- The processes by the address of their page table. `view` is not in the source: for each
process its latest writes over the bytes it started with. -/
structure ForkSys where
  kernel : Kernel
  procs : List Nat
  view : Nat → Nat → BitVec 8

inductive ForkOp where
  | fork (root : Nat)
  | write (root addr : Nat) (byte : BitVec 8) (mm : Option MmStruct)

def writeFault (addr : Nat) : PageFaultInfo := ⟨addr, true, true, true, false, false⟩

namespace ForkSys

def start (k : Kernel) (root : Nat) : ForkSys := ⟨k, [root], fun p a => (k.readByte p a).getD 0#8⟩

def wrote (s : ForkSys) (k : Kernel) (root addr : Nat) (byte : BitVec 8) : ForkSys :=
  { s with
    kernel := k
    view := update s.view root (update (s.view root) addr byte) }

def leaf (s : ForkSys) (p n : Nat) : BitVec 64 := (s.kernel.tables p).pt n

def frame (s : ForkSys) (p n : Nat) : Nat := Entry.frame (s.leaf p n)

end ForkSys

namespace ForkSys

def fork (s : ForkSys) (root : Nat) : ForkSys :=
  match s.kernel.cloneUserPageTableCow root with
  | (k, some child) => ⟨k, child :: s.procs, update s.view child (s.view root)⟩
  | (k, none) => { s with kernel := k }

def write (vfs : VfsRead) (s : ForkSys) (root addr : Nat) (byte : BitVec 8) (mm : Option MmStruct) :
    ForkSys :=
  match s.kernel.store root addr byte with
  | some k => s.wrote k root addr byte
  | none =>
    match s.kernel.handleUserPageFault vfs root mm (writeFault addr) with
    | (k, .fixed) =>
      match k.store root addr byte with
      | some k => s.wrote k root addr byte
      | none => { s with kernel := k }
    | (k, _) => { s with kernel := k }

end ForkSys

def forkStep (vfs : VfsRead) (s : ForkSys) : ForkOp → ForkSys
  | .fork root => s.fork root
  | .write root addr byte mm => s.write vfs root addr byte mm

def Isolated (pages : Nat → Prop) (s : ForkSys) : Prop :=
  ∀ p ∈ s.procs, ∀ a, pages (a / pageSize) → s.kernel.readByte p a = some (s.view p a)

structure PrivateArea (vma : Vma) : Prop where
  anonymous : vma.isFile = false
  writable : vma.flags.contains .writable = true
  user : vma.flags.contains .user = true
  known : vma.flags &&& frameMask = 0#64

def ForkOp.Proper (pages : Nat → Prop) (s : ForkSys) : ForkOp → Prop
  | .fork root => root ∈ s.procs
  | .write root addr _ mm => root ∈ s.procs ∧ pages (addr / pageSize) ∧
      ∀ vma, mm.bind (fun mm => findVma mm.vmas addr) = some vma → PrivateArea vma

namespace ForkSys

def zeroBeside (s : ForkSys) (root addr : Nat) : Bool :=
  (List.range pageSize).all fun off =>
    off == addr % pageSize || s.kernel.readByte root (addr / pageSize * pageSize + off) == some 0#8

def soleUser (s : ForkSys) (root n : Nat) : Bool :=
  s.procs.all fun q => q == root || s.frame q n != s.frame root n

/-- A write fault costs nobody a byte. With an area there is no page for a new zeroed one, or
it does not differ from the old one; without, the count of the frame makes for a copy, or the
frame is the process's own. -/
def keepsBytes (s : ForkSys) (root addr : Nat) (mm : Option MmStruct) : Bool :=
  match mm.bind (fun mm => findVma mm.vmas addr) with
  | some vma => vma.isGuard || s.kernel.pmm.takePage.isNone || s.zeroBeside root addr
  | none =>
    match s.kernel.cowRefs with
    | none => true
    | some refs =>
      !shouldReuse refs (s.frame root (addr / pageSize)) || s.soleUser root (addr / pageSize)

end ForkSys

def ForkOp.Careful (s : ForkSys) : ForkOp → Bool
  | .fork _ => true
  | .write root addr _ mm => (s.kernel.tables root).userWritable addr || s.keepsBytes root addr mm

structure ForkInv (pages : Nat → Prop) (s : ForkSys) : Prop where
  sound : PmmSound s.kernel.pmm
  fits : s.kernel.pmm.info.totalPages * pageSize ≤ 2 ^ 52
  zero : InUse s.kernel.pmm 0
  user : ∀ n, pages n → n < 2 ^ 35
  root_ne : ∀ p ∈ s.procs, p ≠ 0
  root_inUse : ∀ p ∈ s.procs, InUse s.kernel.pmm p
  path : ∀ p ∈ s.procs, ∀ n, pages n → (s.kernel.tables p).missing (n * pageSize) = 0
  present : ∀ p ∈ s.procs, ∀ n, pages n → Entry.isPresent (s.leaf p n) = true
  inUse : ∀ p ∈ s.procs, ∀ n, pages n → InUse s.kernel.pmm (s.frame p n)
  keyed : ∀ p ∈ s.procs, ∀ q ∈ s.procs, ∀ n m, pages n → pages m → s.frame p n = s.frame q m → n = m
  alone : ∀ p ∈ s.procs, ∀ q ∈ s.procs, ∀ n, pages n →
    Entry.allowsUserWrite (s.leaf p n) = true → s.frame p n = s.frame q n → p = q
  bytes : ∀ p ∈ s.procs, ∀ n, pages n → ∀ off < pageSize,
    s.kernel.mem (s.frame p n + off) = s.view p (n * pageSize + off)

variable {a n off phys root p : Nat} {e : BitVec 64} {flags : PageFlags}
  {content : Nat → BitVec 8} {k₁ k : Kernel} {vma : Vma} {mm : Option MmStruct}
  {pages : Nat → Prop} {s : ForkSys}

theorem ptKey_of_user (h : a / pageSize < 2 ^ 35) : ptKey a = a / pageSize :=
  Nat.mod_eq_of_lt (by omega)

theorem ptKey_page (h : n < 2 ^ 35) : ptKey (n * pageSize) = n := by
  have hdiv : n * pageSize / pageSize = n := Nat.mul_div_cancel _ (by decide)
  rw [ptKey_of_user (by rwa [hdiv]), hdiv]

theorem ptKey_page_start (h : a / pageSize < 2 ^ 35) : ptKey (a / pageSize * pageSize) = ptKey a := by
  rw [ptKey_page h, ptKey_of_user h]

theorem pml4Key_of_user (h : a / pageSize < 2 ^ 35) : pml4Key a < 256 := by
  simp only [pml4Key, pdptKey, pdKey, ptKey_of_user h]
  omega

theorem page_offset (n : Nat) (h : off < pageSize) :
    (n * pageSize + off) / pageSize = n ∧ (n * pageSize + off) % pageSize = off := by
  simp only [pageSize] at *
  omega

theorem frame_add_inj {e' : BitVec 64} {off' : Nat} (ho : off < pageSize) (ho' : off' < pageSize)
    (h : frame e + off = frame e' + off') :
    frame e = frame e' ∧ off = off' := by
  rw [frame_eq, frame_eq] at *
  simp only [pageSize] at *
  omega

namespace ForkInv

variable {pages : Nat → Prop} {s : ForkSys} {k' : Kernel} {p a : Nat}

section

variable (h : ForkInv pages s) (hp : p ∈ s.procs) (ha : pages (a / pageSize))

include h hp ha

theorem page_path : (s.kernel.tables p).missing a = 0 := by
  have hu := h.user _ ha
  rw [← h.path p hp _ ha]
  exact missing_congr _ (ptKey_page_start hu).symm

theorem physical : s.kernel.getPhysicalInPml4 p a = some (s.frame p (a / pageSize) + a % pageSize) := by
  have hpres := h.present p hp _ ha
  rw [ForkSys.leaf, ← ptKey_of_user (h.user _ ha)] at hpres
  rw [getPhysicalInPml4, getPhysical_of_path (h.root_ne p hp) (h.page_path hp ha),
    if_pos hpres, ptKey_of_user (h.user _ ha)]
  rfl

theorem read : s.kernel.readByte p a = some (s.view p a) := by
  rw [readByte, h.physical hp ha, map_some, h.bytes p hp _ ha _ (Nat.mod_lt _ (by decide)), Nat.div_add_mod']

theorem writable_iff : (s.kernel.tables p).userWritable a = allowsUserWrite (s.leaf p (a / pageSize)) := by
  rw [userWritable_of_path (h.page_path hp ha), ptKey_of_user (h.user _ ha)]
  rfl

theorem stored {byte : BitVec 8} (hst : s.kernel.store p a byte = some k') :
    ForkInv pages (s.wrote k' p a byte) := by
  unfold store at hst
  split_ifs at hst with hw
  rw [h.physical hp ha, map_some, some.injEq] at hst
  rw [h.writable_iff hp ha] at hw
  subst hst
  refine ⟨h.sound, h.fits, h.zero, h.user, h.root_ne, h.root_inUse, h.path, h.present, h.inUse, h.keyed,
    h.alone, fun q hq m hm off hoff => ?_⟩
  have hold := h.bytes q hq m hm off hoff
  change update s.kernel.mem (s.frame p (a / pageSize) + a % pageSize) byte (s.frame q m + off) =
    update s.view p (update (s.view p) a byte) q (m * pageSize + off)
  by_cases hsame : q = p ∧ m * pageSize + off = a
  · obtain ⟨rfl, rfl⟩ := hsame
    obtain ⟨hdiv, hmod⟩ := page_offset m hoff
    rw [hdiv, hmod, update_self, update_self, update_self]
  · have hview : update s.view p (update (s.view p) a byte) q (m * pageSize + off) =
        s.view q (m * pageSize + off) := by
      by_cases hq' : q = p
      · rw [hq', update_self, update_of_ne (fun hc => hsame ⟨hq', hc⟩)]
      · rw [update_of_ne hq']
    rw [hview, ← hold, update_of_ne]
    -- the frame of the write belongs to no other page
    intro hc
    obtain ⟨hf, ho⟩ := frame_add_inj hoff (Nat.mod_lt _ (by decide)) hc
    have hmn := h.keyed q hq p hp m _ hm ha hf
    rw [hmn] at hf
    refine hsame ⟨(h.alone p hp q hq _ ha hw hf.symm).symm, ?_⟩
    rw [hmn, ho, Nat.div_add_mod']

end

theorem remapped_leaf (hkey : ptKey (n * pageSize) = n)
    (htables : k'.tables = update s.kernel.tables p ((s.kernel.tables p).writeLeaf (n *
      pageSize) phys flags)) (q m : Nat) :
    (k'.tables q).pt m =
      if q = p ∧ m = n then setFlags (setFrame (s.leaf p n) phys) flags
      else s.leaf q m := by
  rw [htables]
  by_cases hq : q = p
  · rw [hq, update_self, writeLeaf_pt, hkey]
    by_cases hm : m = n
    · rw [hm, update_self, if_pos ⟨rfl, rfl⟩]
      rfl
    · rw [update_of_ne hm, if_neg fun h => hm h.2]
      rfl
  · rw [update_of_ne hq, if_neg fun h => hq h.1]
    rfl

theorem frame_of_range (hoff : off < pageSize) (hframe : frame (BitVec.ofNat 64 phys) = phys)
    (hrange : phys ≤ frame e + off ∧ frame e + off < phys + pageSize) :
    frame e = phys := by
  have hphys : frame e + off = frame (BitVec.ofNat 64 phys) + (frame e + off - phys) := by
    rw [hframe, Nat.add_sub_cancel' hrange.1]
  exact (frame_add_inj hoff (by omega) hphys).1.trans hframe

/-- One page of one process gets another frame, or its own with other flags. No other page
has that frame, and `content` is what it holds. -/
theorem remap (h : ForkInv pages s) (hp : p ∈ s.procs) (hn : pages n) (hgrown : Grown s.kernel.pmm k'.pmm)
    (htables : k'.tables = update s.kernel.tables p ((s.kernel.tables p).writeLeaf (n *
      pageSize) phys flags)) (hflags : flags &&& frameMask = 0#64)
    (hpresent : isPresent flags = true) (hframe : frame (BitVec.ofNat 64 phys) = phys)
    (hinUse : InUse k'.pmm phys)
    (hown : ∀ q ∈ s.procs, ∀ m, pages m → s.frame q m = phys → q = p ∧ m = n)
    (hout : ∀ x, ¬(phys ≤ x ∧ x < phys + pageSize) → k'.mem x = s.kernel.mem x)
    (hin : ∀ off < pageSize, k'.mem (phys + off) = content off) {view : Nat → Nat → BitVec 8}
    (hview : ∀ q a, view q a = if q = p ∧ a / pageSize = n then content (a % pageSize) else s.view
      q a) : ForkInv pages ⟨k', s.procs, view⟩ := by
  have hpt := remapped_leaf (ptKey_page (h.user n hn)) htables
  have hframes : ∀ q m, ForkSys.frame ⟨k', s.procs, view⟩ q m =
      if q = p ∧ m = n then phys else s.frame q m := by
    intro q m
    rw [ForkSys.frame, ForkSys.leaf, hpt]
    split_ifs with hqm
    · rw [frame_leaf _ _ hflags, hframe]
    · rfl
  refine ⟨hgrown.sound, by rw [hgrown.total]; exact h.fits, hgrown.inUse 0 h.zero, h.user, h.root_ne,
    fun q hq => hgrown.inUse q (h.root_inUse q hq), fun q hq m hm => ?_, fun q hq m hm => ?_,
    fun q hq m hm => ?_, fun q hq r hr m l hm hl hf => ?_, fun q hq r hr m hm hw hf => ?_,
    fun q hq m hm off hoff => ?_⟩
  · rw [htables]
    by_cases hqp : q = p
    · rw [hqp, update_self, writeLeaf_missing _ _ _ _ (h.path p hp n hn)]
      exact h.path p hp m hm
    · rw [update_of_ne hqp]
      exact h.path q hq m hm
  · rw [ForkSys.leaf, hpt]
    split_ifs
    · rw [isPresent, setFlags_bit _ _ (by decide)]
      exact hpresent
    · exact h.present q hq m hm
  · rw [hframes]
    split_ifs
    · exact hinUse
    · exact hgrown.inUse _ (h.inUse q hq m hm)
  · rw [hframes, hframes] at hf
    split_ifs at hf with hqm hrl hrl
    · rw [hqm.2, hrl.2]
    · rw [hqm.2, (hown r hr l hl hf.symm).2]
    · rw [hrl.2, (hown q hq m hm hf).2]
    · exact h.keyed q hq r hr m l hm hl hf
  · rw [hframes, hframes] at hf
    split_ifs at hf with hqm hrm hrm
    · rw [hqm.1, hrm.1]
    · rw [hqm.1, (hown r hr m hm hf.symm).1]
    · exact absurd (hown q hq m hm hf) hqm
    · rw [ForkSys.leaf, hpt, if_neg hqm] at hw
      exact h.alone q hq r hr m hm hw hf
  · rw [hframes]
    obtain ⟨hdiv, hmod⟩ := page_offset m hoff
    simp only [hview, hdiv, hmod]
    split_ifs with hqm
    · exact hin off hoff
    · rw [← h.bytes q hq m hm off hoff]
      exact hout _ fun hrange => hqm (hown q hq m hm (frame_of_range hoff hframe hrange))

theorem remap_store (h : ForkInv pages s) (hp : p ∈ s.procs) (ha : pages (a / pageSize))
    (htables : k'.tables = update s.kernel.tables p ((s.kernel.tables p).writeLeaf (a /
      pageSize * pageSize) phys flags)) (hallows : allowsUserWrite flags = true)
    (byte : BitVec 8) : k'.store p a byte ≠ none := by
  have hu := h.user _ ha
  have hkey : ptKey (a / pageSize * pageSize) = ptKey a := ptKey_page_start hu
  have hpath := h.path p hp _ ha
  have ht : k'.tables p = (s.kernel.tables p).writeLeaf (a / pageSize * pageSize) phys flags := by
    rw [htables, update_self]
  have hmissing : (k'.tables p).missing a = 0 := by
    rw [ht, writeLeaf_missing _ _ _ _ hpath]
    exact h.page_path hp ha
  have hleaf : allowsUserWrite ((k'.tables p).pt (ptKey a)) = true := by
    rw [ht, writeLeaf_pt, hkey, update_self, setFlags_allows]
    exact hallows
  have hpresent : isPresent ((k'.tables p).pt (ptKey a)) = true := by
    simp only [allowsUserWrite, Bool.and_eq_true] at hleaf
    exact hleaf.1.1
  rw [store, userWritable_of_path hmissing, if_pos hleaf, getPhysicalInPml4,
    getPhysical_of_path (h.root_ne p hp) hmissing, if_pos hpresent]
  exact some_ne_none _

/-- Every process has the pages of an old one, with its entries or those without the right to write. -/
theorem inherits (h : ForkInv pages s) {s' : ForkSys} (old : Nat → Nat)
    (hgrown : Grown s.kernel.pmm s'.kernel.pmm) (hmem : s'.kernel.mem = s.kernel.mem)
    (hold : ∀ q ∈ s'.procs, q ≠ 0 ∧ InUse s'.kernel.pmm q ∧ old q ∈ s.procs ∧ s'.view q = s.view (old q))
    (hpath : ∀ q ∈ s'.procs, ∀ n, pages n → (s'.kernel.tables q).missing (n * pageSize) = 0)
    (hleaf : ∀ q ∈ s'.procs, ∀ n, pages n → s'.leaf q n = s.leaf (old q) n ∨ s'.leaf q n = cowEntry (s.leaf (old q) n))
    (hone : ∀ q ∈ s'.procs, ∀ r ∈ s'.procs, ∀ n, pages n → allowsUserWrite (s'.leaf q n) = true →
      old q = old r → q = r) : ForkInv pages s' := by
  have hframe : ∀ q ∈ s'.procs, ∀ n, pages n → s'.frame q n = s.frame (old q) n := by
    intro q hq n hn
    rw [ForkSys.frame]
    rcases hleaf q hq n hn with he | he
    · rw [he]; rfl
    · rw [he, cowEntry_frame]; rfl
  refine ⟨hgrown.sound, by rw [hgrown.total]; exact h.fits, hgrown.inUse 0 h.zero, h.user, fun q hq => (hold q hq).1,
    fun q hq => (hold q hq).2.1, hpath, fun q hq n hn => ?_, fun q hq n hn => ?_,
    fun q hq r hr n m hn hm hf => ?_, fun q hq r hr n hn hw hf => ?_, fun q hq n hn off hoff => ?_⟩
  · have hpres := h.present _ (hold q hq).2.2.1 n hn
    rcases hleaf q hq n hn with he | he
    · rwa [he]
    · rwa [he, cowEntry_present]
  · rw [hframe q hq n hn]
    exact hgrown.inUse _ (h.inUse _ (hold q hq).2.2.1 n hn)
  · rw [hframe q hq n hn, hframe r hr m hm] at hf
    exact h.keyed _ (hold q hq).2.2.1 _ (hold r hr).2.2.1 n m hn hm hf
  · rw [hframe q hq n hn, hframe r hr n hn] at hf
    refine hone q hq r hr n hn hw (h.alone _ (hold q hq).2.2.1 _ (hold r hr).2.2.1 n hn ?_ hf)
    rcases hleaf q hq n hn with he | he
    · rwa [← he]
    · rw [he, show allowsUserWrite (cowEntry _) = false from cowEntry_not_cow _] at hw
      cases hw
  · rw [hframe q hq n hn, hmem, (hold q hq).2.2.2]
    exact h.bytes _ (hold q hq).2.2.1 n hn off hoff

theorem fork (h : ForkInv pages s) (hp : p ∈ s.procs) : ForkInv pages (s.fork p) := by
  obtain ⟨hforked, hchild⟩ := cloneUserPageTableCow_spec h.sound (h.root_inUse p hp)
  unfold ForkSys.fork
  cases hclone : s.kernel.cloneUserPageTableCow p with
  | mk k' result =>
    rw [hclone] at hforked hchild
    have hpath : ∀ q ∈ s.procs, ∀ n, pages n → (k'.tables q).missing (n * pageSize) = 0 := by
      intro q hq n hn
      rw [← h.path q hq n hn]
      by_cases hqp : q = p
      · rw [hqp, hforked.missing]
      · rw [hforked.others q hqp (h.root_inUse q hq)]
    have hleaf : ∀ q ∈ s.procs, ∀ n, (k'.tables q).pt n = s.leaf q n ∨ (k'.tables q).pt n = cowEntry (s.leaf q n) := by
      intro q hq n
      by_cases hqp : q = p
      · rw [hqp]
        exact hforked.pt n
      · exact .inl (by rw [hforked.others q hqp (h.root_inUse q hq)]; rfl)
    have hold : ∀ q ∈ s.procs, q ≠ 0 ∧ InUse k'.pmm q :=
      fun q hq => ⟨h.root_ne q hq, hforked.grown.inUse q (h.root_inUse q hq)⟩
    cases result with
    | none =>
      exact h.inherits id hforked.grown hforked.mem (fun q hq => ⟨(hold q hq).1, (hold q hq).2, hq, rfl⟩) hpath
        (fun q hq n _ => hleaf q hq n) fun _ _ _ _ _ _ _ heq => heq
    | some child =>
      obtain ⟨hfree, htaken, hpage⟩ := hchild child rfl
      have hcloned : ∀ n, pages n → (k'.tables child).missing (n * pageSize) = 0 ∧
          (k'.tables p).pt n = cowEntry (s.leaf p n) ∧ (k'.tables child).pt n = cowEntry (s.leaf p n) := by
        intro n hn
        have hu : n * pageSize / pageSize < 2 ^ 35 := by
          rw [Nat.mul_div_cancel _ (by decide)]
          exact h.user n hn
        have hp' := hpage (n * pageSize) (pml4Key_of_user hu) (h.path p hp n hn)
        rw [ptKey_page (h.user n hn)] at hp'
        exact hp' (h.present p hp n hn)
      have hnew : ∀ q ∈ s.procs, q ≠ child := fun q hq hc => hfree (hc ▸ h.root_inUse q hq)
      refine h.inherits (fun q => if q = child then p else q) hforked.grown hforked.mem (fun q hq => ?_)
        (fun q hq n hn => ?_) (fun q hq n hn => ?_) fun q hq r hr n hn hw heq => ?_
      · rcases mem_cons.mp hq with rfl | hq
        · rw [if_pos rfl]
          exact ⟨fun h0 => hfree (h0 ▸ h.zero), htaken, hp, update_self ..⟩
        · rw [if_neg (hnew q hq)]
          exact ⟨(hold q hq).1, (hold q hq).2, hq, update_of_ne (hnew q hq) ..⟩
      · rcases mem_cons.mp hq with rfl | hq
        · exact (hcloned n hn).1
        · exact hpath q hq n hn
      · rcases mem_cons.mp hq with rfl | hq
        · rw [if_pos rfl]
          exact .inr (hcloned n hn).2.2
        · rw [if_neg (hnew q hq)]
          exact hleaf q hq n
      -- neither the child nor, after the fork, its parent may write
      · have hcow : ∀ q, (k'.tables q).pt n = cowEntry (s.leaf p n) →
            allowsUserWrite (ForkSys.leaf ⟨k', child :: s.procs, update s.view child (s.view p)⟩ q n) ≠ true := by
          intro q he hw
          rw [ForkSys.leaf, he, show allowsUserWrite (cowEntry _) = false from cowEntry_not_cow _] at hw
          cases hw
        have hqc : q ≠ child := fun hc => hcow q (hc ▸ (hcloned n hn).2.2) hw
        by_cases hrc : r = child
        · rw [if_neg hqc, if_pos hrc] at heq
          exact absurd hw (hcow q (heq ▸ (hcloned n hn).2.1))
        · rwa [if_neg hqc, if_neg hrc] at heq

def Resolved (pages : Nat → Prop) (s : ForkSys) (p a : Nat) (k' : Kernel) : Prop :=
  (∀ byte, k'.store p a byte ≠ none) ∧ ∃ view : Nat → Nat → BitVec 8,
    (∀ q b, ¬(q = p ∧ b = a) → view q b = s.view q b) ∧ ForkInv pages ⟨k', s.procs, view⟩

theorem Resolved.write (h : Resolved pages s p a k') (hp : p ∈ s.procs) (ha : pages (a / pageSize))
    (byte : BitVec 8) : ∃ k'', k'.store p a byte = some k'' ∧ ForkInv pages (s.wrote k'' p a byte) := by
  obtain ⟨hstore, view, hview, hinv⟩ := h
  obtain ⟨k'', hk⟩ := ne_none_iff_exists'.mp (hstore byte)
  refine ⟨k'', hk, ?_⟩
  have hsame : ForkSys.wrote ⟨k', s.procs, view⟩ k'' p a byte = s.wrote k'' p a byte := by
    simp only [ForkSys.wrote, ForkSys.mk.injEq, true_and]
    funext q b
    by_cases hq : q = p
    · by_cases hb : b = a
      · simp [hq, hb]
      · simp [hq, hb, hview p b (fun hc => hb hc.2)]
    · simp [hq, hview q b (fun hc => hq hc.1)]
  rw [← hsame]
  exact hinv.stored hp ha hk

section

variable (h : ForkInv pages s) (hp : p ∈ s.procs)

include h hp

section

variable (ha : pages (a / pageSize)) (htables : k₁.tables = s.kernel.tables)
  (hflags : flags &&& frameMask = 0#64) (hallows : allowsUserWrite flags = true)
  (hout : ∀ x, ¬(phys ≤ x ∧ x < phys + pageSize) → k₁.mem x = s.kernel.mem x)
  (hin : ∀ off < pageSize, k₁.mem (phys + off) = content off)
  (hcontent : ∀ b, b / pageSize = a / pageSize → b ≠ a → content (b % pageSize) = s.view p b)

include ha htables hflags hallows hout hin hcontent

theorem resolved (hgrown : Grown s.kernel.pmm k₁.pmm) (hframe : frame (BitVec.ofNat 64 phys) = phys)
    (hinUse : InUse k₁.pmm phys)
    (hown : ∀ q ∈ s.procs, ∀ m, pages m → s.frame q m = phys → q = p ∧ m = a / pageSize) :
    Resolved pages s p a (k₁.mapPageInTable p (pageDown a) phys flags).countFault := by
  have hu := h.user _ ha
  have hdiv : pageDown a / pageSize = a / pageSize := Nat.mul_div_cancel _ (by decide)
  have hmap : PageTable.mapPage k₁.pmm (k₁.tables p) p (pageDown a) phys flags =
      (k₁.pmm, (s.kernel.tables p).writeLeaf (a / pageSize * pageSize) phys flags) := by
    rw [htables]
    exact mapPage_of_path _ _ _ _ _ _ (h.root_ne p hp) (pml4Key_of_user (by rwa [hdiv])) (h.path p hp _ ha)
  have htab : (k₁.mapPageInTable p (pageDown a) phys flags).countFault.tables = update s.kernel.tables p
        ((s.kernel.tables p).writeLeaf (a / pageSize * pageSize) phys flags) := by
    simp only [countFault, mapPageInTable, hmap]
    rw [htables]
  have hpresent : isPresent flags = true := by
    simp only [allowsUserWrite, Bool.and_eq_true] at hallows
    exact hallows.1.1
  refine ⟨h.remap_store hp ha htab hallows, fun q b => if q = p ∧ b / pageSize = a / pageSize then
    content (b % pageSize) else s.view q b, fun q b hne => ?_, ?_⟩
  · beta_reduce
    split_ifs with hc
    · rw [hcontent b hc.2 (fun hb => hne ⟨hc.1, hb⟩), hc.1]
    · rfl
  · refine h.remap hp ha ?_ htab hflags hpresent hframe ?_ hown ?_ ?_ (fun _ _ => rfl)
    · simpa only [countFault, mapPageInTable, hmap] using hgrown
    · simpa only [countFault, mapPageInTable, hmap] using hinUse
    · exact hout
    · exact hin

/-- The frame is one that was just allocated. -/
theorem resolved_fresh (htake : s.kernel.pmm.takePage = some (k₁.pmm, phys)) :
    Resolved pages s p a (k₁.mapPageInTable p (pageDown a) phys flags).countFault := by
  have hfresh := takePage_fresh h.sound htake
  have hframe : frame (BitVec.ofNat 64 phys) = phys := by
    have hfits := h.fits
    have hbelow := hfresh.below
    have haligned := hfresh.aligned
    rw [frame_eq, BitVec.toNat_ofNat]
    simp only [pageSize] at *
    omega
  refine h.resolved hp ha htables hflags hallows hout hin hcontent hfresh.grown hframe hfresh.taken ?_
  rintro q hq m hm rfl
  exact absurd (h.inUse q hq m hm) hfresh.free

end

theorem view_of_zeroBeside (ha : pages (a / pageSize)) (hzero : s.zeroBeside p a = true) {b : Nat}
    (hb : b / pageSize = a / pageSize) (hne : b ≠ a) : s.view p b = 0#8 := by
  have hoff : b % pageSize ≠ a % pageSize := by
    intro hc
    rw [← Nat.div_add_mod' a pageSize, ← Nat.div_add_mod' b pageSize, hb, hc] at hne
    exact hne rfl
  have hall := all_eq_true.mp hzero (b % pageSize) (mem_range.mpr (Nat.mod_lt _ (by decide)))
  rw [← hb, Nat.div_add_mod', h.read hp (hb ▸ ha), beq_false_of_ne hoff, Bool.false_or,
    beq_iff_eq, some.injEq] at hall
  exact hall

theorem vma_fault (ha : pages (a / pageSize)) (vfs : VfsRead) (harea : PrivateArea vma)
    (hkeep : (s.kernel.pmm.takePage.isNone || s.zeroBeside p a) = true) :
    ∃ k' result, s.kernel.handleVmaFaultWithMm vfs p vma (writeFault a) = (k', result) ∧
      (result = .fixed ∧ Resolved pages s p a k' ∨ result ≠ .fixed ∧ k' = s.kernel) := by
  have hhandler : s.kernel.handleVmaFaultWithMm vfs p vma (writeFault a) =
      s.kernel.mapZeroed p (pageDown a) (vma.flags ||| PageFlags.present) := by
    simp [handleVmaFaultWithMm, harea.anonymous, harea.writable, writeFault]
  rw [hhandler, mapZeroed]
  cases halloc : s.kernel.allocPage with
  | none => exact ⟨_, _, rfl, .inr ⟨nofun, rfl⟩⟩
  | some r =>
    obtain ⟨k₁, phys⟩ := r
    obtain ⟨pmm, htake, rfl⟩ := allocPage_eq halloc
    refine ⟨_, _, rfl, .inl ⟨rfl, ?_⟩⟩
    let k₁ : Kernel := { s.kernel with pmm := pmm, mem := zeroPage s.kernel.mem phys }
    have hzero : s.zeroBeside p a = true := by simpa [htake] using hkeep
    have hflags : (vma.flags ||| PageFlags.present) &&& frameMask = 0#64 := by
      rw [BitVec.and_or_distrib_right, harea.known]
      decide
    have hallows : allowsUserWrite (vma.flags ||| PageFlags.present) = true := by
      rw [present_allows, harea.writable, harea.user]
      rfl
    have hin : ∀ off < pageSize, k₁.mem (phys + off) = (fun _ => 0#8) off :=
      fun off hoff => if_pos (by omega)
    exact h.resolved_fresh hp ha rfl hflags hallows (fun x hx => if_neg hx) hin
      (fun b hb hne => (h.view_of_zeroBeside hp ha hzero hb hne).symm) htake

theorem physical_pageDown (ha : pages (a / pageSize)) :
    s.kernel.getPhysicalInPml4 p (pageDown a) = some (s.frame p (a / pageSize)) := by
  have hdiv : pageDown a / pageSize = a / pageSize := Nat.mul_div_cancel _ (by decide)
  have hmod : pageDown a % pageSize = 0 := Nat.mul_mod_left _ _
  rw [h.physical hp (by rwa [hdiv]), hdiv, hmod, Nat.add_zero]

theorem owns_of_soleUser (hn : pages n) (hsole : s.soleUser p n = true) :
    ∀ q ∈ s.procs, ∀ m, pages m → s.frame q m = s.frame p n → q = p ∧ m = n := by
  intro q hq m hm hf
  have hmn := h.keyed q hq p hp m n hm hn hf
  refine ⟨?_, hmn⟩
  have hq' := all_eq_true.mp hsole q hq
  rw [hmn] at hf
  simpa [hf] using hq'

theorem cow_fault (ha : pages (a / pageSize))
    (hkeep : ∀ refs, s.kernel.cowRefs = some refs → (!shouldReuse refs (s.frame p (a / pageSize))
      || s.soleUser p (a / pageSize)) = true) :
    ∃ k' result, s.kernel.handleUncovered p (writeFault a) = (k', result) ∧
      (result = .fixed ∧ Resolved pages s p a k' ∨ result ≠ .fixed ∧ k' = s.kernel) := by
  have hdown := h.physical_pageDown hp ha
  have hframe : frame (BitVec.ofNat 64 (s.frame p (a / pageSize))) = s.frame p (a / pageSize) :=
    frame_ofNat_add (show 0 < pageSize by decide)
  have hflags : cowFlags &&& frameMask = 0#64 := by decide
  -- whatever happens, the page keeps its bytes
  have hcontent : ∀ b, b / pageSize = a / pageSize → b ≠ a →
      s.view p (a / pageSize * pageSize + b % pageSize) = s.view p b := by
    intro b hb _
    rw [← hb, Nat.div_add_mod']
  simp only [handleUncovered, writeFault, Bool.and_self, if_true, cowHandleFault, hdown, hframe]
  cases hrefs : s.kernel.cowRefs with
  | none => exact ⟨_, _, rfl, .inr ⟨nofun, rfl⟩⟩
  | some refs =>
    cases hreuse : shouldReuse refs (s.frame p (a / pageSize)) with
    | true =>
      simp only [hreuse, if_true]
      refine ⟨_, _, rfl, .inl ⟨rfl, ?_⟩⟩
      have hsole : s.soleUser p (a / pageSize) = true := by simpa [hreuse] using hkeep refs hrefs
      let k₁ : Kernel := { s.kernel with
        cowRefs := some (update refs (s.frame p (a / pageSize)) none) }
      exact h.resolved hp ha rfl hflags cowFlags_allows (fun _ _ => rfl) (h.bytes p hp _ ha) hcontent
        (.refl h.sound) hframe (h.inUse p hp _ ha) (h.owns_of_soleUser hp ha hsole)
    | false =>
      simp only [hreuse, Bool.false_eq_true, if_false]
      cases halloc : s.kernel.allocPage with
      | none => exact ⟨_, _, rfl, .inr ⟨nofun, rfl⟩⟩
      | some r =>
        obtain ⟨k₁, phys⟩ := r
        obtain ⟨pmm, htake, rfl⟩ := allocPage_eq halloc
        let k₂ : Kernel := { s.kernel with
          pmm := pmm
          mem := copyPage s.kernel.mem (s.frame p (a / pageSize)) phys }
        obtain ⟨refs', hdec⟩ := cowDecRef_shared (k := k₂) (e := s.leaf p (a / pageSize)) hrefs hreuse
        have hdec' : k₂.cowDecRef (s.frame p (a / pageSize)) = ({ k₂ with cowRefs := some refs' }, false) :=
          hdec
        simp only [k₂] at hdec'
        simp only [hdec', Bool.false_eq_true, if_false]
        refine ⟨_, _, rfl, .inl ⟨rfl, ?_⟩⟩
        let k₃ : Kernel := { k₂ with cowRefs := some refs' }
        have hin : ∀ off < pageSize, k₃.mem (phys + off) = s.view p (a / pageSize * pageSize + off) := by
          intro off hoff
          rw [← h.bytes p hp _ ha off hoff]
          change copyPage s.kernel.mem (s.frame p (a / pageSize)) phys (phys + off) = _
          rw [copyPage, if_pos (by omega), Nat.add_sub_cancel_left]
        exact h.resolved_fresh hp ha rfl hflags cowFlags_allows (fun x hx => if_neg hx) hin hcontent htake

variable (ha : pages (a / pageSize)) (vfs : VfsRead)
  (harea : ∀ vma, mm.bind (fun mm => findVma mm.vmas a) = some vma → PrivateArea vma)

include ha harea

theorem user_fault (hkeep : s.keepsBytes p a mm = true) :
    ∃ k' result, s.kernel.handleUserPageFault vfs p mm (writeFault a) = (k', result) ∧
      (result = .fixed ∧ Resolved pages s p a k' ∨ result ≠ .fixed ∧ k' = s.kernel) := by
  have hswap : s.kernel.isSwapFault p (writeFault a) = false := by
    simp [isSwapFault, writeFault]
  have hreserved : (writeFault a).reserved = false := rfl
  have haddr : (writeFault a).faultAddr = a := rfl
  simp only [handleUserPageFault, hswap, hreserved, haddr, Bool.false_eq_true, if_false]
  unfold ForkSys.keepsBytes at hkeep
  cases hvma : mm.bind (fun mm => findVma mm.vmas a) with
  | some vma =>
    rw [hvma] at hkeep
    cases hguard : vma.isGuard with
    | true =>
      simp only [hguard, if_true]
      exact ⟨_, _, rfl, .inr ⟨nofun, rfl⟩⟩
    | false =>
      simp only [hguard, Bool.false_eq_true, if_false]
      exact h.vma_fault hp ha vfs (harea vma hvma) (by simpa [hguard] using hkeep)
  | none =>
    rw [hvma] at hkeep
    refine h.cow_fault hp ha fun refs hrefs => ?_
    simpa [hrefs] using hkeep

theorem write (byte : BitVec 8)
    (hcareful : ((s.kernel.tables p).userWritable a || s.keepsBytes p a mm) = true) :
    ForkInv pages (s.write vfs p a byte mm) := by
  unfold ForkSys.write
  cases hst : s.kernel.store p a byte with
  | some k => exact h.stored hp ha hst
  | none =>
    have hfault : (s.kernel.tables p).userWritable a = false := by
      by_contra hw
      rw [Bool.not_eq_false] at hw
      rw [store, if_pos hw, h.physical hp ha] at hst
      cases hst
    rw [hfault, Bool.false_or] at hcareful
    obtain ⟨k', result, heq, hcase⟩ := h.user_fault hp ha vfs harea hcareful
    simp only [heq]
    rcases hcase with ⟨rfl, hres⟩ | ⟨hne, rfl⟩
    · obtain ⟨k'', hk, hinv⟩ := hres.write hp ha byte
      simp only [hk]
      exact hinv
    · cases result with
      | fixed => exact absurd rfl hne
      | signalSegv | signalBus | oom | unhandled => exact h

end

end ForkInv

structure PrivatePages (k : Kernel) (root : Nat) (pages : Nat → Prop) : Prop where
  sound : PmmSound k.pmm
  fits : k.pmm.info.totalPages * pageSize ≤ 2 ^ 52
  zero : InUse k.pmm 0
  root_ne : root ≠ 0
  root_inUse : InUse k.pmm root
  user : ∀ n, pages n → n < 2 ^ 35
  path : ∀ n, pages n → (k.tables root).missing (n * pageSize) = 0
  present : ∀ n, pages n → Entry.isPresent ((k.tables root).pt n) = true
  inUse : ∀ n, pages n → InUse k.pmm (Entry.frame ((k.tables root).pt n))
  apart : ∀ n m, pages n → pages m →
    Entry.frame ((k.tables root).pt n) = Entry.frame ((k.tables root).pt m) → n = m

theorem PrivatePages.start (h : PrivatePages k root pages) : ForkInv pages (ForkSys.start k root) := by
  have hone : ∀ {p}, p ∈ (ForkSys.start k root).procs → p = root := mem_singleton.mp
  refine ⟨h.sound, h.fits, h.zero, h.user, fun p hp => ?_, fun p hp => ?_, fun p hp n hn => ?_,
    fun p hp n hn => ?_, fun p hp n hn => ?_, fun p hp q hq n m hn hm hf => ?_,
    fun p hp q hq n hn _ _ => ?_, fun p hp n hn off hoff => ?_⟩
  · exact hone hp ▸ h.root_ne
  · exact hone hp ▸ h.root_inUse
  · exact hone hp ▸ h.path n hn
  · exact hone hp ▸ h.present n hn
  · exact hone hp ▸ h.inUse n hn
  · rw [hone hp, hone hq] at hf
    exact h.apart n m hn hm hf
  · rw [hone hp, hone hq]
  · cases hone hp
    obtain ⟨hdiv, hmod⟩ := page_offset n hoff
    have hkey : ptKey (n * pageSize + off) = n := by
      rw [ptKey_of_user (by rw [hdiv]; exact h.user n hn), hdiv]
    have hpath : (k.tables root).missing (n * pageSize + off) = 0 := by
      rw [missing_congr _ (hkey.trans (ptKey_page (h.user n hn)).symm), h.path n hn]
    have hphys : k.getPhysicalInPml4 root (n * pageSize + off) =
        some (frame ((k.tables root).pt n) + off) := by
      rw [getPhysicalInPml4, getPhysical_of_path h.root_ne hpath, hkey, if_pos (h.present n hn), hmod]
    change k.mem (frame ((k.tables root).pt n) + off) = (k.readByte root (n * pageSize + off)).getD 0#8
    rw [readByte, hphys]
    rfl

theorem ForkInv.step (vfs : VfsRead) (h : ForkInv pages s) {op : ForkOp}
    (hproper : op.Proper pages s) (hcareful : op.Careful s = true) :
    ForkInv pages (forkStep vfs s op) := by
  cases op with
  | fork root => exact h.fork hproper
  | write root addr byte mm =>
    obtain ⟨hp, ha, harea⟩ := hproper
    exact h.write hp ha vfs harea byte hcareful

/-! A page that reads as zero may be replaced by a fresh one. -/

def ForkSys.BlankFor (s : ForkSys) (p : Nat) : Prop := ∀ a, s.view p a = 0#8

theorem ForkSys.blank_start (hmem : ∀ x, k.mem x = 0#8) (p : Nat) : (ForkSys.start k root).BlankFor p := by
  intro a
  change (k.readByte p a).getD 0#8 = 0#8
  unfold Kernel.readByte
  cases k.getPhysicalInPml4 p a with
  | none => rfl
  | some phys => exact hmem phys

theorem ForkSys.blank_fork (h : ∀ p, s.BlankFor p) (root p : Nat) : (s.fork root).BlankFor p := by
  intro a
  unfold ForkSys.fork
  rcases s.kernel.cloneUserPageTableCow root with ⟨k, _ | child⟩
  · exact h p a
  · by_cases hp : p = child
    · subst hp
      exact (congrFun (update_self ..) a).trans (h root a)
    · exact (congrFun (update_of_ne hp ..) a).trans (h p a)

theorem ForkSys.write_view_of_ne (vfs : VfsRead) (s : ForkSys) (hp : p ≠ root) (addr : Nat)
    (byte : BitVec 8) (mm : Option MmStruct) :
    (s.write vfs root addr byte mm).view p = s.view p := by
  have hwrote : ∀ k, (s.wrote k root addr byte).view p = s.view p :=
    fun _ => update_of_ne hp ..
  unfold ForkSys.write
  cases s.kernel.store root addr byte with
  | some k => exact hwrote k
  | none =>
    rcases s.kernel.handleUserPageFault vfs root mm (writeFault addr) with ⟨k, result⟩
    cases result with
    | fixed =>
      cases hst : k.store root addr byte with
      | some k' =>
        simp only [hst]
        exact hwrote k'
      | none => simp only [hst]
    | signalSegv | signalBus | oom | unhandled => rfl

theorem ForkInv.careful_of_blank (h : ForkInv pages s) (hp : p ∈ s.procs)
    (ha : pages (a / pageSize)) (hz : s.BlankFor p) (byte : BitVec 8)
    (hvma : mm.bind (fun mm => findVma mm.vmas a) = some vma) :
    (ForkOp.write p a byte mm).Careful s = true := by
  have hzero : s.zeroBeside p a = true := by
    apply all_eq_true.mpr
    intro off hoff
    obtain ⟨hdiv, -⟩ := page_offset (a / pageSize) (mem_range.mp hoff)
    rw [h.read hp (by rw [hdiv]; exact ha), hz]
    simp
  simp [ForkOp.Careful, ForkSys.keepsBytes, hvma, hzero]

/-- In every run of forks and writes to private pages whose writes are careful in the states
they meet, every process reads its own latest write or what was there at its fork. -/
theorem fork_isolation (vfs : VfsRead) (pages : Nat → Prop) (k : Kernel) (root : Nat)
    (hprivate : PrivatePages k root pages) (ops : List ForkOp)
    (hops : Guarded (forkStep vfs) (fun s op => op.Proper pages s ∧ op.Careful s = true)
      (ForkSys.start k root) ops) :
    Isolated pages (run (forkStep vfs) (ForkSys.start k root) ops) := by
  have hinv : ForkInv pages (run (forkStep vfs) (ForkSys.start k root) ops) :=
    hops.run_invariant hprivate.start (fun s op hs hop => hs.step vfs hop.1 hop.2)
  exact fun p hp a ha => hinv.read hp ha

def oneProcess : Kernel :=
  let kernelTable := { PageTable.empty with pml4 := fun i => if i = 256 then some 3#64 else none }
  ((Kernel.start (Pmm.boot (64 * 4096) 0x8000 0) 0x1000 kernelTable).setTable 0x2000
    { pml4 := fun i => if i = 0 then some 0x3007#64 else kernelTable.pml4 i
      pdpt := fun j => if j = 0 then .table 0x4007#64 else .absent
      pd := fun n => if n = 0 then .table 0x5007#64 else .absent
      pt := fun l => if l = 16 then 0x6007#64 else 0#64 }).cowInit

theorem oneProcess_private : PrivatePages oneProcess 0x2000 (· = 16) := by
  have hsound : PmmSound oneProcess.pmm := (PmmInv.boot (64 * 4096) 0x8000 0).sound
  refine ⟨hsound, ?_, ?_, ?_, ?_, ?_, ?_, ?_, ?_, ?_⟩
  · decide +kernel
  · exact fun _ => by decide +kernel
  · decide
  · exact fun _ => by decide +kernel
  · rintro n rfl; decide
  · rintro n rfl; decide +kernel
  · rintro n rfl; decide +kernel
  · rintro n rfl; exact fun _ => by decide +kernel
  · rintro n m rfl rfl _; rfl

def onePageArea : MmStruct :=
  { MmStruct.new with vmas := [Vma.new 0x10000 0x11000 (.user ||| .writable) .anonymous] }

theorem onePageArea_private (addr : Nat) (vma : Vma)
    (h : (some onePageArea).bind (fun mm => findVma mm.vmas addr) = some vma) : PrivateArea vma := by
  have hmem := mem_of_find?_eq_some h
  rw [mem_singleton.mp hmem]
  exact ⟨by decide, by decide, by decide, by decide⟩

def forkedWrites : List ForkOp :=
  [.fork 0x2000, .write 0x2000 0x10008 5#8 (some onePageArea), .write 0x3F000 0x10009 6#8 (some onePageArea)]

theorem forkedWrites_careful : Guarded (forkStep fun _ _ _ _ => [])
    (fun s op => op.Proper (· = 16) s ∧ op.Careful s = true) (ForkSys.start oneProcess 0x2000) forkedWrites := by
  let vfs : VfsRead := fun _ _ _ _ => []
  let forked := (ForkSys.start oneProcess 0x2000).fork 0x2000
  let written := forked.write vfs 0x2000 0x10008 5#8 (some onePageArea)
  have hforked : ForkInv (· = 16) forked :=
    oneProcess_private.start.fork (mem_singleton_self _)
  have hblank : ∀ p, forked.BlankFor p :=
    ForkSys.blank_fork (ForkSys.blank_start fun _ => rfl) 0x2000
  have hparent : 0x2000 ∈ forked.procs := by decide +kernel
  have hchild : 0x3F000 ∈ written.procs := by decide +kernel
  have hfirst : (ForkOp.write 0x2000 0x10008 5#8 (some onePageArea)).Careful forked = true :=
    hforked.careful_of_blank hparent (by decide) (hblank _) _ rfl
  have hwritten : ForkInv (· = 16) written :=
    hforked.write hparent (by decide) vfs (onePageArea_private _) _ hfirst
  have hsecond : (ForkOp.write 0x3F000 0x10009 6#8 (some onePageArea)).Careful written = true :=
    hwritten.careful_of_blank hchild (by decide)
      (fun a => by rw [ForkSys.write_view_of_ne vfs _ (by decide), hblank]) _ rfl
  exact ⟨⟨mem_singleton_self _, rfl⟩, ⟨⟨hparent, by decide, onePageArea_private _⟩, hfirst⟩,
    ⟨⟨hchild, by decide, onePageArea_private _⟩, hsecond⟩, trivial⟩

theorem fork_isolation_zero_page :
    Isolated (· = 16) (run (forkStep fun _ _ _ _ => []) (ForkSys.start oneProcess 0x2000)
      [.fork 0x2000, .write 0x2000 0x10008 5#8 (some onePageArea),
        .write 0x3F000 0x10009 6#8 (some onePageArea)]) :=
  fork_isolation _ _ _ _ oneProcess_private _ forkedWrites_careful

/-- In careful runs a mapped frame is in use, and one that a process may write is mapped once. -/
theorem writable_frames_private (vfs : VfsRead) (pages : Nat → Prop) (k : Kernel) (root : Nat)
    (hprivate : PrivatePages k root pages) (ops : List ForkOp)
    (hops : Guarded (forkStep vfs) (fun s op => op.Proper pages s ∧ op.Careful s = true)
      (ForkSys.start k root) ops) :
    let s := run (forkStep vfs) (ForkSys.start k root) ops
    ∀ p ∈ s.procs, ∀ n, pages n → InUse s.kernel.pmm (s.frame p n) ∧
      (Entry.allowsUserWrite (s.leaf p n) = true → ∀ q ∈ s.procs, ∀ m, pages m →
        s.frame p n = s.frame q m → p = q ∧ n = m) := by
  have hinv := hops.run_invariant hprivate.start (fun s op hs hop => hs.step vfs hop.1 hop.2)
  refine fun p hp n hn => ⟨hinv.inUse p hp n hn, fun hw q hq m hm hframe => ?_⟩
  obtain rfl := hinv.keyed p hp q hq n m hn hm hframe
  exact ⟨hinv.alone p hp q hq n hn hw hframe, rfl⟩

def forkedSys : ForkSys := run (forkStep fun _ _ _ _ => []) (ForkSys.start oneProcess 0x2000) forkedWrites

theorem writable_frames_private_forked : Entry.allowsUserWrite (forkedSys.leaf 0x3F000 16) = true ∧
    InUse forkedSys.kernel.pmm (forkedSys.frame 0x3F000 16) ∧
      forkedSys.frame 0x3F000 16 ≠ forkedSys.frame 0x2000 16 := by
  have hprocs : 0x3F000 ∈ forkedSys.procs ∧ 0x2000 ∈ forkedSys.procs := by decide +kernel
  have hwrites : Entry.allowsUserWrite (forkedSys.leaf 0x3F000 16) = true := by decide +kernel
  rw [forkedSys] at hprocs hwrites ⊢
  obtain ⟨huse, halone⟩ := writable_frames_private _ _ _ _ oneProcess_private forkedWrites
    forkedWrites_careful 0x3F000 hprocs.1 16 rfl
  refine ⟨hwrites, huse, fun hframe => ?_⟩
  have hsame : 0x3F000 = 0x2000 := (halone hwrites 0x2000 hprocs.2 16 rfl hframe).1
  cases hsame

theorem fork_shares_write :
    ¬ ∀ (vfs : VfsRead) (pages : Nat → Prop) (k : Kernel) (root : Nat), PrivatePages k root pages →
      ∀ ops : List ForkOp, Guarded (forkStep vfs) (fun s op => op.Proper pages s) (ForkSys.start k root) ops →
        Isolated pages (run (forkStep vfs) (ForkSys.start k root) ops) := by
  intro h
  have hread := h (fun _ _ _ _ => []) (· = 16) oneProcess 0x2000 oneProcess_private
    [.fork 0x2000, .write 0x2000 0x10000 5#8 none]
    ⟨mem_singleton_self _, ⟨by decide +kernel, by decide, nofun⟩, trivial⟩
    0x3F000 (by decide +kernel) 0x10000 (by decide)
  revert hread
  decide +kernel

end AntX.Mm
