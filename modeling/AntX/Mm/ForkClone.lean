import AntX.Mm.PageFault
import AntX.Mm.PmmSound

/-! What the clone of a page table does: every private entry of the parent that it passes loses its
right to write, and the child ends up with a copy of it. -/

namespace AntX.Mm

open Lib Function List Entry
open BitVec hiding and_assoc

/-- The allocator will not give the frame out: it is taken, or not memory it manages. -/
def InUse (pmm : Pmm) (frame : Nat) : Prop :=
  frame / pageSize < pmm.info.totalPages → pmm.bitmap.bit (frame / pageSize) = true

structure Grown (pmm pmm' : Pmm) : Prop where
  sound : PmmSound pmm'
  total : pmm'.info.totalPages = pmm.info.totalPages
  inUse : ∀ frame, InUse pmm frame → InUse pmm' frame

variable {pmm pmm' pmm'' : Pmm} {page : Nat}

theorem Grown.refl (h : PmmSound pmm) : Grown pmm pmm := ⟨h, rfl, fun _ hf => hf⟩

theorem Grown.trans (h : Grown pmm pmm') (h' : Grown pmm' pmm'') : Grown pmm pmm'' :=
  ⟨h'.sound, h'.total.trans h.total, fun f hf => h'.inUse f (h.inUse f hf)⟩

structure Fresh (pmm pmm' : Pmm) (page : Nat) : Prop where
  grown : Grown pmm pmm'
  free : ¬InUse pmm page
  taken : InUse pmm' page
  aligned : page % pageSize = 0
  below : page < pmm.info.totalPages * pageSize

theorem takePage_fresh (h : PmmSound pmm) (ht : pmm.takePage = some (pmm', page)) :
    Fresh pmm pmm' page := by
  unfold Pmm.takePage Pmm.allocPage at ht
  rcases doAlloc_spec h (show 0 ≤ maxBuddyOrder by decide) with ⟨heq, -⟩ | ⟨s', p, heq, htakes, -⟩
  · rw [heq] at ht
    cases ht
  · rw [heq] at ht
    cases ht
    have hbelow := htakes.below
    have hdiv : pageToPhys p / pageSize = p := Nat.mul_div_cancel _ (by decide)
    have htotal : pmm'.info.totalPages = pmm.info.totalPages := by rw [htakes.info]; rfl
    refine ⟨⟨htakes.sound, htotal, fun frame hf hlt => ?_⟩, fun hf => ?_, fun _ => ?_, ?_, ?_⟩
    · rw [htotal] at hlt
      rw [htakes.bitmap, Bitmap.writeRange_bit]
      split_ifs
      · rfl
      · exact hf hlt
    · have hbit := hf (by omega)
      rw [hdiv, htakes.wasFree p (by omega) (by omega)] at hbit
      cases hbit
    · rw [hdiv, htakes.bitmap, Bitmap.writeRange_bit, if_pos ⟨Nat.le_refl p, by omega, h.size p (by omega)⟩]
    · exact Nat.mul_mod_left _ _
    · exact Nat.mul_lt_mul_of_pos_right (by omega) (by decide)

namespace Kernel

theorem protect_bit (e : BitVec 64) (i : Nat) : (protect e).getLsbD i = (e.getLsbD i && decide (i ≠ 1)) := by
  rw [protect, show PageFlags.writable = BitVec.twoPow 64 1 by decide, getLsbD_and,
    getLsbD_not, getLsbD_twoPow]
  by_cases hi : i < 64
  · by_cases h1 : i = 1
    · simp [h1]
    · simp [hi, h1, Ne.symm h1]
  · simp [getLsbD_of_ge e i (by omega)]

theorem cowEntry_present (e : BitVec 64) : isPresent (cowEntry e) = isPresent e := by
  unfold cowEntry
  split_ifs
  · rw [isPresent, isPresent, protect_bit, decide_eq_true (by decide), Bool.and_true]
  · rfl

theorem cowEntry_frame (e : BitVec 64) : frame (cowEntry e) = frame e := by
  unfold cowEntry
  split_ifs
  · rw [frame, frame, protect, BitVec.and_assoc,
      show ~~~PageFlags.writable &&& frameMask = frameMask by decide]
  · rfl

theorem cowEntry_not_cow (e : BitVec 64) : isCowEntry (cowEntry e) = false := by
  unfold cowEntry
  split_ifs with h
  · have hw : isWritable (protect e) = false := by
      rw [isWritable, protect_bit, decide_eq_false (by decide), Bool.and_false]
    rw [isCowEntry, hw, Bool.and_false, Bool.false_and]
  · simpa using h

theorem cowEntry_cowEntry (e : BitVec 64) : cowEntry (cowEntry e) = cowEntry e := by
  rw [cowEntry, cowEntry_not_cow]
  rfl

structure Cloning (k₀ : Kernel) (parent child : Nat) (k : Kernel) : Prop where
  grown : Grown k₀.pmm k.pmm
  mem : k.mem = k₀.mem
  others : ∀ root, root ≠ parent → root ≠ child → k.tables root = k₀.tables root
  pml4 : (k.tables parent).pml4 = (k₀.tables parent).pml4
  pdpt : (k.tables parent).pdpt = (k₀.tables parent).pdpt
  pd : (k.tables parent).pd = (k₀.tables parent).pd
  pt : ∀ l, (k.tables parent).pt l = (k₀.tables parent).pt l ∨
    (k.tables parent).pt l = cowEntry ((k₀.tables parent).pt l)

/-- `keep e` are the entries of level `e` that both have in common. -/
structure AgreesOn (keep : Nat → Nat → Prop) (t t' : PageTable) : Prop where
  pml4 : ∀ i, keep 4 i → t'.pml4 i = t.pml4 i
  pdpt : ∀ j, keep 3 j → t'.pdpt j = t.pdpt j
  pd : ∀ n, keep 2 n → t'.pd n = t.pd n
  pt : ∀ l, keep 1 l → t'.pt l = t.pt l

structure Advance (k₀ : Kernel) (parent child : Nat) (keep : Nat → Nat → Prop) (k k' : Kernel) : Prop where
  cloning : Cloning k₀ parent child k'
  child : AgreesOn keep (k.tables child) (k'.tables child)
  parent : ∀ l, (k.tables parent).pt l = cowEntry ((k₀.tables parent).pt l) →
    (k'.tables parent).pt l = cowEntry ((k₀.tables parent).pt l)

variable {k₀ k k' k'' : Kernel} {parent child : Nat} {keep keep' : Nat → Nat → Prop}

theorem Advance.refl (h : Cloning k₀ parent child k) : Advance k₀ parent child keep k k :=
  ⟨h, ⟨fun _ _ => rfl, fun _ _ => rfl, fun _ _ => rfl, fun _ _ => rfl⟩, fun _ hl => hl⟩

theorem Advance.trans (h : Advance k₀ parent child keep k k') (h' : Advance k₀ parent child keep k' k'') :
    Advance k₀ parent child keep k k'' := by
  refine ⟨h'.cloning, ⟨fun i hi => ?_, fun j hj => ?_, fun n hn => ?_, fun l hl => ?_⟩,
    fun l hl => h'.parent l (h.parent l hl)⟩
  · rw [h'.child.pml4 i hi, h.child.pml4 i hi]
  · rw [h'.child.pdpt j hj, h.child.pdpt j hj]
  · rw [h'.child.pd n hn, h.child.pd n hn]
  · rw [h'.child.pt l hl, h.child.pt l hl]

/-! What the clone owes the child at each level. -/

def ClonedPt (k₀ : Kernel) (parent child l : Nat) (k : Kernel) : Prop :=
  (k.tables parent).pt l = cowEntry ((k₀.tables parent).pt l) ∧
    (Entry.isPresent ((k₀.tables parent).pt l) = true →
      (k.tables child).pt l = cowEntry ((k₀.tables parent).pt l))

def ClonedPd (k₀ : Kernel) (parent child n : Nat) (k : Kernel) : Prop :=
  ∀ bits, (k₀.tables parent).pd n = .table bits → (∃ bits', (k.tables child).pd n = .table bits') ∧
      ∀ l, l / 512 = n → ClonedPt k₀ parent child l k

def ClonedPdpt (k₀ : Kernel) (parent child j : Nat) (k : Kernel) : Prop :=
  ∀ bits, (k₀.tables parent).pdpt j = .table bits → (∃ bits', (k.tables child).pdpt j = .table bits') ∧
      ∀ n, n / 512 = j → ClonedPd k₀ parent child n k

def ClonedPml4 (k₀ : Kernel) (parent child i : Nat) (k : Kernel) : Prop :=
  ∀ bits, (k₀.tables parent).pml4 i = some bits → (∃ bits', (k.tables child).pml4 i = some bits') ∧
      ∀ j, j / 512 = i → ClonedPdpt k₀ parent child j k

/-- Entry `m` of level `e` is entry `i` of level `d` or hangs below it. -/
def Within (d i e m : Nat) : Prop := e ≤ d ∧ m / 512 ^ (d - e) = i

theorem Within.up {d i n e m : Nat} (h : Within d n e m) (hn : n / 512 = i) : Within (d + 1) i e m := by
  refine ⟨Nat.le_succ_of_le h.1, ?_⟩
  rw [Nat.succ_sub h.1, Nat.pow_succ, ← Nat.div_div_eq_div_mul, h.2, hn]

section

variable (h : Advance k₀ parent child keep k k')

include h

theorem Advance.mono (hk : ∀ e m, keep' e m → keep e m) : Advance k₀ parent child keep' k k' :=
  ⟨h.cloning, ⟨fun i hi => h.child.pml4 i (hk 4 i hi), fun j hj => h.child.pdpt j (hk 3 j hj),
    fun n hn => h.child.pd n (hk 2 n hn), fun l hl => h.child.pt l (hk 1 l hl)⟩, h.parent⟩

theorem Advance.clonedPd {n : Nat} (hk : ∀ e m, Within 2 n e m → keep e m)
    (hc : ClonedPd k₀ parent child n k) : ClonedPd k₀ parent child n k' := by
  intro bits hbits
  obtain ⟨⟨bits', hb⟩, hall⟩ := hc bits hbits
  refine ⟨⟨bits', (h.child.pd n (hk 2 n ⟨Nat.le_refl 2, Nat.div_one n⟩)).trans hb⟩, fun l hl => ?_⟩
  obtain ⟨hparent, hchild⟩ := hall l hl
  exact ⟨h.parent l hparent, fun hp =>
    (h.child.pt l (hk 1 l ⟨by decide, by simpa using hl⟩)).trans (hchild hp)⟩

theorem Advance.clonedPdpt {j : Nat} (hk : ∀ e m, Within 3 j e m → keep e m)
    (hc : ClonedPdpt k₀ parent child j k) : ClonedPdpt k₀ parent child j k' := by
  intro bits hbits
  obtain ⟨⟨bits', hb⟩, hall⟩ := hc bits hbits
  exact ⟨⟨bits', (h.child.pdpt j (hk 3 j ⟨Nat.le_refl 3, Nat.div_one j⟩)).trans hb⟩,
    fun n hn => h.clonedPd (fun e m hw => hk e m (hw.up hn)) (hall n hn)⟩

theorem Advance.clonedPml4 {i : Nat} (hk : ∀ e m, Within 4 i e m → keep e m)
    (hc : ClonedPml4 k₀ parent child i k) : ClonedPml4 k₀ parent child i k' := by
  intro bits hbits
  obtain ⟨⟨bits', hb⟩, hall⟩ := hc bits hbits
  exact ⟨⟨bits', (h.child.pml4 i (hk 4 i ⟨Nat.le_refl 4, Nat.div_one i⟩)).trans hb⟩,
    fun j hj => h.clonedPdpt (fun e m hw => hk e m (hw.up hj)) (hall j hj)⟩

end

theorem allocPage_advance {page : Nat} (h : Cloning k₀ parent child k)
    (ha : k.allocPage = some (k', page)) : Advance k₀ parent child keep k k' := by
  obtain ⟨pmm, ht, rfl⟩ := allocPage_eq ha
  have hgrown := h.grown.trans (takePage_fresh h.grown.sound ht).grown
  exact ⟨⟨hgrown, h.mem, h.others, h.pml4, h.pdpt, h.pd, h.pt⟩,
    ⟨fun _ _ => rfl, fun _ _ => rfl, fun _ _ => rfl, fun _ _ => rfl⟩, fun _ hl => hl⟩

theorem setTable_self (k : Kernel) (root : Nat) (t : PageTable) : (k.setTable root t).tables root = t :=
  update_self ..

theorem setTable_of_ne (k : Kernel) (t : PageTable) {root r : Nat} (h : r ≠ root) :
    (k.setTable root t).tables r = k.tables r :=
  update_of_ne h ..

theorem setTable_child (h : Cloning k₀ parent child k) (hne : parent ≠ child) {t : PageTable}
    (ht : AgreesOn keep (k.tables child) t) :
    Advance k₀ parent child keep k (k.setTable child t) := by
  have hparent := k.setTable_of_ne t hne
  refine ⟨⟨h.grown, h.mem, fun r hp hc => ?_, ?_, ?_, ?_, ?_⟩, ?_, ?_⟩
  · rw [setTable_of_ne _ _ hc]
    exact h.others r hp hc
  · rw [hparent]; exact h.pml4
  · rw [hparent]; exact h.pdpt
  · rw [hparent]; exact h.pd
  · rw [hparent]; exact h.pt
  · rw [setTable_self]; exact ht
  · rw [hparent]; exact fun _ hl => hl

theorem openTable_advance {page : Nat} (h : Cloning k₀ parent child k) (hne : parent ≠ child)
    (ha : k.allocPage = some (k', page)) {t : PageTable} (ht : AgreesOn keep (k'.tables child) t) :
    Advance k₀ parent child keep k (k'.setTable child t) := by
  have hadv : Advance k₀ parent child keep k k' := allocPage_advance h ha
  exact hadv.trans (setTable_child hadv.cloning hne ht)

theorem foldl_cowIncRef (es : List (BitVec 64)) (k : Kernel) :
    ∃ refs, es.foldl (fun k e => k.cowIncRef (frame e)) k = { k with cowRefs := refs } := by
  induction es generalizing k with
  | nil => exact ⟨k.cowRefs, rfl⟩
  | cons e es ih =>
    have hinc : ∃ refs, k.cowIncRef (frame e) = { k with cowRefs := refs } := by
      unfold cowIncRef
      cases hr : k.cowRefs with
      | none => exact ⟨k.cowRefs, rfl⟩
      | some refs => exact ⟨_, rfl⟩
    obtain ⟨refs, heq⟩ := hinc
    obtain ⟨refs', heq'⟩ := ih { k with cowRefs := refs }
    exact ⟨refs', by rw [foldl_cons, heq, heq']⟩

section

variable (h : Cloning k₀ parent child k)

include h

theorem Cloning.cowEntry_eq (l : Nat) :
    cowEntry ((k.tables parent).pt l) = cowEntry ((k₀.tables parent).pt l) := by
  rcases h.pt l with hl | hl
  · rw [hl]
  · rw [hl, cowEntry_cowEntry]

theorem Cloning.missing (a : Nat) : (k.tables parent).missing a = (k₀.tables parent).missing a := by
  simp only [PageTable.missing, h.pml4, h.pdpt, h.pd]

theorem Cloning.protectPage (n : Nat) :
    Cloning k₀ parent child (k.setTable parent (protectPage (k.tables parent) n)) := by
  refine ⟨h.grown, h.mem, fun r hp hc => ?_, ?_, ?_, ?_, fun l => ?_⟩
  · rw [setTable_of_ne _ _ hp]
    exact h.others r hp hc
  · rw [setTable_self]; exact h.pml4
  · rw [setTable_self]; exact h.pdpt
  · rw [setTable_self]; exact h.pd
  · rw [setTable_self, Kernel.protectPage]
    by_cases hl : l / 512 = n
    · exact .inr ((if_pos hl).trans (h.cowEntry_eq l))
    · simpa only [if_neg hl] using h.pt l

theorem clonePt_advance (hne : parent ≠ child) (n : Nat) :
    Advance k₀ parent child (fun e m => e ≠ 1 ∨ m / 512 ≠ n) k (k.clonePt parent child n) ∧
      ∀ l, l / 512 = n → ClonedPt k₀ parent child l (k.clonePt parent child n) := by
  obtain ⟨refs, hrefs⟩ := foldl_cowIncRef
    (((range 512).map fun l => (k.tables parent).pt (n * 512 + l)).filter isCowEntry) k
  let k₁ : Kernel := { k with cowRefs := refs }
  let k₂ := k₁.setTable parent (protectPage (k.tables parent) n)
  have hc₁ : Cloning k₀ parent child k₁ :=
    ⟨h.grown, h.mem, h.others, h.pml4, h.pdpt, h.pd, h.pt⟩
  have hc₂ : Cloning k₀ parent child k₂ := hc₁.protectPage n
  have hchild : k₂.tables child = k.tables child := setTable_of_ne _ _ (Ne.symm hne)
  have heq : k.clonePt parent child n = k₂.setTable child (copyEntries (k.tables parent) (k.tables child) n) := by
    rw [clonePt, hrefs]
    exact congrArg (fun t => k₂.setTable child (copyEntries (k.tables parent) t n)) hchild
  have hadv : Advance k₀ parent child (fun e m => e ≠ 1 ∨ m / 512 ≠ n) k₂ (k.clonePt parent child n) := by
    rw [heq]
    refine setTable_child hc₂ hne ?_
    rw [hchild]
    exact ⟨fun _ _ => rfl, fun _ _ => rfl, fun _ _ => rfl, fun l hl => if_neg (by simpa using hl)⟩
  have hparent : ∀ l, ((k.clonePt parent child n).tables parent).pt l =
      if l / 512 = n then cowEntry ((k.tables parent).pt l) else (k.tables parent).pt l := by
    intro l
    rw [heq, setTable_of_ne _ _ hne, setTable_self]
    rfl
  refine ⟨⟨hadv.cloning, ?_, fun l hl => ?_⟩, fun l hl => ⟨?_, fun hp => ?_⟩⟩
  · rw [← hchild]
    exact hadv.child
  · rw [hparent, h.cowEntry_eq]
    split_ifs
    · rfl
    · exact hl
  · rw [hparent, if_pos hl, h.cowEntry_eq]
  · have hpres : isPresent ((k.tables parent).pt l) = true := by
      rw [← cowEntry_present, h.cowEntry_eq, cowEntry_present, hp]
    rw [heq, setTable_self, copyEntries]
    simp only [if_pos hl, hpres, if_true, h.cowEntry_eq]

theorem clonePdEntry_advance (hne : parent ≠ child) (n : Nat) :
    Advance k₀ parent child (fun e m => ¬Within 2 n e m) k (clonePdEntry parent child k n).1 ∧
      ((clonePdEntry parent child k n).2 = true →
        ClonedPd k₀ parent child n (clonePdEntry parent child k n).1) := by
  have hself : ∀ m, ¬Within 2 n 2 m → m ≠ n := fun m hm hc => hm ⟨Nat.le_refl 2, by simpa using hc⟩
  unfold clonePdEntry ClonedPd
  rw [← h.pd]
  cases hd : (k.tables parent).pd n with
  | absent => exact ⟨.refl h, fun _ _ hbits => by cases hbits⟩
  | huge bits =>
    refine ⟨setTable_child h hne ⟨fun _ _ => rfl, fun _ _ => rfl, fun m hm => ?_, fun _ _ => rfl⟩,
      fun _ _ hbits => by cases hbits⟩
    exact update_of_ne (hself m hm) ..
  | table bits =>
    cases ha : k.allocPage with
    | none => exact ⟨.refl h, nofun⟩
    | some r =>
      have hpt : ∀ l, ¬Within 2 n 1 l → l / 512 ≠ n := fun l hl hc => hl ⟨by decide, by simpa using hc⟩
      have hadv : Advance k₀ parent child (fun e m => ¬Within 2 n e m) k _ := openTable_advance h hne ha
        (t := { r.1.tables child with
          pd := update (r.1.tables child).pd n (.table (childBits bits r.2))
          pt := fun l => if l / 512 = n then 0#64 else (r.1.tables child).pt l })
        ⟨fun _ _ => rfl, fun _ _ => rfl, fun m hm => update_of_ne (hself m hm) .., fun l hl => if_neg (hpt l hl)⟩
      obtain ⟨hadv₃, hpages⟩ := clonePt_advance hadv.cloning hne n
      have hbelow : ∀ e m, ¬Within 2 n e m → e ≠ 1 ∨ m / 512 ≠ n :=
        fun e m hm => or_iff_not_imp_left.mpr fun he => hpt m (not_not.mp he ▸ hm)
      refine ⟨hadv.trans (hadv₃.mono hbelow), fun _ _ _ => ⟨⟨childBits bits r.2, ?_⟩, hpages⟩⟩
      rw [hadv₃.child.pd n (.inl (by decide)), setTable_self]
      exact update_self ..

end

section

variable {body : Kernel → Nat → Kernel × Bool} {P : Nat → Kernel → Prop} {d : Nat}
  (hbody : ∀ k n, Cloning k₀ parent child k →
    Advance k₀ parent child (fun e m => ¬Within d n e m) k (body k n).1 ∧
      ((body k n).2 = true → P n (body k n).1))
  (hframe : ∀ {keep k k'}, Advance k₀ parent child keep k k' → ∀ {n},
    (∀ e m, Within d n e m → keep e m) → P n k → P n k')

include hbody hframe

/-- A loop over entries of level `d`, when its body stays below the entry it is for. -/
theorem forEach_advance (h : Cloning k₀ parent child k) (l : List Nat) :
    Advance k₀ parent child (fun e m => ∀ n ∈ l, ¬Within d n e m) k (forEach body k l).1 ∧
      ((forEach body k l).2 = true → ∀ n ∈ l, P n (forEach body k l).1) := by
  have hinv : ∀ k', ∀ n ∈ l, Advance k₀ parent child (fun e m => ∀ n ∈ l, ¬Within d n e m) k k' →
      Advance k₀ parent child (fun e m => ∀ n ∈ l, ¬Within d n e m) k (body k' n).1 := by
    intro k' n hn hadv
    have hone := (hbody k' n hadv.cloning).1
    exact hadv.trans (hone.mono fun e m (hm : ∀ n ∈ l, ¬Within d n e m) => hm n hn)
  refine ⟨forEach_inv hinv (.refl h), fun hend n hn => ?_⟩
  refine forEach_post hinv (fun k' m _ hadv => (hbody k' m hadv.cloning).2)
    (fun k' m _ hadv b hb => ?_) (.refl h) hend n (.inl hn)
  exact hframe (hbody k' m hadv.cloning).1 fun e x hw hw' => hb (hw.2.symm.trans hw'.2)

/-- The same loop over the 512 entries below entry `j`, for which a table has just been opened. -/
theorem opened_advance {page j : Nat} (h : Cloning k₀ parent child k) (hne : parent ≠ child)
    (ha : k.allocPage = some (k', page)) {t : PageTable}
    (ht : AgreesOn (fun e m => ¬Within (d + 1) j e m) (k'.tables child) t) :
    let r := forEach body (k'.setTable child t) ((range 512).map (j * 512 + ·))
    Advance k₀ parent child (fun e m => ¬Within (d + 1) j e m) k r.1 ∧
      AgreesOn (fun e _ => d < e) t (r.1.tables child) ∧ (r.2 = true → ∀ n, n / 512 = j → P n r.1) := by
  have hadv := openTable_advance h hne ha ht
  obtain ⟨hloop, hdone⟩ := forEach_advance hbody hframe hadv.cloning ((range 512).map (j * 512 + ·))
  refine ⟨hadv.trans (hloop.mono fun e m hm n hn hw => hm (hw.up ?_)), ?_, fun hend n hn => ?_⟩
  · simp only [mem_map, mem_range] at hn
    omega
  · have hkept : AgreesOn (fun e _ => d < e) _ _ := (hloop.mono fun e m hlt n _ hw => hlt.not_ge hw.1).child
    rwa [setTable_self] at hkept
  · exact hdone hend n (mem_map.mpr ⟨n % 512, mem_range.mpr (Nat.mod_lt _ (by decide)), by omega⟩)

end

theorem clonePdptEntry_advance (h : Cloning k₀ parent child k) (hne : parent ≠ child) (j : Nat) :
    Advance k₀ parent child (fun e m => ¬Within 3 j e m) k (clonePdptEntry parent child k j).1 ∧
      ((clonePdptEntry parent child k j).2 = true →
        ClonedPdpt k₀ parent child j (clonePdptEntry parent child k j).1) := by
  unfold clonePdptEntry ClonedPdpt
  rw [← h.pdpt]
  cases hd : (k.tables parent).pdpt j with
  | absent | huge bits => exact ⟨.refl h, fun _ _ hbits => by cases hbits⟩
  | table bits =>
    cases ha : k.allocPage with
    | none => exact ⟨.refl h, nofun⟩
    | some r =>
      obtain ⟨hadv, hkept, hdirs⟩ := opened_advance (fun k n h => clonePdEntry_advance h hne n)
        Advance.clonedPd h hne ha (t := { r.1.tables child with
          pdpt := update (r.1.tables child).pdpt j (.table (childBits bits r.2))
          pd := fun n => if n / 512 = j then .absent else (r.1.tables child).pd n })
        ⟨fun _ _ => rfl, fun m hm => update_of_ne (fun hc => hm ⟨Nat.le_refl 3, by simpa using hc⟩) ..,
          fun n hn => if_neg fun hc => hn ⟨by decide, by simpa using hc⟩, fun _ _ => rfl⟩
      refine ⟨hadv, fun hend _ _ => ⟨⟨childBits bits r.2, ?_⟩, hdirs hend⟩⟩
      rw [hkept.pdpt j (by decide)]
      exact update_self ..

theorem clonePml4Entry_advance (h : Cloning k₀ parent child k) (hne : parent ≠ child) (i : Nat) :
    Advance k₀ parent child (fun e m => ¬Within 4 i e m) k (clonePml4Entry parent child k i).1 ∧
      ((clonePml4Entry parent child k i).2 = true →
        ClonedPml4 k₀ parent child i (clonePml4Entry parent child k i).1) := by
  unfold clonePml4Entry ClonedPml4
  rw [← h.pml4]
  cases hd : (k.tables parent).pml4 i with
  | none => exact ⟨.refl h, fun _ _ hbits => by cases hbits⟩
  | some bits =>
    cases ha : k.allocPage with
    | none => exact ⟨.refl h, nofun⟩
    | some r =>
      obtain ⟨hadv, hkept, htables⟩ := opened_advance (fun k j h => clonePdptEntry_advance h hne j)
        Advance.clonedPdpt h hne ha (t := { r.1.tables child with
          pml4 := update (r.1.tables child).pml4 i (some (childBits bits r.2))
          pdpt := fun j => if j / 512 = i then .absent else (r.1.tables child).pdpt j })
        ⟨fun m hm => update_of_ne (fun hc => hm ⟨Nat.le_refl 4, by simpa using hc⟩) ..,
          fun j hj => if_neg fun hc => hj ⟨by decide, by simpa using hc⟩, fun _ _ => rfl, fun _ _ => rfl⟩
      refine ⟨hadv, fun hend _ _ => ⟨⟨childBits bits r.2, ?_⟩, htables hend⟩⟩
      rw [hkept.pml4 i (by decide)]
      exact update_self ..

structure Forked (k : Kernel) (parent : Nat) (k' : Kernel) : Prop where
  grown : Grown k.pmm k'.pmm
  mem : k'.mem = k.mem
  others : ∀ root, root ≠ parent → InUse k.pmm root → k'.tables root = k.tables root
  missing : ∀ a, (k'.tables parent).missing a = (k.tables parent).missing a
  pt : ∀ l, (k'.tables parent).pt l = (k.tables parent).pt l ∨
    (k'.tables parent).pt l = cowEntry ((k.tables parent).pt l)

structure ForkedChild (k : Kernel) (parent : Nat) (k' : Kernel) (child : Nat) : Prop where
  free : ¬InUse k.pmm child
  taken : InUse k'.pmm child
  page : ∀ a, pml4Key a < 256 → (k.tables parent).missing a = 0 →
    Entry.isPresent ((k.tables parent).pt (ptKey a)) = true →
    (k'.tables child).missing a = 0 ∧
      (k'.tables parent).pt (ptKey a) = cowEntry ((k.tables parent).pt (ptKey a)) ∧
      (k'.tables child).pt (ptKey a) = cowEntry ((k.tables parent).pt (ptKey a))

theorem cloned_page (h : ∀ i < 256, ClonedPml4 k parent child i k') {a : Nat}
    (hkey : pml4Key a < 256) (hm : (k.tables parent).missing a = 0)
    (hp : isPresent ((k.tables parent).pt (ptKey a)) = true) :
    (k'.tables child).missing a = 0 ∧
      (k'.tables parent).pt (ptKey a) = cowEntry ((k.tables parent).pt (ptKey a)) ∧
      (k'.tables child).pt (ptKey a) = cowEntry ((k.tables parent).pt (ptKey a)) := by
  obtain ⟨b, b', b'', h4, h3, h2⟩ := PageTable.missing_zero hm
  obtain ⟨⟨c, hc4⟩, hpdpt⟩ := h (pml4Key a) hkey b h4
  obtain ⟨⟨c', hc3⟩, hpd⟩ := hpdpt (pdptKey a) rfl b' h3
  obtain ⟨⟨c'', hc2⟩, hpt⟩ := hpd (pdKey a) rfl b'' h2
  obtain ⟨hparent, hchild⟩ := hpt (ptKey a) rfl
  exact ⟨by simp only [PageTable.missing, hc4, hc3, hc2], hparent, hchild hp⟩

theorem cloneUserPageTableCow_spec (h : PmmSound k.pmm) (hparent : InUse k.pmm parent) :
    Forked k parent (k.cloneUserPageTableCow parent).1 ∧
      ∀ child, (k.cloneUserPageTableCow parent).2 = some child →
        ForkedChild k parent (k.cloneUserPageTableCow parent).1 child := by
  have hsame : Forked k parent k :=
    ⟨.refl h, rfl, fun _ _ _ => rfl, fun _ => rfl, fun _ => .inl rfl⟩
  unfold cloneUserPageTableCow
  by_cases hzero : parent = 0
  · rw [if_pos hzero]
    exact ⟨hsame, nofun⟩
  rw [if_neg hzero]
  cases ha : k.allocPage with
  | none => exact ⟨hsame, nofun⟩
  | some r =>
    obtain ⟨k₁, child⟩ := r
    obtain ⟨pmm, ht, rfl⟩ := allocPage_eq ha
    have hfresh := takePage_fresh h ht
    have hne : parent ≠ child := by
      rintro rfl
      exact hfresh.free hparent
    let k₁ : Kernel := { k with pmm := pmm }
    have hstart : Cloning k₁ parent child k₁ :=
      ⟨.refl hfresh.grown.sound, rfl, fun _ _ _ => rfl, rfl, rfl, rfl, fun _ => .inl rfl⟩
    have hset : AgreesOn (fun _ _ => False) (k₁.tables child) (childTable (k.tables k.kernelPml4)) :=
      ⟨nofun, nofun, nofun, nofun⟩
    obtain ⟨hadv, hcloned⟩ := forEach_advance (fun k i h => clonePml4Entry_advance h hne i)
      Advance.clonedPml4 (setTable_child hstart hne hset).cloning (range 256)
    have hcloning := hadv.cloning
    cases hloop : forEach (clonePml4Entry parent child)
        (k₁.setTable child (childTable (k.tables k.kernelPml4))) (range 256) with
    | mk k' done =>
      rw [hloop] at hcloning hcloned
      have hforked : Forked k parent k' := by
        refine ⟨hfresh.grown.trans hcloning.grown, hcloning.mem, fun r hr huse => ?_, fun a => ?_,
          hcloning.pt⟩
        · refine hcloning.others r hr ?_
          rintro rfl
          exact hfresh.free huse
        · exact hcloning.missing a
      cases done with
      | false =>
        simp only [hloop, k₁]
        exact ⟨hforked, nofun⟩
      | true =>
        simp only
        rw [hloop]
        refine ⟨hforked, fun c hc => ?_⟩
        cases hc
        exact ⟨hfresh.free, hcloning.grown.inUse _ hfresh.taken,
          fun a hkey hm hp => cloned_page (fun i hi => hcloned rfl i (mem_range.mpr hi)) hkey hm hp⟩

end Kernel

end AntX.Mm
