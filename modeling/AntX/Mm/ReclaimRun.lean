import AntX.Mm.Swap

/-! Which frame a reclaim gives back: it swaps out what is mapped now and frees what was recorded at
the first touch. -/

namespace AntX.Mm

open Lib Function List Kernel PageTable LruEntry

def LruList.Remembers (Q : Nat → Nat → Nat → Prop) (l : LruList) : Prop :=
  ∀ e, e ∈ l.active ∨ e ∈ l.inactive → e.occupied = true → Q e.pml4 e.virtAddr e.physAddr

variable {e : BitVec 64} {pml4 virt phys root a : Nat} {dirty locked : Bool} {k k₁ k' : Kernel}
  {page : Nat × Nat × Nat}

namespace LruList

variable {Q : Nat → Nat → Nat → Prop} {l : LruList}

theorem getD_of_findIdx {p : LruEntry → Bool} {es : List LruEntry} {i : Nat}
    (h : es.findIdx? p = some i) : es.getD i .empty ∈ es ∧ p (es.getD i .empty) = true := by
  obtain ⟨hi, hp, -⟩ := findIdx?_eq_some_iff_getElem.mp h
  rw [getD_eq_getElem _ _ hi]
  exact ⟨getElem_mem hi, hp⟩

section

variable (h : l.Remembers Q)

include h

theorem Remembers.set_active (i : Nat) {e : LruEntry}
    (he : e.occupied = true → Q e.pml4 e.virtAddr e.physAddr) (n : Nat) :
    ({ l with active := l.active.set i e, activeCount := n } : LruList).Remembers Q := by
  rintro e' (ha | hi) hocc
  · rcases mem_or_eq_of_mem_set ha with hm | rfl
    · exact h e' (.inl hm) hocc
    · exact he hocc
  · exact h e' (.inr hi) hocc

theorem Remembers.set_inactive (i : Nat) {e : LruEntry}
    (he : e.occupied = true → Q e.pml4 e.virtAddr e.physAddr) (n : Nat) :
    ({ l with inactive := l.inactive.set i e, inactiveCount := n } : LruList).Remembers Q := by
  rintro e' (ha | hi) hocc
  · exact h e' (.inl ha) hocc
  · rcases mem_or_eq_of_mem_set hi with hm | rfl
    · exact h e' (.inr hm) hocc
    · exact he hocc

theorem Remembers.clear_inactive (i n : Nat) :
    ({ l with inactive := l.inactive.set i .empty, inactiveCount := n } : LruList).Remembers Q :=
  h.set_inactive i (fun hocc : LruEntry.empty.occupied = true => absurd hocc (by decide)) n

omit h in
theorem Remembers.new : LruList.new.Remembers Q := by
  intro e he hocc
  have hempty : e = .empty := by
    rcases he with he | he <;> exact eq_of_mem_replicate he
  rw [hempty] at hocc
  cases hocc

theorem Remembers.evictOldest : l.evictOldest.Remembers Q := by
  unfold LruList.evictOldest
  split
  · exact h
  · exact h.clear_inactive _ _

theorem Remembers.demoteOldest : l.demoteOldest.Remembers Q := by
  unfold LruList.demoteOldest
  cases hf : l.active.findIdx? (·.occupied) with
  | none => exact h
  | some i =>
    obtain ⟨hm, hocc⟩ := getD_of_findIdx hf
    have hentry := h _ (.inl hm) hocc
    have hcleared := h.set_active i (e := .empty) (fun hocc => absurd hocc (by decide)) (l.activeCount - 1)
    simp only
    split
    · split_ifs
      · exact hcleared.evictOldest
      · exact hcleared
    · split_ifs
      · exact hcleared.evictOldest.set_inactive _ (fun _ => hentry) _
      · exact hcleared.set_inactive _ (fun _ => hentry) _

theorem Remembers.pushActive (hq : (∃ e ∈ l.active, e.tracks virt = true) ∨ Q pml4 virt phys) :
    (l.pushActive pml4 virt phys dirty locked).Remembers Q := by
  unfold LruList.pushActive
  cases hf : l.active.findIdx? (·.tracks virt) with
  | some i =>
    obtain ⟨hm, htracks⟩ := getD_of_findIdx hf
    have hentry := h _ (.inl hm)
    apply h.set_active i
    exact hentry
  | none =>
    have hnew : Q pml4 virt phys := by
      rcases hq with ⟨e, he, htracks⟩ | hq
      · rw [findIdx?_eq_none_iff.mp hf e he] at htracks
        cases htracks
      · exact hq
    have hroom : (if shouldDemoteActive l.activeCount lruCapacity then l.demoteOldest
        else l).Remembers Q := by
      split_ifs
      · exact h.demoteOldest
      · exact h
    simp only
    split
    · exact hroom
    · exact hroom.set_active _ (fun _ => hnew) _

theorem Remembers.addActive
    (hq : (∃ e, (e ∈ l.active ∨ e ∈ l.inactive) ∧ e.tracks virt = true) ∨ Q pml4 virt phys) :
    (l.addActive pml4 virt phys dirty locked).Remembers Q := by
  unfold LruList.addActive
  cases hf : l.inactive.findIdx? (·.tracks virt) with
  | some i =>
    obtain ⟨hm, htracks⟩ := getD_of_findIdx hf
    have hocc : (l.inactive.getD i .empty).occupied = true := by
      rw [tracks, Bool.and_eq_true] at htracks
      exact htracks.1
    exact (h.clear_inactive i _).pushActive (.inr (h _ (.inr hm) hocc))
  | none =>
    apply h.pushActive
    rcases hq with ⟨e, he | he, htracks⟩ | hq
    · exact .inl ⟨e, he, htracks⟩
    · rw [findIdx?_eq_none_iff.mp hf e he] at htracks
      cases htracks
    · exact .inr hq

theorem Remembers.getVictim {l' : LruList} {entry : LruEntry} (hv : l.getVictim = some (l', entry)) :
    l'.Remembers Q ∧ Q entry.pml4 entry.virtAddr entry.physAddr := by
  unfold LruList.getVictim selectVictim at hv
  rw [findIdx?_map] at hv
  cases hf : l.inactive.findIdx? ((fun e : Option LruEntry => e.any (!·.locked)) ∘
      fun e => if e.occupied then some e else none) with
  | none =>
    rw [hf] at hv
    cases hv
  | some i =>
    rw [hf] at hv
    cases hv
    obtain ⟨hm, hp⟩ := getD_of_findIdx hf
    refine ⟨h.clear_inactive i _, h _ (.inr hm) ?_⟩
    by_contra hocc
    rw [comp_apply, if_neg hocc] at hp
    cases hp

end

end LruList

def Kernel.backed (k : Kernel) (pml4 virt phys : Nat) : Bool :=
  pml4 != 0 && (k.getPteValue pml4 virt).all fun pte =>
    !Entry.isPresent pte || Entry.frame pte == pageDown phys

theorem Kernel.backed_iff :
    k.backed pml4 virt phys = true ↔ pml4 ≠ 0 ∧ ∀ pte, k.getPteValue pml4 virt = some pte →
      Entry.isPresent pte = true → Entry.frame pte = pageDown phys := by
  cases hpte : k.getPteValue pml4 virt with
  | none => simp [backed, hpte]
  | some pte => cases hpres : Entry.isPresent pte <;> simp [backed, hpte, hpres]

inductive SwapOp where
  | lruTouch (pml4 virtAddr physAddr : Nat) (dirty locked : Bool)
  /-- Anything else the kernel does to its tables and memory. -/
  | change (k : Kernel)
  | reclaimPages (maxCount : Nat)

def swapStep (s : SwapSys) : SwapOp → SwapSys
  | .lruTouch pml4 virtAddr physAddr dirty locked =>
    s.lruTouch pml4 virtAddr physAddr dirty locked
  | .change k => { s with kernel := k }
  | .reclaimPages maxCount => (s.reclaimPages maxCount).1

/-- A touch of an address that is not yet listed names its table and frame; no listed
address is mapped anew to another frame. -/
def SwapOp.Careful (s : SwapSys) : SwapOp → Prop
  | .lruTouch pml4 virtAddr physAddr _ _ =>
    (∃ e ∈ s.lru.active ++ s.lru.inactive, e.tracks virtAddr = true) ∨
      s.kernel.backed pml4 virtAddr physAddr = true
  | .change k => ∀ e ∈ s.lru.active ++ s.lru.inactive, e.occupied = true →
      k.backed e.pml4 e.virtAddr e.physAddr = true
  | .reclaimPages _ => True

instance (s : SwapSys) : (op : SwapOp) → Decidable (op.Careful s)
  | .lruTouch .. => inferInstanceAs (Decidable ((∃ e ∈ s.lru.active ++ s.lru.inactive, _) ∨ _))
  | .change _ => inferInstanceAs (Decidable (∀ e ∈ s.lru.active ++ s.lru.inactive, _ → _))
  | .reclaimPages _ => isTrue trivial

def Reclaimed.Right (r : Reclaimed) : Prop :=
  ∃ pte slot, r.before.getPteValue r.pml4 r.virtAddr = some pte ∧ Entry.isPresent pte = true ∧
    Entry.frame pte = pageDown r.freed ∧
    r.before.swap.slotUsed slot = false ∧ r.after.swap.slotUsed slot = true ∧
    r.after.getPteValue r.pml4 r.virtAddr = some (swapEntry slot) ∧
    ∀ i < pageSize, r.after.mem (r.after.swap.storagePhys + slot * pageSize + i) =
      r.before.mem (pageDown r.freed + i)

structure SwapSys.Tidy (s : SwapSys) : Prop where
  remembers : s.lru.Remembers (fun pml4 virt phys => s.kernel.backed pml4 virt phys = true)
  right : ∀ r ∈ s.reclaimed, r.Right

namespace Kernel

variable {k k₁ : Kernel} {pml4 virt slot : Nat} {pte : BitVec 64}

theorem SwappedOut.present_before (h : SwappedOut k pml4 virt k₁ pte slot)
    (he : k₁.getPteValue root a = some e) (hpres : Entry.isPresent e = true) :
    k.getPteValue root a = some e := by
  obtain ⟨hroot, hm, hpt⟩ := getPteValue_eq_some.mp he
  rw [h.tables] at hm hpt
  by_cases hr : root = pml4
  · subst hr
    rw [update_self] at hm hpt
    change update (k.tables root).pt (ptKey virt) (swapEntry slot) (ptKey a) = e at hpt
    by_cases ha : ptKey a = ptKey virt
    · rw [ha, update_self] at hpt
      rw [← hpt, Entry.isPresent, swapEntry, BitVec.getLsbD_shiftLeft] at hpres
      simp at hpres
    · rw [update_of_ne ha] at hpt
      exact getPteValue_eq_some.mpr ⟨hroot, hm, hpt⟩
  · rw [update_of_ne hr] at hm hpt
    exact getPteValue_eq_some.mpr ⟨hroot, hm, hpt⟩

theorem SwappedOut.backed (h : SwappedOut k pml4 virt k₁ pte slot)
    (hb : k.backed root a phys = true) : k₁.backed root a phys = true := by
  rw [backed_iff] at hb ⊢
  refine ⟨hb.1, ?_⟩
  intro e he hpres
  exact hb.2 e (h.present_before he hpres) hpres

theorem SwappedOut.right (h : SwappedOut k pml4 virt k₁ pte slot)
    (hb : k.backed pml4 virt phys = true) : (Reclaimed.mk phys pml4 virt k k₁).Right := by
  have hframe : Entry.frame pte = pageDown phys := (backed_iff.mp hb).2 pte h.entry h.present
  refine ⟨pte, slot, h.entry, h.present, hframe, h.wasFree, ?_, h.getPteValue_self, ?_⟩
  · simp [h.swap]
  · intro i hi
    simp only [h.mem, h.swap]
    rw [copyPage_at _ _ _ hi, hframe]

end Kernel

namespace SwapSys

variable {s : SwapSys}

theorem Tidy.reclaimOne (h : s.Tidy) : s.reclaimOne.1.Tidy := by
  unfold SwapSys.reclaimOne
  cases hv : s.lru.getVictim with
  | none => exact h
  | some victim =>
    obtain ⟨lru, entry⟩ := victim
    obtain ⟨hrest, hentry⟩ := h.remembers.getVictim hv
    have hne : entry.pml4 ≠ 0 := (backed_iff.mp hentry).1
    simp only [hne, ne_eq, not_false_eq_true, if_true]
    cases hout : s.kernel.swapOutToPte entry.pml4 entry.virtAddr with
    | none => exact ⟨hrest, h.right⟩
    | some result =>
      obtain ⟨pte, slot, -, hs⟩ := swapOutToPte_spec hout
      constructor
      · intro e he hocc
        exact hs.backed (hrest e he hocc)
      · intro r hr
        rcases mem_cons.mp hr with rfl | hr
        · exact hs.right hentry
        · exact h.right r hr

theorem Tidy.reclaimPages (h : s.Tidy) (maxCount : Nat) : (s.reclaimPages maxCount).1.Tidy := by
  induction maxCount generalizing s with
  | zero => exact h
  | succ n ih =>
    have hone := h.reclaimOne
    rw [SwapSys.reclaimPages]
    cases hr : s.reclaimOne with
    | mk s' again =>
      rw [hr] at hone
      cases again with
      | false => exact hone
      | true => exact ih hone

theorem Tidy.step (h : s.Tidy) {op : SwapOp} (hop : op.Careful s) : (swapStep s op).Tidy := by
  cases op with
  | lruTouch pml4 virtAddr physAddr dirty locked =>
    refine ⟨h.remembers.addActive ?_, h.right⟩
    rcases hop with ⟨e, he, htracks⟩ | hbacked
    · exact .inl ⟨e, mem_append.mp he, htracks⟩
    · exact .inr hbacked
  | change k =>
    refine ⟨?_, h.right⟩
    intro e he hocc
    exact hop e (mem_append.mpr he) hocc
  | reclaimPages maxCount => exact h.reclaimPages maxCount

end SwapSys

def SwapSys.start (k : Kernel) : SwapSys := ⟨k, .new, []⟩

/-- In every run of careful steps, each frame that a reclaim gave back is the frame that it
swapped out. -/
theorem reclaim_frees_swapped (k : Kernel) (ops : List SwapOp)
    (hops : Guarded swapStep (fun s op => op.Careful s) (SwapSys.start k) ops) :
    ∀ r ∈ (run swapStep (SwapSys.start k) ops).reclaimed, r.Right := by
  have htidy : (run swapStep (SwapSys.start k) ops).Tidy :=
    hops.run_invariant ⟨LruList.Remembers.new, by simp [SwapSys.start]⟩ (fun s op hs hop => hs.step hop)
  exact htidy.right

def touch (page : Nat × Nat × Nat) : SwapOp := .lruTouch page.1 page.2.1 page.2.2 false false

def touchAll (l : LruList) (pages : List (Nat × Nat × Nat)) : LruList :=
  pages.foldl (fun l page => l.addActive page.1 page.2.1 page.2.2 false false) l

theorem run_touch (pages : List (Nat × Nat × Nat)) (s : SwapSys) :
    run swapStep s (pages.map touch) = { s with lru := touchAll s.lru pages } := by
  induction pages generalizing s with
  | nil => rfl
  | cons page pages ih => exact ih _

theorem guarded_touch {pages : List (Nat × Nat × Nat)} {s : SwapSys} {maxCount : Nat}
    (h : ∀ page ∈ pages, s.kernel.backed page.1 page.2.1 page.2.2 = true) :
    Guarded swapStep (fun s op => op.Careful s) s (pages.map touch ++ [.reclaimPages maxCount]) := by
  induction pages generalizing s with
  | nil => exact ⟨trivial, trivial⟩
  | cons page pages ih =>
    exact ⟨.inr (h page (by simp)), ih (fun other ho => h other (by simp [ho]))⟩

def LruEntry.ofTouch (page : Nat × Nat × Nat) : LruEntry :=
  ⟨page.1, page.2.1, page.2.2, false, true, false⟩

structure LruList.Filled (l : LruList) (es : List LruEntry) : Prop where
  active : l.active = es ++ replicate (lruCapacity - es.length) .empty
  occupied : ∀ e ∈ es, e.occupied = true
  activeCount : l.activeCount = es.length
  inactive : l.inactive = replicate lruCapacity .empty
  inactiveCount : l.inactiveCount = 0

namespace LruList.Filled

variable {l : LruList} {es : List LruEntry} {e : LruEntry} {page : Nat × Nat × Nat}

theorem new : LruList.new.Filled [] := ⟨rfl, by simp, rfl, rfl, rfl⟩

theorem empty_tracks (n virt : Nat) : (replicate n LruEntry.empty).findIdx? (·.tracks virt) = none := by
  rw [findIdx?_eq_none_iff]
  intro e he
  rw [eq_of_mem_replicate he]
  rfl

theorem addActive_eq (h : l.Filled es) (virt : Nat) :
    l.addActive pml4 virt phys false false = l.pushActive pml4 virt phys false false := by
  rw [LruList.addActive, h.inactive, empty_tracks]

theorem fresh (h : l.Filled es) (hfresh : ∀ e ∈ es, e.virtAddr ≠ virt) :
    l.active.findIdx? (·.tracks virt) = none := by
  rw [h.active, findIdx?_append, empty_tracks, findIdx?_eq_none_iff.mpr]
  · rfl
  · intro e he
    simp [tracks, hfresh e he]

theorem touch_again (h : l.Filled (.ofTouch page :: es)) :
    (l.addActive pml4 page.2.1 phys false false).Filled (.ofTouch page :: es) := by
  have hfound : l.active.findIdx? (·.tracks page.2.1) = some 0 := by
    rw [h.active, cons_append, findIdx?_cons]
    simp [tracks, ofTouch]
  rw [h.addActive_eq, LruList.pushActive, hfound]
  refine ⟨?_, h.occupied, h.activeCount, h.inactive, h.inactiveCount⟩
  simp [h.active, ofTouch]

theorem touch_new (h : l.Filled es) (hroom : es.length < lruCapacity)
    (hfresh : ∀ e ∈ es, e.virtAddr ≠ page.2.1) :
    (l.addActive page.1 page.2.1 page.2.2 false false).Filled (es ++ [.ofTouch page]) := by
  have hdemote : shouldDemoteActive l.activeCount lruCapacity = false := by
    rw [shouldDemoteActive, h.activeCount]
    exact decide_eq_false (Nat.not_le.mpr hroom)
  have hplaces : replicate (lruCapacity - es.length) LruEntry.empty =
      .empty :: replicate (lruCapacity - (es.length + 1)) .empty := by
    rw [← replicate_succ]
    congr 1
    omega
  have hplace : l.active.findIdx? (!·.occupied) = some es.length := by
    rw [h.active, hplaces, findIdx?_append, findIdx?_cons, findIdx?_eq_none_iff.mpr]
    · simp [LruEntry.empty]
    · intro e he
      simp [h.occupied e he]
  rw [h.addActive_eq, LruList.pushActive, h.fresh hfresh]
  simp only [hdemote, Bool.false_eq_true, if_false, hplace]
  refine ⟨?_, ?_, ?_, h.inactive, h.inactiveCount⟩
  · simp only [h.active, hplaces]
    simp [ofTouch]
  · intro e he
    rcases mem_append.mp he with he | he
    · exact h.occupied e he
    · rw [mem_singleton.mp he]
      rfl
  · simp [h.activeCount]

theorem touchAll (h : l.Filled es) {pages : List (Nat × Nat × Nat)}
    (hroom : es.length + pages.length ≤ lruCapacity)
    (hfresh : (es.map (·.virtAddr) ++ pages.map (·.2.1)).Nodup) :
    (touchAll l pages).Filled (es ++ pages.map .ofTouch) := by
  induction pages generalizing l es with
  | nil =>
    rw [map_nil, append_nil]
    exact h
  | cons page pages ih =>
    rw [length_cons] at hroom
    have hnew : ∀ e ∈ es, e.virtAddr ≠ page.2.1 := by
      intro e he heq
      have hdis := (nodup_append.mp hfresh).2.2
      exact hdis _ (mem_map_of_mem he) _ (by simp) heq
    have hstep := h.touch_new (by omega) hnew
    have hrest := ih hstep (by rw [length_append, length_singleton]; omega) (by simpa [ofTouch] using hfresh)
    rw [map_cons, append_cons]
    exact hrest

theorem touch_full (h : l.Filled (e :: es)) (hfull : (e :: es).length = lruCapacity)
    (hlocked : e.locked = false) (hfresh : ∀ e' ∈ e :: es, e'.virtAddr ≠ page.2.1) :
    (l.addActive page.1 page.2.1 page.2.2 false false).getVictim.map (·.2) = some e := by
  have hocc : e.occupied = true := h.occupied e (by simp)
  have hdemote : shouldDemoteActive l.activeCount lruCapacity = true := by
    rw [shouldDemoteActive, h.activeCount, hfull]
    rfl
  have hevict : shouldEvictInactive l.inactiveCount lruCapacity = false := by
    rw [shouldEvictInactive, h.inactiveCount]
    rfl
  have hfirst : l.active.findIdx? (·.occupied) = some 0 := by
    rw [h.active, cons_append, findIdx?_cons, hocc]
    rfl
  have hentry : l.active.getD 0 .empty = e := by
    rw [h.active]
    rfl
  have hdemoted : l.demoteOldest.inactive = e :: replicate 255 .empty := by
    simp only [LruList.demoteOldest, hfirst, hevict, Bool.false_eq_true, if_false, hentry, h.inactive]
    rfl
  have hinactive : (l.addActive page.1 page.2.1 page.2.2 false false).inactive =
      e :: replicate 255 .empty := by
    rw [h.addActive_eq, LruList.pushActive, h.fresh hfresh]
    simp only [hdemote, if_true]
    split <;> exact hdemoted
  have hselect : selectVictim ((e :: replicate 255 .empty).map fun e =>
      if e.occupied then some e else none) = some 0 := by
    rw [selectVictim, map_cons, findIdx?_cons, if_pos hocc, Option.any_some, hlocked]
    rfl
  rw [LruList.getVictim, hinactive, hselect]
  rfl

end LruList.Filled

def agedList (page : Nat × Nat × Nat) (frame : Nat) (others : List (Nat × Nat × Nat)) : LruList :=
  touchAll .new (page :: (page.1, page.2.1, frame) :: others)

variable {frame : Nat}

/-- Once as many other addresses were touched as the active list has places, the victim is
the page of the first touch, with its first frame. -/
theorem agedList_victim {last : Nat × Nat × Nat} {others : List (Nat × Nat × Nat)}
    (hlen : others.length + 1 = lruCapacity)
    (hfresh : (page.2.1 :: (others ++ [last]).map (·.2.1)).Nodup) :
    (agedList page frame (others ++ [last])).getVictim.map (·.2) = some (.ofTouch page) := by
  have hfirst : (LruList.new.addActive page.1 page.2.1 page.2.2 false false).Filled
      [.ofTouch page] := LruList.Filled.new.touch_new (by decide) (by simp)
  have hagain : ((LruList.new.addActive page.1 page.2.1 page.2.2 false false).addActive
      page.1 page.2.1 frame false false).Filled [.ofTouch page] := hfirst.touch_again
  rw [map_append, ← cons_append, nodup_append] at hfresh
  obtain ⟨hnodup, -, hlast⟩ := hfresh
  have hfull := hagain.touchAll (by rw [length_singleton]; omega) hnodup
  rw [agedList, touchAll, foldl_cons, foldl_cons, foldl_append]
  apply hfull.touch_full
  · simpa using hlen
  · rfl
  · intro e he
    rcases mem_cons.mp he with rfl | he
    · exact hlast _ mem_cons_self _ (by simp)
    · obtain ⟨other, ho, rfl⟩ := mem_map.mp he
      exact hlast _ (mem_cons_of_mem _ (mem_map_of_mem ho)) _ (by simp)

theorem run_aged (k k' : Kernel) (page : Nat × Nat × Nat) (frame : Nat) (others : List (Nat × Nat × Nat)) :
    run swapStep (SwapSys.start k) (touch page :: .change k' ::
      ((page.1, page.2.1, frame) :: others).map touch) = ⟨k', agedList page frame others, []⟩ := by
  rw [run_cons, run_cons, run_touch]
  simp only [swapStep, touch, SwapSys.lruTouch, SwapSys.start, agedList, touchAll, foldl_cons]

theorem SwapSys.reclaimPages_log {l : LruList} {entry : LruEntry}
    (hv : l.getVictim.map (·.2) = some entry) (hne : entry.pml4 ≠ 0)
    (hout : k.swapOutToPte entry.pml4 entry.virtAddr = some (k₁, e)) :
    ((SwapSys.mk k l []).reclaimPages 1).1.reclaimed =
      [⟨entry.physAddr, entry.pml4, entry.virtAddr, k, k₁⟩] := by
  obtain ⟨⟨lru, entry⟩, hvictim, rfl⟩ := Option.map_eq_some_iff.mp hv
  simp [SwapSys.reclaimPages, SwapSys.reclaimOne, hvictim, hne, hout, SwapSys.release]

def agingRun (k' : Kernel) (page : Nat × Nat × Nat) (frame : Nat)
    (others : List (Nat × Nat × Nat)) : List SwapOp :=
  touch page :: .change k' :: (((page.1, page.2.1, frame) :: others).map touch ++ [.reclaimPages 1])

theorem reclaimed_aged {last : Nat × Nat × Nat} {others : List (Nat × Nat × Nat)}
    (hlen : others.length + 1 = lruCapacity)
    (hfresh : (page.2.1 :: (others ++ [last]).map (·.2.1)).Nodup) (hne : page.1 ≠ 0)
    (hout : k'.swapOutToPte page.1 page.2.1 = some (k₁, e)) :
    (run swapStep (SwapSys.start k) (agingRun k' page frame (others ++ [last]))).reclaimed =
      [⟨page.2.2, page.1, page.2.1, k', k₁⟩] := by
  rw [agingRun, ← cons_append, ← cons_append, run_append, run_aged, run_cons, run_nil, swapStep]
  exact SwapSys.reclaimPages_log (agedList_victim hlen hfresh) hne hout

def otherPages (n : Nat) : List (Nat × Nat × Nat) :=
  (range n).map fun i => (0x2000, 0x20000 + i * pageSize, 0)

theorem otherPages_fresh (n : Nat) : (0x10000 :: (otherPages n).map (·.2.1)).Nodup := by
  rw [otherPages, map_map, nodup_cons]
  constructor
  · intro hmem
    obtain ⟨i, -, hi⟩ := mem_map.mp hmem
    simp only [comp_apply] at hi
    omega
  · apply nodup_range.map
    intro i j hij
    simp only [comp_apply, pageSize] at hij
    omega

theorem reclaimed_otherPages (hout : k'.swapOutToPte 0x2000 0x10000 = some (k₁, e)) :
    (run swapStep (SwapSys.start k)
      (agingRun k' (0x2000, 0x10000, 0x6000) frame (otherPages 256))).reclaimed =
        [⟨0x6000, 0x2000, 0x10000, k', k₁⟩] := by
  have hsplit : otherPages 256 = otherPages 255 ++ [(0x2000, 0x20000 + 255 * pageSize, 0)] := by
    rw [otherPages, range_succ, map_append, ← otherPages]
    rfl
  have hfresh := otherPages_fresh 256
  rw [hsplit] at hfresh ⊢
  exact reclaimed_aged (by simp [otherPages, lruCapacity]) hfresh (by decide) hout

theorem reclaim_frees_swapped_page : ∃ r ∈ (run swapStep (SwapSys.start (Kernel.swapProcess (· == 0)))
      (agingRun (Kernel.swapProcess (· == 0)) (0x2000, 0x10000, 0x6000) 0x7000
        (otherPages 256))).reclaimed, r.freed = 0x6000 ∧ r.Right := by
  obtain ⟨k₁, e, hout⟩ := swapProcess_swaps (· == 0) rfl
  have hall := reclaim_frees_swapped (Kernel.swapProcess (· == 0))
    (agingRun (Kernel.swapProcess (· == 0)) (0x2000, 0x10000, 0x6000) 0x7000 (otherPages 256))
    ⟨.inr (by decide +kernel), by decide +kernel, .inl (by decide +kernel), guarded_touch (by decide +kernel)⟩
  rw [reclaimed_otherPages hout] at hall ⊢
  exact ⟨_, mem_singleton_self _, rfl, hall _ (mem_singleton_self _)⟩

theorem reclaim_frees_other_frame : ¬ ∀ (k : Kernel) (ops : List SwapOp),
      ∀ r ∈ (run swapStep (SwapSys.start k) ops).reclaimed, r.Right := by
  intro h
  let k := Kernel.swapProcess (· == 0)
  let remapped := k.setPteValue 0x2000 0x10000 0x7007#64
  have hpte : remapped.getPteValue 0x2000 0x10000 = some 0x7007#64 := rfl
  obtain ⟨k₁, e, hout⟩ : ∃ k₁ e, remapped.swapOutToPte 0x2000 0x10000 = some (k₁, e) :=
    swapOutToPte_of_free (i := 1) hpte (by decide) rfl (by decide) rfl
  have hrun := h k (agingRun remapped (0x2000, 0x10000, 0x6000) 0x7000 (otherPages 256))
  rw [reclaimed_otherPages hout] at hrun
  obtain ⟨pte, slot, hbefore, -, hframe, -⟩ := hrun _ (mem_singleton_self _)
  rw [hpte] at hbefore
  cases hbefore
  exact absurd hframe (show Entry.frame 0x7007#64 ≠ pageDown 0x6000 by decide)

end AntX.Mm
