import AntX.Mm.PmmRun

/-! The cached page counters. They follow the bitmap through every call but the
return of a 1 GiB page, which clears the bits and forgets the counters. -/

namespace AntX.Mm

open Lib Function Bitmap Pmm

def clearCount (b : Bitmap) (n : Nat) : Nat := Nat.count (fun x => b.bit x = false) n

def Accounted (s : Pmm) : Prop :=
  s.info.freePages = clearCount s.bitmap s.info.totalPages ∧
    s.info.freePages + s.info.usedPages = s.info.totalPages

section Count

variable {f : Nat → Bool} {k n : Nat}

theorem count_update_of_le (v : Bool) (h : n ≤ k) :
    Nat.count (fun x => update f k v x = false) n = Nat.count (fun x => f x = false) n := by
  induction n with
  | zero => rfl
  | succ n ih =>
    rw [Nat.count_succ, Nat.count_succ, ih (by omega), update_of_ne (by omega)]

theorem count_update (v : Bool) (hk : k < n) (hf : f k = !v) :
    Nat.count (fun x => update f k v x = false) n + v.toNat =
      Nat.count (fun x => f x = false) n + (!v).toNat := by
  induction n with
  | zero => omega
  | succ n ih =>
    rw [Nat.count_succ, Nat.count_succ]
    by_cases hkn : n = k
    · subst hkn
      rw [count_update_of_le v (Nat.le_refl n), update_self, hf]
      cases v <;> simp
    · rw [update_of_ne hkn]
      omega

end Count

theorem clearCount_writeRange {b : Bitmap} {a n total : Nat} {v : Bool} (hb : a + n ≤ total)
    (hs : ∀ x < total, x / 32 < b.size) (hf : ∀ x, a ≤ x → x < a + n → b.bit x = !v) :
    clearCount (b.writeRange v a n) total + v.toNat * n = clearCount b total + (!v).toNat * n := by
  induction n with
  | zero => rfl
  | succ n ih =>
    have hbit : (b.writeRange v a n).bit (a + n) = !v := by
      rw [writeRange_bit, if_neg (by omega)]
      exact hf (a + n) (by omega) (by omega)
    have hstep := count_update v (show a + n < total by omega) hbit
    have hi := ih (by omega) (fun x h1 h2 => hf x h1 (by omega))
    rw [writeRange, writeBit, writeRange_size, if_pos (hs _ (by omega))]
    simp only [clearCount, Nat.mul_succ] at hi hstep ⊢
    omega

theorem clearCount_le (b : Bitmap) (n : Nat) : clearCount b n ≤ n := Nat.count_le _

theorem countFreePages_eq {s : Pmm} (hs : s.info.totalPages ≤ s.bitmap.size * 32)
    (hout : ∀ x, s.info.totalPages ≤ x → s.bitmap.bit x = false) :
    s.countFreePages = clearCount s.bitmap s.info.totalPages := by
  have hsplit : s.bitmap.countFree =
      clearCount s.bitmap s.info.totalPages + (s.bitmap.size * 32 - s.info.totalPages) := by
    obtain ⟨d, hd⟩ := Nat.exists_eq_add_of_le hs
    rw [countFree, hd, Nat.count_add, Nat.add_sub_cancel_left]
    congr 1
    exact Nat.count_iff_forall.mpr (fun x _ => hout _ (Nat.le_add_right _ _))
  unfold countFreePages
  simp only
  split_ifs <;> omega

theorem accounted_boot (memSize kernelEnd reserved : Nat) : Accounted (boot memSize kernelEnd reserved) := by
  obtain ⟨hs, hbit, htotal⟩ := boot_sound memSize kernelEnd reserved
  have hout := (bootBitmap_spec memSize kernelEnd reserved).2.2
  rw [← hbit, ← htotal] at hout
  obtain ⟨s, hboot⟩ : ∃ s : Pmm, boot memSize kernelEnd reserved = s.updateStats := ⟨_, rfl⟩
  rw [hboot] at hs hout ⊢
  have hsize : s.info.totalPages ≤ s.bitmap.size * 32 := by
    by_contra hc
    have := hs.size (s.bitmap.size * 32) (Nat.lt_of_not_le hc)
    simp only [updateStats] at this
    omega
  have hcount := countFreePages_eq hsize hout
  have hle := clearCount_le s.bitmap s.info.totalPages
  refine ⟨hcount, ?_⟩
  change s.countFreePages + (s.info.totalPages - s.countFreePages) = s.info.totalPages
  omega

section Steps

variable {s s' : Pmm} {a n : Nat}

theorem Takes.accounted (ht : Takes s s' a n) (h : PmmSound s) (hw : s.info.totalPages < 2 ^ 64)
    (hacc : Accounted s) : Accounted s' := by
  have hc : clearCount (s.bitmap.setRange a n) s.info.totalPages + n = clearCount s.bitmap s.info.totalPages := by
    simpa using clearCount_writeRange (v := true) ht.below h.size ht.wasFree
  obtain ⟨h1, h2⟩ := hacc
  rw [Accounted, ht.info, ht.bitmap]
  simp only [statsAlloc, Pmm.saturatingAdd]
  omega

theorem Returns.accounted (hr : Returns s s' a n) (h : PmmSound s) (hw : s.info.totalPages < 2 ^ 64)
    (hb : a + n ≤ s.info.totalPages) (hset : ∀ x, a ≤ x → x < a + n → s.bitmap.bit x = true)
    (hinfo : s'.info = (s.statsFree n).info) (hacc : Accounted s) : Accounted s' := by
  have hc : clearCount (s.bitmap.clearRange a n) s.info.totalPages = clearCount s.bitmap s.info.totalPages + n := by
    simpa using clearCount_writeRange (v := false) hb h.size hset
  have hle := clearCount_le (s.bitmap.clearRange a n) s.info.totalPages
  obtain ⟨h1, h2⟩ := hacc
  rw [Accounted, hinfo, hr.bitmap]
  simp only [Pmm.statsFree, Pmm.saturatingAdd]
  omega

end Steps

structure AccountingInv (sys : PmmSys) : Prop where
  inv : PmmInv sys
  word : sys.pmm.info.totalPages < 2 ^ 64
  accounted : Accounted sys.pmm

theorem AccountingInv.of_effect {sys sys' : PmmSys} {leaky : Prop} (h : AccountingInv sys)
    (hl : ¬ leaky) (he : Effect sys leaky sys') : AccountingInv sys' := by
  refine ⟨h.inv.of_effect he, ?_, ?_⟩
  · cases he with
    | keep _ _ info => simpa only [info] using h.word
    | take takes _ _ =>
      simp only [takes.info]
      exact h.word
    | give _ returns _ => simpa only [returns.total] using h.word
  · cases he with
    | keep _ bitmap info => simpa only [Accounted, bitmap, info] using h.accounted
    | take takes _ _ => exact takes.accounted h.inv.sound h.word h.accounted
    | give mem returns info =>
      exact returns.accounted h.inv.sound h.word (h.inv.grant _ mem).below.2 (h.inv.marked_at mem)
        (info.resolve_right (fun hc => hl hc.1)) h.accounted

instance : (op : PmmOp) → Decidable op.Leaky
  | .freeHugePage _ .size1G => isTrue trivial
  | .freeHugePage _ .size4K => isFalse id
  | .freeHugePage _ .size2M => isFalse id
  | .allocPage => isFalse id
  | .allocPages _ _ => isFalse id
  | .freePage _ => isFalse id
  | .freePages _ _ => isFalse id
  | .reserveRange _ _ => isFalse id
  | .unreserveRange _ _ => isFalse id
  | .allocHugePage _ _ => isFalse id
  | .clientWrite _ _ _ => isFalse id

theorem accountingInv_boot (memSize kernelEnd reserved : Nat) (hm : memSize < 2 ^ 64) :
    AccountingInv (PmmSys.boot memSize kernelEnd reserved) := by
  refine ⟨PmmInv.boot memSize kernelEnd reserved, ?_, accounted_boot memSize kernelEnd reserved⟩
  simp only [PmmSys.boot, (boot_sound memSize kernelEnd reserved).2.2]
  exact Nat.lt_of_le_of_lt (Nat.div_le_self _ _) hm

/-- In every state of a proper run that returns no 1 GiB page the counters are exact. -/
theorem pmm_accounting_run (memSize kernelEnd reserved : Nat) (hm : memSize < 2 ^ 64) (ops : List PmmOp)
    (hg : Guarded pmmStep (fun sys op => Matching sys op ∧ ¬ op.Leaky)
      (PmmSys.boot memSize kernelEnd reserved) ops) :
    Accounted (run pmmStep (PmmSys.boot memSize kernelEnd reserved) ops).pmm := by
  have h0 := accountingInv_boot memSize kernelEnd reserved hm
  exact (hg.run_invariant h0 (fun sys op h hop =>
    h.of_effect hop.2 (pmmStep_effect h.inv op hop.1))).accounted

theorem pmm_accounting_run_small : Accounted (run pmmStep (PmmSys.boot (64 * 4096) 0 0)
      [.reserveRange 0x8000 0x3000, .allocPages (fun _ => .allow) 3, .allocPage,
        .freePages 0xC000 3, .unreserveRange 0x8000 0x3000]).pmm :=
  pmm_accounting_run (64 * 4096) 0 0 (by decide) _ (by decide +kernel)

theorem not_accounted_of_leak {sys : PmmSys} {addr : Nat} (h : PmmInv sys)
    (hacc : Accounted sys.pmm) (hg : .huge addr .size1G ∈ sys.grants) :
    ¬ Accounted (sys.pmm.freeHugePage addr .size1G) := by
  obtain ⟨hr, hinfo⟩ := h.freeHuge1G_returns hg
  have hcount := clearCount_writeRange (v := false) (h.grant _ hg).below.2 h.sound.size (h.marked_at hg)
  simp only [Grant.start, Grant.taken, Bool.toNat_false, Nat.zero_mul, Nat.add_zero, Bool.not_false, Bool.toNat_true,
    Nat.one_mul] at hcount
  rw [Accounted, hr.bitmap, hinfo, hcount, ← hacc.1]
  have hpos : 0 < PageSize.size1G.size / pageSize := by decide
  omega

theorem bootBitmap_two_gib {x : Nat} (hx : 262144 ≤ x) : (bootBitmap (2 ^ 31) 0 0).bit x = false := by
  have hr : ∀ (b : Bitmap) (a z t : Nat), z ≤ 262144 → (reservePages b a z t).bit x = b.bit x := by
    intro b a z t hz
    rw [reservePages, writeRange_bit, if_neg (by omega)]
  unfold bootBitmap markReserved
  rw [hr _ _ _ _ (by decide), hr _ _ _ _ (by decide), if_pos (by decide), setBit, writeBit]
  split_ifs
  · simp only [update_of_ne (show x ≠ 0 by omega)]
    exact hr _ _ _ _ (by decide)
  · exact hr _ _ _ _ (by decide)

theorem allocHuge1G_first {s : Pmm} (hs : PmmSound s) (policy : AllocContext → AllocDecision)
    (hb : 262144 + 262144 ≤ s.info.totalPages)
    (hfree : ∀ x, 262144 ≤ x → s.bitmap.bit x = false) :
    ∃ s', s.allocHugePage policy .size1G = (s', some (2 ^ 30)) ∧ Takes s s' 262144 262144 := by
  have hall := (hs.allFree_iff hb).mpr (fun x hx _ => hfree x hx)
  have hpages : PageSize.size1G.size / pageSize = 262144 := by decide
  have haddr : pageToPhys 262144 = 2 ^ 30 := by decide
  refine ⟨_, ?_, reservePfnRange_takes hs hb (fun x hx _ => hfree x hx)⟩
  rw [allocHugePage, buddyDirectAllocAligned]
  simp only [hpages]
  rw [directAllocLoop, if_pos hb, if_pos ⟨Nat.mod_self _, hall⟩, haddr]

theorem leak_run {sys : PmmSys} (h : AccountingInv sys) (hg : sys.grants = [])
    (hb : 262144 + 262144 ≤ sys.pmm.info.totalPages)
    (hfree : ∀ x, 262144 ≤ x → sys.pmm.bitmap.bit x = false)
    (policy : AllocContext → AllocDecision) :
    Guarded pmmStep Matching sys [.allocHugePage policy .size1G, .freeHugePage (2 ^ 30) .size1G] ∧
      ¬ Accounted (run pmmStep sys [.allocHugePage policy .size1G, .freeHugePage (2 ^ 30) .size1G]).pmm := by
  obtain ⟨s', he, ht⟩ := allocHuge1G_first h.inv.sound policy hb hfree
  have hstep : pmmStep sys (.allocHugePage policy .size1G) =
      { pmm := s', grants := [.huge (2 ^ 30) .size1G] } := by
    simp only [pmmStep, he, granted, hg]
  have hmem : Grant.huge (2 ^ 30) .size1G ∈ [Grant.huge (2 ^ 30) .size1G] :=
    List.mem_singleton_self _
  have hnext := h.of_effect id (pmmStep_effect h.inv (.allocHugePage policy .size1G) trivial)
  rw [hstep] at hnext
  refine ⟨⟨trivial, ?_, trivial⟩, ?_⟩
  · rw [hstep]
    exact hmem
  · rw [run_cons, hstep]
    exact not_accounted_of_leak hnext.inv hnext.accounted hmem

theorem pmm_accounting_drifts : ¬ ∀ (memSize kernelEnd reserved : Nat), memSize < 2 ^ 64 → ∀ ops : List PmmOp,
      Guarded pmmStep Matching (PmmSys.boot memSize kernelEnd reserved) ops →
        Accounted (run pmmStep (PmmSys.boot memSize kernelEnd reserved) ops).pmm := by
  intro h
  have hpmm (m k r : Nat) : (PmmSys.boot m k r).pmm = Pmm.boot m k r := rfl
  obtain ⟨_, hbit, htotal⟩ := boot_sound (2 ^ 31) 0 0
  rw [← hpmm] at hbit htotal
  have h0 := accountingInv_boot (2 ^ 31) 0 0 (by decide)
  have hfree : ∀ x, 262144 ≤ x → (PmmSys.boot (2 ^ 31) 0 0).pmm.bitmap.bit x = false := by
    intro x hx
    rw [hbit]
    exact bootBitmap_two_gib hx
  obtain ⟨hguard, hnot⟩ := leak_run h0 rfl (by rw [htotal]; decide) hfree (fun _ => .allow)
  exact hnot (h _ _ _ (by decide) _ hguard)

end AntX.Mm
