import AntX.Mm.PageTable

/-! What mapping and unmapping do to the rights of user pages. Making a table changes no right. -/

namespace AntX.Mm

open Function BitVec Entry

theorem pdptKey_div (a : Nat) : pdptKey a / 512 = pml4Key a := rfl

theorem pdKey_div (a : Nat) : pdKey a / 512 = pdptKey a := rfl

theorem ptKey_div (a : Nat) : ptKey a / 512 = pdKey a := rfl

namespace Entry

variable (e : BitVec 64)

def allowsUserWrite : Bool := isPresent e && isWritable e && isUser e

theorem setFlags_bit (f : PageFlags) {i : Nat} (hi : allFlags.getLsbD i = true) :
    (setFlags e f).getLsbD i = f.getLsbD i := by
  simp [setFlags, hi]

theorem setFlags_allows (f : PageFlags) : allowsUserWrite (setFlags e f) = allowsUserWrite f := by
  simp only [allowsUserWrite, isPresent, isWritable, isUser,
    setFlags_bit e f (show allFlags.getLsbD 0 = true by decide),
    setFlags_bit e f (show allFlags.getLsbD 1 = true by decide),
    setFlags_bit e f (show allFlags.getLsbD 2 = true by decide)]

theorem frame_eq : frame e = e.toNat / pageSize % 2 ^ 40 * pageSize := by
  refine Nat.eq_of_testBit_eq fun i => ?_
  rw [frame, toNat_and, Nat.testBit_and,
    show frameMask.toNat = (2 ^ 40 - 1) * 2 ^ 12 by decide, show pageSize = 2 ^ 12 by decide,
    Nat.testBit_mul_two_pow, Nat.testBit_mul_two_pow, Nat.testBit_two_pow_sub_one,
    Nat.testBit_mod_two_pow, Nat.testBit_div_two_pow]
  by_cases hi : 12 ≤ i
  · rw [Nat.sub_add_cancel hi, Bool.and_left_comm, Bool.and_comm (e.toNat.testBit i)]
  · simp [hi]

theorem frame_aligned : pageDown (frame e) = frame e := by
  rw [frame_eq, pageDown, Nat.mul_div_cancel _ (by decide)]

theorem frame_ofNat_add {e : BitVec 64} {off : Nat} (hoff : off < pageSize) :
    frame (BitVec.ofNat 64 (frame e + off)) = frame e := by
  rw [frame_eq, frame_eq e, toNat_ofNat]
  simp only [pageSize] at hoff ⊢
  omega

theorem frame_leaf (phys : Nat) {flags : PageFlags} (hflags : flags &&& frameMask = 0#64) :
    frame (setFlags (setFrame e phys) flags) = frame (BitVec.ofNat 64 phys) := by
  have hdis : allFlags &&& frameMask = 0#64 := by decide
  rw [frame, frame, setFlags, setFrame]
  congr 1
  refine eq_of_getLsbD_eq fun i hi => ?_
  have h1 := congrArg (·.getLsbD i) hflags
  have h2 := congrArg (·.getLsbD i) hdis
  simp only [getLsbD_and, getLsbD_zero] at h1 h2
  simp only [getLsbD_and, getLsbD_or, getLsbD_not]
  cases hm : frameMask.getLsbD i with
  | false => simp
  | true =>
    rw [hm, Bool.and_true] at h1 h2
    rw [h1, h2, decide_eq_true hi]
    simp

end Entry

def hugeAllows (bits : BitVec 64) : Bool := Entry.isWritable bits && Entry.isUser bits

theorem splitFlags_allows (bits : BitVec 64) : allowsUserWrite (splitFlags bits) = hugeAllows bits := by
  simp [allowsUserWrite, hugeAllows, isPresent, isWritable, isUser,
    splitFlags, flags, allFlags, PageFlags.hugePage, PageFlags.present]

theorem splitGiant_allows (bits : BitVec 64) (n : Nat) :
    hugeAllows (PageTable.splitGiant bits n) = hugeAllows bits := by
  simp only [hugeAllows, isWritable, isUser, PageTable.splitGiant, leafEntry,
    setFlags_bit _ _ (show allFlags.getLsbD 1 = true by decide),
    setFlags_bit _ _ (show allFlags.getLsbD 2 = true by decide)]
  simp [splitFlags, flags, allFlags, PageFlags.hugePage, PageFlags.present]

namespace PageTable

def userWritable (t : PageTable) (a : Nat) : Bool :=
  match t.pml4 (pml4Key a) with
  | none => false
  | some _ =>
    match t.pdpt (pdptKey a) with
    | .absent => false
    | .huge bits => hugeAllows bits
    | .table _ =>
      match t.pd (pdKey a) with
      | .absent => false
      | .huge bits => hugeAllows bits
      | .table _ => Entry.allowsUserWrite (t.pt (ptKey a))

def missing (t : PageTable) (virt : Nat) : Nat :=
  match t.pml4 (pml4Key virt) with
  | none => 3
  | some _ =>
    match t.pdpt (pdptKey virt) with
    | .table _ =>
      match t.pd (pdKey virt) with
      | .table _ => 0
      | _ => 1
    | _ => 2

end PageTable

def Pmm.takes : Nat → Pmm → Option Pmm
  | 0, pmm => some pmm
  | n + 1, pmm =>
    match pmm.takePage with
    | none => none
    | some (pmm, _) => takes n pmm

theorem Pmm.takes_add (m n : Nat) (pmm : Pmm) :
    pmm.takes (m + n) = (pmm.takes m).bind (fun pmm => pmm.takes n) := by
  induction m generalizing pmm with
  | zero => simp [takes]
  | succ m ih =>
    rw [Nat.add_right_comm, takes, takes]
    cases pmm.takePage with
    | none => rfl
    | some r => exact ih r.1

namespace PageTable

variable {pmm pmm' : Pmm} {t t' : PageTable} {root virt phys a : Nat} {flags : PageFlags}

structure Opened (t t' : PageTable) (virt : Nat) : Prop where
  same : ∀ a, t'.userWritable a = t.userWritable a
  missing : t'.missing virt + 1 = t.missing virt

/-- Opening a level of the path: the table was there, there is no page for it, or one table less is missing. -/
def LevelOpened (pmm : Pmm) (t : PageTable) (virt n : Nat) (opened : Option (Pmm × PageTable)) : Prop :=
  (t.missing virt ≤ n ∧ opened = some (pmm, t)) ∨ t.missing virt = n + 1 ∧
      ((pmm.takePage = none ∧ opened = none) ∨
        ∃ pmm' page t', pmm.takePage = some (pmm', page) ∧ opened = some (pmm', t') ∧ Opened t t' virt)

variable {n b page : Nat}

theorem newTable_opened {table : Nat → PageTable} (hm : t.missing virt = n + 1)
    (ho : ∀ page, Opened t (table page) virt) : LevelOpened pmm t virt n (newTable pmm table) := by
  refine .inr ⟨hm, ?_⟩
  rw [newTable]
  cases htake : pmm.takePage with
  | none => exact .inl ⟨rfl, rfl⟩
  | some r => exact .inr ⟨r.1, r.2, _, rfl, rfl, ho r.2⟩

theorem openPdpt_opened (pmm : Pmm) (t : PageTable) (virt : Nat) :
    LevelOpened pmm t virt 2 (openPdpt pmm t (pml4Key virt)) := by
  unfold openPdpt
  cases hp : t.pml4 (pml4Key virt) with
  | some b =>
    left
    refine ⟨?_, rfl⟩
    simp only [missing, hp]
    split
    · split <;> omega
    · omega
  | none =>
    have hm : t.missing virt = 3 := by simp only [missing, hp]
    refine newTable_opened hm fun page => ⟨fun a => ?_, ?_⟩
    · by_cases ha : pml4Key a = pml4Key virt
      · simp [userWritable, ha, hp, pdptKey_div]
      · simp [userWritable, ha, pdptKey_div]
    · rw [hm]
      simp [missing, pdptKey_div]

theorem openPd_opened (pmm : Pmm) {t : PageTable} {virt : Nat} (h : t.missing virt ≤ 2) :
    LevelOpened pmm t virt 1 (openPd pmm t (pdptKey virt)) := by
  cases hp : t.pml4 (pml4Key virt) with
  | none => simp [missing, hp] at h
  | some b =>
    unfold openPd
    cases hj : t.pdpt (pdptKey virt) with
    | table bits =>
      left
      refine ⟨?_, rfl⟩
      simp only [missing, hp, hj]
      split <;> omega
    | _ =>
      have hm : t.missing virt = 2 := by simp only [missing, hp, hj]
      refine newTable_opened hm fun page => ⟨fun a => ?_, ?_⟩
      · by_cases ha : pdptKey a = pdptKey virt
        · simp [userWritable, ha, hj, pdKey_div, splitGiant_allows]
        · simp [userWritable, ha, pdKey_div]
      · rw [hm]
        simp [missing, hp, pdKey_div]

theorem openPt_opened (pmm : Pmm) {t : PageTable} {virt : Nat} (h : t.missing virt ≤ 1) :
    LevelOpened pmm t virt 0 (openPt pmm t (pdKey virt)) := by
  cases hp : t.pml4 (pml4Key virt) with
  | none => simp [missing, hp] at h
  | some b =>
    cases hj : t.pdpt (pdptKey virt) with
    | absent | huge bits => simp [missing, hp, hj] at h
    | table bits =>
      unfold openPt
      cases hk : t.pd (pdKey virt) with
      | table bits => exact .inl ⟨by simp [missing, hp, hj, hk], rfl⟩
      | _ =>
        have hm : t.missing virt = 1 := by simp only [missing, hp, hj, hk]
        refine newTable_opened hm fun page => ⟨fun a => ?_, ?_⟩
        · by_cases ha : pdKey a = pdKey virt
          · have ha' : pdptKey a = pdptKey virt := by rw [← pdKey_div, ← pdKey_div, ha]
            simp [userWritable, ha, ha', hk, ptKey_div, splitLarge, leafEntry, setFlags_allows, splitFlags_allows,
              show allowsUserWrite 0#64 = false by decide]
          · simp [userWritable, ha, ptKey_div]
        · rw [hm]
          simp [missing, hp, hj]

theorem missing_zero (h : t.missing virt = 0) : ∃ b b' b'', t.pml4 (pml4Key virt) = some b ∧
    t.pdpt (pdptKey virt) = .table b' ∧ t.pd (pdKey virt) = .table b'' := by
  cases hp : t.pml4 (pml4Key virt) with
  | none => simp [missing, hp] at h
  | some b =>
    cases hj : t.pdpt (pdptKey virt) with
    | absent | huge bits => simp [missing, hp, hj] at h
    | table bits =>
      cases hk : t.pd (pdKey virt) with
      | absent | huge bits => simp [missing, hp, hj, hk] at h
      | table bits' => exact ⟨b, bits, bits', rfl, rfl, rfl⟩

theorem keys_of_ptKey {a : Nat} (h : ptKey a = ptKey b) :
    pml4Key a = pml4Key b ∧ pdptKey a = pdptKey b ∧ pdKey a = pdKey b := by
  have h3 : pdKey a = pdKey b := by rw [← ptKey_div, ← ptKey_div, h]
  have h2 : pdptKey a = pdptKey b := by rw [← pdKey_div, ← pdKey_div, h3]
  exact ⟨by rw [← pdptKey_div, ← pdptKey_div, h2], h2, h3⟩

theorem missing_congr (t : PageTable) {a : Nat} (h : ptKey a = ptKey b) : t.missing a = t.missing b := by
  obtain ⟨h1, h2, h3⟩ := keys_of_ptKey h
  simp only [missing, h1, h2, h3]

theorem userWritable_congr (t : PageTable) {a : Nat} (h : ptKey a = ptKey b) :
    t.userWritable a = t.userWritable b := by
  obtain ⟨h1, h2, h3⟩ := keys_of_ptKey h
  simp only [userWritable, h, h1, h2, h3]

theorem userWritable_of_path (hm : t.missing a = 0) :
    t.userWritable a = allowsUserWrite (t.pt (ptKey a)) := by
  obtain ⟨b, b', b'', hp, hj, hk⟩ := missing_zero hm
  simp [userWritable, hp, hj, hk]

theorem getPhysical_of_path (hroot : root ≠ 0) (hm : t.missing a = 0) :
    t.getPhysical root a = if isPresent (t.pt (ptKey a)) then
      some (frame (t.pt (ptKey a)) + a % pageSize) else none := by
  obtain ⟨b, b', b'', hp, hj, hk⟩ := missing_zero hm
  simp [getPhysical, hroot, hp, hj, hk]

theorem setUserPath_userWritable (t : PageTable) (virt a : Nat) (hm : t.missing virt = 0) :
    (t.setUserPath virt).userWritable a = t.userWritable a := by
  obtain ⟨b, b', b'', hp, hj, hk⟩ := missing_zero hm
  by_cases h1 : pml4Key a = pml4Key virt <;> by_cases h2 : pdptKey a = pdptKey virt <;>
    by_cases h3 : pdKey a = pdKey virt <;>
    simp [userWritable, setUserPath, h1, h2, h3, hp, hj, hk, DirEntry.setUser]

theorem setUserPath_missing (t : PageTable) (virt a : Nat) (hm : t.missing virt = 0) :
    (t.setUserPath virt).missing a = t.missing a := by
  obtain ⟨b, b', b'', hp, hj, hk⟩ := missing_zero hm
  by_cases h1 : pml4Key a = pml4Key virt <;> by_cases h2 : pdptKey a = pdptKey virt <;>
    by_cases h3 : pdKey a = pdKey virt <;>
    simp [missing, setUserPath, h1, h2, h3, hp, hj, hk, DirEntry.setUser]

theorem writeLeaf_missing (t : PageTable) (virt phys : Nat) (flags : PageFlags)
    (hm : t.missing virt = 0) (a : Nat) :
    (t.writeLeaf virt phys flags).missing a = t.missing a := by
  have hpath : (t.writeLeaf virt phys flags).missing a =
      (if flags.contains .user then t.setUserPath virt else t).missing a := rfl
  rw [hpath]
  split_ifs
  · exact setUserPath_missing t virt a hm
  · rfl

theorem writeLeaf_pt (t : PageTable) (virt phys : Nat) (flags : PageFlags) :
    (t.writeLeaf virt phys flags).pt = update t.pt (ptKey virt)
      (setFlags (setFrame (t.pt (ptKey virt)) phys) flags) := by
  unfold writeLeaf
  split_ifs <;> rfl

theorem writeLeaf_userWritable (t : PageTable) (virt phys : Nat) (flags : PageFlags)
    (hm : t.missing virt = 0) (a : Nat) : (t.writeLeaf virt phys flags).userWritable a =
      if ptKey a = ptKey virt then allowsUserWrite flags else t.userWritable a := by
  by_cases ha : ptKey a = ptKey virt
  · rw [if_pos ha, userWritable_of_path, writeLeaf_pt, ha, update_self, setFlags_allows]
    rw [writeLeaf_missing _ _ _ _ hm, missing_congr t ha, hm]
  · have hpath : (t.writeLeaf virt phys flags).userWritable a =
        (if flags.contains .user then t.setUserPath virt else t).userWritable a := by
      simp only [userWritable, writeLeaf, update_of_ne ha]
    rw [if_neg ha, hpath]
    split_ifs
    · exact setUserPath_userWritable t virt a hm
    · rfl

def mappable (pmm : Pmm) (t : PageTable) (root virt : Nat) : Bool :=
  root != 0 && decide (pml4Key virt < 256) && (pmm.takes (t.missing virt)).isSome

theorem takes_opened (htake : pmm.takePage = some (pmm', page)) (ho : Opened t t' virt) :
    pmm.takes (t.missing virt) = pmm'.takes (t'.missing virt) := by
  rw [← ho.missing, Pmm.takes, htake]

theorem takes_stuck (htake : pmm.takePage = none) (hn : 0 < n) : pmm.takes n = none := by
  cases n with
  | zero => omega
  | succ n => rw [Pmm.takes, htake]

structure PathOpened (pmm : Pmm) (t : PageTable) (virt : Nat) (pmm' : Pmm) (t' : PageTable)
    (ok : Bool) : Prop where
  same : ∀ a, t'.userWritable a = t.userWritable a
  done : ok = true → pmm.takes (t.missing virt) = some pmm' ∧ t'.missing virt = 0
  stuck : ok = false → pmm.takes (t.missing virt) = none ∧ pmm'.takePage = none

theorem PathOpened.of_opened {pmm'' : Pmm} {t'' : PageTable} {ok : Bool}
    (htake : pmm.takePage = some (pmm', page)) (ho : Opened t t' virt)
    (h : PathOpened pmm' t' virt pmm'' t'' ok) : PathOpened pmm t virt pmm'' t'' ok := by
  have htakes := takes_opened htake ho
  refine ⟨fun a => (h.same a).trans (ho.same a), fun hok => ?_, fun hok => ?_⟩
  · rw [htakes]
    exact h.done hok
  · rw [htakes]
    exact h.stuck hok

theorem LevelOpened.path {opened : Option (Pmm × PageTable)} (h : LevelOpened pmm t virt n opened)
    {next : Pmm → PageTable → Pmm × PageTable × Bool}
    (hnext : ∀ (pmm : Pmm) (t : PageTable), t.missing virt ≤ n → ∃ pmm' t' ok, next pmm t = (pmm',
      t', ok) ∧ PathOpened pmm t virt pmm' t' ok) :
    ∃ pmm' t' ok, (match opened with
        | none => (pmm, t, false)
        | some (pmm, t) => next pmm t) = (pmm', t', ok) ∧ PathOpened pmm t virt pmm' t' ok := by
  rcases h with ⟨hm, rfl⟩ | ⟨hm, ⟨htake, rfl⟩ | ⟨pmm₁, page, t₁, htake, rfl, ho⟩⟩
  · exact hnext pmm t hm
  · refine ⟨pmm, t, false, rfl, fun _ => rfl, fun h => absurd h (by decide), fun _ => ?_⟩
    exact ⟨takes_stuck htake (by omega), htake⟩
  · have hm₁ := ho.missing
    obtain ⟨pmm', t', ok, heq, hpo⟩ := hnext pmm₁ t₁ (by omega)
    exact ⟨pmm', t', ok, heq, .of_opened htake ho hpo⟩

theorem openPath_spec (pmm : Pmm) (t : PageTable) (virt : Nat) :
    ∃ pmm' t' ok, openPath pmm t virt = (pmm', t', ok) ∧ PathOpened pmm t virt pmm' t' ok := by
  refine (openPdpt_opened pmm t virt).path fun pmm t hm => (openPd_opened pmm hm).path fun pmm t hm =>
    (openPt_opened pmm hm).path fun pmm t hm => ?_
  have hm₀ : t.missing virt = 0 := by omega
  refine ⟨pmm, t, true, rfl, fun _ => rfl, fun _ => ⟨?_, hm₀⟩, fun hc => absurd hc (by decide)⟩
  rw [hm₀]
  rfl

section Map

variable (pmm t root virt phys flags)

theorem mapPage_cases (hroot : root ≠ 0) (hkey : pml4Key virt < 256) :
    (mappable pmm t root virt = false ∧ (mapPage pmm t root virt phys flags).1.takePage = none ∧
      ∀ a, (mapPage pmm t root virt phys flags).2.userWritable a = t.userWritable a) ∨
    mappable pmm t root virt = true ∧
      pmm.takes (t.missing virt) = some (mapPage pmm t root virt phys flags).1 ∧
      ∃ t' : PageTable, (mapPage pmm t root virt phys flags).2 = t'.writeLeaf virt phys flags ∧
        t'.missing virt = 0 ∧ ∀ a, t'.userWritable a = t.userWritable a := by
  obtain ⟨pmm', t', ok, heq, hpo⟩ := openPath_spec pmm t virt
  rw [mapPage, if_neg (by omega), heq]
  cases ok with
  | false =>
    obtain ⟨htakes, hstuck⟩ := hpo.stuck rfl
    exact .inl ⟨by simp [mappable, htakes], hstuck, hpo.same⟩
  | true =>
    obtain ⟨htakes, hm⟩ := hpo.done rfl
    exact .inr ⟨by simp [mappable, htakes, hroot, hkey], htakes, t', rfl, hm, hpo.same⟩

theorem mapPage_userWritable (a : Nat) : (mapPage pmm t root virt phys flags).2.userWritable a =
    if mappable pmm t root virt = true ∧ ptKey a = ptKey virt then allowsUserWrite flags
    else t.userWritable a := by
  by_cases hskip : root = 0 ∨ pml4Key virt ≥ 256
  · rw [mapPage, if_pos hskip, if_neg]
    rintro ⟨hmap, -⟩
    simp only [mappable, Bool.and_eq_true, bne_iff_ne, ne_eq, decide_eq_true_eq] at hmap
    omega
  · rcases mapPage_cases pmm t root virt phys flags (by omega) (by omega) with
      ⟨hno, -, hsame⟩ | ⟨hmap, -, t', he, hm, hsame⟩
    · simp [hno, hsame]
    · simp [hmap, he, writeLeaf_userWritable t' virt phys flags hm, hsame]

theorem mapPage_mapped (h : mappable pmm t root virt = true) :
    pmm.takes (t.missing virt) = some (mapPage pmm t root virt phys flags).1 ∧
      (mapPage pmm t root virt phys flags).2.missing virt = 0 ∧
      ∃ e, (mapPage pmm t root virt phys flags).2.pt (ptKey virt) = setFlags (setFrame e phys) flags := by
  have hgo := h
  simp only [mappable, Bool.and_eq_true, bne_iff_ne, ne_eq, decide_eq_true_eq] at hgo
  rcases mapPage_cases pmm t root virt phys flags hgo.1.1 hgo.1.2 with
    ⟨hno, -⟩ | ⟨-, htakes, t', he, hm, -⟩
  · rw [h] at hno
    cases hno
  · rw [he]
    exact ⟨htakes, (writeLeaf_missing t' virt phys flags hm virt).trans hm, _, by
      rw [writeLeaf_pt, update_self]⟩

theorem mapPage_of_path (hroot : root ≠ 0) (hkey : pml4Key virt < 256) (hm : t.missing virt = 0) :
    mapPage pmm t root virt phys flags = (pmm, t.writeLeaf virt phys flags) := by
  obtain ⟨b, b', b'', hp, hj, hk⟩ := missing_zero hm
  have hskip : ¬(root = 0 ∨ pml4Key virt ≥ 256) := by omega
  simp [mapPage, hskip, openPath, openPdpt, openPd, openPt, hp, hj, hk]

theorem mapPage_stuck (hroot : root ≠ 0) (hkey : pml4Key virt < 256) (h : mappable pmm t root virt = false) :
    (mapPage pmm t root virt phys flags).1.takePage = none := by
  rcases mapPage_cases pmm t root virt phys flags hroot hkey with ⟨-, hstuck, -⟩ | ⟨hmap, -⟩
  · exact hstuck
  · rw [h] at hmap
    cases hmap

end Map

theorem clear_pd (h : userWritable { t with pd := update t.pd n .absent } a = true) :
    t.userWritable a = true := by
  by_cases ha : pdKey a = n
  · cases hp : t.pml4 (pml4Key a) <;> cases hj : t.pdpt (pdptKey a) <;>
      simp_all [userWritable]
  · simpa only [userWritable, update_of_ne ha] using h

theorem clear_pdpt (h : userWritable { t with pdpt := update t.pdpt n .absent } a = true) :
    t.userWritable a = true := by
  by_cases ha : pdptKey a = n
  · cases hp : t.pml4 (pml4Key a) <;> simp_all [userWritable]
  · simpa only [userWritable, update_of_ne ha] using h

theorem clear_pml4 (h : userWritable { t with pml4 := update t.pml4 n none } a = true) :
    t.userWritable a = true := by
  by_cases ha : pml4Key a = n
  · simp [userWritable, ha] at h
  · simpa only [userWritable, update_of_ne ha] using h

theorem clear_pt (h : userWritable { t with pt := update t.pt n 0#64 } a = true) :
    t.userWritable a = true := by
  by_cases ha : ptKey a = n
  · cases hp : t.pml4 (pml4Key a) <;> cases hj : t.pdpt (pdptKey a) <;>
      cases hk : t.pd (pdKey a) <;> simp_all [userWritable, allowsUserWrite, isPresent]
  · simpa only [userWritable, update_of_ne ha] using h

theorem unmapPage_userWritable (pmm : Pmm) (t : PageTable) (root virt : Nat)
    (h : (unmapPage pmm t root virt).2.userWritable a = true) : t.userWritable a = true := by
  unfold unmapPage at h
  split_ifs at h
  · exact h
  split at h
  · exact h
  split at h
  · exact h
  · exact clear_pdpt h
  split at h
  · exact h
  · exact clear_pd h
  · dsimp only at h
    split_ifs at h
    · exact clear_pt (clear_pd (clear_pdpt (clear_pml4 h)))
    · exact clear_pt (clear_pd (clear_pdpt h))
    · exact clear_pt (clear_pd h)
    · exact clear_pt h

theorem unmapPage_gone (pmm : Pmm) (t : PageTable) (hroot : root ≠ 0) (hkey : pml4Key virt < 256) :
    (unmapPage pmm t root virt).2.userWritable virt = false := by
  rw [unmapPage, if_neg (by omega)]
  cases hp : t.pml4 (pml4Key virt) with
  | none => simp [userWritable, hp]
  | some pml4e =>
    cases hj : t.pdpt (pdptKey virt) with
    | absent => simp [userWritable, hp, hj]
    | huge bits => simp [userWritable, hp]
    | table pdpte =>
      cases hd : t.pd (pdKey virt) with
      | absent => simp [userWritable, hp, hj, hd]
      | huge bits => simp [userWritable, hp, hj]
      | table pde =>
        dsimp only
        split_ifs <;> simp [userWritable, hp, hj, hd, allowsUserWrite, isPresent]

end PageTable

end AntX.Mm
