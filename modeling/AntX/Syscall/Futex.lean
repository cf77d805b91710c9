import Mathlib.Algebra.BigOperators.Fin
import AntX.Lib.Run

/-! The futex wait queues: `framework/syscall/futex.rs`. A wait is modelled by its two halves. A
requeue rewrites the address inside the slot and leaves the slot in its bucket. -/

namespace AntX.Syscall

open Lib Function List

abbrev UAddr := BitVec 64

structure FutexWaiter where
  uaddr : UAddr
  pid : Nat
  woken : Bool
deriving DecidableEq, Repr

def FutexWaiter.empty : FutexWaiter := { uaddr := 0, pid := 0, woken := false }

def FutexWaiter.isOccupied (w : FutexWaiter) : Bool := w.pid != 0

def FutexWaiter.waitsOn (uaddr : UAddr) (w : FutexWaiter) : Bool :=
  w.isOccupied && w.uaddr == uaddr && !w.woken

def futexHashBuckets : Nat := 64

def futexBucketCapacity : Nat := 16

structure FutexBucket where
  waiters : List FutexWaiter
  count : Nat
deriving DecidableEq, Repr

namespace FutexBucket

def new : FutexBucket := { waiters := replicate futexBucketCapacity .empty, count := 0 }

/-- The scan of `push` and `remove_by_pid`: the first slot that passes is overwritten. -/
def putFirst (pass : FutexWaiter → Bool) (waiter : FutexWaiter) : List FutexWaiter → Option (List FutexWaiter)
  | [] => none
  | slot :: rest =>
    if pass slot then some (waiter :: rest) else (putFirst pass waiter rest).map (slot :: ·)

variable (b : FutexBucket)

def push (waiter : FutexWaiter) : FutexBucket × Bool :=
  if futexBucketCapacity ≤ b.count then (b, false)
  else
    match putFirst (!·.isOccupied) waiter b.waiters with
    | some waiters => ({ waiters := waiters, count := b.count + 1 }, true)
    | none => (b, false)

def removeByPid (pid : Nat) : FutexBucket :=
  match putFirst (·.pid == pid) .empty b.waiters with
  | some waiters => { waiters := waiters, count := b.count - 1 }
  | none => b

def clear : FutexBucket :=
  { waiters := b.waiters.map fun w => if w.woken then .empty else w
    count := b.count - b.waiters.countP (·.woken) }

def wakeScan (uaddr : UAddr) (maxCount : Nat) : Nat → List FutexWaiter → List FutexWaiter × List Nat
  | _, [] => ([], [])
  | woken, slot :: rest =>
    if slot.waitsOn uaddr then
      if maxCount ≤ woken + 1 then ({ slot with woken := true } :: rest, [slot.pid])
      else
        let r := wakeScan uaddr maxCount (woken + 1) rest
        ({ slot with woken := true } :: r.1, slot.pid :: r.2)
    else
      let r := wakeScan uaddr maxCount woken rest
      (slot :: r.1, r.2)

def wake (uaddr : UAddr) (maxCount : Nat) : FutexBucket × List Nat :=
  let r := wakeScan uaddr maxCount 0 b.waiters
  (clear { b with waiters := r.1 }, r.2)

structure Requeued where
  waiters : List FutexWaiter
  unblocked : List Nat
  moved : List Nat
deriving DecidableEq, Repr

def requeueScan (uaddr : UAddr) (maxWake : Nat) (uaddr2 : UAddr) (maxRequeue : Nat) :
    Nat → Nat → List FutexWaiter → Requeued
  | _, _, [] => ⟨[], [], []⟩
  | woken, requeued, slot :: rest =>
    if slot.waitsOn uaddr then
      if woken < maxWake then
        let r := requeueScan uaddr maxWake uaddr2 maxRequeue (woken + 1) requeued rest
        ⟨{ slot with woken := true } :: r.waiters, slot.pid :: r.unblocked, r.moved⟩
      else if requeued < maxRequeue then
        let r := requeueScan uaddr maxWake uaddr2 maxRequeue woken (requeued + 1) rest
        ⟨{ slot with uaddr := uaddr2 } :: r.waiters, r.unblocked, slot.pid :: r.moved⟩
      else ⟨slot :: rest, [], []⟩
    else
      let r := requeueScan uaddr maxWake uaddr2 maxRequeue woken requeued rest
      ⟨slot :: r.waiters, r.unblocked, r.moved⟩

def requeue (uaddr : UAddr) (maxWake : Nat) (uaddr2 : UAddr)
    (maxRequeue : Nat) : FutexBucket × List Nat × List Nat :=
  let r := requeueScan uaddr maxWake uaddr2 maxRequeue 0 0 b.waiters
  (clear { b with waiters := r.waiters }, r.unblocked, r.moved)

def pids (waiters : List FutexWaiter) : List Nat := (waiters.map (·.pid)).filter (· != 0)

def waiting (uaddr : UAddr) : List Nat :=
  (b.waiters.filter (FutexWaiter.waitsOn uaddr)).map (·.pid)

/-- Between two calls no slot is marked as woken, and each thread has one slot. -/
structure Settled (b : FutexBucket) : Prop where
  unwoken : ∀ w ∈ b.waiters, w.woken = false
  nodup : (pids b.waiters).Nodup

end FutexBucket

abbrev FutexTable := Fin futexHashBuckets → FutexBucket

def hashUaddr (uaddr : UAddr) : Fin futexHashBuckets :=
  let hash := (uaddr * 0x9E3779B97F4A7C15) >>> 58
  ⟨hash.toNat &&& (futexHashBuckets - 1), Nat.lt_succ_of_le Nat.and_le_right⟩

namespace FutexTable

def new : FutexTable := fun _ => .new

section

variable (t : FutexTable) (uaddr : UAddr)

def futexWait (current val : BitVec 32) (currentPid : Nat) : FutexTable × Int :=
  if uaddr = 0 then (t, -14)
  else if current ≠ val then (t, -11)
  else if currentPid = 0 then (t, -22)
  else
    let r := (t (hashUaddr uaddr)).push { uaddr := uaddr, pid := currentPid, woken := false }
    if r.2 then (update t (hashUaddr uaddr) r.1, 0) else (t, -11)

def futexResume (currentPid : Nat) : FutexTable :=
  update t (hashUaddr uaddr) ((t (hashUaddr uaddr)).removeByPid currentPid)

def futexWake (maxCount : Nat) : FutexTable × List Nat :=
  if maxCount = 0 then (t, [])
  else
    let r := (t (hashUaddr uaddr)).wake uaddr maxCount
    (update t (hashUaddr uaddr) r.1, r.2)

/-- Only the bucket of `uaddr` is taken: a moved waiter keeps its slot there. -/
def futexRequeue (maxWake : Nat) (uaddr2 : UAddr) (maxRequeue : Nat) : FutexTable × List Nat × List Nat :=
  let r := (t (hashUaddr uaddr)).requeue uaddr maxWake uaddr2 maxRequeue
  (update t (hashUaddr uaddr) r.1, r.2)

end

def futexOp (op : BitVec 32) : BitVec 32 := op &&& ~~~128 &&& ~~~0x100

structure FutexArgs where
  uaddr : UAddr
  op : BitVec 32
  val : BitVec 32
  uaddr2 : UAddr
  val2 : Nat
deriving DecidableEq, Repr

/-- `sys_futex` called by `currentPid`; `current` is the word at the address. -/
def sysFutex (t : FutexTable) (currentPid : Nat) (current : BitVec 32) (a : FutexArgs) : FutexTable × Int :=
  let op := futexOp a.op
  if op = 0 ∨ op = 9 then t.futexWait a.uaddr current a.val currentPid
  else if op = 1 ∨ op = 10 then
    let r := t.futexWake a.uaddr a.val.toNat
    (r.1, r.2.length)
  else if op = 3 then
    let r := t.futexRequeue a.uaddr a.val.toNat a.uaddr2 a.val2
    (r.1, r.2.1.length + r.2.2.length)
  else (t, -35)

def waiting (t : FutexTable) (uaddr : UAddr) : Nat := ∑ b, ((t b).waiting uaddr).length

def Settled (t : FutexTable) : Prop := ∀ b, (t b).Settled

end FutexTable

namespace FutexBucket

open FutexWaiter

variable {b : FutexBucket} {uaddr uaddr2 : UAddr} {maxCount maxWake maxRequeue : Nat}

theorem pids_tail (w : FutexWaiter) (ws : List FutexWaiter) : (pids ws).Sublist (pids (w :: ws)) :=
  ((sublist_cons_self w ws).map _).filter _

variable {ws ws' : List FutexWaiter} {w : FutexWaiter}

theorem pids_cons_sublist (w : FutexWaiter) (h : (pids ws').Sublist (pids ws)) :
    (pids (w :: ws')).Sublist (pids (w :: ws)) := by
  simp only [pids, map_cons, filter_cons]
  split_ifs
  · exact h.cons_cons _
  · exact h

theorem wakeScan_pids (woken : Nat) (ws : List FutexWaiter) :
    (wakeScan uaddr maxCount woken ws).1.map (·.pid) = ws.map (·.pid) := by
  induction ws generalizing woken with
  | nil => rfl
  | cons slot rest ih =>
    rw [wakeScan]
    split_ifs <;> simp [ih]

theorem requeueScan_pids (woken requeued : Nat) (ws : List FutexWaiter) :
    (requeueScan uaddr maxWake uaddr2 maxRequeue woken requeued ws).waiters.map (·.pid) = ws.map (·.pid) := by
  induction ws generalizing woken requeued with
  | nil => rfl
  | cons slot rest ih =>
    rw [requeueScan]
    split_ifs <;> simp [ih]

theorem pids_clear (b : FutexBucket) : (pids b.clear.waiters).Sublist (pids b.waiters) := by
  rw [clear]
  induction b.waiters with
  | nil => simp [pids]
  | cons w ws ih =>
    by_cases hw : w.woken
    · rw [map_cons, if_pos hw]
      exact ih.trans (pids_tail w ws)
    · rw [map_cons, if_neg hw]
      exact pids_cons_sublist w ih

theorem unwoken_clear (b : FutexBucket) : ∀ w ∈ b.clear.waiters, w.woken = false := by
  intro w hw
  obtain ⟨v, -, rfl⟩ := mem_map.1 hw
  by_cases hv : v.woken
  · simp [hv, empty]
  · simp [hv]

/-- The scans change marks and addresses only, so that no thread gets a slot. -/
theorem Settled.cleared (h : b.Settled) (hpids : ws.map (·.pid) = b.waiters.map (·.pid)) :
    (clear { b with waiters := ws }).Settled ∧
      (pids (clear { b with waiters := ws }).waiters).Sublist (pids b.waiters) := by
  have hsub := pids_clear { b with waiters := ws }
  rw [pids.eq_1 ws, hpids, ← pids] at hsub
  exact ⟨⟨unwoken_clear _, h.nodup.sublist hsub⟩, hsub⟩

def Puts (old new : FutexWaiter) (ws ws' : List FutexWaiter) : Prop :=
  ∃ l r, ws = l ++ old :: r ∧ ws' = l ++ new :: r

theorem Puts.cons {old : FutexWaiter} (h : Puts old w ws ws') (slot : FutexWaiter) :
    Puts old w (slot :: ws) (slot :: ws') := by
  obtain ⟨l, r, rfl, rfl⟩ := h
  exact ⟨slot :: l, r, rfl, rfl⟩

theorem Puts.mem {old : FutexWaiter} (h : Puts old w ws ws') : ∀ v ∈ ws', v = w ∨ v ∈ ws := by
  obtain ⟨l, r, rfl, rfl⟩ := h
  intro v hv
  rcases mem_append.1 hv with hv | hv
  · simp [hv]
  · rcases mem_cons.1 hv with rfl | hv
    · exact .inl rfl
    · simp [hv]

theorem pids_append (l r : List FutexWaiter) : pids (l ++ r) = pids l ++ pids r := by
  rw [pids, map_append, filter_append, pids, pids]

theorem pids_empty (h : w.isOccupied = false) (ws : List FutexWaiter) : pids (w :: ws) = pids ws :=
  filter_cons_of_neg (by simpa [isOccupied] using h)

theorem pids_occupied (h : w.pid ≠ 0) (ws : List FutexWaiter) : pids (w :: ws) = w.pid :: pids ws :=
  filter_cons_of_pos (by simpa using h)

theorem putFirst_puts {pass : FutexWaiter → Bool} (h : putFirst pass w ws = some ws') :
    ∃ slot, pass slot = true ∧ Puts slot w ws ws' := by
  induction ws generalizing ws' with
  | nil => cases h
  | cons slot rest ih =>
    rw [putFirst] at h
    split_ifs at h with hpass
    · cases h
      exact ⟨slot, hpass, [], rest, rfl, rfl⟩
    · obtain ⟨rs, hrs, rfl⟩ := Option.map_eq_some_iff.1 h
      obtain ⟨old, hold, hputs⟩ := ih hrs
      exact ⟨old, hold, hputs.cons slot⟩

theorem putFirst_none {pass : FutexWaiter → Bool} (h : putFirst pass w ws = none) : ∀ v ∈ ws, ¬ pass v := by
  induction ws with
  | nil => simp
  | cons slot rest ih =>
    rw [putFirst] at h
    split_ifs at h with hpass
    exact forall_mem_cons.2 ⟨hpass, ih (Option.map_eq_none_iff.1 h)⟩

theorem push_cases (b : FutexBucket) (w : FutexWaiter) : b.push w = (b, false) ∨
    ∃ slot, slot.isOccupied = false ∧ Puts slot w b.waiters (b.push w).1.waiters := by
  rw [FutexBucket.push]
  split_ifs
  · exact .inl rfl
  · cases hs : putFirst (!·.isOccupied) w b.waiters with
    | none => exact .inl rfl
    | some ws => exact .inr (by simpa using putFirst_puts hs)

theorem Puts.pids {slot : FutexWaiter} (h : Puts slot w ws ws') (hslot : slot.isOccupied = false)
    (hw : w.pid ≠ 0) : (pids ws').Perm (w.pid :: pids ws) := by
  obtain ⟨l, r, rfl, rfl⟩ := h
  rw [pids_append, pids_append, pids_empty hslot, pids_occupied hw]
  exact perm_middle

theorem Settled.push (h : b.Settled) (hpid : w.pid ≠ 0) (hwoken : w.woken = false)
    (hnew : w.pid ∉ pids b.waiters) : (b.push w).1.Settled := by
  rcases b.push_cases w with hfull | ⟨slot, hslot, hputs⟩
  · rw [hfull]
    exact h
  · refine ⟨fun v hv => ?_, (hputs.pids hslot hpid).nodup_iff.2 (nodup_cons.2 ⟨hnew, h.nodup⟩)⟩
    rcases hputs.mem v hv with rfl | hv
    · exact hwoken
    · exact h.unwoken v hv

theorem removeByPid_cases (b : FutexBucket) (pid : Nat) :
    (∀ w ∈ b.waiters, w.pid ≠ pid) ∧ b.removeByPid pid = b ∨
    ∃ slot, slot.pid = pid ∧ Puts slot .empty b.waiters (b.removeByPid pid).waiters := by
  rw [FutexBucket.removeByPid]
  cases hs : putFirst (·.pid == pid) .empty b.waiters with
  | none => exact .inl ⟨by simpa using putFirst_none hs, rfl⟩
  | some ws => exact .inr (by simpa using putFirst_puts hs)

theorem pids_removeByPid (b : FutexBucket) (pid : Nat) :
    (pids (b.removeByPid pid).waiters).Sublist (pids b.waiters) := by
  rcases b.removeByPid_cases pid with ⟨-, hnone⟩ | ⟨slot, -, l, r, hold, hnew⟩
  · rw [hnone]
  · rw [hold, hnew, pids_append, pids_append, pids_empty rfl]
    exact (pids_tail slot r).append_left _

/-- A process has one slot, so that none is left of it. -/
theorem Settled.removeByPid_gone (h : b.Settled) {pid : Nat} (hp : pid ≠ 0) :
    pid ∉ pids (b.removeByPid pid).waiters := by
  rcases b.removeByPid_cases pid with ⟨hno, hnone⟩ | ⟨slot, rfl, l, r, hold, hnew⟩
  · rw [hnone]
    intro hmem
    obtain ⟨w, hw, rfl⟩ := mem_map.1 (mem_of_mem_filter hmem)
    exact hno w hw rfl
  · have hnodup := h.nodup
    rw [hold, pids_append, pids_occupied hp] at hnodup
    rw [hnew, pids_append, pids_empty rfl]
    exact (nodup_middle.1 hnodup).notMem

theorem Settled.removeByPid (h : b.Settled) (pid : Nat) : (b.removeByPid pid).Settled := by
  refine ⟨fun v hv => ?_, h.nodup.sublist (pids_removeByPid b pid)⟩
  rcases b.removeByPid_cases pid with ⟨-, hnone⟩ | ⟨slot, -, hputs⟩
  · rw [hnone] at hv
    exact h.unwoken v hv
  · rcases hputs.mem v hv with rfl | hv
    · rfl
    · exact h.unwoken v hv

def rest (uaddr : UAddr) (ws : List FutexWaiter) : List Nat :=
  ((ws.map fun w => if w.woken then .empty else w).filter (waitsOn uaddr)).map (·.pid)

@[simp] theorem rest_nil (uaddr : UAddr) : rest uaddr [] = [] := rfl

theorem rest_unwoken (h : w.woken = false) (ws : List FutexWaiter) :
    rest uaddr (w :: ws) = if w.waitsOn uaddr then w.pid :: rest uaddr ws else rest uaddr ws := by
  simp only [rest, map_cons, h, Bool.false_eq_true, if_false, filter_cons]
  split_ifs <;> simp

theorem rest_of_unwoken (h : ∀ w ∈ ws, w.woken = false) :
    rest uaddr ws = (ws.filter (waitsOn uaddr)).map (·.pid) := by
  have hmap : ws.map (fun w => if w.woken then empty else w) = ws := by
    conv_rhs => rw [← map_id ws]
    apply map_congr_left
    intro w hw
    simp [h w hw]
  rw [rest, hmap]

theorem wakeScan_unblocked {woken : Nat} (h : woken < maxCount) (ws : List FutexWaiter) :
    (wakeScan uaddr maxCount woken ws).2 =
      ((ws.filter (waitsOn uaddr)).map (·.pid)).take (maxCount - woken) := by
  fun_induction wakeScan uaddr maxCount woken ws with
  | case1 => simp
  | case2 woken slot ws hw hmax =>
    rw [filter_cons_of_pos hw, map_cons, show maxCount - woken = 1 by omega, take_succ_cons, take_zero]
  | case3 woken slot ws hw hmax r ih =>
    rw [filter_cons_of_pos hw, map_cons, show maxCount - woken = maxCount - (woken + 1) + 1 by omega,
      take_succ_cons, ← ih (by omega)]
  | case4 woken slot ws hw r ih => rw [filter_cons_of_neg hw, ← ih h]

theorem waitsOn_ne (hne : uaddr ≠ uaddr2) (h : w.waitsOn uaddr = true) : w.waitsOn uaddr2 = false := by
  simp only [waitsOn, Bool.and_eq_true, beq_iff_eq] at h
  simp [waitsOn, h.1.2, hne]

theorem requeueScan_moved (woken requeued : Nat) (ws : List FutexWaiter) :
    (requeueScan uaddr maxWake uaddr2 maxRequeue woken requeued ws).moved.length = min (maxRequeue - requeued)
        ((ws.filter (waitsOn uaddr)).length - (maxWake - woken)) := by
  fun_induction requeueScan uaddr maxWake uaddr2 maxRequeue woken requeued ws with
  | case1 => simp
  | case2 woken requeued slot ws hw hwake r ih =>
    have hi : r.moved.length = _ := ih
    rw [filter_cons_of_pos hw, length_cons]
    dsimp only
    omega
  | case3 woken requeued slot ws hw hwake hreq r ih =>
    have hi : r.moved.length = _ := ih
    rw [filter_cons_of_pos hw, length_cons]
    dsimp only [length_cons]
    omega
  | case4 woken requeued slot ws hw hwake hreq =>
    rw [length_nil]
    omega
  | case5 woken requeued slot ws hw r ih => rw [filter_cons_of_neg hw, ← ih]

/-- The waiters are the unblocked, the moved and those left, and the new address gets the moved ones. -/
theorem requeueScan_split (hne : uaddr ≠ uaddr2) (woken requeued : Nat) (h : ∀ w ∈ ws, w.woken = false) :
    let r := requeueScan uaddr maxWake uaddr2 maxRequeue woken requeued ws
    ((ws.filter (waitsOn uaddr)).map (·.pid)).Perm (r.unblocked ++ (r.moved ++ rest uaddr r.waiters)) ∧
    (rest uaddr2 r.waiters).length = ((ws.filter (waitsOn uaddr2)).map (·.pid)).length + r.moved.length := by
  fun_induction requeueScan uaddr maxWake uaddr2 maxRequeue woken requeued ws with
  | case1 => simp
  | case2 woken requeued slot ws hw hwake r ih =>
    obtain ⟨hsplit, htarget⟩ := ih fun w hm => h w (mem_cons_of_mem _ hm)
    rw [filter_cons_of_pos hw, filter_cons_of_neg (by simp [waitsOn_ne hne hw]), map_cons]
    exact ⟨hsplit.cons _, htarget⟩
  | case3 woken requeued slot ws hw hwake hreq r ih =>
    obtain ⟨hsplit, htarget⟩ := ih fun w hm => h w (mem_cons_of_mem _ hm)
    have hleft : ({ slot with uaddr := uaddr2 } : FutexWaiter).waitsOn uaddr = false := by
      simp [waitsOn, Ne.symm hne]
    have hmoved : ({ slot with uaddr := uaddr2 } : FutexWaiter).waitsOn uaddr2 = true := by
      simp only [waitsOn, Bool.and_eq_true] at hw
      simp only [waitsOn, BEq.rfl, Bool.and_true, Bool.and_eq_true]
      exact ⟨hw.1.1, hw.2⟩
    simp only [filter_cons_of_pos hw, filter_cons_of_neg (waitsOn_ne hne hw ▸ Bool.false_ne_true), map_cons,
      rest_unwoken (w := { slot with uaddr := uaddr2 }) (h slot mem_cons_self), hleft, hmoved, length_cons]
    exact ⟨(hsplit.cons _).trans perm_middle.symm, congrArg (· + 1) htarget⟩
  | case4 woken requeued slot ws hw hwake hreq =>
    dsimp only
    rw [rest_of_unwoken h, rest_of_unwoken h]
    exact ⟨List.Perm.refl _, rfl⟩
  | case5 woken requeued slot ws hw r ih =>
    obtain ⟨hsplit, htarget : (rest uaddr2 r.waiters).length = _ + r.moved.length⟩ :=
      ih fun w hm => h w (mem_cons_of_mem _ hm)
    simp only [rest_unwoken (h slot mem_cons_self), filter_cons_of_neg hw, if_neg hw]
    refine ⟨hsplit, ?_⟩
    by_cases hother : slot.waitsOn uaddr2
    · rw [if_pos hother, filter_cons_of_pos hother, length_cons, map_cons, length_cons]
      omega
    · rw [if_neg hother, filter_cons_of_neg hother]
      exact htarget

theorem waiting_sublist (b : FutexBucket) (uaddr : UAddr) : (b.waiting uaddr).Sublist (pids b.waiters) := by
  rw [waiting, pids]
  induction b.waiters with
  | nil => simp
  | cons w ws ih =>
    by_cases hw : w.waitsOn uaddr
    · have hpid : (w.pid != 0) = true := by
        simp only [waitsOn, Bool.and_eq_true] at hw
        exact hw.1.1
      rw [filter_cons_of_pos hw, map_cons, map_cons, filter_cons, if_pos hpid]
      exact ih.cons_cons _
    · rw [filter_cons_of_neg hw]
      exact ih.trans (pids_tail w ws)

end FutexBucket

namespace FutexTable

variable {t : FutexTable} {uaddr uaddr2 : UAddr} {maxWake maxRequeue n : Nat}

theorem settled_new : FutexTable.new.Settled := by
  intro b
  constructor
  · intro w hw
    rw [eq_of_mem_replicate hw]
    rfl
  · exact nodup_nil

theorem Settled.update (h : t.Settled) (i : Fin futexHashBuckets) {b : FutexBucket}
    (hb : b.Settled) : FutexTable.Settled (update t i b) := by
  intro j
  by_cases hj : j = i
  · subst hj
    rwa [update_self]
  · rw [update_of_ne hj]
    exact h j

theorem futexWait_cases (t : FutexTable) (uaddr : UAddr) (current val : BitVec 32) (pid : Nat) :
    (∃ e ≠ 0, t.futexWait uaddr current val pid = (t, e)) ∨
    pid ≠ 0 ∧ t.futexWait uaddr current val pid =
        (update t (hashUaddr uaddr) ((t (hashUaddr uaddr)).push ⟨uaddr, pid, false⟩).1, 0) := by
  rw [futexWait]
  split_ifs with _ _ hzero
  · exact .inl ⟨-14, by decide, rfl⟩
  · exact .inl ⟨-11, by decide, rfl⟩
  · exact .inl ⟨-22, by decide, rfl⟩
  · dsimp only
    split_ifs
    · exact .inr ⟨hzero, rfl⟩
    · exact .inl ⟨-11, by decide, rfl⟩

theorem Settled.futexWait (h : t.Settled) {current val : BitVec 32} {pid : Nat}
    (hpid : pid ∉ FutexBucket.pids (t (hashUaddr uaddr)).waiters) :
    (t.futexWait uaddr current val pid).1.Settled := by
  rcases futexWait_cases t uaddr current val pid with ⟨e, -, he⟩ | ⟨hzero, hok⟩
  · rw [he]
    exact h
  · rw [hok]
    exact h.update _ ((h _).push (w := ⟨uaddr, pid, false⟩) hzero rfl hpid)

def inBucket (t : FutexTable) (uaddr : UAddr) : Nat :=
  ((t (hashUaddr uaddr)).waiting uaddr).length

open FutexBucket

theorem futexWake_unblocked (t : FutexTable) (uaddr : UAddr) (n : Nat) :
    (t.futexWake uaddr n).2 = ((t (hashUaddr uaddr)).waiting uaddr).take n := by
  rw [futexWake]
  by_cases hn : n = 0
  · simp [hn]
  · rw [if_neg hn]
    exact wakeScan_unblocked (Nat.pos_of_ne_zero hn) _

open Finset

def movedBy (t : FutexTable) (uaddr : UAddr) (maxWake maxRequeue : Nat) : Nat :=
  min maxRequeue (t.inBucket uaddr - maxWake)

theorem futexRequeue_moved : (t.futexRequeue uaddr maxWake uaddr2 maxRequeue).2.2.length =
      t.movedBy uaddr maxWake maxRequeue := by
  rw [movedBy, inBucket, FutexBucket.waiting, length_map]
  exact requeueScan_moved 0 0 (t (hashUaddr uaddr)).waiters

theorem futexRequeue_self : (t.futexRequeue uaddr maxWake uaddr2 maxRequeue).1 (hashUaddr uaddr) =
      ((t (hashUaddr uaddr)).requeue uaddr maxWake uaddr2 maxRequeue).1 :=
  update_self ..

theorem waiting_futexRequeue (hs : t.Settled) (hne : uaddr ≠ uaddr2) (i : Fin futexHashBuckets) :
    (((t.futexRequeue uaddr maxWake uaddr2 maxRequeue).1 i).waiting uaddr2).length =
      ((t i).waiting uaddr2).length +
        if i = hashUaddr uaddr then t.movedBy uaddr maxWake maxRequeue else 0 := by
  by_cases hi : i = hashUaddr uaddr
  · subst hi
    rw [if_pos rfl, ← futexRequeue_moved, futexRequeue_self]
    exact (requeueScan_split hne 0 0 (hs _).unwoken).2
  · simp [futexRequeue, hi]

theorem waiting_after (hs : t.Settled) (hne : uaddr ≠ uaddr2) :
    (t.futexRequeue uaddr maxWake uaddr2 maxRequeue).1.waiting uaddr2 =
      t.waiting uaddr2 + t.movedBy uaddr maxWake maxRequeue := by
  rw [waiting, sum_congr rfl fun i _ => waiting_futexRequeue hs hne i,
    sum_add_distrib, sum_ite_eq' Finset.univ, if_pos (mem_univ _), waiting]

theorem moved_not_woken (hs : t.Settled) (hne : uaddr ≠ uaddr2) {p : Nat}
    (hp : p ∈ (t.futexRequeue uaddr maxWake uaddr2 maxRequeue).2.2) :
    p ∉ ((t.futexRequeue uaddr maxWake uaddr2 maxRequeue).1.futexWake uaddr n).2 := by
  have hb := hs (hashUaddr uaddr)
  have hsub : ((t (hashUaddr uaddr)).waiting uaddr).Sublist
      (FutexBucket.pids (t (hashUaddr uaddr)).waiters) := waiting_sublist _ _
  have hsplit := (@FutexBucket.requeueScan_split _ _ maxWake maxRequeue _ hne 0 0
    hb.unwoken).1.nodup_iff.1 (hb.nodup.sublist hsub)
  have hdisj := (nodup_append.1 (nodup_append.1 hsplit).2.1).2.2
  rw [futexWake_unblocked, futexRequeue_self]
  intro hmem
  exact hdisj p hp p (mem_of_mem_take hmem) rfl

/-- After the requeue a wake on `uaddr2` wakes as many threads as it can, all of them waiting
there, and a wake on `uaddr` none of the moved ones. -/
def KeepsWakeable (t : FutexTable) (uaddr : UAddr) (maxWake : Nat) (uaddr2 : UAddr)
    (maxRequeue n : Nat) : Prop :=
  let r := t.futexRequeue uaddr maxWake uaddr2 maxRequeue
  ((r.1.futexWake uaddr2 n).2.length = min n (r.1.waiting uaddr2) ∧
    ∀ p ∈ (r.1.futexWake uaddr2 n).2, ∃ b, p ∈ (r.1 b).waiting uaddr2) ∧
  ∀ p ∈ r.2.2, p ∉ (r.1.futexWake uaddr n).2

/-- The waiters on `uaddr2` outside its bucket, those that the requeue is about to leave there
among them, are none, or the wake is satisfied by the others. -/
def WakeReaches (t : FutexTable) (uaddr : UAddr) (maxWake : Nat) (uaddr2 : UAddr)
    (maxRequeue n : Nat) : Prop :=
  if hashUaddr uaddr = hashUaddr uaddr2 then
    t.inBucket uaddr2 = t.waiting uaddr2 ∨ n ≤ t.inBucket uaddr2 + t.movedBy uaddr maxWake maxRequeue
  else
    (t.inBucket uaddr2 = t.waiting uaddr2 ∧ t.movedBy uaddr maxWake maxRequeue = 0) ∨ n ≤ t.inBucket uaddr2

/-- A wake after a requeue finds all it should just when the waiters outside the bucket of `uaddr2` are not needed:
the moved ones stay in the bucket of `uaddr`. -/
theorem requeue_keeps_wakeable_iff (t : FutexTable) (hs : t.Settled) (uaddr uaddr2 : UAddr)
    (hne : uaddr ≠ uaddr2) (maxWake maxRequeue n : Nat) :
    t.KeepsWakeable uaddr maxWake uaddr2 maxRequeue n ↔
      t.WakeReaches uaddr maxWake uaddr2 maxRequeue n := by
  have hin := @waiting_futexRequeue _ _ _ maxWake maxRequeue hs hne (hashUaddr uaddr2)
  have hle : t.inBucket uaddr2 ≤ t.waiting uaddr2 := by
    rw [waiting, ← add_sum_erase _ _ (mem_univ (hashUaddr uaddr2))]
    exact Nat.le_add_right _ _
  have hwoken : (((t.futexRequeue uaddr maxWake uaddr2 maxRequeue).1.futexWake uaddr2 n).2.length =
      min n ((t.futexRequeue uaddr maxWake uaddr2 maxRequeue).1.waiting uaddr2)) ↔
      t.WakeReaches uaddr maxWake uaddr2 maxRequeue n := by
    rw [futexWake_unblocked, length_take, hin, waiting_after hs hne, WakeReaches]
    change min n (t.inBucket uaddr2 + _) = _ ↔ _
    by_cases hhash : hashUaddr uaddr = hashUaddr uaddr2
    · rw [if_pos hhash, if_pos hhash.symm]
      omega
    · rw [if_neg hhash, if_neg (Ne.symm hhash)]
      omega
  constructor
  · intro h
    exact hwoken.1 h.1.1
  · intro h
    refine ⟨⟨hwoken.2 h, fun p hp => ⟨hashUaddr uaddr2, ?_⟩⟩, fun p hp => moved_not_woken hs hne hp⟩
    rw [futexWake_unblocked] at hp
    exact mem_of_mem_take hp

def oneWaiter : FutexTable := (FutexTable.new.futexWait 0x1000 0 0 7).1

theorem oneWaiter_settled : oneWaiter.Settled := settled_new.futexWait (by decide)

theorem requeue_same_bucket : oneWaiter.Settled ∧ oneWaiter.KeepsWakeable 0x1000 0 0x1090 1 1 :=
  ⟨oneWaiter_settled,
    (requeue_keeps_wakeable_iff oneWaiter oneWaiter_settled 0x1000 0x1090 (by decide) 0 1 1).2
      (.inl (by decide +kernel))⟩

/-- Moved to `0x2000`, whose bucket is another one, the thread waits there and no wake on that
address finds it. -/
theorem requeue_loses_waiter : oneWaiter.Settled ∧ (0x1000 : UAddr) ≠ 0x2000 ∧
      (oneWaiter.futexRequeue 0x1000 0 0x2000 1).2.2 = [7] ∧
      (oneWaiter.futexRequeue 0x1000 0 0x2000 1).1.waiting 0x2000 = 1 ∧
      ((oneWaiter.futexRequeue 0x1000 0 0x2000 1).1.futexWake 0x2000 1).2 = [] ∧
      ¬ oneWaiter.KeepsWakeable 0x1000 0 0x2000 1 1 := by
  refine ⟨oneWaiter_settled, by decide, by decide +kernel, by decide +kernel, by decide +kernel, ?_⟩
  intro h
  have hlen := h.1.1
  revert hlen
  decide +kernel

end FutexTable

open FutexTable FutexBucket

inductive FutexCall where
  | sys (currentPid : Nat) (current : BitVec 32) (args : FutexArgs)
  | resume (currentPid : Nat)

/-- The table and, of each process that is between the two halves of a wait, the address. -/
structure FutexSys where
  table : FutexTable
  inWait : Nat → Option UAddr

namespace FutexSys

def init : FutexSys := ⟨.new, fun _ => none⟩

def call (s : FutexSys) : FutexCall → FutexSys
  | .sys currentPid current args =>
    let r := s.table.sysFutex currentPid current args
    ⟨r.1, if (futexOp args.op = 0 ∨ futexOp args.op = 9) ∧ r.2 = 0 then
      update s.inWait currentPid (some args.uaddr) else s.inWait⟩
  | .resume currentPid =>
    match s.inWait currentPid with
    | some uaddr => ⟨s.table.futexResume uaddr currentPid, update s.inWait currentPid none⟩
    | none => s

/-- A process inside `futex_wait` makes no call before it is resumed. -/
def Running (s : FutexSys) : FutexCall → Prop
  | .sys currentPid _ _ => s.inWait currentPid = none
  | .resume _ => True

/-- Only processes inside `futex_wait` have slots, in the bucket of the address they gave. -/
structure Sound (t : FutexTable) (inWait : Nat → Option UAddr) : Prop where
  settled : t.Settled
  waits : ∀ b, ∀ pid ∈ pids (t b).waiters, ∃ uaddr, inWait pid = some uaddr ∧ hashUaddr uaddr = b
  zero : inWait 0 = none

variable {t : FutexTable} {inWait : Nat → Option UAddr} {pid : Nat} {uaddr : UAddr}

theorem sound_new : Sound .new fun _ => none where
  settled := settled_new
  waits b pid hpid := by cases hpid
  zero := rfl

/-- A change of one bucket that gives no process a slot. -/
theorem Sound.shrink (h : Sound t inWait) (i : Fin futexHashBuckets) {b : FutexBucket}
    (hb : b.Settled ∧ (pids b.waiters).Sublist (pids (t i).waiters)) : Sound (update t i b) inWait := by
  refine ⟨h.settled.update i hb.1, fun j pid hpid => h.waits j pid ?_, h.zero⟩
  by_cases hj : j = i
  · subst hj
    rw [update_self] at hpid
    exact hb.2.subset hpid
  · rwa [update_of_ne hj] at hpid

theorem Sound.wait (h : Sound t inWait) (hpid : inWait pid = none) (hzero : pid ≠ 0) :
    Sound (update t (hashUaddr uaddr) ((t (hashUaddr uaddr)).push ⟨uaddr, pid, false⟩).1)
      (update inWait pid (some uaddr)) := by
  have hnew : ∀ b, pid ∉ pids (t b).waiters := by
    intro b hmem
    obtain ⟨u, hu, -⟩ := h.waits b pid hmem
    rw [hpid] at hu
    cases hu
  refine ⟨h.settled.update _ ((h.settled _).push hzero rfl (hnew _)), fun b p hp => ?_, ?_⟩
  · by_cases hpp : p = pid
    · subst hpp
      refine ⟨uaddr, update_self .., ?_⟩
      by_contra hb
      rw [update_of_ne (Ne.symm hb)] at hp
      exact hnew b hp
    · rw [update_of_ne hpp]
      refine h.waits b p ?_
      by_cases hb : b = hashUaddr uaddr
      · subst hb
        rw [update_self] at hp
        rcases (t (hashUaddr uaddr)).push_cases ⟨uaddr, pid, false⟩ with hfull | ⟨slot, hslot, hputs⟩
        · rwa [hfull] at hp
        · exact (mem_cons.1 ((hputs.pids hslot hzero).mem_iff.1 hp)).resolve_left hpp
      · rwa [update_of_ne hb] at hp
  · rw [update_of_ne (Ne.symm hzero)]
    exact h.zero

theorem Sound.resume (h : Sound t inWait) (hpid : inWait pid = some uaddr) :
    Sound (t.futexResume uaddr pid) (update inWait pid none) := by
  have hzero : pid ≠ 0 := by
    rintro rfl
    rw [h.zero] at hpid
    cases hpid
  have hless := h.shrink (hashUaddr uaddr) ⟨(h.settled _).removeByPid pid, pids_removeByPid _ pid⟩
  refine ⟨hless.settled, fun b p hp => ?_, ?_⟩
  · obtain ⟨u, hu, rfl⟩ := hless.waits b p hp
    have hpp : p ≠ pid := by
      rintro rfl
      obtain rfl : uaddr = u := Option.some.inj (hpid.symm.trans hu)
      rw [futexResume, update_self] at hp
      exact (h.settled _).removeByPid_gone hzero hp
    exact ⟨u, (update_of_ne hpp ..).trans hu, rfl⟩
  · rw [update_of_ne (Ne.symm hzero)]
    exact h.zero

theorem Sound.call {s : FutexSys} (h : Sound s.table s.inWait) {c : FutexCall} (hc : s.Running c) :
    Sound (s.call c).table (s.call c).inWait := by
  cases c with
  | resume pid =>
    rw [FutexSys.call]
    cases hpid : s.inWait pid with
    | none => exact h
    | some uaddr => exact h.resume hpid
  | sys pid current args =>
    rw [FutexSys.call, sysFutex]
    by_cases hwait : futexOp args.op = 0 ∨ futexOp args.op = 9
    · rw [if_pos hwait]
      rcases futexWait_cases s.table args.uaddr current args.val pid with
        ⟨e, he, hfail⟩ | ⟨hzero, hok⟩
      · rw [hfail, if_neg fun hr => he hr.2]
        exact h
      · rw [hok, if_pos ⟨hwait, rfl⟩]
        exact h.wait hc hzero
    · simp only [hwait, false_and, if_false]
      split_ifs
      · rw [futexWake]
        split_ifs
        · exact h
        · exact h.shrink _ ((h.settled _).cleared (wakeScan_pids 0 _))
      · exact h.shrink _ ((h.settled _).cleared (requeueScan_pids 0 0 _))
      · exact h

/-- In every run in which no process calls from inside `futex_wait`: no slot stays marked as woken, a
process has a slot only while it is inside `futex_wait`, one in the whole table, and a wake unblocks
such processes only, each once. -/
theorem wake_unblocks_once (cs : List FutexCall) (h : Guarded call Running init cs) :
    let s := run call init cs
    s.table.Settled ∧ (∀ b pid, pid ∈ pids (s.table b).waiters →
      ∃ uaddr, s.inWait pid = some uaddr ∧ hashUaddr uaddr = b) ∧
    ∀ uaddr n, (s.table.futexWake uaddr n).2.Nodup ∧
      ∀ pid ∈ (s.table.futexWake uaddr n).2, (s.inWait pid).isSome = true := by
  intro s
  have hs : Sound s.table s.inWait :=
    @Guarded.run_invariant _ _ _ _ (fun s => Sound s.table s.inWait) _ _ h sound_new
      fun _ _ hs hc => hs.call hc
  refine ⟨hs.settled, hs.waits, fun uaddr n => ?_⟩
  have hsub : (s.table.futexWake uaddr n).2.Sublist (pids (s.table (hashUaddr uaddr)).waiters) := by
    rw [futexWake_unblocked]
    exact (take_sublist n _).trans (waiting_sublist _ uaddr)
  refine ⟨hsub.nodup (hs.settled _).nodup, fun pid hpid => ?_⟩
  obtain ⟨u, hu, -⟩ := hs.waits _ pid (hsub.subset hpid)
  rw [hu]
  rfl

def twoWaiters : List FutexCall :=
  [.sys 7 0 ⟨0x1000, 0, 0, 0, 0⟩, .sys 8 0 ⟨0x1000, 3, 0, 0x2000, 1⟩, .resume 7,
    .sys 7 0 ⟨0x1000, 0, 0, 0, 0⟩, .sys 8 0 ⟨0x1000, 0, 0, 0, 0⟩]

theorem wake_unblocks_once_two : ((run call init twoWaiters).table.futexWake 0x1000 5).2 = [7, 8] ∧
    ((run call init twoWaiters).table.futexWake 0x1000 5).2.Nodup ∧
    ((run call init twoWaiters).inWait 8).isSome = true := by
  have hwoken : ((run call init twoWaiters).table.futexWake 0x1000 5).2 = [7, 8] := by decide +kernel
  obtain ⟨-, -, hwake⟩ := wake_unblocks_once twoWaiters ⟨rfl, rfl, trivial, rfl, rfl, trivial⟩
  exact ⟨hwoken, (hwake 0x1000 5).1, (hwake 0x1000 5).2 8 (by rw [hwoken]; decide)⟩

end FutexSys

end AntX.Syscall
