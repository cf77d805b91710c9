import Mathlib.Data.List.Induction
import Mathlib.Data.List.Nodup
import AntX.Lib.Run

/-! The priority inheritance mutex, `framework/sync/pi_mutex.rs`, called by one thread at a time. -/

namespace AntX.Sync

open Lib List
open Option hiding map_map

def pidNone : Nat := 0

structure WaiterEntry where
  pid : Nat
  basePriority : Nat
deriving DecidableEq, Repr

inductive Notice where
  | donation (holderPid donatedPriority : Nat)
  | revoke (pid : Nat)
deriving DecidableEq, Repr

structure PiMutex where
  locked : Bool
  holder : Nat
  waiters : List WaiterEntry
  effectivePriority : Nat
  chain : List Nat
  holderBasePriority : Nat
  notices : List Notice
deriving DecidableEq, Repr

/-- The pids of the first eight waiters. The test is made on the index as a `u8`, so that the
entry after the first 256 is written past the end of the array, and the kernel panics. -/
def donorChain : Nat → List WaiterEntry → Option (List Nat)
  | _, [] => some []
  | i, w :: ws =>
    if i % 256 < 8 then
      if i < 8 then (donorChain (i + 1) ws).map (w.pid :: ·) else none
    else donorChain (i + 1) ws

def maxWaiterPrio (waiters : List WaiterEntry) : Nat :=
  waiters.foldl (fun prio w => if prio ≤ w.basePriority then w.basePriority else prio) 0

def bestIdx : Nat → Option Nat → Nat → List WaiterEntry → Option Nat
  | _, best, _, [] => best
  | i, best, bestPrio, w :: ws =>
    if bestPrio ≤ w.basePriority then bestIdx (i + 1) (some i) w.basePriority ws
    else bestIdx (i + 1) best bestPrio ws

namespace PiMutex

def new : PiMutex :=
  { locked := false, holder := pidNone, waiters := [], effectivePriority := 0, chain := [],
    holderBasePriority := 0, notices := [] }

variable (m : PiMutex)

def notify (notice : Notice) : PiMutex := { m with notices := m.notices ++ [notice] }

/-- `none` is a panic, here and below. -/
def recomputeAndNotify : Option PiMutex :=
  match donorChain 0 m.waiters with
  | none => none
  | some chain =>
    let newEffective := max m.holderBasePriority (maxWaiterPrio m.waiters)
    let prev := m.effectivePriority
    let m := { m with chain := chain }
    if newEffective = prev then some m
    else
      let m := { m with effectivePriority := newEffective }
      if m.holder = pidNone then some m
      else if prev < newEffective then some (m.notify (.donation m.holder newEffective))
      else some (m.notify (.revoke m.holder))

def registerWaiterAndDonate (pid basePriority : Nat) : Option PiMutex :=
  if m.waiters.any (·.pid == pid) then some m
  else ({ m with waiters := m.waiters ++ [WaiterEntry.mk pid basePriority] }).recomputeAndNotify

def tryLock (pid basePriority : Nat) : Option (PiMutex × Bool) :=
  if m.locked = false then
    some ({ m with
      locked := true
      holder := pid
      effectivePriority := basePriority
      holderBasePriority := basePriority }, true)
  else (m.registerWaiterAndDonate pid basePriority).map (·, false)

def lockStep (pid basePriority : Nat) (m : PiMutex) : PiMutex ⊕ Option PiMutex :=
  match m.tryLock pid basePriority with
  | some (m, true) => .inr (some m)
  | some (m, false) => .inl m
  | none => .inr none

def updateWaiterPriority (pid newBasePriority : Nat) : Option (PiMutex × Bool) :=
  if m.waiters.any fun w => w.pid == pid && w.basePriority != newBasePriority then
    (recomputeAndNotify { m with
      waiters := m.waiters.map fun w =>
        if w.pid = pid then { w with basePriority := newBasePriority } else w }).map (·, true)
  else some (m, false)

def doUnlock : Option PiMutex :=
  match bestIdx 0 none 0 m.waiters with
  | none =>
    some { m with locked := false, holder := pidNone, effectivePriority := 0, holderBasePriority := 0 }
  | some idx =>
    match m.waiters[idx]? with
    | none => none
    | some entry =>
      recomputeAndNotify { m.notify (.revoke m.holder) with
          waiters := m.waiters.eraseIdx idx
          chain := []
          holder := entry.pid
          locked := true
          effectivePriority := entry.basePriority
          holderBasePriority := entry.basePriority }

def unlockInternal (myPid : Nat) : Option PiMutex :=
  if m.holder ≠ myPid then some m else m.doUnlock

def forceUnlock : Option PiMutex := if m.locked = false then some m else m.doUnlock

def forceUnlockForExit (pid : Nat) : Option (PiMutex × Bool) :=
  if m.holder ≠ pid then some (m, false)
  else if m.locked = false then some (m, false)
  else m.doUnlock.map (·, true)

inductive Op where
  | tryLock (pid basePriority : Nat)
  | updateWaiterPriority (pid newBasePriority : Nat)
  | unlockInternal (myPid : Nat)
  | forceUnlock
  | forceUnlockForExit (pid : Nat)

def step : Op → Option PiMutex
  | .tryLock pid basePriority => (m.tryLock pid basePriority).map (·.1)
  | .updateWaiterPriority pid newBasePriority =>
    (m.updateWaiterPriority pid newBasePriority).map (·.1)
  | .unlockInternal myPid => m.unlockInternal myPid
  | .forceUnlock => m.forceUnlock
  | .forceUnlockForExit pid => (m.forceUnlockForExit pid).map (·.1)

inductive Reachable : PiMutex → Prop
  | new : Reachable new
  | step {m m' : PiMutex} {op : Op} : Reachable m → m.step op = some m' → Reachable m'

variable {m m' : PiMutex}

variable {ws : List WaiterEntry} {i pid basePriority : Nat}

theorem donorChain_isSome (h : i + ws.length ≤ 256) : ∃ chain, donorChain i ws = some chain := by
  induction ws generalizing i with
  | nil => exact ⟨[], rfl⟩
  | cons w ws ih =>
    rw [length_cons] at h
    obtain ⟨chain, hchain⟩ := ih (by omega : i + 1 + ws.length ≤ 256)
    rw [donorChain, hchain]
    by_cases hi : i % 256 < 8
    · exact ⟨w.pid :: chain, by rw [if_pos hi, if_pos (by omega), map_some]⟩
    · exact ⟨chain, by rw [if_neg hi]⟩

theorem donorChain_length {chain : List Nat} (hi : i ≤ 256) (h : donorChain i ws = some chain) :
    i + ws.length ≤ 256 := by
  induction ws generalizing i chain with
  | nil => simpa using hi
  | cons w ws ih =>
    rw [donorChain] at h
    rw [length_cons]
    by_cases hlt : i < 256
    · have hrest : ∃ chain', donorChain (i + 1) ws = some chain' := by
        split_ifs at h
        · obtain ⟨chain', hc, -⟩ := map_eq_some_iff.1 h
          exact ⟨chain', hc⟩
        · exact ⟨chain, h⟩
      obtain ⟨chain', hc⟩ := hrest
      have := ih (by omega) hc
      omega
    · obtain rfl : i = 256 := by omega
      simp at h

theorem recomputeAndNotify_spec (h : m.recomputeAndNotify = some m') :
    m.waiters.length ≤ 256 ∧ m'.waiters = m.waiters ∧ m'.locked = m.locked ∧
      m'.holder = m.holder ∧ m'.holderBasePriority = m.holderBasePriority ∧
      m'.effectivePriority = max m.holderBasePriority (maxWaiterPrio m.waiters) := by
  rw [recomputeAndNotify] at h
  cases hc : donorChain 0 m.waiters with
  | none =>
    rw [hc] at h
    cases h
  | some chain =>
    rw [hc] at h
    have hlen := donorChain_length (by decide) hc
    rw [Nat.zero_add] at hlen
    dsimp only at h
    split_ifs at h with heq
    · obtain rfl := some.inj h
      exact ⟨hlen, rfl, rfl, rfl, rfl, heq.symm⟩
    all_goals
      obtain rfl := some.inj h
      exact ⟨hlen, rfl, rfl, rfl, rfl, rfl⟩

theorem recomputeAndNotify_isSome (h : m.waiters.length ≤ 256) : ∃ m', m.recomputeAndNotify = some m' := by
  obtain ⟨chain, hc⟩ := donorChain_isSome (by omega : 0 + m.waiters.length ≤ 256)
  rw [recomputeAndNotify, hc]
  dsimp only
  split_ifs
  all_goals exact ⟨_, rfl⟩

structure Bounded (m : PiMutex) : Prop where
  length : m.waiters.length ≤ 256
  nodup : (m.waiters.map (·.pid)).Nodup

theorem Bounded.of_sublist (h : Bounded m) (hs : m'.waiters.Sublist m.waiters) : Bounded m' :=
  ⟨Nat.le_trans hs.length_le h.length, h.nodup.sublist (hs.map _)⟩

theorem doUnlock_sublist (h : m.doUnlock = some m') : m'.waiters.Sublist m.waiters := by
  rw [doUnlock] at h
  cases hb : bestIdx 0 none 0 m.waiters with
  | none =>
    rw [hb] at h
    obtain rfl := some.inj h
    exact List.Sublist.refl _
  | some idx =>
    rw [hb] at h
    dsimp only at h
    cases he : m.waiters[idx]? with
    | none =>
      rw [he] at h
      cases h
    | some entry =>
      rw [he] at h
      rw [(recomputeAndNotify_spec h).2.1]
      exact eraseIdx_sublist _ _

theorem bounded_registerWaiterAndDonate (h : Bounded m)
    (hr : m.registerWaiterAndDonate pid basePriority = some m') :
    Bounded m' ∧ m'.locked = m.locked ∧ m'.holder = m.holder ∧ ∃ w ∈ m'.waiters, w.pid = pid := by
  rw [registerWaiterAndDonate] at hr
  by_cases hin : m.waiters.any (·.pid == pid) = true
  · rw [if_pos hin] at hr
    obtain rfl := some.inj hr
    obtain ⟨w, hw, hpid⟩ := any_eq_true.1 hin
    exact ⟨h, rfl, rfl, w, hw, by simpa using hpid⟩
  · rw [if_neg hin] at hr
    obtain ⟨hlen, hw, hlocked, hholder, -⟩ := recomputeAndNotify_spec hr
    refine ⟨⟨by rw [hw]; exact hlen, ?_⟩, hlocked, hholder, ⟨pid, basePriority⟩, by simp [hw], rfl⟩
    have hnew : pid ∉ m.waiters.map (·.pid) := by
      intro hm
      obtain ⟨w, hmem, rfl⟩ := mem_map.1 hm
      exact hin (any_eq_true.2 ⟨w, hmem, by simp⟩)
    rw [hw, map_append]
    exact nodup_append.2 ⟨h.nodup, by simp, by
      rintro x hx y hy rfl
      obtain rfl : x = pid := by simpa using hy
      exact hnew hx⟩

theorem bounded_updateWaiterPriority {newBasePriority : Nat} {changed : Bool} (h : Bounded m)
    (hu : m.updateWaiterPriority pid newBasePriority = some (m', changed)) : Bounded m' := by
  rw [updateWaiterPriority] at hu
  split at hu
  · obtain ⟨m₁, hr, he⟩ := map_eq_some_iff.1 hu
    obtain ⟨rfl, -⟩ := Prod.mk.inj he
    obtain ⟨hlen, hw, -⟩ := recomputeAndNotify_spec hr
    have hpids : m₁.waiters.map (·.pid) = m.waiters.map (·.pid) := by
      rw [hw, map_map]
      refine map_congr_left fun w _ => ?_
      dsimp only [Function.comp]
      split <;> rfl
    exact ⟨by rw [hw]; exact hlen, hpids ▸ h.nodup⟩
  · obtain ⟨rfl, -⟩ := Prod.mk.inj (some.inj hu)
    exact h

theorem step_cases {op : Op} (hs : m.step op = some m') : m' = m ∨ m.doUnlock = some m' ∨ ∃ pid prio,
      (m.locked = false ∧ m' = { m with
        locked := true, holder := pid, effectivePriority := prio, holderBasePriority := prio }) ∨
      (m.locked = true ∧ m.registerWaiterAndDonate pid prio = some m') ∨
      ∃ changed, m.updateWaiterPriority pid prio = some (m', changed) := by
  cases op with
  | tryLock pid prio =>
    obtain ⟨r, hr, rfl⟩ := map_eq_some_iff.1 hs
    rw [tryLock] at hr
    split at hr
    case isTrue hl =>
      obtain rfl := some.inj hr
      exact .inr (.inr ⟨pid, prio, .inl ⟨hl, rfl⟩⟩)
    case isFalse hl =>
      obtain ⟨m₁, hm, rfl⟩ := map_eq_some_iff.1 hr
      exact .inr (.inr ⟨pid, prio, .inr (.inl ⟨by simpa using hl, hm⟩)⟩)
  | updateWaiterPriority pid prio =>
    obtain ⟨r, hr, rfl⟩ := map_eq_some_iff.1 hs
    exact .inr (.inr ⟨pid, prio, .inr (.inr ⟨r.2, hr⟩)⟩)
  | unlockInternal myPid | forceUnlock =>
    simp only [step, unlockInternal, forceUnlock] at hs
    split at hs
    · exact .inl (some.inj hs).symm
    · exact .inr (.inl hs)
  | forceUnlockForExit pid =>
    obtain ⟨r, hr, rfl⟩ := map_eq_some_iff.1 hs
    rw [forceUnlockForExit] at hr
    split_ifs at hr
    · exact .inl (some.inj hr ▸ rfl)
    · exact .inl (some.inj hr ▸ rfl)
    · obtain ⟨m₁, hm, rfl⟩ := map_eq_some_iff.1 hr
      exact .inr (.inl hm)

theorem bounded_step {op : Op} (h : Bounded m) (hs : m.step op = some m') : Bounded m' := by
  obtain rfl | hu | ⟨pid, prio, ⟨-, rfl⟩ | ⟨-, hr⟩ | ⟨changed, hu⟩⟩ := step_cases hs
  · exact h
  · exact h.of_sublist (doUnlock_sublist hu)
  · exact ⟨h.length, h.nodup⟩
  · exact (bounded_registerWaiterAndDonate h hr).1
  · exact bounded_updateWaiterPriority h hu

theorem Reachable.bounded (h : Reachable m) : Bounded m := by
  induction h with
  | new => exact ⟨by decide, by decide⟩
  | step _ hs ih => exact bounded_step ih hs

theorem bestIdx_spec (i : Nat) (best : Option Nat) (bestPrio : Nat) (ws : List WaiterEntry) :
    (bestIdx i best bestPrio ws = best ∧ ∀ x ∈ ws, x.basePriority < bestPrio) ∨
    ∃ a w b, ws = a ++ w :: b ∧ bestIdx i best bestPrio ws = some (i + a.length) ∧
      bestPrio ≤ w.basePriority ∧ (∀ x ∈ a, x.basePriority ≤ w.basePriority) ∧
      ∀ x ∈ b, x.basePriority < w.basePriority := by
  induction ws generalizing i best bestPrio with
  | nil => exact .inl ⟨rfl, by simp⟩
  | cons w ws ih =>
    have hidx (a : List WaiterEntry) : i + 1 + a.length = i + (w :: a).length := by
      rw [length_cons]
      omega
    rw [bestIdx]
    by_cases hle : bestPrio ≤ w.basePriority
    · rw [if_pos hle]
      rcases ih (i + 1) (some i) w.basePriority with ⟨heq, hlt⟩ | ⟨a, v, b, rfl, heq, hv, ha, hb⟩
      · exact .inr ⟨[], w, ws, rfl, by simpa using heq, hle, by simp, hlt⟩
      · exact .inr ⟨w :: a, v, b, rfl, by rw [heq, hidx], Nat.le_trans hle hv, forall_mem_cons.2 ⟨hv, ha⟩, hb⟩
    · rw [if_neg hle]
      rcases ih (i + 1) best bestPrio with ⟨heq, hlt⟩ | ⟨a, v, b, rfl, heq, hv, ha, hb⟩
      · exact .inl ⟨heq, forall_mem_cons.2 ⟨by omega, hlt⟩⟩
      · exact .inr ⟨w :: a, v, b, rfl, by rw [heq, hidx], hv, forall_mem_cons.2 ⟨by omega, ha⟩, hb⟩

theorem doUnlock_spec (h : m.waiters.length ≤ 256) (hne : m.waiters ≠ []) :
    ∃ m' a w b, m.doUnlock = some m' ∧ m.waiters = a ++ w :: b ∧
      (∀ x ∈ a, x.basePriority ≤ w.basePriority) ∧ (∀ x ∈ b, x.basePriority < w.basePriority) ∧
      m'.holder = w.pid ∧ m'.locked = true ∧ m'.waiters = a ++ b := by
  rcases bestIdx_spec 0 none 0 m.waiters with ⟨-, hlt⟩ | ⟨a, w, b, hw, heq, -, ha, hb⟩
  · obtain ⟨x, hx⟩ := exists_mem_of_ne_nil _ hne
    exact absurd (hlt x hx) (Nat.not_lt_zero _)
  · rw [Nat.zero_add] at heq
    have hget : m.waiters[a.length]? = some w := by
      simp [hw]
    have herase : m.waiters.eraseIdx a.length = a ++ b := by
      simp [hw, eraseIdx_append]
    have hlen : (a ++ b).length ≤ 256 := by
      rw [hw] at h
      simp only [length_append, length_cons] at h ⊢
      omega
    rw [doUnlock, heq]
    dsimp only
    rw [hget, herase]
    obtain ⟨m', hm'⟩ := recomputeAndNotify_isSome (m := { m.notify (.revoke m.holder) with
          waiters := a ++ b
          holder := w.pid
          locked := true
          effectivePriority := w.basePriority
          holderBasePriority := w.basePriority }) hlen
    obtain ⟨-, hwaiters, hlocked, hholder, -⟩ := recomputeAndNotify_spec hm'
    exact ⟨m', a, w, b, hm', hw, ha, hb, hholder, hlocked, hwaiters⟩

theorem maxWaiterPrio_spec (ws : List WaiterEntry) : (∀ w ∈ ws, w.basePriority ≤ maxWaiterPrio ws) ∧
      (maxWaiterPrio ws = 0 ∨ ∃ w ∈ ws, w.basePriority = maxWaiterPrio ws) := by
  -- Of the last waiter `w`: either it raises the maximum so far or it is below it.
  induction ws using List.reverseRecOn with
  | nil => exact ⟨by simp, .inl rfl⟩
  | append_singleton ws w ih =>
    obtain ⟨hle, heq⟩ := ih
    have hlast : maxWaiterPrio (ws ++ [w]) =
        if maxWaiterPrio ws ≤ w.basePriority then w.basePriority else maxWaiterPrio ws := by
      rw [maxWaiterPrio, foldl_append]
      rfl
    rw [hlast]
    split_ifs with hw
    · refine ⟨fun x hx => ?_, .inr ⟨w, by simp, rfl⟩⟩
      rcases mem_append.1 hx with hx | hx
      · exact Nat.le_trans (hle x hx) hw
      · rw [mem_singleton.1 hx]
    · refine ⟨fun x hx => ?_, heq.imp_right fun ⟨v, hv, he⟩ => ⟨v, by simp [hv], he⟩⟩
      rcases mem_append.1 hx with hx | hx
      · exact hle x hx
      · rw [mem_singleton.1 hx]
        omega

structure Inherits (m : PiMutex) : Prop where
  locked : m.locked = true → m.effectivePriority = max m.holderBasePriority (maxWaiterPrio m.waiters)
  free : m.locked = false → m.waiters = [] ∧ m.holder = pidNone ∧ m.effectivePriority = 0

theorem inherits_recomputeAndNotify (h : m.recomputeAndNotify = some m')
    (hl : m.locked = true) : Inherits m' := by
  obtain ⟨-, hw, hlocked, -, hbase, heff⟩ := recomputeAndNotify_spec h
  refine ⟨fun _ => by rw [heff, hbase, hw], fun hf => ?_⟩
  rw [hlocked, hl] at hf
  cases hf

theorem inherits_doUnlock (h : m.doUnlock = some m') : Inherits m' := by
  rw [doUnlock] at h
  split at h
  case h_1 hb =>
    obtain rfl := some.inj h
    have hnil : m.waiters = [] := by
      rcases bestIdx_spec 0 none 0 m.waiters with ⟨-, hlt⟩ | ⟨a, w, b, -, heq, -⟩
      · exact eq_nil_iff_forall_not_mem.2 fun x hx => Nat.not_lt_zero _ (hlt x hx)
      · exact absurd (hb.symm.trans heq) (by simp)
    exact ⟨fun hl => (nomatch hl), fun _ => ⟨hnil, rfl, rfl⟩⟩
  case h_2 idx hb =>
    split at h
    · cases h
    · exact inherits_recomputeAndNotify h rfl

theorem inherits_step {op : Op} (h : Inherits m) (hs : m.step op = some m') : Inherits m' := by
  obtain rfl | hu | ⟨pid, prio, ⟨hl, rfl⟩ | ⟨hl, hr⟩ | ⟨changed, hu⟩⟩ := step_cases hs
  · exact h
  · exact inherits_doUnlock hu
  · refine ⟨fun _ => ?_, fun hf => nomatch hf⟩
    simp [(h.free hl).1, maxWaiterPrio]
  · rw [registerWaiterAndDonate] at hr
    split at hr
    · exact some.inj hr ▸ h
    · exact inherits_recomputeAndNotify hr hl
  · rw [updateWaiterPriority] at hu
    split at hu
    case isTrue hany =>
      obtain ⟨m₁, hr, he⟩ := map_eq_some_iff.1 hu
      obtain ⟨rfl, -⟩ := Prod.mk.inj he
      -- A free mutex has no waiter whose priority could change.
      have hl : m.locked = true := by
        by_contra hf
        simp [(h.free (by simpa using hf)).1] at hany
      exact inherits_recomputeAndNotify hr hl
    · exact (Prod.mk.inj (some.inj hu)).1 ▸ h

theorem Reachable.inherits (h : Reachable m) : Inherits m := by
  induction h with
  | new => exact ⟨fun hl => (nomatch hl), fun _ => ⟨rfl, rfl, rfl⟩⟩
  | step _ hs ih => exact inherits_step ih hs

/-- A held mutex has the greatest priority of its holder and its waiters, and a free one has no waiter. -/
theorem effective_priority_greatest (h : Reachable m) : (m.waiters.map (·.pid)).Nodup ∧
      (m.locked = true → IsGreatest (insert m.holderBasePriority {p | ∃ w ∈ m.waiters, w.basePriority = p})
        m.effectivePriority) ∧
      (m.locked = false → m.waiters = [] ∧ m.holder = pidNone ∧ m.effectivePriority = 0) := by
  refine ⟨h.bounded.nodup, fun hl => ?_, h.inherits.free⟩
  obtain ⟨hle, heq⟩ := maxWaiterPrio_spec m.waiters
  rw [h.inherits.locked hl]
  constructor
  · rcases Nat.le_total (maxWaiterPrio m.waiters) m.holderBasePriority with hmax | hmax
    · exact .inl (Nat.max_eq_left hmax)
    · rw [Nat.max_eq_right hmax]
      exact heq.imp_left fun hzero => by omega
  · rintro p (rfl | ⟨w, hw, rfl⟩)
    · exact le_max_left _ _
    · exact Nat.le_trans (hle w hw) (le_max_right _ _)

theorem effective_priority_greatest_one_waiter : ∃ m, Reachable m ∧ m.locked = true ∧ m.waiters = [⟨2, 9⟩] ∧
      IsGreatest (insert m.holderBasePriority {p | ∃ w ∈ m.waiters, w.basePriority = p})
        m.effectivePriority := by
  have hheld := @Reachable.step _ _ (.tryLock 1 5) .new rfl
  have hdonated := @Reachable.step _ _ (.tryLock 2 9) hheld rfl
  exact ⟨_, hdonated, rfl, rfl, (effective_priority_greatest hdonated).2.1 rfl⟩

theorem tryLock_of_locked (h : m.locked = true) :
    m.tryLock pid basePriority = (m.registerWaiterAndDonate pid basePriority).map (·, false) := by
  rw [tryLock, if_neg (by simp [h])]

structure Spinning (pid : Nat) (m : PiMutex) : Prop where
  bounded : Bounded m
  locked : m.locked = true
  room : (∃ w ∈ m.waiters, w.pid = pid) ∨ m.waiters.length < 256

theorem spinning_step (h : Spinning pid m) :
    ∃ m', lockStep pid basePriority m = .inl m' ∧ Spinning pid m' := by
  have hreg : ∃ m', m.registerWaiterAndDonate pid basePriority = some m' := by
    rw [registerWaiterAndDonate]
    by_cases hin : m.waiters.any (·.pid == pid) = true
    · exact ⟨m, if_pos hin⟩
    · rw [if_neg hin]
      refine recomputeAndNotify_isSome ?_
      rcases h.room with ⟨w, hw, rfl⟩ | hlt
      · exact absurd (any_eq_true.2 ⟨w, hw, by simp⟩) hin
      · simp only [length_append, length_singleton]
        omega
  obtain ⟨m', hm'⟩ := hreg
  obtain ⟨hb, hlocked, -, hin⟩ := bounded_registerWaiterAndDonate h.bounded hm'
  refine ⟨m', ?_, hb, hlocked.trans h.locked, .inl hin⟩
  rw [lockStep, tryLock_of_locked h.locked, hm']
  rfl

/-- The new holder is the waiter with the highest priority, the earliest one among equals. -/
def SelectsEarliest (m m' : PiMutex) : Prop :=
  ∃ a w b, m.waiters = a ++ w :: b ∧ m'.holder = w.pid ∧
    (∀ x ∈ a, x.basePriority < w.basePriority) ∧ ∀ x ∈ b, x.basePriority ≤ w.basePriority

/-- The next `try_lock` of the new holder succeeds and leaves it in no queue. -/
def Completes (m : PiMutex) : Prop :=
  ∃ basePriority m', m.tryLock m.holder basePriority = some (m', true) ∧ ∀ w ∈ m'.waiters, w.pid ≠ m.holder

def HandsOff (m : PiMutex) : Prop :=
  m.waiters ≠ [] → ∃ m', m.doUnlock = some m' ∧ SelectsEarliest m m' ∧ Completes m'

theorem selectsEarliest_iff {a b : List WaiterEntry} {w : WaiterEntry}
    (hnd : (m.waiters.map (·.pid)).Nodup) (hw : m.waiters = a ++ w :: b)
    (ha : ∀ x ∈ a, x.basePriority ≤ w.basePriority) (hb : ∀ x ∈ b, x.basePriority < w.basePriority)
    (hholder : m'.holder = w.pid) :
    SelectsEarliest m m' ↔ ∃ v ∈ m.waiters, ∀ x ∈ m.waiters, x ≠ v → x.basePriority < v.basePriority := by
  have hinj : ∀ x ∈ m.waiters, ∀ y ∈ m.waiters, x.pid = y.pid → x = y :=
    fun x hx y hy => inj_on_of_nodup_map hnd hx hy
  have hwmem : w ∈ m.waiters := by simp [hw]
  have hnodup : (a ++ w :: b).Nodup := hw ▸ hnd.of_map
  constructor
  · rintro ⟨a', w', b', hw', hpid, ha', -⟩
    obtain rfl : w = w' := hinj w hwmem w' (by simp [hw']) (hholder.symm.trans hpid)
    refine ⟨w, hwmem, ?_⟩
    have hna : w ∉ a := fun hm => (nodup_append.1 hnodup).2.2 w hm w (by simp) rfl
    have hnb : w ∉ b := (nodup_cons.1 (nodup_append.1 hnodup).2.1).1
    have hsplit : a = a' ∧ w = w ∧ b = b' :=
      (append_cons_inj_of_notMem hna hnb).1 (hw.symm.trans hw')
    intro x hx hne
    rw [hw] at hx
    rcases mem_append.1 hx with hx | hx
    · exact ha' x (hsplit.1 ▸ hx)
    · exact hb x ((mem_cons.1 hx).resolve_left hne)
  · rintro ⟨v, hv, htop⟩
    have hle : v.basePriority ≤ w.basePriority := by
      rw [hw] at hv
      rcases mem_append.1 hv with hv | hv
      · exact ha v hv
      · rcases mem_cons.1 hv with rfl | hv
        · exact le_rfl
        · exact Nat.le_of_lt (hb v hv)
    obtain rfl : w = v := by
      by_contra hne
      have := htop w hwmem hne
      omega
    refine ⟨a, w, b, hw, hholder, ?_, fun x hx => Nat.le_of_lt (hb x hx)⟩
    intro x hx
    refine htop x (by simp [hw, hx]) ?_
    rintro rfl
    exact (nodup_append.1 hnodup).2.2 x hx x (by simp) rfl

/-- With a waiter the hand-off never works: the selection is right when one waiter alone has the
highest priority, but its `lock` spins on, queued for the mutex that it holds. -/
theorem handsOff_iff_no_waiter (h : Reachable m) : (HandsOff m ↔ m.waiters = []) ∧
      (m.waiters ≠ [] → ∃ m', m.doUnlock = some m' ∧ (SelectsEarliest m m' ↔
          ∃ w ∈ m.waiters, ∀ x ∈ m.waiters, x ≠ w → x.basePriority < w.basePriority) ∧
        ∀ basePriority n, ∃ u, after (lockStep m'.holder basePriority) n m' = .inl u) := by
  have hb := h.bounded
  constructor
  · constructor
    · intro hoff
      by_contra hne
      obtain ⟨m', hm', -, prio, m'', htry, -⟩ := hoff hne
      obtain ⟨m₁, a, w, b, hm₁, -, -, -, -, hlocked, -⟩ := doUnlock_spec hb.length hne
      obtain rfl := some.inj (hm₁.symm.trans hm')
      rw [tryLock_of_locked hlocked] at htry
      obtain ⟨r, -, hr⟩ := map_eq_some_iff.1 htry
      cases (Prod.mk.inj hr).2
    · exact fun hnil hne => absurd hnil hne
  · intro hne
    obtain ⟨m', a, w, b, hm', hw, ha, hb', hholder, hlocked, hwaiters⟩ :=
      doUnlock_spec hb.length hne
    refine ⟨m', hm', selectsEarliest_iff hb.nodup hw ha hb' hholder, ?_⟩
    intro prio n
    have hroom : m'.waiters.length < 256 := by
      have hlen := hb.length
      rw [hw] at hlen
      rw [hwaiters]
      simp only [length_append, length_cons] at hlen ⊢
      omega
    have hspin : Spinning m'.holder m' :=
      ⟨hb.of_sublist (doUnlock_sublist hm'), hlocked, .inr hroom⟩
    obtain ⟨u, hu, -⟩ := after_progress (Spinning m'.holder) (fun _ => spinning_step) hspin n
    exact ⟨u, hu⟩

def contended : PiMutex :=
  { locked := true, holder := 1, waiters := [⟨2, 7⟩], effectivePriority := 7, chain := [2],
    holderBasePriority := 5, notices := [.donation 1 7] }

def tied : PiMutex := { contended with waiters := [⟨2, 7⟩, ⟨3, 7⟩], chain := [2, 3] }

theorem reachable_contended : Reachable contended := by
  have hheld := @Reachable.step _ _ (.tryLock 1 5) .new rfl
  exact @Reachable.step _ contended (.tryLock 2 7) hheld rfl

theorem reachable_tied : Reachable tied :=
  @Reachable.step _ tied (.tryLock 3 7) reachable_contended rfl

theorem handsOff_iff_no_waiter_contended :
    Reachable contended ∧ contended.waiters ≠ [] ∧ (HandsOff contended ↔ contended.waiters = []) :=
  ⟨reachable_contended, by decide, (handsOff_iff_no_waiter reachable_contended).1⟩

/-- The new holder is told that it does not have the mutex and is queued for it; of two waiters
with the same priority the later one is chosen. -/
theorem new_holder_waits_for_itself : Reachable contended ∧ Reachable tied ∧
    (∃ m m', contended.doUnlock = some m ∧ m.holder = 2 ∧ m.tryLock 2 7 = some (m', false) ∧
      m'.holder = 2 ∧ ⟨2, 7⟩ ∈ m'.waiters) ∧
    ∃ m, tied.doUnlock = some m ∧ m.holder = 3 := by
  refine ⟨reachable_contended, reachable_tied, ⟨_, _, rfl, rfl, rfl, rfl, ?_⟩, _, rfl, rfl⟩
  decide

end PiMutex

end AntX.Sync
