import Mathlib.Data.List.GetD
import Mathlib.Data.List.Induction
import Mathlib.Tactic.Ring

/-! The audit log: `services/credo/audit.rs`. Events are written round a ring of nodes, each with
the hash of the node before it. -/

namespace AntX.Credo

open Function List

inductive AuditEventKind where
  | loginSuccess
  | loginFailed
  | logout
  | capabilityGranted
  | capabilityRevoked
  | sessionKilled
  | policyViolation
  | barrierRecovery
  | barrierReset
  | custom (v : BitVec 8)
deriving DecidableEq, Repr

def AuditEventKind.tag : AuditEventKind → BitVec 8
  | .loginSuccess => 0x01
  | .loginFailed => 0x02
  | .logout => 0x03
  | .capabilityGranted => 0x04
  | .capabilityRevoked => 0x05
  | .sessionKilled => 0x06
  | .policyViolation => 0x07
  | .barrierRecovery => 0x08
  | .barrierReset => 0x09
  | .custom v => v

structure AuditEvent where
  kind : AuditEventKind
  tick : BitVec 64
  pwm : BitVec 64
  sessionId : BitVec 32
  domainId : BitVec 8
  bits : BitVec 64
  result : BitVec 32
deriving DecidableEq, Repr

def hashOffset : BitVec 64 := 0xcbf29ce484222325

def hashPrime : BitVec 64 := 0x100000001b3

def hashWord (h w : BitVec 64) : BitVec 64 := (h ^^^ w) * hashPrime

def computeHash (prev : BitVec 64) (event : AuditEvent) : BitVec 64 :=
  let h := prev ^^^ hashOffset
  let h := hashWord h event.tick
  let h := hashWord h event.pwm
  let h := hashWord h (event.sessionId.setWidth 64)
  let h := hashWord h (event.domainId.setWidth 64)
  let h := hashWord h event.bits
  -- `i32 as u64` extends the sign.
  let h := hashWord h (event.result.signExtend 64)
  hashWord h (event.kind.tag.setWidth 64)

def auditBufferSize : Nat := 1024

structure HashChainNode where
  index : Nat
  event : AuditEvent
  prevHash : BitVec 64
  hash : BitVec 64
deriving DecidableEq, Repr

def emptyEvent : AuditEvent :=
  { kind := .custom 0, tick := 0, pwm := 0, sessionId := 0, domainId := 0, bits := 0, result := 0 }

def emptyNode : HashChainNode := { index := 0, event := emptyEvent, prevHash := 0, hash := 0 }

/-- The ring is read and written at positions below `auditBufferSize` only. -/
structure AuditLog where
  buffer : Nat → HashChainNode
  nextIndex : Nat
  writePos : Nat
  dropped : Nat
  lastHash : BitVec 64
  total : Nat

namespace AuditLog

def new : AuditLog :=
  { buffer := fun _ => emptyNode, nextIndex := 0, writePos := 0, dropped := 0, lastHash := 0,
    total := 0 }

def append (l : AuditLog) (event : AuditEvent) : AuditLog × Nat :=
  let idx := l.nextIndex
  let next := (idx + 1) % 2 ^ 32
  let pos := l.writePos
  let overwrites := (l.buffer pos).index ≠ 0 ∧ (l.buffer pos).index < idx ∧ auditBufferSize < next
  let hash := computeHash l.lastHash event
  let node := { index := idx, event := event, prevHash := l.lastHash, hash := hash }
  ({ buffer := update l.buffer pos node
     nextIndex := next
     writePos := (pos + 1) % auditBufferSize
     dropped := if overwrites then (l.dropped + 1) % 2 ^ 64 else l.dropped
     lastHash := hash
     total := (l.total + 1) % 2 ^ 64 }, idx)

def appendAll (l : AuditLog) (es : List AuditEvent) : AuditLog :=
  es.foldl (fun l e => (l.append e).1) l

def place (next : Nat) (nodes : Nat → Option HashChainNode) (n : HashChainNode) :
    Nat → Option HashChainNode :=
  if n.index < next then update nodes (n.index % auditBufferSize) (some n) else nodes

def nodes (l : AuditLog) : Nat → Option HashChainNode :=
  (List.range auditBufferSize).foldl (fun ns i => place l.nextIndex ns (l.buffer i)) (fun _ => none)

def walk (nodes : Nat → Option HashChainNode) : BitVec 64 → List Nat → Bool × Option Nat
  | _, [] => (true, none)
  | prev, i :: is =>
    if auditBufferSize ≤ i then (true, none)
    else
      match nodes i with
      | none => walk nodes prev is
      | some n =>
        if n.prevHash ≠ prev then (false, some n.index)
        else if computeHash prev n.event ≠ n.hash then (false, some n.index)
        else walk nodes n.hash is

def verify (l : AuditLog) : Bool × Option Nat :=
  walk l.nodes 0 (List.range l.nextIndex)

end AuditLog

def chainHash (es : List AuditEvent) : BitVec 64 := es.foldl computeHash 0

def chainNode (es : List AuditEvent) (k : Nat) : HashChainNode :=
  { index := k
    event := es.getD k emptyEvent
    prevHash := chainHash (es.take k)
    hash := chainHash (es.take (k + 1)) }

def latest (n p : Nat) : Nat := p + auditBufferSize * ((n - 1 - p) / auditBufferSize)

variable {es : List AuditEvent} {k n p : Nat} {l : AuditLog}

theorem chainHash_take_succ (h : k < es.length) :
    chainHash (es.take (k + 1)) = computeHash (chainHash (es.take k)) (es.getD k emptyEvent) := by
  rw [take_succ_eq_append_getElem h, getD_eq_getElem _ _ h, chainHash, chainHash,
    foldl_append, foldl_cons, foldl_nil]

theorem chainNode_append (e : AuditEvent) (h : k < es.length) : chainNode (es ++ [e]) k = chainNode es k := by
  have htake : (es ++ [e]).take k = es.take k := take_append_of_le_length (by omega)
  have htake' : (es ++ [e]).take (k + 1) = es.take (k + 1) :=
    take_append_of_le_length (by omega)
  have hget : (es ++ [e]).getD k emptyEvent = es.getD k emptyEvent :=
    getD_append _ _ _ _ h
  rw [chainNode, chainNode, htake, htake', hget]

theorem chainNode_last (es : List AuditEvent) (e : AuditEvent) : chainNode (es ++ [e]) es.length =
      { index := es.length, event := e, prevHash := chainHash es,
        hash := computeHash (chainHash es) e } := by
  have hget : (es ++ [e]).getD es.length emptyEvent = e := by simp
  have hall : (es ++ [e]).take (es.length + 1) = es ++ [e] := take_of_length_le (by simp)
  rw [chainNode, hget, hall, take_left' rfl]
  simp [chainHash]

theorem latest_mod (hp : p < auditBufferSize) : latest n p % auditBufferSize = p := by
  rw [latest, Nat.add_mul_mod_self_left, Nat.mod_eq_of_lt hp]

theorem latest_lt (h : p < n) : latest n p < n := by
  simp only [latest, auditBufferSize]
  omega

theorem latest_succ (hp : p < auditBufferSize) (hpn : p ≠ n % auditBufferSize) :
    latest (n + 1) p = latest n p := by
  simp only [latest, auditBufferSize] at *
  omega

theorem latest_self (n : Nat) : latest (n + 1) (n % auditBufferSize) = n := by
  simp only [latest, auditBufferSize]
  omega

structure Recorded (l : AuditLog) (es : List AuditEvent) : Prop where
  next : l.nextIndex = es.length
  pos : l.writePos = es.length % auditBufferSize
  last : l.lastHash = chainHash es
  buffer : ∀ p < auditBufferSize,
    l.buffer p = if p < es.length then chainNode es (latest es.length p) else emptyNode

theorem recorded_new : Recorded AuditLog.new [] := by
  constructor
  · rfl
  · rfl
  · rfl
  · simp [AuditLog.new]

theorem Recorded.append (h : Recorded l es) (hlt : es.length + 1 < 2 ^ 32) (e : AuditEvent) :
    Recorded (l.append e).1 (es ++ [e]) := by
  have hlen : (es ++ [e]).length = es.length + 1 := by simp
  constructor
  · rw [hlen, AuditLog.append, h.next]
    exact Nat.mod_eq_of_lt hlt
  · rw [hlen, AuditLog.append, h.pos]
    simp only [auditBufferSize]
    omega
  · simp [AuditLog.append, h.last, chainHash]
  · intro p hp
    rw [hlen, AuditLog.append, h.pos, h.next, h.last]
    by_cases hpos : p = es.length % auditBufferSize
    · subst hpos
      have hle : es.length % auditBufferSize < es.length + 1 :=
        Nat.lt_succ_of_le (Nat.mod_le _ _)
      rw [if_pos hle, latest_self, chainNode_last]
      simp
    · -- Another position keeps its node, and is in use exactly if it was.
      have hne : p ≠ es.length := by
        intro hp'
        subst hp'
        exact hpos (Nat.mod_eq_of_lt hp).symm
      simp only [update_of_ne hpos]
      rw [h.buffer p hp, latest_succ hp hpos]
      by_cases hlt' : p < es.length
      · rw [if_pos hlt', if_pos (by omega), chainNode_append e (latest_lt hlt')]
      · rw [if_neg hlt', if_neg (by omega)]

theorem recorded_appendAll (es : List AuditEvent) (h : es.length < 2 ^ 32) :
    Recorded (AuditLog.new.appendAll es) es := by
  induction es using List.reverseRecOn with
  | nil => exact recorded_new
  | append_singleton es e ih =>
    have hlen : es.length + 1 < 2 ^ 32 := by simpa using h
    rw [AuditLog.appendAll, foldl_append]
    exact (ih (by omega)).append hlen e

namespace Recorded

variable {l : AuditLog} {es : List AuditEvent}

theorem nodes_zero (h : Recorded l es) (hpos : 0 < es.length)
    (hlt : es.length < auditBufferSize) : l.nodes 0 = some emptyNode := by
  have hlast : l.buffer (auditBufferSize - 1) = emptyNode := by
    rw [h.buffer _ (by decide), if_neg (by omega)]
  have hindex : emptyNode.index < l.nextIndex := h.next ▸ hpos
  rw [AuditLog.nodes, show auditBufferSize = auditBufferSize - 1 + 1 from rfl, range_succ,
    foldl_append, foldl_cons, foldl_nil, hlast, AuditLog.place, if_pos hindex]
  exact update_self ..

theorem verify_of_notFull (h : Recorded l es) (hpos : 0 < es.length)
    (hlt : es.length < auditBufferSize) : l.verify = (false, some 0) := by
  have hrange : List.range l.nextIndex = 0 :: (List.range (es.length - 1)).map Nat.succ := by
    rw [h.next, ← range_succ_eq_map, Nat.sub_add_cancel hpos]
  rw [AuditLog.verify, hrange, AuditLog.walk, h.nodes_zero hpos hlt, if_neg (by decide)]
  rfl

theorem nodes_of_full (h : Recorded l es) (hfull : auditBufferSize ≤ es.length) {i : Nat}
    (hi : i < auditBufferSize) : l.nodes i = some (chainNode es (latest es.length i)) := by
  have hbuffer : ∀ p < auditBufferSize, l.buffer p = chainNode es (latest es.length p) := by
    intro p hp
    rw [h.buffer p hp, if_pos (by omega)]
  have hfold : ∀ m ≤ auditBufferSize, ∀ i,
      (List.range m).foldl (fun ns i => AuditLog.place l.nextIndex ns (l.buffer i)) (fun _ => none) i =
      if i < m then some (chainNode es (latest es.length i)) else none := by
    intro m
    induction m with
    | zero => simp
    | succ m ih =>
      intro hm i
      have hindex : (chainNode es (latest es.length m)).index < l.nextIndex := by
        rw [h.next]
        exact latest_lt (by omega)
      rw [range_succ, foldl_append, foldl_cons, foldl_nil,
        hbuffer m (by omega), AuditLog.place, if_pos hindex]
      simp only [chainNode, latest_mod (show m < auditBufferSize by omega)]
      by_cases him : i = m
      · subst him
        simp
      · rw [update_of_ne him, ih (by omega) i]
        by_cases hlt : i < m
        · rw [if_pos hlt, if_pos (by omega)]
          rfl
        · rw [if_neg hlt, if_neg (by omega)]
  rw [AuditLog.nodes, hfold _ (Nat.le_refl _) i, if_pos hi]

end Recorded

theorem walk_iff {nodes : Nat → Option HashChainNode} {node : Nat → HashChainNode}
    (hnodes : ∀ i < auditBufferSize, nodes i = some (node i))
    (hhash : ∀ i < auditBufferSize, (node i).hash = computeHash (node i).prevHash (node i).event)
    (prev : BitVec 64) (i m : Nat) :
    AuditLog.walk nodes prev (List.range' i m) = (true, none) ↔
      (i < auditBufferSize → 0 < m → (node i).prevHash = prev) ∧
      ∀ j, i ≤ j → j + 1 < i + m → j + 1 < auditBufferSize → (node (j + 1)).prevHash = (node j).hash := by
  induction m generalizing i prev with
  | zero => simp [AuditLog.walk]; omega
  | succ m ih =>
    rw [range'_succ, AuditLog.walk]
    by_cases hi : auditBufferSize ≤ i
    · rw [if_pos hi]
      simp only [true_iff]
      exact ⟨fun h => by omega, fun j _ _ _ => by omega⟩
    · rw [if_neg hi, hnodes i (by omega)]
      simp only
      by_cases hprev : (node i).prevHash = prev
      · have hself : computeHash prev (node i).event = (node i).hash := by
          rw [hhash i (by omega), hprev]
        rw [if_neg (by simpa using hprev), if_neg (by simpa using hself), ih]
        constructor
        · rintro ⟨hfirst, hrest⟩
          refine ⟨fun _ _ => hprev, fun j hij hjm hj => ?_⟩
          by_cases hji : j = i
          · subst hji
            exact hfirst hj (by omega)
          · exact hrest j (by omega) (by omega) hj
        · rintro ⟨-, hrest⟩
          refine ⟨fun hlt hm => hrest i (Nat.le_refl i) (by omega) hlt, fun j hij hjm hj => ?_⟩
          exact hrest j (by omega) (by omega) hj
      · rw [if_pos hprev]
        constructor
        · intro h
          cases h
        · rintro ⟨hfirst, -⟩
          exact absurd (hfirst (by omega) (by omega)) hprev

theorem latest_next {j : Nat} (hn : auditBufferSize ≤ n) (hj : j + 1 < auditBufferSize)
    (hne : j ≠ (n - 1) % auditBufferSize) : latest n (j + 1) = latest n j + 1 := by
  simp only [latest, auditBufferSize] at *
  omega

theorem latest_newest (hn : 0 < n) : latest n ((n - 1) % auditBufferSize) = n - 1 := by
  simp only [latest, auditBufferSize] at *
  omega

theorem latest_oldest (hn : auditBufferSize ≤ n) (hj : (n - 1) % auditBufferSize + 1 < auditBufferSize) :
    latest n ((n - 1) % auditBufferSize + 1) = n - auditBufferSize := by
  simp only [latest, auditBufferSize] at *
  omega

/-- A full ring passes if the hash happens to be 0 where the walk begins, and the newest node
happens to have the hash that the oldest one names, where the two lie side by side. -/
theorem Recorded.verify_of_full (h : Recorded l es) (hfull : auditBufferSize ≤ es.length) :
    l.verify = (true, none) ↔
      chainHash (es.take (auditBufferSize * ((es.length - 1) / auditBufferSize))) = 0 ∧
      (es.length % auditBufferSize = 0 ∨
        chainHash (es.take (es.length - auditBufferSize)) = chainHash es) := by
  have hsize : 0 < auditBufferSize := by decide
  have hhash : ∀ i < auditBufferSize, (chainNode es (latest es.length i)).hash =
      computeHash (chainNode es (latest es.length i)).prevHash (chainNode es (latest es.length i)).event :=
    fun i hi => chainHash_take_succ (latest_lt (by omega))
  have hzero : latest es.length 0 = auditBufferSize * ((es.length - 1) / auditBufferSize) := by
    simp [latest]
  rw [AuditLog.verify, h.next, range_eq_range', walk_iff (fun i hi => h.nodes_of_full hfull hi) hhash]
  simp only [chainNode, hzero]
  constructor
  · rintro ⟨hfirst, hrest⟩
    refine ⟨hfirst hsize (by omega), ?_⟩
    by_cases hmod : es.length % auditBufferSize = 0
    · exact .inl hmod
    · have hj : (es.length - 1) % auditBufferSize + 1 < auditBufferSize := by
        simp only [auditBufferSize] at *
        omega
      have hlink := hrest _ (Nat.zero_le _) (by omega) hj
      rw [latest_oldest hfull hj, latest_newest (by omega), Nat.sub_add_cancel (by omega),
        take_length] at hlink
      exact .inr hlink
  · rintro ⟨hfirst, hwrap⟩
    refine ⟨fun _ _ => hfirst, fun j _ _ hj => ?_⟩
    by_cases hne : j = (es.length - 1) % auditBufferSize
    · subst hne
      rw [latest_oldest hfull hj, latest_newest (by omega), Nat.sub_add_cancel (by omega), take_length]
      rcases hwrap with hmod | hlink
      · simp only [auditBufferSize] at *
        omega
      · exact hlink
    · rw [latest_next hfull hj hne]

/-- Which untampered logs verify: the empty one, and a full ring under the conditions of
`Recorded.verify_of_full`, which exactly `auditBufferSize` events meet. -/
theorem untampered_verifies_iff (es : List AuditEvent) (h : es.length < 2 ^ 32) :
    (AuditLog.new.appendAll es).verify = (true, none) ↔ es = [] ∨ (auditBufferSize ≤ es.length ∧
        chainHash (es.take (auditBufferSize * ((es.length - 1) / auditBufferSize))) = 0 ∧
        (es.length % auditBufferSize = 0 ∨
          chainHash (es.take (es.length - auditBufferSize)) = chainHash es)) := by
  have hrec := recorded_appendAll es h
  by_cases hnil : es = []
  · subst hnil
    simp [AuditLog.verify, hrec.next, AuditLog.walk]
  · have hpos : 0 < es.length := length_pos_iff.2 hnil
    by_cases hfull : auditBufferSize ≤ es.length
    · rw [hrec.verify_of_full hfull]
      simp [hnil, hfull]
    · rw [hrec.verify_of_notFull hpos (by omega)]
      simp [hnil, hfull]

theorem full_ring_verifies : (List.replicate auditBufferSize emptyEvent).length < 2 ^ 32 ∧
      (AuditLog.new.appendAll (List.replicate auditBufferSize emptyEvent)).verify = (true, none) := by
  have hlen : (List.replicate auditBufferSize emptyEvent).length = 1024 := length_replicate
  refine ⟨by rw [hlen]; decide, (untampered_verifies_iff _ (by rw [hlen]; decide)).2 (.inr ?_)⟩
  rw [hlen]
  exact ⟨by decide, by simp [auditBufferSize, chainHash], .inl (by decide)⟩

theorem one_event_fails_verify : ¬ ∀ es : List AuditEvent, es.length < 2 ^ 32 →
      (AuditLog.new.appendAll es).verify = (true, none) := by
  intro h
  have hone := (recorded_appendAll [emptyEvent] (by decide)).verify_of_notFull (by decide) (by decide)
  rw [h _ (by decide)] at hone
  cases hone

end AntX.Credo
