import Mathlib.Data.Fintype.Card
import AntX.Lib.Links
import AntX.Lib.Run

/-! The run queues of the thread scheduler, `framework/proc/scheduler_ex.rs`. A null link is `none`; a
write through one, which the source does not guard, changes nothing here. -/

namespace AntX.Proc

open Lib List
open Links hiding next

/-- The thread table has `MAX_THREADS` entries. -/
abbrev ThreadPtr := Fin 128

instance threads_pos : NeZero 128 := ⟨by decide⟩

structure RunQueue where
  head : Option ThreadPtr
  count : Nat
deriving DecidableEq, Repr

namespace RunQueue

def new : RunQueue := { head := none, count := 0 }

def countUp (n : Nat) : Nat := (n + 1) % 2 ^ 32

def countDown (n : Nat) : Nat := (n + (2 ^ 32 - 1)) % 2 ^ 32

def pushBack (q : RunQueue) (L : Links ThreadPtr) (thread : ThreadPtr) : RunQueue × Links ThreadPtr :=
  match q.head with
  | none =>
    ({ head := some thread, count := countUp q.count },
      (L.setNext thread (some thread)).setPrev thread (some thread))
  | some head =>
    let tail := L.prev head
    let L := (L.setNext thread (some head)).setPrev thread tail
    ({ q with count := countUp q.count }, (L.setNext? tail (some thread)).setPrev head (some thread))

def popFront (q : RunQueue) (L : Links ThreadPtr) : RunQueue × Links ThreadPtr × Option ThreadPtr :=
  match q.head with
  | none => (q, L, none)
  | some head =>
    if q.count = 1 then
      ({ head := none, count := countDown q.count }, (L.setNext head none).setPrev head none, some head)
    else
      match L.next head with
      | some newHead =>
        let tail := L.prev head
        let L := (L.setPrev newHead tail).setNext? tail (some newHead)
        ({ head := some newHead, count := countDown q.count },
          (L.setNext head none).setPrev head none, some head)
      | none => ({ q with count := countDown q.count }, L, some head)

def finds (L : Links ThreadPtr) (head thread : ThreadPtr) : Nat → ThreadPtr → Bool
  | 0, _ => false
  | n + 1, current =>
    if current = thread then true
    else
      match L.next current with
      | some next => if next = head then false else finds L head thread n next
      | none => false

def remove (q : RunQueue) (L : Links ThreadPtr) (thread : ThreadPtr) : RunQueue × Links ThreadPtr × Bool :=
  match q.head with
  | none => (q, L, false)
  | some head =>
    if q.count = 1 then
      if head = thread then
        ({ head := none, count := countDown q.count }, (L.setNext thread none).setPrev thread none, true)
      else (q, L, false)
    else if finds L head thread q.count head then
      let prev := L.prev thread
      let next := L.next thread
      let L := (L.setNext? prev next).setPrev? next prev
      ({ head := if head = thread then next else q.head, count := countDown q.count },
        (L.setNext thread none).setPrev thread none, true)
    else (q, L, false)

/-- `RunQueueIter::next`, as often as the count says. A null link restarts at the head. -/
def iterFrom (L : Links ThreadPtr) (head : ThreadPtr) : Nat → Option ThreadPtr → List ThreadPtr
  | 0, _ => []
  | n + 1, current =>
    let item := current.getD head
    item :: iterFrom L head n (L.next item)

def iter (q : RunQueue) (L : Links ThreadPtr) : List ThreadPtr :=
  match q.head with
  | none => []
  | some head => iterFrom L head q.count none

structure Holds (L : Links ThreadPtr) (q : RunQueue) (l : List ThreadPtr) : Prop where
  ring : L.Ring l
  nodup : l.Nodup
  head : q.head = l.head?
  count : q.count = l.length

variable {L L' : Links ThreadPtr} {q : RunQueue} {l : List ThreadPtr} {t : ThreadPtr}

theorem holds_new : Holds L new [] := ⟨ring_nil, nodup_nil, rfl, rfl⟩

theorem length_le (h : l.Nodup) : l.length ≤ 128 := by simpa using Nodup.length_le_card h

theorem countUp_eq {n : Nat} (h : n ≤ 128) : countUp n = n + 1 := Nat.mod_eq_of_lt (by omega)

theorem countDown_eq {n : Nat} (h : n ≤ 128) : countDown (n + 1) = n := by
  rw [countDown]
  omega

theorem Holds.frame (h : Holds L q l) (hs : ∀ y ∈ l, L.SameAt L' y) : Holds L' q l :=
  ⟨h.ring.frame hs, h.nodup, h.head, h.count⟩

theorem iterFrom_path (head : ThreadPtr) {p e : Option ThreadPtr} (h : L.Path p l e)
    (hl : l ≠ []) : iterFrom L head l.length l.head? = l := by
  induction l generalizing p with
  | nil => exact absurd rfl hl
  | cons x xs ih =>
    obtain ⟨-, hnext, hrest⟩ := h
    rw [length_cons, head?_cons, iterFrom]
    dsimp only [Option.getD_some]
    cases xs with
    | nil => rfl
    | cons y ys =>
      have hrec := ih hrest (by simp)
      rw [hnext]
      exact congrArg _ hrec

theorem Holds.iter_eq (h : Holds L q l) : q.iter L = l := by
  rw [iter, h.head, h.count]
  cases l with
  | nil => rfl
  | cons x xs =>
    have hpath : L.Path (x :: xs).getLast? (x :: xs) (some x) := h.ring
    exact iterFrom_path x hpath (by simp)

theorem finds_path {head : ThreadPtr} {p : Option ThreadPtr} {x : ThreadPtr} {n : Nat}
    (h : L.Path p (x :: l) (some head)) (hhead : head ∉ l) (hn : l.length < n) :
    finds L head t n x = decide (t ∈ x :: l) := by
  induction l generalizing p x n with
  | nil =>
    obtain ⟨n, rfl⟩ := Nat.exists_eq_succ_of_ne_zero (by omega : n ≠ 0)
    have hnext : L.next x = some head := h.2.1
    rw [finds]
    by_cases hx : x = t
    · simp [hx]
    · simp [hx, hnext, Ne.symm hx]
  | cons y ys ih =>
    obtain ⟨n, rfl⟩ := Nat.exists_eq_succ_of_ne_zero (by omega : n ≠ 0)
    obtain ⟨-, hnext, hrest⟩ := h
    have hnext' : L.next x = some y := hnext
    have hne : y ≠ head := by
      rintro rfl
      exact hhead (by simp)
    rw [finds]
    by_cases hx : x = t
    · simp [hx]
    · have hrec := ih hrest (fun hm => hhead (by simp [hm])) (by simpa using hn)
      simp only [hx, hnext', hne, if_false, hrec, mem_cons, Ne.symm hx, false_or]

theorem pushBack_holds (h : Holds L q l) (ht : t ∉ l) :
    Holds (q.pushBack L t).2 (q.pushBack L t).1 (l ++ [t]) ∧
      ∀ y, y ∉ l → y ≠ t → L.SameAt (q.pushBack L t).2 y := by
  rw [pushBack, h.head]
  cases l with
  | nil =>
    refine ⟨⟨?_, by simp, rfl, by simp [h.count, countUp]⟩, ?_⟩
    · rw [nil_append, ring_singleton]
      simp [setNext, setPrev]
    · intro y _ hy
      simp [SameAt, setNext, setPrev, hy]
  | cons x xs =>
    dsimp only [head?_cons]
    have hpath : L.Path (x :: xs).getLast? (x :: xs) (some x) := h.ring
    have htail : L.prev x = (x :: xs).getLast? := hpath.1
    rw [htail]
    have hnext : ∀ y, y ≠ t → ((((L.setNext t (some x)).setPrev t (x :: xs).getLast?).setNext?
        (x :: xs).getLast? (some t)).setPrev x (some t)).next y =
          if (x :: xs).getLast? = some y then some t else L.next y := by
      intro y hy
      simp [setPrev, setNext?_next, setNext, hy]
    have hprev : ∀ y, y ≠ t → ((((L.setNext t (some x)).setPrev t (x :: xs).getLast?).setNext?
        (x :: xs).getLast? (some t)).setPrev x (some t)).prev y =
          if (x :: xs).head? = some y then some t else L.prev y := by
      intro y hy
      simp [setPrev, setNext, Function.update_apply, hy, eq_comm]
    have hne : ∀ y ∈ x :: xs, y ≠ t := by
      rintro y hy rfl
      exact ht hy
    have hxt : t ≠ x := fun he => hne x (by simp) he.symm
    have hlast : (x :: xs).getLast? ≠ some t := fun he => ht (mem_of_getLast? he)
    refine ⟨⟨?_, ?_, by simp, ?_⟩, ?_⟩
    · refine Links.Ring.attach h.ring (by simp) h.nodup ?_ ?_ (fun y hy => hnext y (hne y hy))
        fun y hy => hprev y (hne y hy)
      · simp [setPrev, setNext?_next, setNext, hlast]
      · simp [setPrev, setNext, hxt]
    · exact nodup_append.2 ⟨h.nodup, by simp, fun y hy z hz => by
        rw [mem_singleton.1 hz]
        exact hne y hy⟩
    · rw [h.count, length_append, length_singleton]
      exact countUp_eq (length_le h.nodup)
    · intro y hy hyt
      have hl : (x :: xs).getLast? ≠ some y := fun he => hy (mem_of_getLast? he)
      have hh : (x :: xs).head? ≠ some y := fun he => hy (mem_of_head? he)
      exact ⟨by rw [hnext y hyt, if_neg hl], by rw [hprev y hyt, if_neg hh]⟩

theorem popFront_nil (h : Holds L q []) : q.popFront L = (q, L, none) := by
  rw [popFront, h.head]
  rfl

theorem cleared_sameAt {y : ThreadPtr} (hy : y ≠ t) : L.SameAt ((L.setNext t none).setPrev t none) y := by
  simp [SameAt, setNext, setPrev, hy]

theorem popFront_cons (h : Holds L q (t :: l)) : ∃ q' L', q.popFront L = (q', L', some t) ∧ Holds L' q' l ∧
      ∀ y ∉ t :: l, L.SameAt L' y := by
  rw [popFront, h.head, h.count]
  dsimp only [head?_cons]
  cases l with
  | nil =>
    refine ⟨_, _, rfl, ⟨ring_nil, nodup_nil, rfl, countDown_eq (Nat.zero_le _)⟩, ?_⟩
    intro y hy
    exact cleared_sameAt (by simpa using hy)
  | cons x xs =>
    obtain ⟨⟨hprev, hnext⟩, -⟩ := (ring_cons (by simp)).1 h.ring
    have hnext' : L.next t = some x := hnext
    rw [if_neg (by simp), hnext']
    refine ⟨_, _, rfl, ?_⟩
    generalize hL : (((L.setPrev x (L.prev t)).setNext? (L.prev t) (some x)).setNext t none).setPrev
      t none = L'
    have hn : ∀ y ≠ t, L'.next y = if L.prev t = some y then L.next t else L.next y := by
      intro y hy
      simp [← hL, setPrev, setNext?_next, setNext, hy, hnext']
    have hp : ∀ y ≠ t, L'.prev y = if L.next t = some y then L.prev t else L.prev y := by
      intro y hy
      simp [← hL, setPrev, setNext, Function.update_apply, hy, hnext', eq_comm]
    obtain ⟨hring, hsame⟩ := Links.Ring.unlink (l := []) h.ring h.nodup hn hp
    exact ⟨⟨hring, h.nodup.of_cons, rfl, countDown_eq (length_le h.nodup.of_cons)⟩, hsame⟩

theorem remove_of_not_mem (h : Holds L q l) (ht : t ∉ l) : q.remove L t = (q, L, false) := by
  rw [remove, h.head]
  cases l with
  | nil => rfl
  | cons x xs =>
    have hx : x ≠ t := by
      rintro rfl
      exact ht (by simp)
    have hpath : L.Path (x :: xs).getLast? (x :: xs) (some x) := h.ring
    have hfinds : finds L x t q.count x = false := by
      rw [finds_path hpath (nodup_cons.1 h.nodup).1 (by simp [h.count])]
      simpa using ht
    dsimp only [head?_cons]
    rw [if_neg hx, hfinds]
    simp

theorem remove_linked {a b : List ThreadPtr} (h : Holds L q (a ++ t :: b)) (hne : a ++ b ≠ []) :
    ∃ q' L', q.remove L t = (q', L', true) ∧ Holds L' q' (a ++ b) ∧ ∀ y ∉ a ++ t :: b, L.SameAt L' y := by
  have hnd := h.nodup
  have hcount : q.count ≠ 1 := by
    have hpos := length_pos_iff.2 hne
    rw [length_append] at hpos
    rw [h.count, length_append, length_cons]
    omega
  generalize hL : ((L.relink t).setNext t none).setPrev t none = L'
  have hn : ∀ y ≠ t, L'.next y = if L.prev t = some y then L.next t else L.next y := by
    intro y hy
    simp [← hL, setPrev, setNext, relink_next, hy]
  have hp : ∀ y ≠ t, L'.prev y = if L.next t = some y then L.prev t else L.prev y := by
    intro y hy
    simp [← hL, setPrev, setNext, relink_prev, hy]
  obtain ⟨hring, hsame⟩ := Links.Ring.unlink h.ring hnd hn hp
  have hnd' : (a ++ b).Nodup := hnd.sublist (by simp)
  have hlen : countDown q.count = (a ++ b).length := by
    rw [h.count, ← countDown_eq (length_le hnd')]
    simp [Nat.add_assoc]
  cases a with
  | nil =>
    have hpath : L.Path (t :: b).getLast? (t :: b) (some t) := h.ring
    have hfinds : finds L t t q.count t = true := by
      rw [finds_path hpath (nodup_cons.1 hnd).1 (by simp [h.count])]
      simp
    have hnext : L.next t = b.head? := ((ring_cons (by simpa using hne)).1 h.ring).1.2
    refine ⟨⟨L.next t, countDown q.count⟩, L', ?_, ⟨hring, hnd', hnext, hlen⟩, hsame⟩
    rw [remove, h.head]
    dsimp only [nil_append, head?_cons]
    rw [if_neg hcount, if_pos hfinds, if_pos rfl, ← hL]
    rfl
  | cons x xs =>
    have hpath : L.Path (x :: (xs ++ t :: b)).getLast? (x :: (xs ++ t :: b)) (some x) := h.ring
    have hfinds : finds L x t q.count x = true := by
      rw [finds_path hpath (nodup_cons.1 hnd).1 (by simp [h.count])]
      simp
    have hxt : x ≠ t := by
      rintro rfl
      exact (nodup_cons.1 hnd).1 (by simp)
    refine ⟨⟨q.head, countDown q.count⟩, L', ?_, ⟨hring, hnd', h.head, hlen⟩, hsame⟩
    rw [remove, h.head]
    dsimp only [cons_append, head?_cons]
    rw [if_neg hcount, if_pos hfinds, if_neg hxt, ← hL]
    rfl

theorem remove_of_mem (h : Holds L q l) (ht : t ∈ l) :
    ∃ q' L', q.remove L t = (q', L', true) ∧ Holds L' q' (l.erase t) ∧ ∀ y ∉ l, L.SameAt L' y := by
  obtain ⟨a, b, -, hl, herase⟩ := exists_erase_eq ht
  rw [herase]
  subst hl
  by_cases hne : a ++ b = []
  · obtain ⟨rfl, rfl⟩ := append_eq_nil_iff.1 hne
    refine ⟨new, (L.setNext t none).setPrev t none, ?_, holds_new, ?_⟩
    · rw [remove, h.head, h.count]
      simp [new, countDown]
    · intro y hy
      exact cleared_sameAt (by simpa using hy)
  · exact remove_linked h hne

inductive QueueOp where
  | pushBack (thread : ThreadPtr)
  | popFront
  | remove (thread : ThreadPtr)

def queueStep (s : RunQueue × Links ThreadPtr) : QueueOp → RunQueue × Links ThreadPtr
  | .pushBack thread => s.1.pushBack s.2 thread
  | .popFront => ((s.1.popFront s.2).1, (s.1.popFront s.2).2.1)
  | .remove thread => ((s.1.remove s.2 thread).1, (s.1.remove s.2 thread).2.1)

def fifoStep (l : List ThreadPtr) : QueueOp → List ThreadPtr
  | .pushBack thread => l ++ [thread]
  | .popFront => l.tail
  | .remove thread => l.erase thread

theorem Holds.popFront (h : Holds L q l) : (q.popFront L).2.2 = l.head? ∧
    Holds (q.popFront L).2.1 (q.popFront L).1 l.tail := by
  cases l with
  | nil =>
    rw [popFront_nil h]
    exact ⟨rfl, h⟩
  | cons t l =>
    obtain ⟨q', L', hpop, hh, -⟩ := popFront_cons h
    rw [hpop]
    exact ⟨rfl, hh⟩

theorem Holds.remove (h : Holds L q l) (t : ThreadPtr) : (q.remove L t).2.2 = decide (t ∈ l) ∧
    Holds (q.remove L t).2.1 (q.remove L t).1 (l.erase t) := by
  by_cases hm : t ∈ l
  · obtain ⟨q', L', hremove, hh, -⟩ := remove_of_mem h hm
    rw [hremove]
    exact ⟨(decide_eq_true hm).symm, hh⟩
  · rw [remove_of_not_mem h hm, erase_of_not_mem hm]
    exact ⟨(decide_eq_false hm).symm, h⟩

/-- The queue is a list with append, take-first and delete, whatever the links of the threads were
before. -/
theorem runQueue_refines_fifo (L : Links ThreadPtr) (ops : List QueueOp) (h : Guarded fifoStep
      (fun l op => ∀ thread, op = .pushBack thread → thread ∉ l) [] ops) :
    let s := run queueStep (new, L) ops
    let l := run fifoStep [] ops
    (s.1.popFront s.2).2.2 = l.head? ∧ (∀ t, (s.1.remove s.2 t).2.2 = decide (t ∈ l)) ∧
      s.1.iter s.2 = l ∧ s.1.count = l.length ∧ l.Nodup ∧ s.2.Ring l := by
  intro s l
  have hholds : Holds s.2 s.1 l := by
    refine @Guarded.run_simulates _ _ _ _ _ queueStep (fun l s => Holds s.2 s.1 l) _ _ _ h holds_new ?_
    intro l s op hl hop
    cases op with
    | pushBack thread => exact (pushBack_holds hl (hop thread rfl)).1
    | popFront => exact hl.popFront.2
    | remove thread => exact (hl.remove thread).2
  exact ⟨hholds.popFront.1, fun t => (hholds.remove t).1, hholds.iter_eq, hholds.count,
    hholds.nodup, hholds.ring⟩

theorem runQueue_refines_fifo_three :
    let s := run queueStep (new, ⟨fun _ => none, fun _ => none⟩)
      [.pushBack 1, .pushBack 2, .pushBack 3, .remove 1]
    (s.1.popFront s.2).2.2 = some 2 :=
  (runQueue_refines_fifo _ _ (by simp [Guarded, fifoStep])).1

end RunQueue

end AntX.Proc
