import Mathlib.Data.List.Nodup

/-! Intrusive doubly linked lists: two link words per node, and the chain of nodes that a head pointer
reaches. A null pointer is `none`. In a ring the last node is linked to the first. -/

namespace AntX.Lib

open Function List

structure Links (α : Type*) where
  next : α → Option α
  prev : α → Option α

namespace Links

variable {α : Type*}

/-- From `head`, whose predecessor is `p`, the links spell out the list. -/
def Chain (L : Links α) : Option α → Option α → List α → Prop
  | _, head, [] => head = none
  | p, head, x :: xs => head = some x ∧ L.prev x = p ∧ Chain L (some x) (L.next x) xs

variable {L L' : Links α} {p head : Option α} {x : α} {xs l r : List α} {y : α}

theorem Chain.head_eq (h : Chain L p head xs) : head = xs.head? := by
  cases xs with
  | nil => exact h
  | cons x xs => exact h.1

theorem Chain.frame (h : Chain L p head xs)
    (hn : ∀ y ∈ xs, L'.next y = L.next y) (hp : ∀ y ∈ xs, L'.prev y = L.prev y) :
    Chain L' p head xs := by
  induction xs generalizing p head with
  | nil => exact h
  | cons x xs ih =>
    obtain ⟨h1, h2, h3⟩ := h
    refine ⟨h1, (hp x (by simp)).trans h2, ?_⟩
    rw [hn x (by simp)]
    exact ih h3 (fun y hy => hn y (by simp [hy])) (fun y hy => hp y (by simp [hy]))

theorem Chain.next_at (h : Chain L p head (l ++ x :: r)) : L.next x = r.head? := by
  induction l generalizing p head with
  | nil => exact h.2.2.head_eq
  | cons y l ih => exact ih h.2.2

theorem Chain.prev_at (h : Chain L p head (l ++ x :: r)) : L.prev x = if l = [] then p else l.getLast? := by
  induction l generalizing p head with
  | nil => simpa using h.2.1
  | cons y l ih =>
    have hi := ih h.2.2
    cases l with
    | nil | cons z l => simpa using hi

theorem Chain.next_mem (h : Chain L p head xs) (hx : x ∈ xs) (hy : L.next x = some y) : y ∈ xs := by
  obtain ⟨l, r, rfl⟩ := append_of_mem hx
  rw [h.next_at] at hy
  have := mem_of_head? hy
  simp [this]

theorem Chain.prev_mem (h : Chain L none head xs) (hx : x ∈ xs) (hy : L.prev x = some y) : y ∈ xs := by
  obtain ⟨l, r, rfl⟩ := append_of_mem hx
  rw [h.prev_at] at hy
  split_ifs at hy with hl
  have := mem_of_getLast? hy
  simp [this]

theorem Chain.prev_eq_none_iff (h : Chain L none head xs) (hnd : xs.Nodup) (hx : x ∈ xs) :
    L.prev x = none ↔ head = some x := by
  obtain ⟨l, r, rfl⟩ := append_of_mem hx
  rw [h.prev_at, h.head_eq]
  cases l with
  | nil => simp
  | cons y l =>
    have hne : y ≠ x := by
      rintro rfl
      simp at hnd
    simp [hne]

variable [DecidableEq α]

section

variable (L : Links α) (x : α) (v : Option α)

def setNext : Links α :=
  { L with next := update L.next x v }

def setPrev : Links α :=
  { L with prev := update L.prev x v }

/-- Writes through a pointer that may be null do nothing when it is. -/
def setNext? : Option α → Option α → Links α
  | none, _ => L
  | some x, v => L.setNext x v

def setPrev? : Option α → Option α → Links α
  | none, _ => L
  | some x, v => L.setPrev x v

def relink : Links α :=
  (L.setNext? (L.prev x) (L.next x)).setPrev? (L.next x) (L.prev x)

def pushFront (head : Option α) (x : α) : Links α :=
  ((L.setPrev x none).setNext x head).setPrev? head (some x)

end

theorem setNext?_next (L : Links α) (o v : Option α) (y : α) :
    (L.setNext? o v).next y = if o = some y then v else L.next y := by
  cases o with
  | none => simp [setNext?]
  | some x => simp [setNext?, setNext, update_apply, eq_comm]

theorem setPrev?_prev (L : Links α) (o v : Option α) (y : α) :
    (L.setPrev? o v).prev y = if o = some y then v else L.prev y := by
  cases o with
  | none => simp [setPrev?]
  | some x => simp [setPrev?, setPrev, update_apply, eq_comm]

@[simp] theorem setNext?_prev (L : Links α) (o v : Option α) : (L.setNext? o v).prev = L.prev := by
  cases o <;> rfl

@[simp] theorem setPrev?_next (L : Links α) (o v : Option α) : (L.setPrev? o v).next = L.next := by
  cases o <;> rfl

theorem relink_next (L : Links α) (x y : α) :
    (L.relink x).next y = if L.prev x = some y then L.next x else L.next y := by
  simp [relink, setNext?_next]

theorem relink_prev (L : Links α) (x y : α) :
    (L.relink x).prev y = if L.next x = some y then L.prev x else L.prev y := by
  simp [relink, setPrev?_prev]

theorem pushFront_next (L : Links α) (head : Option α) (x y : α) :
    (L.pushFront head x).next y = if y = x then head else L.next y := by
  simp [pushFront, setNext, setPrev, update_apply]

theorem pushFront_prev (L : Links α) (head : Option α) (x y : α) : (L.pushFront head x).prev y =
      if head = some y then some x else if y = x then none else L.prev y := by
  simp [pushFront, setPrev?_prev, setNext, setPrev, update_apply]

theorem Chain.relink_outside (h : Chain L none head xs) (hx : x ∈ xs) (hy : y ∉ xs) :
    (L.relink x).next y = L.next y ∧ (L.relink x).prev y = L.prev y := by
  rw [relink_next, relink_prev, if_neg, if_neg]
  · exact ⟨rfl, rfl⟩
  · exact fun he => hy (h.next_mem hx he)
  · exact fun he => hy (h.prev_mem hx he)

theorem Chain.relink_append (h : Chain L p head (l ++ x :: r)) (hnd : (l ++ x :: r).Nodup)
    (hp : ∀ q, p = some q → q ∉ l ++ x :: r) :
    Chain (L.relink x) p (if l = [] then L.next x else head) (l ++ r) := by
  induction l generalizing p head with
  | nil =>
    obtain ⟨-, hprev, hr⟩ := h
    cases r with
    | nil => exact hr
    | cons b r =>
      obtain ⟨hb1, hb2, hb3⟩ := hr
      simp only [nil_append, nodup_cons, mem_cons, not_or] at hnd hp
      refine ⟨hb1, ?_, ?_⟩
      · rw [relink_prev, if_pos hb1, hprev]
      · have hnext : ∀ y ∈ b :: r, (L.relink x).next y = L.next y := by
          intro y hy
          rw [relink_next, if_neg]
          rw [hprev]
          intro he
          have := hp y he
          simp only [mem_cons] at hy
          tauto
        rw [hnext b (by simp)]
        refine hb3.frame (fun y hy => hnext y (by simp [hy])) (fun y hy => ?_)
        rw [relink_prev, if_neg]
        rw [hb1]
        intro he
        cases he
        exact hnd.2.1 hy
  | cons a l ih =>
    obtain ⟨ha1, ha2, ha3⟩ := h
    simp only [cons_append, nodup_cons] at hnd
    have hrest := ih ha3 hnd.2 (by rintro q ⟨⟩; exact hnd.1)
    refine ⟨by simpa using ha1, ?_, ?_⟩
    · rw [relink_prev, if_neg, ha2]
      intro he
      exact hnd.1 (ha3.next_mem (by simp) he)
    · rw [relink_next, ha3.prev_at]
      by_cases hl : l = []
      · simpa [hl] using hrest
      · rw [if_neg hl] at hrest ⊢
        rw [if_neg]
        · exact hrest
        · intro he
          have := mem_of_getLast? he
          exact hnd.1 (by simp [this])

theorem Chain.relink (h : Chain L none head xs) (hnd : xs.Nodup) (hx : x ∈ xs) :
    Chain (L.relink x) none (if L.prev x = none then L.next x else head) (xs.erase x) := by
  obtain ⟨l, r, hl, rfl, he⟩ := exists_erase_eq hx
  rw [he]
  have hr := h.relink_append hnd (by simp)
  have hiff : l = [] ↔ L.prev x = none := by
    rw [h.prev_at]
    by_cases hl : l = [] <;> simp [hl]
  simpa only [hiff] using hr

theorem Chain.pushFront (h : Chain L none head xs) (hnd : xs.Nodup) (hx : x ∉ xs) :
    Chain (L.pushFront head x) none (some x) (x :: xs) := by
  have hne : ∀ y ∈ xs, y ≠ x := fun y hy he => hx (he ▸ hy)
  have hhead : head ≠ some x := fun he => hx (by rw [h.head_eq] at he; exact mem_of_head? he)
  refine ⟨rfl, ?_, ?_⟩
  · rw [pushFront_prev, if_neg hhead, if_pos rfl]
  rw [pushFront_next, if_pos rfl]
  cases xs with
  | nil => exact h
  | cons y xs =>
    obtain ⟨h1, h2, h3⟩ := h
    refine ⟨h1, by rw [pushFront_prev, if_pos h1], ?_⟩
    rw [pushFront_next, if_neg (hne y (by simp))]
    refine h3.frame (fun z hz => ?_) (fun z hz => ?_)
    · rw [pushFront_next, if_neg (hne z (by simp [hz]))]
    · rw [pushFront_prev, if_neg, if_neg (hne z (by simp [hz]))]
      rw [h1]
      rintro ⟨⟩
      exact (nodup_cons.mp hnd).1 hz

theorem Chain.pushFront_outside (h : Chain L none head xs) (hy : y ∉ xs) (hne : y ≠ x) :
    (L.pushFront head x).next y = L.next y ∧ (L.pushFront head x).prev y = L.prev y := by
  rw [pushFront_next, pushFront_prev, if_neg hne, if_neg hne, if_neg]
  · exact ⟨rfl, rfl⟩
  · intro he
    rw [h.head_eq] at he
    exact hy (mem_of_head? he)

/-- Lists over the same link words, one for each head, that share no node. -/
structure Chains {ι : Type*} (L : Links α) (heads : ι → Option α) (lists : ι → List α) : Prop where
  chain : ∀ i, Chain L none (heads i) (lists i)
  nodup : ∀ i, (lists i).Nodup
  apart : ∀ i j x, x ∈ lists i → x ∈ lists j → i = j

namespace Chains

variable {ι : Type*} {heads : ι → Option α} {lists : ι → List α} {i : ι}

omit [DecidableEq α] in
theorem empty (hh : ∀ j, heads j = none) : Chains L heads (fun _ => []) :=
  ⟨hh, fun _ => nodup_nil, fun _ _ _ hx => absurd hx not_mem_nil⟩

omit [DecidableEq α] in
theorem frame (h : Chains L heads lists) (hn : ∀ j, ∀ y ∈ lists j, L'.next y = L.next y)
    (hp : ∀ j, ∀ y ∈ lists j, L'.prev y = L.prev y) : Chains L' heads lists :=
  ⟨fun j => (h.chain j).frame (hn j) (hp j), h.nodup, h.apart⟩

variable [DecidableEq ι]

theorem mem_erase_iff (h : Chains L heads lists) (hx : x ∈ lists i) {j : ι} {y : α} :
    y ∈ update lists i ((lists i).erase x) j ↔ y ∈ lists j ∧ y ≠ x := by
  by_cases hj : j = i
  · subst hj
    rw [update_self, (h.nodup j).mem_erase_iff, and_comm]
  · rw [update_of_ne hj]
    refine ⟨fun hy => ⟨hy, ?_⟩, fun hy => hy.1⟩
    rintro rfl
    exact hj (h.apart _ _ _ hy hx)

omit [DecidableEq α] in
theorem mem_cons_iff {j : ι} {y : α} :
    y ∈ update lists i (x :: lists i) j ↔ (j = i ∧ y = x) ∨ y ∈ lists j := by
  by_cases hj : j = i
  · subst hj
    simp
  · simp [hj]

theorem relink (h : Chains L heads lists) (hx : x ∈ lists i) :
    Chains (L.relink x) (if L.prev x = none then update heads i (L.next x) else heads)
      (update lists i ((lists i).erase x)) := by
  refine ⟨fun j => ?_, fun j => ?_, fun j k y hy hy' => ?_⟩
  · by_cases hj : j = i
    · subst hj
      have hc := (h.chain j).relink (h.nodup j) hx
      by_cases hprev : L.prev x = none <;> simpa [hprev] using hc
    · have hheads : (if L.prev x = none then update heads i (L.next x) else heads) j =
          heads j := by
        split_ifs
        · rw [update_of_ne hj]
        · rfl
      rw [hheads, update_of_ne hj]
      have hout : ∀ y ∈ lists j, y ∉ lists i := fun y hy hy' => hj (h.apart _ _ _ hy hy')
      exact (h.chain j).frame (fun y hy => ((h.chain i).relink_outside hx (hout y hy)).1)
        (fun y hy => ((h.chain i).relink_outside hx (hout y hy)).2)
  · by_cases hj : j = i
    · subst hj
      rw [update_self]
      exact (h.nodup j).erase x
    · rw [update_of_ne hj]
      exact h.nodup j
  · exact h.apart j k y ((h.mem_erase_iff hx).mp hy).1 ((h.mem_erase_iff hx).mp hy').1

theorem pushFront (h : Chains L heads lists) (hx : ∀ j, x ∉ lists j) :
    Chains (L.pushFront (heads i) x) (update heads i (some x)) (update lists i (x :: lists i)) := by
  refine ⟨fun j => ?_, fun j => ?_, fun j k y hy hy' => ?_⟩
  · by_cases hj : j = i
    · subst hj
      rw [update_self, update_self]
      exact (h.chain j).pushFront (h.nodup j) (hx j)
    · rw [update_of_ne hj, update_of_ne hj]
      have hout : ∀ y ∈ lists j, y ∉ lists i ∧ y ≠ x := by
        refine fun y hy => ⟨fun hy' => hj (h.apart _ _ _ hy hy'), ?_⟩
        rintro rfl
        exact hx j hy
      exact (h.chain j).frame (fun y hy => ((h.chain i).pushFront_outside (hout y hy).1 (hout y hy).2).1)
        (fun y hy => ((h.chain i).pushFront_outside (hout y hy).1 (hout y hy).2).2)
  · by_cases hj : j = i
    · subst hj
      rw [update_self]
      exact nodup_cons.mpr ⟨hx j, h.nodup j⟩
    · rw [update_of_ne hj]
      exact h.nodup j
  · rcases mem_cons_iff.mp hy with ⟨rfl, rfl⟩ | hy1 <;> rcases mem_cons_iff.mp hy' with ⟨rfl, he⟩ | hy2
    · rfl
    · exact absurd hy2 (hx k)
    · exact absurd (he ▸ hy1) (hx j)
    · exact h.apart j k y hy1 hy2

end Chains

end Links

namespace Links

variable {α : Type*} {L L' : Links α} {p q p' q' : Option α} {x : α} {l r : List α}

def SameAt (L L' : Links α) (x : α) : Prop := L'.next x = L.next x ∧ L'.prev x = L.prev x

/-- The nodes are linked in order, the first one back to `p` and the last one on to `q`. -/
def Path (L : Links α) : Option α → List α → Option α → Prop
  | _, [], _ => True
  | p, x :: xs, q => L.prev x = p ∧ L.next x = xs.head?.or q ∧ Path L (some x) xs q

theorem path_append : L.Path p (l ++ r) q ↔ L.Path p l (r.head?.or q) ∧ L.Path (l.getLast?.or p) r q := by
  induction l generalizing p with
  | nil => simp [Path]
  | cons x xs ih =>
    have hlast : (x :: xs).getLast?.or p = xs.getLast?.or (some x) := by
      cases xs with
      | nil => rfl
      | cons y ys => simp [getLast?_cons]
    rw [cons_append, Path, Path, ih, hlast, head?_append, Option.or_assoc]
    simp only [and_assoc]

theorem Path.frame (h : L.Path p l q) (hs : ∀ y ∈ l, SameAt L L' y) : L'.Path p l q := by
  induction l generalizing p with
  | nil => trivial
  | cons x xs ih =>
    obtain ⟨hprev, hnext, hrest⟩ := h
    obtain ⟨hn, hp⟩ := hs x (by simp)
    exact ⟨hp.trans hprev, hn.trans hnext, ih hrest fun y hy => hs y (by simp [hy])⟩

def Ring (L : Links α) (l : List α) : Prop := L.Path l.getLast? l l.head?

@[simp] theorem ring_nil : L.Ring [] := trivial

theorem Ring.frame (h : L.Ring l) (hs : ∀ y ∈ l, SameAt L L' y) : L'.Ring l := Path.frame h hs

theorem ring_singleton : L.Ring [x] ↔ L.prev x = some x ∧ L.next x = some x := by
  simp [Ring, Path]

theorem ring_append (hl : l ≠ []) (hr : r ≠ []) :
    L.Ring (l ++ r) ↔ L.Path r.getLast? l r.head? ∧ L.Path l.getLast? r l.head? := by
  obtain ⟨a, as, rfl⟩ := exists_cons_of_ne_nil hl
  obtain ⟨b, bs, rfl⟩ := exists_cons_of_ne_nil hr
  rw [Ring, path_append]
  simp [getLast?_append, getLast?_cons]

theorem Ring.rotate (h : L.Ring (l ++ r)) : L.Ring (r ++ l) := by
  by_cases hl : l = []
  · simpa [hl] using h
  · by_cases hr : r = []
    · simpa [hr] using h
    · exact (ring_append hr hl).2 ((ring_append hl hr).1 h).symm

theorem ring_cons (hl : l ≠ []) : L.Ring (x :: l) ↔
    (L.prev x = l.getLast? ∧ L.next x = l.head?) ∧ L.Path (some x) l (some x) := by
  rw [← singleton_append, ring_append (by simp) hl]
  simp [Path]

theorem Ring.neighbour_mem {y : α} (h : L.Ring l) (hx : x ∈ l)
    (hy : L.next x = some y ∨ L.prev x = some y) : y ∈ l := by
  obtain ⟨a, b, rfl⟩ := append_of_mem hx
  have hrot : L.Ring (x :: (b ++ a)) := by
    simpa using h.rotate
  by_cases hnil : b ++ a = []
  · obtain ⟨rfl, rfl⟩ := append_eq_nil_iff.1 hnil
    obtain ⟨hprev, hnext⟩ := ring_singleton.1 hrot
    rw [hprev, hnext] at hy
    simpa [eq_comm] using hy
  · obtain ⟨⟨hprev, hnext⟩, -⟩ := (ring_cons hnil).1 hrot
    rw [hprev, hnext] at hy
    have hmem : y ∈ b ++ a := by
      rcases hy with hy | hy
      · exact mem_of_head? hy
      · exact mem_of_getLast? hy
    rcases mem_append.1 hmem with hb | ha
    · simp [hb]
    · simp [ha]

variable [DecidableEq α]

theorem Path.ends (h : L.Path p l q) (hnd : l.Nodup)
    (hn : ∀ y ∈ l, L'.next y = if l.getLast? = some y then q' else L.next y)
    (hp : ∀ y ∈ l, L'.prev y = if l.head? = some y then p' else L.prev y) : L'.Path p' l q' := by
  induction l generalizing p p' with
  | nil => trivial
  | cons x xs ih =>
    obtain ⟨hprev, hnext, hrest⟩ := h
    obtain ⟨hx, hxs⟩ := nodup_cons.1 hnd
    refine ⟨?_, ?_, ih hrest hxs ?_ ?_⟩
    · rw [hp x (by simp)]
      simp
    · rw [hn x (by simp)]
      cases xs with
      | nil => simp
      | cons y ys =>
        have hne : (x :: y :: ys).getLast? ≠ some x := by
          intro hl
          exact hx (mem_of_getLast? hl)
        rw [if_neg hne, hnext]
        rfl
    · intro y hy
      rw [hn y (by simp [hy])]
      cases xs with
      | nil => cases hy
      | cons z zs => rw [getLast?_cons_cons]
    · intro y hy
      have hne : x ≠ y := by
        rintro rfl
        exact hx hy
      rw [hp y (by simp [hy])]
      simp only [head?_cons, Option.some.injEq, hne, if_false]
      -- The node after `x` is linked back to `x` already.
      cases xs with
      | nil => cases hy
      | cons z zs =>
        by_cases hz : z = y
        · subst hz
          simpa using hrest.1
        · simp [hz]

theorem Ring.detach (h : L.Ring (x :: l)) (hnd : l.Nodup)
    (hn : ∀ y ∈ l, L'.next y = if L.prev x = some y then L.next x else L.next y)
    (hp : ∀ y ∈ l, L'.prev y = if L.next x = some y then L.prev x else L.prev y) : L'.Ring l := by
  by_cases hl : l = []
  · rw [hl]
    exact ring_nil
  · obtain ⟨⟨hprev, hnext⟩, hpath⟩ := (ring_cons hl).1 h
    rw [hprev, hnext] at hn hp
    exact hpath.ends hnd hn hp

theorem Ring.attach (h : L.Ring l) (hl : l ≠ []) (hnd : l.Nodup)
    (hxn : L'.next x = l.head?) (hxp : L'.prev x = l.getLast?)
    (hn : ∀ y ∈ l, L'.next y = if l.getLast? = some y then some x else L.next y)
    (hp : ∀ y ∈ l, L'.prev y = if l.head? = some y then some x else L.prev y) :
    L'.Ring (l ++ [x]) := by
  refine Ring.rotate ?_
  rw [singleton_append, ring_cons hl]
  exact ⟨⟨hxp, hxn⟩, Path.ends h hnd hn hp⟩

theorem Ring.unlink (h : L.Ring (l ++ x :: r)) (hnd : (l ++ x :: r).Nodup)
    (hn : ∀ y ≠ x, L'.next y = if L.prev x = some y then L.next x else L.next y)
    (hp : ∀ y ≠ x, L'.prev y = if L.next x = some y then L.prev x else L.prev y) :
    L'.Ring (l ++ r) ∧ ∀ y ∉ l ++ x :: r, L.SameAt L' y := by
  have hrot : L.Ring (x :: (r ++ l)) := by
    simpa using h.rotate
  have hnd' : (x :: (r ++ l)).Nodup := by
    have hperm : (l ++ x :: r).Perm (x :: (r ++ l)) :=
      perm_append_comm.trans (List.Perm.of_eq (by simp))
    exact hperm.nodup_iff.1 hnd
  obtain ⟨hx, hnd''⟩ := nodup_cons.1 hnd'
  have hne : ∀ y ∈ r ++ l, y ≠ x := by
    rintro y hy rfl
    exact hx hy
  refine ⟨Ring.rotate (hrot.detach hnd'' (fun y hy => hn y (hne y hy)) fun y hy => hp y (hne y hy)), ?_⟩
  intro y hy
  have hyx : y ≠ x := by
    rintro rfl
    exact hy (by simp)
  -- A node elsewhere is no neighbour.
  have hprev : L.prev x ≠ some y := fun he => hy (h.neighbour_mem (by simp) (.inr he))
  have hnext : L.next x ≠ some y := fun he => hy (h.neighbour_mem (by simp) (.inl he))
  exact ⟨by rw [hn y hyx, if_neg hprev], by rw [hp y hyx, if_neg hnext]⟩

end Links

end AntX.Lib
