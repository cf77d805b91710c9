import Mathlib.Data.List.Induction
import AntX.Hvfs.Arc

/-! The cache of services/fs/hvfs/arc.rs: every buffer is in one recency list and in the bucket of its
key. The eviction loop can go on for ever, and it takes out buffers that are referenced. -/

namespace AntX.Hvfs

open AntX.Lib List Option SlotIndex

namespace HvArc

variable {a a' b : HvArc} {key : HvArcKey} {data : List UInt8} {i idx : Nat} {buf : HvArcBuf}

structure Listed (a : HvArc) : Prop where
  indexed : a.Indexed
  filed : a.table.Filed HvArcBuf.key bucketOf
  placed : ∀ i, i ∈ a.mru ++ a.mfu ↔ (a.table.slot i).isSome = true
  nodup : (a.mru ++ a.mfu).Nodup
  recent : ∀ i buf, a.table.slot i = some buf → (buf.state = .mru ↔ i ∈ a.mru)
  room : a.mru.length + a.mfu.length ≤ a.maxSize
  pos : 0 < a.maxSize

theorem listed_init (maxSize : Nat) : (init maxSize).Listed where
  indexed := indexed_init maxSize
  filed := SlotIndex.Filed.empty
  placed i := by simp [init, SlotIndex.empty, SlotIndex.slot]
  nodup := nodup_nil
  recent i buf hbuf := by cases hbuf
  room := Nat.zero_le _
  pos := by
    rw [init]
    split_ifs
    · decide
    · exact Nat.lt_min.mpr ⟨by omega, by decide⟩

namespace Listed

section

variable (h : a.Listed)

include h

theorem find_iff : a.find key = some i ↔ ∃ buf, a.table.slot i = some buf ∧ buf.key = key :=
  h.filed.find_iff h.indexed

theorem key_unique {j : Nat} {buf' : HvArcBuf} (hi : a.table.slot i = some buf)
    (hj : a.table.slot j = some buf') (hkey : buf.key = buf'.key) : i = j := by
  have hfind := h.find_iff.mpr ⟨buf, hi, rfl⟩
  rw [h.find_iff.mpr ⟨buf', hj, hkey.symm⟩] at hfind
  exact (some.inj hfind).symm

theorem content_iff :
    a.content key = some data ↔ ∃ i buf, a.table.slot i = some buf ∧ buf.key = key ∧ buf.data = data := by
  rw [content, bind_eq_some_iff]
  constructor
  · rintro ⟨i, hfind, hdata⟩
    obtain ⟨buf, hbuf, rfl⟩ := map_eq_some_iff.mp hdata
    obtain ⟨buf', hbuf', hkey⟩ := h.find_iff.mp hfind
    rw [hbuf] at hbuf'
    cases hbuf'
    exact ⟨i, buf, hbuf, hkey, rfl⟩
  · rintro ⟨i, buf, hbuf, hkey, rfl⟩
    exact ⟨i, h.find_iff.mpr ⟨buf, hbuf, hkey⟩, by rw [hbuf, map_some]⟩

theorem content_none_iff : a.content key = none ↔ a.find key = none := by
  rw [content, bind_eq_none_iff]
  constructor
  · intro hall
    cases hfind : a.find key with
    | none => rfl
    | some i =>
      obtain ⟨buf, hbuf, -⟩ := h.find_iff.mp hfind
      have hnone := hall i hfind
      rw [hbuf] at hnone
      cases hnone
  · intro hfind i hi
    rw [hfind] at hi
    cases hi

theorem modify {f : HvArcBuf → HvArcBuf} (hkey : ∀ y, (f y).key = y.key)
    (hstate : ∀ y, a.table.slot idx = some y → (f y).state = y.state) :
    { a with table := a.table.modify idx f }.Listed where
  indexed := SlotIndex.Indexed.modify h.indexed hkey
  filed := h.filed.modify hkey
  placed i := by
    rw [h.placed i, slot_modify]
    split_ifs <;> simp
  nodup := h.nodup
  recent i y hy := by
    rw [slot_modify] at hy
    split_ifs at hy with hidx
    · obtain ⟨x, hx, rfl⟩ := map_eq_some_iff.mp hy
      rw [hstate x (hidx ▸ hx)]
      exact h.recent i x hx
    · exact h.recent i y hy
  room := h.room
  pos := h.pos

theorem ghostHit (key : HvArcKey) : (a.ghostHit key).Listed := by
  rw [HvArc.ghostHit]
  split_ifs <;> exact ⟨h.indexed, h.filed, h.placed, h.nodup, h.recent, h.room, h.pos⟩

theorem promote_perm (hmem : idx ∈ a.mru) :
    (a.mru.filter (· != idx) ++ (a.mfu ++ [idx])).Perm (a.mru ++ a.mfu) := by
  have hnodup : a.mru.Nodup := h.nodup.of_append_left
  rw [← hnodup.erase_eq_filter]
  have hback : (a.mfu ++ [idx]).Perm (idx :: a.mfu) := perm_append_singleton idx a.mfu
  have hfront : (idx :: (a.mru.erase idx ++ a.mfu)).Perm (a.mru ++ a.mfu) :=
    (perm_cons_erase hmem).symm.append_right a.mfu
  exact (hback.append_left _).trans (perm_middle.trans hfront)

theorem hit (hbuf : a.table.slot idx = some buf) : (a.hit idx buf).Listed := by
  by_cases hstate : buf.state = .mru
  · have hmem := (h.recent idx buf hbuf).mp hstate
    have hperm := h.promote_perm hmem
    rw [HvArc.hit, if_pos hstate]
    refine ⟨SlotIndex.Indexed.modify h.indexed touch_key, h.filed.modify touch_key, ?_, ?_, ?_, ?_, h.pos⟩
    · intro i
      rw [hperm.mem_iff, h.placed i, slot_modify]
      split_ifs <;> simp
    · exact hperm.nodup_iff.mpr h.nodup
    · intro i y hy
      rw [slot_modify] at hy
      split_ifs at hy with hidx
      · subst hidx
        rw [hbuf] at hy
        cases hy
        simp [HvArcBuf.touch, hstate]
      · simp [h.recent i y hy, Ne.symm hidx]
    · have hlen := hperm.length_eq
      have hroom := h.room
      simp only [length_append] at hlen ⊢
      omega
  · rw [HvArc.hit, if_neg hstate]
    apply h.modify touch_key
    intro y hy
    rw [hbuf] at hy
    cases hy
    rw [HvArcBuf.touch, if_neg hstate]

theorem lookup (key : HvArcKey) : (a.lookup key).2.Listed := by
  rw [HvArc.lookup]
  split
  · split
    · exact h.hit ‹_›
    · exact h
  · exact h.ghostHit key

end

end Listed

structure Dropped (a : HvArc) (idx : Nat) (buf : HvArcBuf) (a' : HvArc) : Prop where
  slot : a.table.slot idx = some buf
  table : a'.table = a.table.without idx (bucketOf buf.key)
    ((a.table.buckets (bucketOf buf.key)).filter (· != idx))
  mru : a'.mru = a.mru.filter (· != idx)
  mfu : a'.mfu = a.mfu.filter (· != idx)
  maxSize : a'.maxSize = a.maxSize

section

variable (hd : Dropped a idx buf a') (h : a.Listed)

include hd h

theorem Dropped.lists : a'.mru ++ a'.mfu = (a.mru ++ a.mfu).erase idx := by
  rw [hd.mru, hd.mfu, h.nodup.erase_eq_filter, filter_append]

theorem Dropped.length : a'.mru.length + a'.mfu.length + 1 = a.mru.length + a.mfu.length := by
  have hmem : idx ∈ a.mru ++ a.mfu := (h.placed idx).mpr (by rw [hd.slot]; rfl)
  have hlen := congrArg List.length (hd.lists h)
  have hpos := length_pos_of_mem hmem
  rw [length_erase_of_mem hmem] at hlen
  simp only [length_append] at hlen hpos
  omega

theorem Dropped.listed : a'.Listed where
  indexed := by
    rw [Indexed, hd.table]
    exact SlotIndex.Indexed.without h.indexed hd.slot filter_sublist (by simp)
  filed := by
    rw [hd.table]
    apply h.filed.without
    intro j hj hne
    simp [hj, hne]
  placed i := by
    rw [hd.lists h, h.nodup.mem_erase_iff, h.placed i, hd.table, slot_without]
    split_ifs with hi
    · simp [hi]
    · simp [Ne.symm hi]
  nodup := by
    rw [hd.lists h]
    exact h.nodup.erase idx
  recent i y hy := by
    rw [hd.table, slot_without] at hy
    split_ifs at hy with hi
    rw [h.recent i y hy, hd.mru, mem_filter]
    simp [Ne.symm hi]
  room := by
    have hlen := hd.length h
    have hroom := h.room
    rw [hd.maxSize]
    omega
  pos := hd.maxSize ▸ h.pos

theorem Dropped.content (key : HvArcKey) :
    a'.content key = if key = buf.key then none else a.content key := by
  have hslot : ∀ i y, a'.table.slot i = some y ↔ i ≠ idx ∧ a.table.slot i = some y := by
    intro i y
    rw [hd.table, slot_without]
    split_ifs with hi
    · simp [hi]
    · simp [Ne.symm hi]
  apply ext
  intro data
  rw [(hd.listed h).content_iff]
  simp only [hslot]
  split_ifs with hkey
  · simp only [iff_false]
    rintro ⟨i, y, ⟨hi, hy⟩, hyk, -⟩
    exact hi (h.key_unique hy hd.slot (hyk.trans hkey))
  · rw [h.content_iff]
    constructor
    · rintro ⟨i, y, ⟨-, hy⟩, hyk⟩
      exact ⟨i, y, hy, hyk⟩
    · rintro ⟨i, y, hy, hyk, hyd⟩
      refine ⟨i, y, ⟨?_, hy⟩, hyk, hyd⟩
      rintro rfl
      rw [hd.slot] at hy
      cases hy
      exact hkey hyk.symm

end

theorem removeKey_cases (h : a.Listed) (key : HvArcKey) : (a.find key = none ∧ a.removeKey key = a) ∨
      ∃ idx buf, buf.key = key ∧ Dropped a idx buf (a.removeKey key) := by
  rw [removeKey]
  cases hfind : a.find key with
  | none => exact .inl ⟨rfl, rfl⟩
  | some idx =>
    obtain ⟨buf, hbuf, rfl⟩ := h.find_iff.mp hfind
    refine .inr ⟨idx, buf, rfl, hbuf, ?_, rfl, rfl, rfl⟩
    dsimp only
    rw [(h.indexed.nodup _).erase_eq_filter]

def front (a : HvArc) : Option Nat := if a.p < a.mru.length then a.mru.head? else a.mfu.head?

theorem filter_ne_self {l : List Nat} (hidx : idx ∉ l) : l.filter (· != idx) = l := by
  apply filter_eq_self.mpr
  intro j hj
  simpa using ne_of_mem_of_not_mem hj hidx

theorem filter_cons_self {l : List Nat} (hidx : idx ∉ l) : (idx :: l).filter (· != idx) = l := by
  rw [filter_cons_of_neg (by simp), filter_ne_self hidx]

theorem evictOne_dropped (h : a.Listed) (hone : a.evictOne = some a') :
    ∃ idx buf, a.front = some idx ∧ Dropped a idx buf a' := by
  have htake : ∀ idx ∈ a.mru ++ a.mfu, ∃ buf, a.table.slot idx = some buf ∧ a.take idx = (some buf.key,
      { a with table := a.table.without idx (bucketOf buf.key)
                 ((a.table.buckets (bucketOf buf.key)).filter (· != idx)) }) := by
    intro idx hmem
    obtain ⟨buf, hbuf⟩ := isSome_iff_exists.mp ((h.placed idx).mp hmem)
    exact ⟨buf, hbuf, by rw [HvArc.take, hbuf]⟩
  have hnodup := h.nodup
  rw [evictOne] at hone
  rw [front]
  split_ifs at hone ⊢ with hp
  · split at hone
    · rename_i idx rest hmru
      obtain ⟨buf, hbuf, htaken⟩ := htake idx (by simp [hmru])
      rw [htaken] at hone
      cases hone
      rw [hmru, cons_append, nodup_cons, mem_append, not_or] at hnodup
      refine ⟨idx, buf, by rw [hmru, head?_cons], hbuf, rfl, ?_, ?_, rfl⟩
      · rw [hmru, filter_cons_self hnodup.1.1]
        rfl
      · exact (filter_ne_self hnodup.1.2).symm
    · cases hone
  · split at hone
    · rename_i idx rest hmfu
      obtain ⟨buf, hbuf, htaken⟩ := htake idx (by simp [hmfu])
      rw [htaken] at hone
      cases hone
      rw [hmfu, nodup_append] at hnodup
      refine ⟨idx, buf, by rw [hmfu, head?_cons], hbuf, rfl, ?_, ?_, rfl⟩
      · apply Eq.symm
        apply filter_ne_self
        intro hmem
        exact hnodup.2.2 idx hmem idx mem_cons_self rfl
      · rw [hmfu, filter_cons_self (nodup_cons.mp hnodup.2.1).1]
        rfl
    · cases hone

theorem evictLoop_room (n : Nat) (hroom : a.mru.length + a.mfu.length + 1 ≤ a.maxSize) :
    evictLoop n a = some a := by
  cases n <;> rw [evictLoop, if_pos hroom]

/-- What an insertion does before it puts the new buffer down: it drops an older one of the same key, it
drops the one in front when the cache is full, or it drops none. -/
inductive Cleared (a : HvArc) (key : HvArcKey) (b : HvArc) : Prop
  | room (hnone : a.find key = none) (hroom : a.mru.length + a.mfu.length < a.maxSize) (hb : b = a)
  | older {idx : Nat} {buf : HvArcBuf} (hkey : buf.key = key) (hd : Dropped a idx buf b)
  | full {idx : Nat} {buf : HvArcBuf} (hnone : a.find key = none)
      (hfull : a.mru.length + a.mfu.length = a.maxSize) (hfront : a.front = some idx)
      (hd : Dropped a idx buf b)

theorem evictIfNeeded_cleared (h : a.Listed) (hb : (a.removeKey key).evictIfNeeded = some b) :
    Cleared a key b := by
  have hroom := h.room
  have hpos := h.pos
  rcases removeKey_cases h key with ⟨hnone, hsame⟩ | ⟨idx, buf, hkey, hd⟩
  · rw [hsame, evictIfNeeded] at hb
    by_cases hlt : a.mru.length + a.mfu.length < a.maxSize
    · rw [evictLoop_room _ hlt] at hb
      exact .room hnone hlt (some.inj hb).symm
    · obtain ⟨n, hn⟩ : ∃ n, a.mru.length + a.mfu.length = n + 1 := Nat.exists_eq_add_one.mpr (by omega)
      rw [hn, evictLoop, if_neg (by omega), bind_eq_some_iff] at hb
      obtain ⟨c, hone, hloop⟩ := hb
      obtain ⟨idx, buf, hfront, hd⟩ := evictOne_dropped h hone
      have hlen := hd.length h
      rw [evictLoop_room n (by rw [hd.maxSize]; omega)] at hloop
      obtain rfl := some.inj hloop
      exact .full hnone (by omega) hfront hd
  · have hlen := hd.length h
    rw [evictIfNeeded, evictLoop_room _ (by rw [hd.maxSize]; omega)] at hb
    obtain rfl := some.inj hb
    exact .older hkey hd

theorem insert_cleared (h : a.Listed) (hins : a.insert key data = some a') :
    ∃ b, Cleared a key b ∧ a' = b.push key data := by
  rw [insert, map_eq_some_iff] at hins
  obtain ⟨b, hb, rfl⟩ := hins
  exact ⟨b, evictIfNeeded_cleared h hb, rfl⟩

namespace Cleared

theorem listed (hc : Cleared a key b) (h : a.Listed) : b.Listed := by
  cases hc with
  | room hnone hroom hb => exact hb ▸ h
  | older hkey hd | full hnone hfull hfront hd => exact hd.listed h

theorem room_left (hc : Cleared a key b) (h : a.Listed) : b.mru.length + b.mfu.length < b.maxSize := by
  have hroom := h.room
  cases hc with
  | room hnone hroom hb => exact hb ▸ hroom
  | older hkey hd | full hnone hfull hfront hd =>
    have hlen := hd.length h
    rw [hd.maxSize]
    omega

theorem find_none (hc : Cleared a key b) (h : a.Listed) : b.find key = none := by
  cases hc with
  | room hnone hroom hb => exact hb ▸ hnone
  | older hkey hd =>
    rw [← (hd.listed h).content_none_iff, hd.content h, if_pos hkey.symm]
  | full hnone hfull hfront hd =>
    rw [← (hd.listed h).content_none_iff, hd.content h, h.content_none_iff.mpr hnone, ite_self]

end Cleared

theorem push_slot (b : HvArc) (key : HvArcKey) (data : List UInt8) (i : Nat) :
    (b.push key data).table.slot i = if i = b.table.vacant then some (.new key data) else b.table.slot i :=
  slot_put _ _ _

theorem Listed.push (h : b.Listed) (hnone : b.find key = none)
    (hroom : b.mru.length + b.mfu.length < b.maxSize) (data : List UInt8) : (b.push key data).Listed := by
  have hvacant : b.table.vacant ∉ b.mru ++ b.mfu := by
    rw [h.placed, slot_vacant]
    simp
  have hperm : (b.mru ++ [b.table.vacant] ++ b.mfu).Perm (b.table.vacant :: (b.mru ++ b.mfu)) := by
    rw [append_assoc]
    exact perm_middle
  refine ⟨SlotIndex.Indexed.put h.indexed hnone, h.filed.put, ?_, ?_, ?_, ?_, h.pos⟩
  · intro i
    rw [push_slot]
    refine Iff.trans hperm.mem_iff ?_
    rw [mem_cons, h.placed i]
    split_ifs with hi <;> simp [hi]
  · exact hperm.nodup_iff.mpr (nodup_cons.mpr ⟨hvacant, h.nodup⟩)
  · intro i y hy
    rw [push_slot] at hy
    rw [HvArc.push]
    split_ifs at hy with hi
    · cases hy
      simp [hi, HvArcBuf.new]
    · rw [h.recent i y hy]
      simp [hi]
  · rw [HvArc.push]
    simp only [length_append, length_singleton]
    omega

theorem Listed.push_content (h : b.Listed) (hnone : b.find key = none)
    (hroom : b.mru.length + b.mfu.length < b.maxSize) (k : HvArcKey) :
    (b.push key data).content k = if k = key then some data else b.content k := by
  have hvacant := b.table.slot_vacant
  apply ext
  intro d
  rw [(h.push hnone hroom data).content_iff]
  simp only [push_slot]
  split_ifs with hk
  · subst hk
    constructor
    · rintro ⟨i, y, hy, hyk, hyd⟩
      split_ifs at hy
      · cases hy
        exact congrArg some hyd
      · rw [h.find_iff.mpr ⟨y, hy, hyk⟩] at hnone
        cases hnone
    · rintro hd
      cases hd
      exact ⟨b.table.vacant, .new k data, if_pos rfl, rfl, rfl⟩
  · rw [h.content_iff]
    constructor
    · rintro ⟨i, y, hy, hyk, hyd⟩
      split_ifs at hy
      · cases hy
        exact absurd hyk.symm hk
      · exact ⟨i, y, hy, hyk, hyd⟩
    · rintro ⟨i, y, hy, hyk, hyd⟩
      refine ⟨i, y, ?_, hyk, hyd⟩
      rw [if_neg, hy]
      rintro rfl
      rw [hvacant] at hy
      cases hy

theorem Listed.insert (h : a.Listed) (hins : a.insert key data = some a') : a'.Listed := by
  obtain ⟨b, hc, rfl⟩ := insert_cleared h hins
  exact (hc.listed h).push (hc.find_none h) (hc.room_left h) data

def Evicts (a : HvArc) (key k : HvArcKey) : Prop :=
  a.find key = none ∧ a.mru.length + a.mfu.length = a.maxSize ∧ a.find k ≠ none ∧ a.front = a.find k

instance (a : HvArc) (key k : HvArcKey) : Decidable (a.Evicts key k) :=
  inferInstanceAs (Decidable (_ ∧ _ ∧ _ ∧ _))

theorem insert_content (h : a.Listed) (hins : a.insert key data = some a') (k : HvArcKey) :
    a'.content k = if k = key then some data else if a.Evicts key k then none else a.content k := by
  obtain ⟨b, hc, rfl⟩ := insert_cleared h hins
  rw [(hc.listed h).push_content (hc.find_none h) (hc.room_left h)]
  by_cases hk : k = key
  · rw [if_pos hk, if_pos hk]
  · rw [if_neg hk, if_neg hk]
    cases hc with
    | room hnone hroom hb =>
      rw [if_neg (fun hev => by have := hev.2.1; omega), hb]
    | older hkey hd =>
      have hfind := h.find_iff.mpr ⟨_, hd.slot, hkey⟩
      rw [if_neg (fun hev => by rw [hev.1] at hfind; cases hfind), hd.content h, if_neg (hkey ▸ hk)]
    | @full idx buf hnone hfull hfront hd =>
      have hiff : a.Evicts key k ↔ k = buf.key := by
        constructor
        · rintro ⟨-, -, -, hsame⟩
          rw [hfront] at hsame
          obtain ⟨y, hy, hyk⟩ := h.find_iff.mp hsame.symm
          rw [hd.slot] at hy
          cases hy
          exact hyk.symm
        · rintro rfl
          have hfind := h.find_iff.mpr ⟨buf, hd.slot, rfl⟩
          exact ⟨hnone, hfull, by rw [hfind]; simp, by rw [hfind, hfront]⟩
      rw [hd.content h]
      simp only [hiff]

variable {k : HvArcKey} {c : ArcCall} {cs : List ArcCall}

theorem Listed.step (h : a.Listed) (hstep : arcStep a c = some a') : a'.Listed := by
  cases c with
  | lookup key =>
    cases hstep
    exact h.lookup key
  | insert key data => exact h.insert hstep
  | release key =>
    cases hstep
    exact h.modify release_key fun _ _ => rfl
  | markDirty key =>
    cases hstep
    exact h.modify markDirty_key fun _ _ => rfl

theorem Listed.run (h : a.Listed) (hrun : runOpt arcStep a cs = some a') : a'.Listed :=
  runOpt_invariant (fun _ _ _ hs hstep => Listed.step hs hstep) h hrun

theorem reachable_listed {maxSize : Nat} (hrun : runOpt arcStep (init maxSize) cs = some a) : a.Listed :=
  (listed_init maxSize).run hrun

/-- A slot is occupied just when its number is once in one of the recency lists and once in one of the
buckets, which is that of its key; no number of a vacant slot is left over; no key occurs twice. -/
structure WellFormed (a : HvArc) : Prop where
  occupied : ∀ i, (a.table.slot i).isSome = true ↔ a.mru.count i + a.mfu.count i = 1 ∧
    ∃ b, (a.table.buckets b).count i = 1 ∧ ∀ c, c ≠ b → i ∉ a.table.buckets c
  vacant : ∀ i, a.table.slot i = none → i ∉ a.mru ∧ i ∉ a.mfu ∧ ∀ b, i ∉ a.table.buckets b
  bucket : ∀ i buf, a.table.slot i = some buf → (a.table.buckets (bucketOf buf.key)).count i = 1 ∧
    ∀ c, c ≠ bucketOf buf.key → i ∉ a.table.buckets c
  keys : ∀ i j buf buf', a.table.slot i = some buf → a.table.slot j = some buf' → buf.key = buf'.key → i = j

theorem Listed.bucket (h : a.Listed) {i : Nat} {buf : HvArcBuf} (hbuf : a.table.slot i = some buf) :
    (a.table.buckets (bucketOf buf.key)).count i = 1 ∧ ∀ c, c ≠ bucketOf buf.key → i ∉ a.table.buckets c := by
  refine ⟨count_eq_one_of_mem (h.indexed.nodup _) (h.filed i buf hbuf), ?_⟩
  intro c hc hmem
  obtain ⟨y, hy, hhome⟩ := h.indexed.live c i hmem
  rw [hbuf] at hy
  cases hy
  exact hc hhome.symm

theorem Listed.vacant (h : a.Listed) {i : Nat} (hnone : a.table.slot i = none) :
    i ∉ a.mru ++ a.mfu ∧ ∀ b, i ∉ a.table.buckets b := by
  constructor
  · rw [h.placed, hnone]
    simp
  · intro b hmem
    obtain ⟨y, hy, -⟩ := h.indexed.live b i hmem
    rw [hnone] at hy
    cases hy

theorem Listed.wellFormed (h : a.Listed) : a.WellFormed where
  occupied i := by
    rw [← count_append]
    cases hslot : a.table.slot i with
    | none =>
      have hout := h.vacant hslot
      simp [count_eq_zero_of_not_mem hout.1]
    | some buf =>
      have hmem : i ∈ a.mru ++ a.mfu := (h.placed i).mpr (by rw [hslot]; rfl)
      simp only [isSome_some, true_iff]
      exact ⟨count_eq_one_of_mem h.nodup hmem, _, h.bucket hslot⟩
  vacant i hslot := by
    have hout := h.vacant hslot
    rw [mem_append, not_or] at hout
    exact ⟨hout.1.1, hout.1.2, hout.2⟩
  bucket _ _ hbuf := h.bucket hbuf
  keys _ _ _ _ hi hj hkey := h.key_unique hi hj hkey

def lastInsert (key : HvArcKey) (cs : List ArcCall) : Option (List UInt8) :=
  cs.foldl (fun last c =>
    match c with
    | .insert k data => if k = key then some data else last
    | _ => last) none

theorem content_step (h : a.Listed) (hstep : arcStep a c = some a') (k : HvArcKey) :
    a'.content k = match c with
      | .insert key data => if k = key then some data else if a.Evicts key k then none else a.content k
      | _ => a.content k := by
  cases c with
  | lookup key =>
    cases hstep
    exact content_lookup a key k
  | insert key data => exact insert_content h hstep k
  | release key =>
    cases hstep
    exact content_release a key k
  | markDirty key =>
    cases hstep
    exact content_markDirty a key k

theorem content_lastInsert {maxSize : Nat} (hrun : runOpt arcStep (init maxSize) cs = some a)
    (hcontent : a.content key = some data) : lastInsert key cs = some data := by
  induction cs using List.reverseRecOn generalizing a data with
  | nil =>
    cases hrun
    cases hcontent
  | append_singleton cs c ih =>
    rw [runOpt_append, bind_eq_some_iff] at hrun
    obtain ⟨b, hb, hlast⟩ := hrun
    rw [runOpt_cons, bind_eq_some_iff] at hlast
    obtain ⟨a₁, hstep, hend⟩ := hlast
    cases hend
    rw [content_step (reachable_listed hb) hstep] at hcontent
    rw [lastInsert, foldl_append, ← lastInsert, foldl_cons, foldl_nil]
    cases c with
    | insert k d =>
      dsimp only at hcontent ⊢
      by_cases hk : key = k
      · rw [if_pos hk] at hcontent
        rw [if_pos hk.symm, hcontent]
      · rw [if_neg (Ne.symm hk)]
        split_ifs at hcontent
        exact ih hb hcontent
    | lookup k | release k | markDirty k => exact ih hb hcontent

/-- Every state that calls reach is well formed, and a lookup that hits returns what was inserted last. -/
theorem cache_consistent (maxSize : Nat) (cs : List ArcCall) (a : HvArc)
    (hrun : runOpt arcStep (init maxSize) cs = some a) :
    a.WellFormed ∧ ∀ key data, (a.lookup key).1 = some data → lastInsert key cs = some data := by
  refine ⟨(reachable_listed hrun).wellFormed, ?_⟩
  intro key data hhit
  rw [lookup_fst] at hhit
  exact content_lastInsert hrun hhit

def blockKey (n : UInt64) : HvArcKey := ⟨0, n, 0⟩

/-- The lookup promotes block 0, the insertions of blocks 2 and 3 evict, the second one of block 1 replaces. -/
def churn : List ArcCall :=
  [.insert (blockKey 0) [1], .insert (blockKey 1) [2], .lookup (blockKey 0), .insert (blockKey 2) [3],
   .insert (blockKey 1) [4], .insert (blockKey 3) [5]]

theorem cache_consistent_churn : ∃ a, runOpt arcStep (init 2) churn = some a ∧ a.WellFormed ∧
    (a.lookup (blockKey 1)).1 = some [4] ∧ lastInsert (blockKey 1) churn = some [4] := by
  obtain ⟨a, ha⟩ : ∃ a, runOpt arcStep (init 2) churn = some a :=
    isSome_iff_exists.mp (by decide +kernel)
  have hhit : ((runOpt arcStep (init 2) churn).bind fun a => (a.lookup (blockKey 1)).1) = some [4] := by
    decide +kernel
  rw [ha, bind_some] at hhit
  obtain ⟨hwell, hlast⟩ := cache_consistent 2 churn a ha
  exact ⟨a, ha, hwell, hhit, hlast (blockKey 1) [4] hhit⟩

/-- A run returns just when no insertion meets a target as large as the cache with a full list below it. -/
theorem run_returns_iff (maxSize : Nat) (cs : List ArcCall) :
    (runOpt arcStep (init maxSize) cs).isSome = true ↔
      Along arcStep (fun a c => ∀ key data, c = .insert key data → ¬ a.Jammed key) (init maxSize) cs := by
  apply runOpt_returns_iff
  intro a c
  cases c with
  | insert key data =>
    rw [arcStep, isSome_iff_ne_none, Ne, insert_none_iff]
    constructor
    · rintro hfree k d ⟨⟩
      exact hfree
    · exact fun hall => hall key data rfl
  | lookup key | release key | markDirty key => simp [arcStep]

/-- Four blocks fill a cache of two and its ghosts, the two that are left become frequent, a ghost is asked
for, and two more blocks take the places of the frequent ones. -/
def jamming : List ArcCall :=
  [.insert (blockKey 0) [], .insert (blockKey 1) [], .insert (blockKey 2) [], .insert (blockKey 3) [],
   .lookup (blockKey 2), .lookup (blockKey 3), .lookup (blockKey 0), .insert (blockKey 4) [],
   .insert (blockKey 5) []]

theorem eviction_never_ends :
    ¬ ∀ (maxSize : Nat) (cs : List ArcCall) (a : HvArc), runOpt arcStep (init maxSize) cs = some a →
      ∀ key data, (a.insert key data).isSome = true := by
  intro hall
  have hreached : (runOpt arcStep (init 2) jamming).isSome = true := by decide +kernel
  have hjam : ((runOpt arcStep (init 2) jamming).bind fun a => a.insert (blockKey 6) []).isSome = false := by
    decide +kernel
  obtain ⟨a, ha⟩ := isSome_iff_exists.mp hreached
  rw [ha, bind_some, hall 2 jamming a ha] at hjam
  cases hjam

theorem content_gone (h : a.Listed) (hnone : a.content key = none) (hother : ∀ d, .insert key d ∉ cs)
    (hrun : runOpt arcStep a cs = some a') : a'.content key = none := by
  induction cs generalizing a with
  | nil =>
    cases hrun
    exact hnone
  | cons c cs ih =>
    rw [runOpt_cons, bind_eq_some_iff] at hrun
    obtain ⟨b, hstep, hrun⟩ := hrun
    apply ih (h.step hstep) _ (fun d hd => hother d (mem_cons_of_mem _ hd)) hrun
    rw [content_step h hstep]
    cases c with
    | insert k d =>
      have hk : key ≠ k := by
        rintro rfl
        exact hother d mem_cons_self
      dsimp only
      rw [if_neg hk, hnone, ite_self]
    | lookup k | release k | markDirty k => exact hnone

theorem content_kept_iff (h : a.Listed) (hres : a.content key = some data)
    (hother : ∀ d, .insert key d ∉ cs) (hrun : runOpt arcStep a cs = some a') :
    a'.content key = some data ↔
      Along arcStep (fun b c => ∀ k d, c = .insert k d → ¬ b.Evicts k key) a cs := by
  induction cs generalizing a with
  | nil =>
    cases hrun
    simp [Along, hres]
  | cons c cs ih =>
    rw [runOpt_cons, bind_eq_some_iff] at hrun
    obtain ⟨b, hstep, hrun⟩ := hrun
    have hrest : ∀ d, .insert key d ∉ cs := fun d hd => hother d (mem_cons_of_mem _ hd)
    have hcontent := content_step h hstep key
    have htail : b.content key = some data → (a'.content key = some data ↔ ∀ s', arcStep a c = some s' →
          Along arcStep (fun b c => ∀ k d, c = .insert k d → ¬ b.Evicts k key) s' cs) := by
      intro hb
      rw [ih (h.step hstep) hb hrest hrun, hstep]
      simp
    rw [Along]
    cases c with
    | insert k d =>
      have hk : key ≠ k := by
        rintro rfl
        exact hother d mem_cons_self
      dsimp only at hcontent
      rw [if_neg hk] at hcontent
      by_cases hev : a.Evicts k key
      · rw [if_pos hev] at hcontent
        have hgone := content_gone (h.step hstep) hcontent hrest hrun
        rw [hgone]
        simp only [reduceCtorEq, false_iff, not_and]
        intro hall
        exact absurd hev (hall k d rfl)
      · rw [if_neg hev, hres] at hcontent
        rw [htail hcontent, iff_and_self]
        rintro - k' d' ⟨⟩
        exact hev
    | lookup k | release k | markDirty k =>
      rw [htail (hcontent.trans hres)]
      simp

/-- A buffer stays through calls that do not insert its key just when none of them is an insertion that
takes it out; its references play no part in that. -/
theorem stays_resident_iff (maxSize : Nat) (cs : List ArcCall) (a : HvArc)
    (hrun : runOpt arcStep (init maxSize) cs = some a) (key : HvArcKey) (data : List UInt8)
    (hres : a.content key = some data) (later : List ArcCall) (hother : ∀ d, .insert key d ∉ later)
    (a' : HvArc) (hlater : runOpt arcStep a later = some a') :
    a'.content key = some data ↔
      Along arcStep (fun b c => ∀ k d, c = .insert k d → ¬ b.Evicts k key) a later :=
  content_kept_iff (reachable_listed hrun) hres hother hlater

theorem stays_resident_beside :
    ((runOpt arcStep ((init 2).push (blockKey 0) [7]) [.insert (blockKey 1) [8]]).bind fun a =>
      a.content (blockKey 0)) = some [7] := by
  have hreturns : (runOpt arcStep ((init 2).push (blockKey 0) [7]) [.insert (blockKey 1) [8]]).isSome = true := by
    decide +kernel
  obtain ⟨a', ha'⟩ := isSome_iff_exists.mp hreturns
  rw [ha', bind_some]
  apply (stays_resident_iff 2 [.insert (blockKey 0) [7]] _ rfl (blockKey 0) [7] (by decide +kernel)
    [.insert (blockKey 1) [8]] _ a' ha').mpr
  · refine ⟨?_, fun _ _ => trivial⟩
    rintro k d ⟨⟩
    decide +kernel
  · intro d hd
    simp [blockKey] at hd

def takesReference (key : HvArcKey) (a : HvArc) : ArcCall → Bool
  | .lookup k => k == key && (a.content key).isSome
  | .insert k _ => k == key
  | .release _ => false
  | .markDirty _ => false

def references (key : HvArcKey) : HvArc → List ArcCall → Nat
  | _, [] => 0
  | a, c :: cs => (takesReference key a c).toNat + (arcStep a c).elim 0 fun b => references key b cs

theorem referenced_buffer_dropped :
    ¬ ∀ (maxSize : Nat) (cs : List ArcCall) (a b a' : HvArc) (key : HvArcKey) (data : List UInt8)
      (c : ArcCall) (later : List ArcCall), runOpt arcStep (init maxSize) cs = some a →
      takesReference key a c = true → arcStep a c = some b → b.content key = some data →
      (∀ d, .insert key d ∉ later) →
      (∀ n ≤ later.length, (later.take n).count (.release key) < references key a (c :: later.take n)) →
      runOpt arcStep b later = some a' → a'.content key = some data := by
  intro hall
  have hreturns : (runOpt arcStep ((init 1).push (blockKey 0) [7]) [.insert (blockKey 1) [8]]).isSome = true := by
    decide +kernel
  have hgone : ((runOpt arcStep ((init 1).push (blockKey 0) [7]) [.insert (blockKey 1) [8]]).bind fun a =>
      a.content (blockKey 0)) = none := by
    decide +kernel
  obtain ⟨a', ha'⟩ := isSome_iff_exists.mp hreturns
  have hkept := hall 1 [] (init 1) ((init 1).push (blockKey 0) [7]) a' (blockKey 0) [7] (.insert (blockKey 0) [7])
    [.insert (blockKey 1) [8]] rfl rfl rfl (by decide +kernel) (by simp [blockKey]) (by decide +kernel) ha'
  rw [ha', bind_some, hkept] at hgone
  cases hgone

end HvArc

end AntX.Hvfs
