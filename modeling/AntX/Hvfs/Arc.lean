import AntX.Lib.Run
import AntX.Lib.SlotIndex

/-! The adaptive replacement cache of services/fs/hvfs/arc.rs: buffers in slots found through a hash
table, and two recency lists with their ghosts. -/

namespace AntX.Hvfs

open AntX.Lib Option SlotIndex

def hvArcDefaultSize : Nat := 256
def hvArcMaxSize : Nat := 4096
def hvArcHashBuckets : Nat := 256

structure HvArcKey where
  vdevId : UInt16
  offset : UInt64
  birthTxg : UInt64
  deriving DecidableEq, Repr

def HvArcKey.hash (k : HvArcKey) : UInt64 :=
  let h : UInt64 := 14695981039346656037
  let h := (h ^^^ k.vdevId.toUInt64) * 1099511628211
  let h := (h ^^^ k.offset) * 1099511628211
  (h ^^^ k.birthTxg) * 1099511628211

def bucketOf (k : HvArcKey) : Nat := k.hash.toNat % hvArcHashBuckets

inductive HvArcState where
  | anon
  | mru
  | mfu
  | mruGhost
  | mfuGhost
  | l2Cache
  deriving DecidableEq, Repr

structure HvArcBuf where
  key : HvArcKey
  data : List UInt8
  state : HvArcState
  refCount : UInt32
  accessCount : UInt32
  dirty : Bool

namespace HvArcBuf

def new (key : HvArcKey) (data : List UInt8) : HvArcBuf := ⟨key, data, .mru, 2, 1, false⟩

def touch (b : HvArcBuf) : HvArcBuf :=
  { b with accessCount := b.accessCount + 1, refCount := b.refCount + 1
           state := if b.state = .mru then .mfu else b.state }

def release (b : HvArcBuf) : HvArcBuf :=
  { b with refCount := if b.refCount = 0 then 0 else b.refCount - 1 }

def markDirty (b : HvArcBuf) : HvArcBuf := { b with dirty := true }

end HvArcBuf

structure HvArc where
  mru : List Nat
  mfu : List Nat
  ghostMru : List HvArcKey
  ghostMfu : List HvArcKey
  table : SlotIndex Nat HvArcBuf
  maxSize : Nat
  p : Nat

namespace HvArc

def init (maxSize : Nat) : HvArc :=
  let max := if maxSize = 0 then hvArcDefaultSize else min maxSize hvArcMaxSize
  ⟨[], [], [], [], .empty, max, max / 2⟩

def find (a : HvArc) (key : HvArcKey) : Option Nat := a.table.find HvArcBuf.key bucketOf key

def adapt (maxSize ghost live : Nat) : Nat :=
  if 0 < live + ghost then maxSize * ghost / (live + ghost) else 1

variable (a : HvArc)

def ghostHit (key : HvArcKey) : HvArc :=
  if key ∈ a.ghostMru then
    let ghosts := a.ghostMru.erase key
    { a with ghostMru := ghosts
             p := min (a.p + adapt a.maxSize ghosts.length a.mru.length) a.maxSize }
  else if key ∈ a.ghostMfu then
    let ghosts := a.ghostMfu.erase key
    { a with ghostMfu := ghosts, p := a.p - adapt a.maxSize ghosts.length a.mfu.length }
  else a

def hit (idx : Nat) (buf : HvArcBuf) : HvArc :=
  let a := { a with table := a.table.modify idx HvArcBuf.touch }
  if buf.state = .mru then { a with mru := a.mru.filter (· != idx), mfu := a.mfu ++ [idx] } else a

def lookup (key : HvArcKey) : Option (List UInt8) × HvArc :=
  match a.find key with
  | some idx =>
    match a.table.slot idx with
    | some buf => (some buf.data, a.hit idx buf)
    | none => (none, a)
  | none => (none, a.ghostHit key)

def release (a : HvArc) (key : HvArcKey) : HvArc :=
  let idx := a.table.slots.findIdx fun slot => slot.any fun buf => buf.key == key
  { a with table := a.table.modify idx HvArcBuf.release }

def markDirty (a : HvArc) (key : HvArcKey) : HvArc :=
  let idx := a.table.slots.findIdx fun slot => slot.any fun buf => buf.key == key
  { a with table := a.table.modify idx HvArcBuf.markDirty }

def removeKey (key : HvArcKey) : HvArc :=
  match a.find key with
  | some idx =>
    { a with
      table := a.table.without idx (bucketOf key) ((a.table.buckets (bucketOf key)).erase idx)
      mru := a.mru.filter (· != idx)
      mfu := a.mfu.filter (· != idx) }
  | none => a

def take (idx : Nat) : Option HvArcKey × HvArc :=
  match a.table.slot idx with
  | some buf =>
    (some buf.key, { a with
      table := a.table.without idx (bucketOf buf.key)
        ((a.table.buckets (bucketOf buf.key)).filter (· != idx)) })
  | none => (none, a)

def trim (maxSize : Nat) (ghosts : List HvArcKey) : List HvArcKey :=
  if maxSize < ghosts.length then ghosts.tail else ghosts

def trimGhosts : HvArc :=
  { a with ghostMru := trim a.maxSize a.ghostMru, ghostMfu := trim a.maxSize a.ghostMfu }

/-- One turn of the eviction loop; `none` when it changes neither list, and so never ends. -/
def evictOne : Option HvArc :=
  if a.p < a.mru.length then
    match a.mru with
    | idx :: mru =>
      let (key, b) := a.take idx
      some { b with mru := mru, ghostMru := b.ghostMru ++ key.toList }.trimGhosts
    | [] => none
  else
    match a.mfu with
    | idx :: mfu =>
      let (key, b) := a.take idx
      some { b with mfu := mfu, ghostMfu := b.ghostMfu ++ key.toList }.trimGhosts
    | [] => none

def evictLoop : Nat → HvArc → Option HvArc
  | n, a =>
    if a.mru.length + a.mfu.length + 1 ≤ a.maxSize then some a
    else
      match n with
      | 0 => none
      | n + 1 => a.evictOne.bind (evictLoop n)

-- Each turn takes one number off the lists, so it has no more turns than they have numbers.
def evictIfNeeded : Option HvArc := evictLoop (a.mru.length + a.mfu.length) a

def push (key : HvArcKey) (data : List UInt8) : HvArc :=
  { a with table := a.table.put HvArcBuf.key bucketOf (.new key data)
           mru := a.mru ++ [a.table.vacant] }

/-- `none` when the eviction loop does not end. -/
def insert (key : HvArcKey) (data : List UInt8) : Option HvArc :=
  (a.removeKey key).evictIfNeeded.map fun a => a.push key data

def Indexed (a : HvArc) : Prop := a.table.Indexed HvArcBuf.key bucketOf

variable {a a' : HvArc} {key : HvArcKey} {data : List UInt8}

theorem indexed_init (maxSize : Nat) : (init maxSize).Indexed := SlotIndex.Indexed.empty

theorem touch_key (b : HvArcBuf) : b.touch.key = b.key := rfl

theorem release_key (b : HvArcBuf) : b.release.key = b.key := rfl

theorem markDirty_key (b : HvArcBuf) : b.markDirty.key = b.key := rfl

@[simp] theorem ghostHit_table (a : HvArc) (key : HvArcKey) : (a.ghostHit key).table = a.table := by
  rw [ghostHit]
  split_ifs <;> rfl

@[simp] theorem hit_table (a : HvArc) (idx : Nat) (buf : HvArcBuf) :
    (a.hit idx buf).table = a.table.modify idx HvArcBuf.touch := by
  rw [hit]
  split_ifs <;> rfl

theorem lookup_table (a : HvArc) (key : HvArcKey) : (a.lookup key).2.table = a.table ∨
      ∃ idx, (a.lookup key).2.table = a.table.modify idx HvArcBuf.touch := by
  rw [lookup]
  split
  · split
    · exact .inr ⟨_, hit_table _ _ _⟩
    · exact .inl rfl
  · exact .inl (ghostHit_table _ _)

def content (a : HvArc) (key : HvArcKey) : Option (List UInt8) :=
  (a.find key).bind fun idx => (a.table.slot idx).map HvArcBuf.data

theorem lookup_fst (a : HvArc) (key : HvArcKey) : (a.lookup key).1 = a.content key := by
  rw [lookup, content]
  cases a.find key with
  | none => rfl
  | some idx =>
    cases hslot : a.table.slot idx <;> simp [hslot]

theorem content_modify {idx : Nat} {f : HvArcBuf → HvArcBuf} (hkey : ∀ b, (f b).key = b.key)
    (hdata : ∀ b, (f b).data = b.data) (h : a'.table = a.table.modify idx f) (key : HvArcKey) :
    a'.content key = a.content key := by
  rw [content, content, find, find, h, find_modify _ _ hkey]
  congr 1
  funext i
  rw [slot_modify]
  split_ifs
  · rw [map_map]
    congr 1
    funext b
    exact hdata b
  · rfl

theorem content_lookup (a : HvArc) (key k : HvArcKey) : (a.lookup key).2.content k = a.content k := by
  rcases a.lookup_table key with h | ⟨idx, h⟩
  · rw [content, content, find, find, h]
  · exact content_modify touch_key (fun _ => rfl) h k

theorem content_release (a : HvArc) (key k : HvArcKey) : (a.release key).content k = a.content k :=
  content_modify release_key (fun _ => rfl) rfl k

theorem content_markDirty (a : HvArc) (key k : HvArcKey) : (a.markDirty key).content k = a.content k :=
  content_modify markDirty_key (fun _ => rfl) rfl k

theorem Indexed.removeKey (h : a.Indexed) (key : HvArcKey) :
    (a.removeKey key).Indexed ∧ (a.removeKey key).find key = none := by
  rw [HvArc.removeKey]
  cases hfind : a.find key with
  | none => exact ⟨h, hfind⟩
  | some idx =>
    obtain ⟨hmem, buf, hslot, rfl⟩ := find_some hfind
    have hsub := List.erase_sublist (a := idx) (l := a.table.buckets (bucketOf buf.key))
    have hout : idx ∉ (a.table.buckets (bucketOf buf.key)).erase idx :=
      (h.nodup _).not_mem_erase
    exact ⟨SlotIndex.Indexed.without h hslot hsub hout, h.find_without hslot hmem hsub⟩

theorem Indexed.take (h : a.Indexed) (idx : Nat) : (a.take idx).2.Indexed ∧
    ∀ key, a.find key = none → (a.take idx).2.find key = none := by
  rw [HvArc.take]
  cases hslot : a.table.slot idx with
  | none => exact ⟨h, fun _ hnone => hnone⟩
  | some buf =>
    have hsub := List.filter_sublist (p := (· != idx)) (l := a.table.buckets (bucketOf buf.key))
    refine ⟨SlotIndex.Indexed.without h hslot hsub (by simp), ?_⟩
    intro key hnone
    exact find_without_none hnone hsub

theorem evictOne_table (h : a.evictOne = some a') : ∃ idx, a'.table = (a.take idx).2.table := by
  rw [evictOne] at h
  split_ifs at h <;> split at h <;> cases h <;> exact ⟨_, rfl⟩

theorem Indexed.evictLoop {n : Nat} (h : a.Indexed) (hnone : a.find key = none)
    (hloop : HvArc.evictLoop n a = some a') : a'.Indexed ∧ a'.find key = none := by
  induction n generalizing a with
  | zero =>
    rw [HvArc.evictLoop] at hloop
    split_ifs at hloop
    cases hloop
    exact ⟨h, hnone⟩
  | succ n ih =>
    rw [HvArc.evictLoop] at hloop
    split_ifs at hloop
    · cases hloop
      exact ⟨h, hnone⟩
    · obtain ⟨b, hb, hloop⟩ := bind_eq_some_iff.mp hloop
      obtain ⟨idx, htable⟩ := evictOne_table hb
      obtain ⟨htake, hkeep⟩ := h.take idx
      apply ih _ _ hloop
      · rw [Indexed, htable]
        exact htake
      · rw [find, htable]
        exact hkeep key hnone

theorem evictOne_sizes (h : a.evictOne = some a') : a'.maxSize = a.maxSize ∧ a'.p = a.p ∧
    (a.p < a.mru.length ∧ a'.mru.length + 1 = a.mru.length ∧ a'.mfu.length = a.mfu.length ∨
      a.mru.length ≤ a.p ∧ a'.mru.length = a.mru.length ∧ a'.mfu.length + 1 = a.mfu.length) := by
  have htake : ∀ idx, (a.take idx).2.maxSize = a.maxSize ∧ (a.take idx).2.p = a.p ∧
      (a.take idx).2.mru = a.mru ∧ (a.take idx).2.mfu = a.mfu := by
    intro idx
    rw [HvArc.take]
    split <;> exact ⟨rfl, rfl, rfl, rfl⟩
  rw [evictOne] at h
  split_ifs at h with hp
  · split at h
    · rename_i idx mru hmru
      cases h
      obtain ⟨hmax, hp', -, hmfu⟩ := htake idx
      refine ⟨hmax, hp', .inl ⟨hp, ?_, congrArg List.length hmfu⟩⟩
      rw [hmru]
      rfl
    · cases h
  · split at h
    · rename_i idx mfu hmfu
      cases h
      obtain ⟨hmax, hp', hmru, -⟩ := htake idx
      refine ⟨hmax, hp', .inr ⟨Nat.le_of_not_lt hp, congrArg List.length hmru, ?_⟩⟩
      rw [hmfu]
      rfl
    · cases h

theorem evictOne_none (h : a.evictOne = none) : a.mru.length ≤ a.p ∧ a.mfu.length = 0 := by
  rw [evictOne] at h
  split_ifs at h with hp
  · split at h
    · cases h
    · rename_i hmru
      rw [hmru] at hp
      exact absurd hp (Nat.not_lt_zero _)
  · split at h
    · cases h
    · rename_i hmfu
      rw [hmfu]
      exact ⟨Nat.le_of_not_lt hp, rfl⟩

/-- With as many turns as there are numbers in the lists, the loop fails to end just when the target has
grown to the size of the cache and the list below it is full. -/
theorem evictLoop_none_iff {n : Nat} (hn : a.mru.length + a.mfu.length ≤ n) :
    evictLoop n a = none ↔ a.maxSize ≤ a.p ∧ a.maxSize ≤ a.mru.length := by
  induction n generalizing a with
  | zero =>
    rw [evictLoop]
    split_ifs with hroom
    · simp only [false_iff]
      omega
    · simp only [true_iff]
      omega
  | succ n ih =>
    rw [evictLoop]
    split_ifs with hroom
    · simp only [false_iff]
      omega
    · cases hone : a.evictOne with
      | none =>
        have hend := evictOne_none hone
        simp only [bind_none, true_iff]
        omega
      | some b =>
        obtain ⟨hmax, hp, hlists⟩ := evictOne_sizes hone
        rw [bind_some, ih (by omega), hmax, hp]
        omega

def Jammed (a : HvArc) (key : HvArcKey) : Prop :=
  a.maxSize ≤ a.p ∧ a.maxSize ≤ (a.mru.filter fun idx => decide (a.find key ≠ some idx)).length

theorem insert_none_iff : a.insert key data = none ↔ a.Jammed key := by
  have hremove : (a.removeKey key).maxSize = a.maxSize ∧ (a.removeKey key).p = a.p ∧
      (a.removeKey key).mru = a.mru.filter fun idx => decide (a.find key ≠ some idx) := by
    rw [removeKey]
    cases a.find key with
    | none => simp
    | some idx =>
      refine ⟨rfl, rfl, ?_⟩
      apply List.filter_congr
      intro j _
      by_cases hj : j = idx
      · simp [hj]
      · simp [hj, Ne.symm hj]
  obtain ⟨hmax, hp, hmru⟩ := hremove
  rw [insert, map_eq_none_iff, evictIfNeeded, evictLoop_none_iff (Nat.le_refl _), hmax, hp, hmru, Jammed]

theorem Indexed.insert (h : a.Indexed) (hins : a.insert key data = some a') :
    a'.Indexed ∧ a'.content key = some data := by
  rw [HvArc.insert, map_eq_some_iff] at hins
  obtain ⟨b, hb, rfl⟩ := hins
  obtain ⟨hrem, hgone⟩ := h.removeKey key
  obtain ⟨hind, hnone⟩ := hrem.evictLoop hgone hb
  refine ⟨SlotIndex.Indexed.put hind hnone, ?_⟩
  have hfind : (b.push key data).find key = some b.table.vacant :=
    SlotIndex.Indexed.find_put (x := HvArcBuf.new key data) hind hnone
  have hslot : (b.push key data).table.slot b.table.vacant = some (.new key data) :=
    SlotIndex.Indexed.slot_put_vacant
  rw [content, hfind, bind_some, hslot]
  rfl

inductive ArcCall where
  | lookup (key : HvArcKey)
  | insert (key : HvArcKey) (data : List UInt8)
  | release (key : HvArcKey)
  | markDirty (key : HvArcKey)
  deriving DecidableEq

def arcStep (a : HvArc) : ArcCall → Option HvArc
  | .lookup key => some (a.lookup key).2
  | .insert key data => a.insert key data
  | .release key => some (a.release key)
  | .markDirty key => some (a.markDirty key)

end HvArc

end AntX.Hvfs
