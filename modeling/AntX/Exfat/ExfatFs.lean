import Mathlib.Order.Interval.Finset.Nat
import AntX.Driver.Block
import AntX.Lib.Chase

/-! exFAT volumes of services/fs/exfat, whose `u32` numbers wrap; a panic is the outer `none`. The
walk along the FAT returns if and only if it meets no cluster twice. -/

namespace AntX.Exfat

open AntX.Lib AntX.Driver

structure ExfatSuperBlock where
  fatOffset : Nat
  clusterHeapOffset : Nat
  clusterCount : Nat
  bytesPerSectorShift : Nat
  sectorsPerClusterShift : Nat

namespace ExfatSuperBlock

variable (sb : ExfatSuperBlock)

/-- A shift of a `u32` takes the shift modulo 32. -/
def bytesPerSector : Nat := 2 ^ (sb.bytesPerSectorShift % 32)

def sectorsPerCluster : Nat := 2 ^ (sb.sectorsPerClusterShift % 32)

def bytesPerCluster : Nat := sb.bytesPerSector * sb.sectorsPerCluster % 2 ^ 32

def clusterToSector (cluster : Nat) : Nat :=
  (sb.clusterHeapOffset + (cluster - 2) * sb.sectorsPerCluster) % 2 ^ 32

end ExfatSuperBlock

def fatFree : Nat := 0x00000000

def fatBad : Nat := 0xFFFFFFF7

def fatEnd : Nat := 0x0FFFFFFF

variable (dev : BlockDevice) (sb : ExfatSuperBlock)

def fatSector (cluster : Nat) : Nat :=
  (sb.fatOffset + cluster * 4 % 2 ^ 32 / sb.bytesPerSector) % 2 ^ 32

def fatEntry (cluster : Nat) : Option Nat :=
  match dev.readSectors (fatSector sb cluster) 1 (List.replicate sb.bytesPerSector 0) with
  | .error _ => none
  | .ok sectorData => some (leNat ((sectorData.drop (cluster * 4 % 2 ^ 32 % sb.bytesPerSector)).take 4))

def follow (cluster : Nat) : Option Nat :=
  match fatEntry dev sb cluster with
  | none => none
  | some entry =>
    if 0x0FFFFFF8 ≤ entry ∨ entry = fatEnd then none
    else if entry = fatFree ∨ entry = fatBad then none
    else some entry

def inVolume (cluster : Nat) : Bool :=
  !(cluster < 2 || (sb.clusterCount + 2) % 2 ^ 32 ≤ cluster)

/-- The loop of `read_fat_chain`, for at most `fuel` turns. -/
def fatLoop : (fuel current : Nat) → List Nat → Option (List Nat)
  | 0, _, _ => none
  | fuel + 1, current, chain =>
    if inVolume sb current then
      match follow dev sb current with
      | none => some (chain ++ [current])
      | some entry => fatLoop fuel entry (chain ++ [current])
    else some chain

def readFatChain (fuel startCluster : Nat) : Option (List Nat) :=
  fatLoop dev sb fuel startCluster []

def readClusterLoop (sector : Nat) : (k i : Nat) → List UInt8 → Except KernelError (List UInt8)
  | 0, _, tempBuf => .ok tempBuf
  | k + 1, i, tempBuf =>
    let offset := i * sb.bytesPerSector
    match dev.readSectors ((sector + i) % 2 ^ 32) 1 ((tempBuf.drop offset).take sb.bytesPerSector) with
    | .error _ => .error .io
    | .ok part =>
      readClusterLoop sector k (i + 1)
        (tempBuf.take offset ++ part ++ tempBuf.drop (offset + sb.bytesPerSector))

def readCluster (cluster len : Nat) : Except KernelError (List UInt8) :=
  let clusterSize := sb.bytesPerSector * sb.sectorsPerCluster
  if clusterSize < len then .error .invalidArgument
  else match readClusterLoop dev sb (sb.clusterToSector cluster) sb.sectorsPerCluster 0
      (List.replicate clusterSize 0) with
    | .error e => .error e
    | .ok tempBuf => .ok (tempBuf.take len)

def writeClusterLoop (dev : BlockDevice) (sb : ExfatSuperBlock) (sector : Nat) (buf : List UInt8) :
    (k i : Nat) → BlockDevice × Except KernelError Unit
  | 0, _ => (dev, .ok ())
  | k + 1, i =>
    match dev.writeSectors ((sector + i) % 2 ^ 32) 1
        ((buf.drop (i * sb.bytesPerSector)).take sb.bytesPerSector) with
    | (dev, .error _) => (dev, .error .io)
    | (dev, .ok ()) => writeClusterLoop dev sb sector buf k (i + 1)

def writeCluster (cluster : Nat) (data : List UInt8) : BlockDevice × Except KernelError Unit :=
  let clusterSize := sb.bytesPerSector * sb.sectorsPerCluster
  if clusterSize < data.length then (dev, .error .invalidArgument)
  else writeClusterLoop dev sb (sb.clusterToSector cluster)
    (data ++ List.replicate (clusterSize - data.length) 0) sb.sectorsPerCluster 0

def readFileLoop (len : Nat) : List Nat → List UInt8 → Nat → Option (Except KernelError (List UInt8))
  | [], done, _ => some (.ok done)
  | cluster :: chain, done, pos =>
    match readCluster dev sb cluster sb.bytesPerCluster with
    | .error e => some (.error e)
    | .ok clusterData =>
      if sb.bytesPerCluster = 0 then none
      else
        let offsetInCluster := pos % sb.bytesPerCluster
        let toRead := min (len - done.length) (sb.bytesPerCluster - offsetInCluster)
        let done := done ++ (clusterData.drop offsetInCluster).take toRead
        if len ≤ done.length then some (.ok done) else readFileLoop len chain done (pos + toRead)

def readFile (fuel startCluster offset len : Nat) : Option (Except KernelError (List UInt8)) :=
  (readFatChain dev sb fuel startCluster).bind fun chain => readFileLoop dev sb len chain [] offset

def writeFileLoop (dev : BlockDevice) (sb : ExfatSuperBlock) (buf : List UInt8) :
    List Nat → (written pos : Nat) → Option (BlockDevice × Except KernelError Nat)
  | [], written, _ => some (dev, .ok written)
  | cluster :: chain, written, pos =>
    match readCluster dev sb cluster sb.bytesPerCluster with
    | .error e => some (dev, .error e)
    | .ok clusterData =>
      if sb.bytesPerCluster = 0 then none
      else
        let offsetInCluster := pos % sb.bytesPerCluster
        let toWrite := min (buf.length - written) (sb.bytesPerCluster - offsetInCluster)
        if 0 < toWrite then
          let clusterData := clusterData.take offsetInCluster ++ (buf.drop written).take toWrite ++
            clusterData.drop (offsetInCluster + toWrite)
          match writeCluster dev sb cluster clusterData with
          | (dev, .error e) => some (dev, .error e)
          | (dev, .ok ()) =>
            if buf.length ≤ written + toWrite then some (dev, .ok (written + toWrite))
            else writeFileLoop dev sb buf chain (written + toWrite) (pos + toWrite)
        else if buf.length ≤ written then some (dev, .ok written)
        else writeFileLoop dev sb buf chain written pos

def writeFile (fuel startCluster offset : Nat) (buf : List UInt8) :
    Option (BlockDevice × Except KernelError Nat) :=
  (readFatChain dev sb fuel startCluster).bind fun chain => writeFileLoop dev sb buf chain 0 offset

def nextCluster (cluster : Nat) : Option Nat := (follow dev sb cluster).filter (inVolume sb)

def visited (start n : Nat) : Option Nat :=
  if inVolume sb start then chase (nextCluster dev sb) n start else none

open List Option

variable {dev dev' : BlockDevice} {sb : ExfatSuperBlock} {fuel start : Nat} {chain : List Nat} {c : Nat}

theorem inVolume_iff : inVolume sb c = true ↔ 2 ≤ c ∧ c < (sb.clusterCount + 2) % 2 ^ 32 := by
  simp only [inVolume, Bool.not_eq_true', Bool.or_eq_false_iff, decide_eq_false_iff_not, Nat.not_lt, Nat.not_le]

theorem fatLoop_outside {acc : List Nat} (h : inVolume sb c = false) :
    fatLoop dev sb (fuel + 1) c acc = some acc := by
  rw [fatLoop, h]
  rfl

theorem nextCluster_some {c e : Nat} (hf : follow dev sb c = some e) (he : inVolume sb e = true) :
    nextCluster dev sb c = some e := by
  rw [nextCluster, hf, filter_some_pos he]

theorem nextCluster_outside {c e : Nat} (hf : follow dev sb c = some e) (he : inVolume sb e = false) :
    nextCluster dev sb c = none := by
  rw [nextCluster, hf, filter_some_neg (by simp [he])]

theorem trail_of_fatLoop {acc r : List Nat} (hc : inVolume sb c = true)
    (h : fatLoop dev sb fuel c acc = some r) : ∃ l, trail (nextCluster dev sb) fuel c = some l ∧ r = acc ++ l := by
  induction fuel generalizing c acc with
  | zero => cases h
  | succ fuel ih =>
    rw [fatLoop, if_pos hc] at h
    cases hf : follow dev sb c with
    | none =>
      rw [hf] at h
      cases h
      exact ⟨[c], by simp [trail, nextCluster, hf], rfl⟩
    | some e =>
      rw [hf] at h
      dsimp only at h
      cases he : inVolume sb e with
      | false =>
        refine ⟨[c], by simp [trail, nextCluster_outside hf he], ?_⟩
        cases fuel with
        | zero => cases h
        | succ fuel =>
          rw [fatLoop_outside he] at h
          exact (some.inj h).symm
      | true =>
        obtain ⟨l, hl, rfl⟩ := ih he h
        exact ⟨c :: l, by simp [trail, nextCluster_some hf he, hl], by simp⟩

theorem fatLoop_of_trail {acc l : List Nat} (hc : inVolume sb c = true)
    (h : trail (nextCluster dev sb) fuel c = some l) : fatLoop dev sb (fuel + 1) c acc = some (acc ++ l) := by
  induction fuel generalizing c acc l with
  | zero => cases h
  | succ fuel ih =>
    rw [fatLoop, if_pos hc]
    cases hf : follow dev sb c with
    | none =>
      rw [trail, show nextCluster dev sb c = none by simp [nextCluster, hf]] at h
      cases h
      rfl
    | some e =>
      dsimp only
      cases he : inVolume sb e with
      | false =>
        rw [trail, nextCluster_outside hf he] at h
        cases h
        exact fatLoop_outside he
      | true =>
        rw [trail, nextCluster_some hf he] at h
        obtain ⟨rest, hrest, rfl⟩ := map_eq_some_iff.mp h
        rw [ih he hrest, append_assoc]
        rfl

theorem visited_inVolume {n c : Nat} (h : visited dev sb start n = some c) : inVolume sb c = true := by
  rw [visited] at h
  split_ifs at h with hstart
  induction n generalizing start with
  | zero =>
    cases h
    exact hstart
  | succ n ih =>
    cases hnext : nextCluster dev sb start with
    | none =>
      rw [chase, hnext] at h
      cases h
    | some e =>
      rw [chase_succ hnext] at h
      exact ih (filter_eq_some_iff.mp hnext).2 h

theorem inVolume_mem (h : inVolume sb c = true) : c ∈ Finset.Ico 2 (sb.clusterCount + 2) := by
  obtain ⟨hlow, hhigh⟩ := inVolume_iff.mp h
  exact Finset.mem_Ico.mpr ⟨hlow, by omega⟩

section

variable (h : readFatChain dev sb fuel start = some chain)

include h

theorem readFatChain_visited (n : Nat) : chain[n]? = visited dev sb start n := by
  rw [visited]
  split_ifs with hstart
  · obtain ⟨l, hl, rfl⟩ := trail_of_fatLoop hstart h
    exact trail_getElem? hl n
  · cases fuel with
    | zero => cases h
    | succ fuel =>
      rw [readFatChain, fatLoop_outside (by simpa using hstart)] at h
      cases h
      rfl

theorem readFatChain_nodup : chain.Nodup := by
  cases hstart : inVolume sb start with
  | true =>
    obtain ⟨l, hl, rfl⟩ := trail_of_fatLoop hstart h
    exact trail_nodup hl
  | false =>
    cases fuel with
    | zero => cases h
    | succ fuel =>
      rw [readFatChain, fatLoop_outside hstart] at h
      cases h
      exact nodup_nil

theorem readFatChain_inVolume {c : Nat} (hc : c ∈ chain) : inVolume sb c = true := by
  obtain ⟨n, hn⟩ := mem_iff_getElem?.mp hc
  rw [readFatChain_visited h] at hn
  exact visited_inVolume hn

theorem readFatChain_length : chain.length ≤ sb.clusterCount := by
  have hsub : chain.toFinset ⊆ Finset.Ico 2 (sb.clusterCount + 2) := by
    intro c hc
    exact inVolume_mem (readFatChain_inVolume h (mem_toFinset.mp hc))
  have hcard := Finset.card_le_card hsub
  rw [toFinset_card_of_nodup (readFatChain_nodup h), Nat.card_Ico] at hcard
  omega

end

def Acyclic (dev : BlockDevice) (sb : ExfatSuperBlock) (start : Nat) : Prop :=
  ∀ i j c, i < j → visited dev sb start i = some c → visited dev sb start j ≠ some c

/-- The walk returns exactly along entries that do not lead back, and whenever it returns its clusters
are distinct and no more than the volume has. -/
theorem read_fat_chain_returns_iff (dev : BlockDevice) (sb : ExfatSuperBlock) (start : Nat) :
    ((∃ fuel chain, readFatChain dev sb fuel start = some chain) ↔ Acyclic dev sb start) ∧
      ∀ fuel chain, readFatChain dev sb fuel start = some chain →
        chain.Nodup ∧ chain.length ≤ sb.clusterCount := by
  refine ⟨?_, fun fuel chain h => ⟨readFatChain_nodup h, readFatChain_length h⟩⟩
  cases hstart : inVolume sb start with
  | false =>
    refine iff_of_true ⟨1, [], fatLoop_outside hstart⟩ fun i j c _ hi => ?_
    rw [visited, hstart] at hi
    cases hi
  | true =>
    have hvisited : ∀ n, visited dev sb start n = chase (nextCluster dev sb) n start := by
      intro n
      rw [visited, if_pos hstart]
    have hends := @trail_returns_iff _ (nextCluster dev sb) start (Finset.Ico 2 (sb.clusterCount + 2))
      fun n c hc => inVolume_mem (visited_inVolume ((hvisited n).trans hc))
    simp only [Acyclic, hvisited]
    rw [← hends]
    constructor
    · rintro ⟨fuel, chain, h⟩
      obtain ⟨l, hl, -⟩ := trail_of_fatLoop hstart h
      exact ⟨fuel, l, hl⟩
    · rintro ⟨fuel, l, hl⟩
      exact ⟨fuel + 1, l, fatLoop_of_trail hstart hl⟩

def smallVolume : ExfatSuperBlock := ⟨1, 2, 10, 9, 0⟩

def loopedDevice : BlockDevice := ⟨16, fun a => if a = 520 then 2 else 0⟩

theorem cyclic_fat_never_returns :
    ¬ ∀ dev sb start, ∃ fuel chain, readFatChain dev sb fuel start = some chain := by
  intro hall
  obtain ⟨fuel, chain, h⟩ := hall loopedDevice smallVolume 2
  have hfollow : follow loopedDevice smallVolume 2 = some 2 := by decide +kernel
  have hstays : ∀ fuel acc, fatLoop loopedDevice smallVolume fuel 2 acc = none := by
    intro fuel
    induction fuel with
    | zero => exact fun _ => rfl
    | succ fuel ih =>
      intro acc
      rw [fatLoop, if_pos (by decide), hfollow]
      exact ih _
  rw [readFatChain, hstays] at h
  cases h

end AntX.Exfat
