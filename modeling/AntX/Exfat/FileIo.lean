import AntX.Exfat.ExfatFs

/-! Clusters and files of services/fs/exfat (alloc.rs, read.rs): for which requests `read_file` and
`write_file` work on the bytes at the offset. -/

namespace AntX.Exfat

open AntX.Lib AntX.Driver List BlockDevice Memory ExfatSuperBlock

section Clusters

variable {dev : BlockDevice} {sb : ExfatSuperBlock} {sector cluster len i k x : Nat}

namespace ExfatSuperBlock

def clusterSize (sb : ExfatSuperBlock) : Nat := sb.bytesPerSector * sb.sectorsPerCluster

def firstSector (sb : ExfatSuperBlock) (cluster : Nat) : Nat :=
  sb.clusterHeapOffset + (cluster - 2) * sb.sectorsPerCluster

theorem bytesPerSector_pos (sb : ExfatSuperBlock) : 0 < sb.bytesPerSector := Nat.two_pow_pos _

theorem sectorsPerCluster_pos (sb : ExfatSuperBlock) : 0 < sb.sectorsPerCluster := Nat.two_pow_pos _

theorem clusterSize_pos (sb : ExfatSuperBlock) : 0 < sb.clusterSize :=
  Nat.mul_pos sb.bytesPerSector_pos sb.sectorsPerCluster_pos

theorem bytesPerCluster_eq (h : sb.clusterSize < 2 ^ 32) : sb.bytesPerCluster = sb.clusterSize :=
  Nat.mod_eq_of_lt h

/-- Sizes are powers of two, so a size that does not fit in a `u32` becomes 0. -/
theorem clusterSize_lt (h : sb.bytesPerCluster ≠ 0) : sb.clusterSize < 2 ^ 32 := by
  by_contra hlarge
  apply h
  have hpow : sb.clusterSize = 2 ^ (sb.bytesPerSectorShift % 32 + sb.sectorsPerClusterShift % 32) :=
    (Nat.pow_add ..).symm
  have hexp : 32 ≤ sb.bytesPerSectorShift % 32 + sb.sectorsPerClusterShift % 32 := by
    by_contra hsmall
    exact hlarge (hpow ▸ Nat.pow_lt_pow_right (by decide) (Nat.lt_of_not_le hsmall))
  have hdvd : 2 ^ 32 ∣ sb.clusterSize := hpow ▸ Nat.pow_dvd_pow 2 hexp
  exact Nat.mod_eq_zero_of_dvd hdvd

end ExfatSuperBlock

def sectorBytes (dev : BlockDevice) (sb : ExfatSuperBlock) (sector j : Nat) : List UInt8 :=
  dev.mem.load (512 * ((sector + j) % 2 ^ 32)) 512 ++ List.replicate (sb.bytesPerSector - 512) 0

theorem length_sectorBytes (h : 512 ≤ sb.bytesPerSector) (j : Nat) :
    (sectorBytes dev sb sector j).length = sb.bytesPerSector := by
  rw [sectorBytes, length_append, length_load, length_replicate]
  omega

theorem readClusterLoop_ok (h512 : 512 ≤ sb.bytesPerSector) {done : List UInt8}
    (hdone : done.length = i * sb.bytesPerSector)
    (hdev : ∀ j, i ≤ j → j < i + k → (sector + j) % 2 ^ 32 < dev.sectors) :
    readClusterLoop dev sb sector k i (done ++ replicate (k * sb.bytesPerSector) 0) =
      .ok (done ++ (range' i k).flatMap (sectorBytes dev sb sector)) := by
  induction k generalizing i done with
  | zero => simp [readClusterLoop]
  | succ k ih =>
    have hrest : (k + 1) * sb.bytesPerSector = sb.bytesPerSector + k * sb.bytesPerSector := by
      rw [Nat.succ_mul, Nat.add_comm]
    have hzeros : replicate ((k + 1) * sb.bytesPerSector) (0 : UInt8) =
        replicate sb.bytesPerSector 0 ++ replicate (k * sb.bytesPerSector) 0 := by
      rw [hrest, replicate_add]
    have hlen : (done ++ replicate sb.bytesPerSector (0 : UInt8)).length =
        i * sb.bytesPerSector + sb.bytesPerSector := by
      rw [length_append, length_replicate, hdone]
    have hnext : (done ++ sectorBytes dev sb sector i).length = (i + 1) * sb.bytesPerSector := by
      rw [length_append, hdone, length_sectorBytes h512, Nat.succ_mul]
    rw [readClusterLoop, drop_left' hdone, take_left' hdone, hzeros, take_left' length_replicate,
      ← append_assoc, drop_left' hlen, readSectors_one,
      if_neg (by rw [length_replicate]; omega),
      if_pos (hdev i (Nat.le_refl i) (by omega))]
    dsimp only
    have htail := ih hnext fun j hj hlt => hdev j (by omega) (by omega)
    rw [range'_succ, flatMap_cons, ← append_assoc done (sectorBytes dev sb sector i), ← htail,
      drop_replicate, sectorBytes, ← append_assoc]

theorem readClusterLoop_inv {tempBuf data : List UInt8}
    (h : readClusterLoop dev sb sector k i tempBuf = .ok data) (hk : 0 < k) :
    512 ≤ sb.bytesPerSector ∧ ∀ j, i ≤ j → j < i + k → (sector + j) % 2 ^ 32 < dev.sectors := by
  induction k generalizing i tempBuf with
  | zero => omega
  | succ k ih =>
    rw [readClusterLoop, readSectors_one] at h
    by_cases hshort : ((tempBuf.drop (i * sb.bytesPerSector)).take sb.bytesPerSector).length < 512
    · rw [if_pos hshort] at h
      cases h
    · rw [if_neg hshort] at h
      by_cases hin : (sector + i) % 2 ^ 32 < dev.sectors
      · rw [if_pos hin] at h
        have h512 : 512 ≤ sb.bytesPerSector := by
          rw [length_take] at hshort
          omega
        refine ⟨h512, fun j hj hlt => ?_⟩
        obtain rfl | hlater := Nat.eq_or_lt_of_le hj
        · exact hin
        · exact (ih h (by omega)).2 j hlater (by omega)
      · rw [if_neg hin] at h
        cases h

def sectorsOnDevice (dev : BlockDevice) (sb : ExfatSuperBlock) (cluster : Nat) : Prop :=
  ∀ j, j < sb.sectorsPerCluster → (sb.clusterToSector cluster + j) % 2 ^ 32 < dev.sectors

theorem readCluster_ok (h512 : 512 ≤ sb.bytesPerSector) (hdev : sectorsOnDevice dev sb cluster)
    (hlen : len ≤ sb.clusterSize) :
    readCluster dev sb cluster len = .ok (((range' 0 sb.sectorsPerCluster).flatMap
        (sectorBytes dev sb (sb.clusterToSector cluster))).take len) := by
  have hloop := @readClusterLoop_ok dev sb (sb.clusterToSector cluster) 0 sb.sectorsPerCluster h512 []
    (by simp) fun j _ hj => hdev j (by omega)
  rw [nil_append, nil_append, Nat.mul_comm] at hloop
  have hfits : ¬ sb.bytesPerSector * sb.sectorsPerCluster < len := Nat.not_lt.mpr hlen
  rw [readCluster, if_neg hfits, hloop]

theorem readCluster_inv {data : List UInt8} (h : readCluster dev sb cluster len = .ok data) :
    512 ≤ sb.bytesPerSector ∧ sectorsOnDevice dev sb cluster := by
  rw [readCluster] at h
  split_ifs at h
  cases hloop : readClusterLoop dev sb (sb.clusterToSector cluster) sb.sectorsPerCluster 0
      (replicate (sb.bytesPerSector * sb.sectorsPerCluster) 0) with
  | error e =>
    rw [hloop] at h
    cases h
  | ok tempBuf =>
    obtain ⟨h512, hdev⟩ := readClusterLoop_inv hloop sb.sectorsPerCluster_pos
    exact ⟨h512, fun j hj => hdev j (Nat.zero_le j) (by omega)⟩

def clusterByte (dev : BlockDevice) (sb : ExfatSuperBlock) (cluster x : Nat) : UInt8 :=
  if x % sb.bytesPerSector < 512 then
    dev.mem (512 * ((sb.clusterToSector cluster + x / sb.bytesPerSector) % 2 ^ 32) + x % sb.bytesPerSector)
  else 0

theorem readCluster_byte {data : List UInt8} (h : readCluster dev sb cluster len = .ok data) (hx : x < len)
    (hlen : len ≤ sb.clusterSize) : data[x]? = some (clusterByte dev sb cluster x) := by
  obtain ⟨h512, hdev⟩ := readCluster_inv h
  rw [readCluster_ok h512 hdev hlen] at h
  obtain rfl := Except.ok.inj h
  have hsector : x / sb.bytesPerSector < sb.sectorsPerCluster :=
    Nat.div_lt_of_lt_mul (Nat.lt_of_lt_of_le hx hlen)
  have hmod : x % sb.bytesPerSector < sb.bytesPerSector := Nat.mod_lt x sb.bytesPerSector_pos
  rw [getElem?_take_of_lt hx, getElem?_pieces sb.bytesPerSector_pos fun j _ => length_sectorBytes h512 j,
    getElem?_range' (by simpa using hsector), Option.bind_some, clusterByte, sectorBytes]
  by_cases hbyte : x % sb.bytesPerSector < 512
  · rw [if_pos hbyte, getElem?_append_left (by simpa using hbyte)]
    simp [Memory.load, hbyte]
  · rw [if_neg hbyte, getElem?_append_right (by simpa using hbyte), length_load,
      getElem?_replicate_of_lt (by omega)]

structure Addressable (sb : ExfatSuperBlock) (cluster : Nat) : Prop where
  sector : sb.bytesPerSector = 512
  size : sb.clusterSize < 2 ^ 32
  last : sb.firstSector cluster + sb.sectorsPerCluster ≤ 2 ^ 32

section

variable (h : Addressable sb cluster)

include h

theorem Addressable.size_eq : sb.clusterSize = 512 * sb.sectorsPerCluster := by
  rw [clusterSize, h.sector]

theorem Addressable.sector_eq {j : Nat} (hj : j < sb.sectorsPerCluster) :
    (sb.clusterToSector cluster + j) % 2 ^ 32 = sb.firstSector cluster + j := by
  have hlast := h.last
  have hfirst : sb.clusterToSector cluster = sb.firstSector cluster := Nat.mod_eq_of_lt (by
    rw [firstSector] at hlast
    omega)
  rw [hfirst]
  exact Nat.mod_eq_of_lt (by omega)

omit h in
theorem pieces_load (m : Memory) (first i k : Nat) :
    (range' i k).flatMap (fun j => m.load (512 * (first + j)) 512) = m.load (512 * (first + i)) (512 * k) := by
  induction k generalizing i with
  | zero => simp [Memory.load]
  | succ k ih =>
    rw [range'_succ, flatMap_cons, ih, show 512 * (k + 1) = 512 + 512 * k by omega, load_add,
      show 512 * (first + (i + 1)) = 512 * (first + i) + 512 by omega]

theorem Addressable.read (hdev : sb.firstSector cluster + sb.sectorsPerCluster ≤ dev.sectors) :
    readCluster dev sb cluster sb.bytesPerCluster =
      .ok (dev.mem.load (512 * sb.firstSector cluster) sb.clusterSize) := by
  have hpieces : (range' 0 sb.sectorsPerCluster).flatMap (sectorBytes dev sb (sb.clusterToSector cluster)) =
      dev.mem.load (512 * sb.firstSector cluster) sb.clusterSize := by
    rw [h.size_eq]
    refine Eq.trans (flatMap_congr fun j hj => ?_) (pieces_load dev.mem (sb.firstSector cluster) 0 _)
    have hj' : j < sb.sectorsPerCluster := by simpa using hj
    rw [sectorBytes, h.sector_eq hj', h.sector]
    simp
  have hlen : (dev.mem.load (512 * sb.firstSector cluster) sb.clusterSize).length = sb.clusterSize :=
    length_load
  rw [bytesPerCluster_eq h.size,
    readCluster_ok (Nat.le_of_eq h.sector.symm) (fun j hj => by rw [h.sector_eq hj]; omega) (Nat.le_refl _), hpieces,
    take_of_length_le (Nat.le_of_eq hlen)]

theorem Addressable.writeLoop {data : List UInt8} (hdata : data.length = 512 * sb.sectorsPerCluster)
    (hdev : sb.firstSector cluster + sb.sectorsPerCluster ≤ dev.sectors)
    (hk : i + k = sb.sectorsPerCluster) :
    writeClusterLoop dev sb (sb.clusterToSector cluster) data k i =
      ({ dev with mem := dev.mem.store (512 * (sb.firstSector cluster + i)) (data.drop (512 * i)) }, .ok ()) := by
  induction k generalizing i dev with
  | zero =>
    have hnil : data.drop (512 * i) = [] := drop_eq_nil_of_le (by omega)
    rw [writeClusterLoop, hnil, store_nil]
  | succ k ih =>
    have hlen : ((data.drop (512 * i)).take 512).length = 512 := by
      rw [length_take, length_drop]
      omega
    have hsplit : data.drop (512 * i) = (data.drop (512 * i)).take 512 ++ data.drop (512 * (i + 1)) := by
      rw [show 512 * (i + 1) = 512 * i + 512 by omega, ← drop_drop, take_append_drop]
    rw [writeClusterLoop, h.sector, h.sector_eq (by omega), Nat.mul_comm i,
      writeSectors_ok (by omega) (by omega), Nat.mul_one, take_take, Nat.min_self]
    refine (ih (by exact hdev) (by omega)).trans ?_
    conv_rhs => rw [hsplit, ← store_append, hlen]
    congr 1

theorem Addressable.write {data : List UInt8} (hdata : data.length = sb.clusterSize)
    (hdev : sb.firstSector cluster + sb.sectorsPerCluster ≤ dev.sectors) :
    writeCluster dev sb cluster data =
      ({ dev with mem := dev.mem.store (512 * sb.firstSector cluster) data }, .ok ()) := by
  have hfits : ¬ sb.bytesPerSector * sb.sectorsPerCluster < data.length := Nat.not_lt.mpr (Nat.le_of_eq hdata)
  have hpad : sb.bytesPerSector * sb.sectorsPerCluster - data.length = 0 := by
    rw [hdata, clusterSize, Nat.sub_self]
  rw [writeCluster, if_neg hfits, hpad, replicate_zero, append_nil,
    h.writeLoop (hdata.trans h.size_eq) hdev (Nat.zero_add _)]
  rfl

end

end Clusters

open Function

variable {dev dev' : BlockDevice} {sb : ExfatSuperBlock} {fuel start offset len pos p q : Nat} {chain : List Nat}
  {suf : List Nat}

section

variable (sb : ExfatSuperBlock) (fuel start : Nat) (chain : List Nat) (dev : BlockDevice)

def place (p : Nat) : Nat :=
  sb.bytesPerSector * sb.clusterHeapOffset + (chain.getD (p / sb.clusterSize) 0 - 2) * sb.clusterSize +
    p % sb.clusterSize

def bytesAt (dev : BlockDevice) (sb : ExfatSuperBlock) (chain : List Nat) (pos n : Nat) : List UInt8 :=
  (range n).map fun k => dev.mem (place sb chain (pos + k))

structure OnDevice (dev : BlockDevice) (sb : ExfatSuperBlock) (chain : List Nat) : Prop where
  fits : ∀ c ∈ chain, sb.bytesPerSector * (sb.firstSector c + sb.sectorsPerCluster) ≤ 512 * dev.sectors
  fatBefore : ∀ c ∈ chain, 512 * (fatSector sb c + 1) ≤ sb.bytesPerSector * sb.clusterHeapOffset

structure SameVolume (sb : ExfatSuperBlock) (dev dev' : BlockDevice) : Prop where
  sectors : dev'.sectors = dev.sectors
  before : ∀ a, a < sb.bytesPerSector * sb.clusterHeapOffset → dev'.mem a = dev.mem a

def ReadsAt (offset len : Nat) : Prop :=
  readFile dev sb fuel start offset len = some (.ok (bytesAt dev sb chain offset len))

/-- The write puts the data at the offset, leaves every other byte of the device as it was, and the
data can be read back. -/
def WritesAt (offset : Nat) (data : List UInt8) : Prop :=
  ∃ dev', writeFile dev sb fuel start offset data = some (dev', .ok data.length) ∧ dev'.sectors = dev.sectors ∧
    (∀ k, k < data.length → dev'.mem (place sb chain (offset + k)) = data.getD k 0) ∧
    (∀ a, (∀ k, k < data.length → a ≠ place sb chain (offset + k)) → dev'.mem a = dev.mem a) ∧
    readFile dev' sb fuel start offset data.length = some (.ok data)

/-- Whatever the clusters contain, a read and a write of `len` bytes work on the bytes at the offset. -/
def RequestPositional (offset len : Nat) : Prop :=
  ∀ dev', SameVolume sb dev dev' → ReadsAt sb fuel start chain dev' offset len ∧
    ∀ data : List UInt8, data.length = len → WritesAt sb fuel start chain dev' offset data

def FilePositional : Prop :=
  ∀ offset len, offset + len ≤ chain.length * sb.clusterSize → RequestPositional sb fuel start chain dev offset len

end

theorem place_in_cluster {j o c : Nat} (hc : chain[j]? = some c) (ho : o < sb.clusterSize) :
    place sb chain (j * sb.clusterSize + o) = sb.bytesPerSector * sb.firstSector c + o := by
  rw [place, Nat.mul_comm j, Nat.mul_add_div sb.clusterSize_pos, Nat.div_eq_of_lt ho, Nat.add_zero,
    Nat.mul_add_mod, Nat.mod_eq_of_lt ho, getD_eq_getElem?_getD, hc, Option.getD_some, firstSector,
    Nat.mul_add _ sb.clusterHeapOffset, Nat.mul_left_comm _ (c - 2), clusterSize]

theorem place_inj (hnd : chain.Nodup) (hlow : ∀ c ∈ chain, 2 ≤ c) (hp : p < chain.length * sb.clusterSize)
    (hq : q < chain.length * sb.clusterSize) (h : place sb chain p = place sb chain q) : p = q := by
  have hpos := sb.clusterSize_pos
  have hp' : p / sb.clusterSize < chain.length := Nat.div_lt_of_lt_mul (by rwa [Nat.mul_comm])
  have hq' : q / sb.clusterSize < chain.length := Nat.div_lt_of_lt_mul (by rwa [Nat.mul_comm])
  rw [place, place, Nat.add_assoc, Nat.add_assoc, getD_eq_getElem _ _ hp', getD_eq_getElem _ _ hq'] at h
  have hsum := Nat.add_left_cancel h
  have hmod : p % sb.clusterSize = q % sb.clusterSize := by
    have hm := congrArg (· % sb.clusterSize) hsum
    simpa [Nat.mul_add_mod_of_lt, Nat.mul_mod_left, Nat.add_mod] using hm
  have hdiv : chain[p / sb.clusterSize] - 2 = chain[q / sb.clusterSize] - 2 := by
    rw [hmod] at hsum
    exact Nat.eq_of_mul_eq_mul_right hpos (Nat.add_right_cancel hsum)
  have hlp := hlow _ (getElem_mem hp')
  have hlq := hlow _ (getElem_mem hq')
  have hidx : p / sb.clusterSize = q / sb.clusterSize :=
    (List.Nodup.getElem_inj_iff hnd).mp (show chain[p / sb.clusterSize] = chain[q / sb.clusterSize] by omega)
  rw [← Nat.div_add_mod p sb.clusterSize, ← Nat.div_add_mod q sb.clusterSize, hidx, hmod]

theorem bytesAt_add (n k : Nat) :
    bytesAt dev sb chain pos (n + k) = bytesAt dev sb chain pos n ++ bytesAt dev sb chain (pos + n) k := by
  simp [bytesAt, range_add, comp_def, Nat.add_assoc]

@[simp] theorem length_bytesAt (n : Nat) : (bytesAt dev sb chain pos n).length = n := by simp [bytesAt]

theorem bytesAt_in_cluster {j o c n : Nat} (hc : chain[j]? = some c) (hn : o + n ≤ sb.clusterSize) :
    bytesAt dev sb chain (j * sb.clusterSize + o) n = dev.mem.load (sb.bytesPerSector * sb.firstSector c + o) n := by
  apply map_congr_left
  intro k hk
  have hk' := mem_range.mp hk
  rw [Nat.add_assoc, place_in_cluster hc (by omega), Nat.add_assoc]

theorem fatEntry_congr (hs : SameVolume sb dev dev') {c : Nat}
    (hc : 512 * (fatSector sb c + 1) ≤ sb.bytesPerSector * sb.clusterHeapOffset) :
    fatEntry dev' sb c = fatEntry dev sb c := by
  have hload : dev'.mem.load (512 * fatSector sb c) 512 = dev.mem.load (512 * fatSector sb c) 512 :=
    load_congr fun i hi => hs.before _ (by omega)
  rw [fatEntry, fatEntry, BlockDevice.readSectors_one, BlockDevice.readSectors_one, hs.sectors, hload]

/-- The walk reads the entries of the clusters in its answer only. -/
theorem fatLoop_congr {c : Nat} {acc r : List Nat} (h : fatLoop dev sb fuel c acc = some r) :
    acc ⊆ r ∧ ((∀ c ∈ r, fatEntry dev' sb c = fatEntry dev sb c) → fatLoop dev' sb fuel c acc = some r) := by
  induction fuel generalizing c acc with
  | zero => cases h
  | succ fuel ih =>
    rw [fatLoop] at h ⊢
    split_ifs at h ⊢ with hc
    · cases hf : follow dev sb c with
      | none =>
        rw [hf] at h
        cases h
        refine ⟨subset_append_left _ _, fun hsame => ?_⟩
        rw [follow, hsame c (by simp), ← follow, hf]
      | some e =>
        rw [hf] at h
        obtain ⟨hsub, hloop⟩ := ih h
        refine ⟨fun x hx => hsub (mem_append_left _ hx), fun hsame => ?_⟩
        rw [follow, hsame c (hsub (by simp)), ← follow, hf]
        exact hloop hsame
    · cases h
      exact ⟨List.Subset.refl _, fun _ => rfl⟩

theorem OnDevice.same (h : OnDevice dev sb chain) (hs : dev'.sectors = dev.sectors) : OnDevice dev' sb chain :=
  ⟨fun c hc => hs ▸ h.fits c hc, h.fatBefore⟩

theorem OnDevice.cluster (h : OnDevice dev sb chain) {c : Nat} (hc : c ∈ chain) (ha : Addressable sb c) :
    sb.firstSector c + sb.sectorsPerCluster ≤ dev.sectors := by
  have hfits := h.fits c hc
  rw [ha.sector] at hfits
  omega

theorem readFileLoop_cons {c j o n : Nat} {done : List UInt8} (hc : chain[j]? = some c)
    (ha : Addressable sb c) (hdev : sb.firstSector c + sb.sectorsPerCluster ≤ dev.sectors) (ho : o < sb.clusterSize)
    (hn : n = min (len - done.length) (sb.clusterSize - o)) :
    readFileLoop dev sb len (c :: suf) done (j * sb.clusterSize + o) =
      if len ≤ done.length + n then some (.ok (done ++ bytesAt dev sb chain (j * sb.clusterSize + o) n))
      else readFileLoop dev sb len suf (done ++ bytesAt dev sb chain (j * sb.clusterSize + o) n)
        (j * sb.clusterSize + o + n) := by
  have hpiece : ((dev.mem.load (512 * sb.firstSector c) sb.clusterSize).drop o).take n =
      bytesAt dev sb chain (j * sb.clusterSize + o) n := by
    rw [load_slice (by omega), bytesAt_in_cluster hc (by omega), ha.sector]
  rw [readFileLoop, ha.read hdev]
  dsimp only
  rw [bytesPerCluster_eq ha.size, if_neg (Nat.ne_of_gt sb.clusterSize_pos), Nat.mul_add_mod_of_lt ho, ← hn, hpiece,
    length_append, length_bytesAt]

theorem readFileLoop_spec (haddr : ∀ c ∈ chain, Addressable sb c) (hon : OnDevice dev sb chain)
    {pre suf : List Nat} (hchain : pre ++ suf = chain) {done : List UInt8} {o : Nat} (ho : o < sb.clusterSize)
    (hdone : done.length ≤ len)
    (hend : pre.length * sb.clusterSize + o + (len - done.length) ≤ chain.length * sb.clusterSize) :
    readFileLoop dev sb len suf done (pre.length * sb.clusterSize + o) =
      some (.ok (done ++ bytesAt dev sb chain (pre.length * sb.clusterSize + o) (len - done.length))) := by
  induction suf generalizing pre done o with
  | nil =>
    rw [append_nil] at hchain
    subst hchain
    have hall : len - done.length = 0 := by omega
    rw [readFileLoop, hall]
    simp [bytesAt]
  | cons c suf ih =>
    have hmem : c ∈ chain := by simp [← hchain]
    have hget : chain[pre.length]? = some c := by simp [← hchain]
    obtain ⟨n, hn⟩ : ∃ n, n = min (len - done.length) (sb.clusterSize - o) := ⟨_, rfl⟩
    have hlen : (done ++ bytesAt dev sb chain (pre.length * sb.clusterSize + o) n).length = done.length + n := by
      rw [length_append, length_bytesAt]
    rw [readFileLoop_cons hget (haddr c hmem) (hon.cluster hmem (haddr c hmem)) ho hn]
    by_cases hlast : len ≤ done.length + n
    · rw [if_pos hlast, show len - done.length = n by omega]
    · have hnext : pre.length * sb.clusterSize + o + n = (pre ++ [c]).length * sb.clusterSize + 0 := by
        rw [length_append, length_singleton, Nat.succ_mul]
        omega
      have hsplit : len - done.length = n + (len - (done.length + n)) := by omega
      have hrest := @ih (pre ++ [c]) (by simpa using hchain) _ 0 sb.clusterSize_pos (by rw [hlen]; omega)
        (by omega)
      rw [if_neg hlast, hnext, hrest, hlen, ← hnext, hsplit, bytesAt_add, append_assoc]

def putBytes (dev : BlockDevice) (sb : ExfatSuperBlock) (c o : Nat) (bs : List UInt8) : BlockDevice :=
  { dev with mem := dev.mem.store (sb.bytesPerSector * sb.firstSector c + o) bs }

structure Puts (sb : ExfatSuperBlock) (chain : List Nat) (pos : Nat) (bs : List UInt8) (dev dev' : BlockDevice) :
    Prop where
  sectors : dev'.sectors = dev.sectors
  new : ∀ k, k < bs.length → dev'.mem (place sb chain (pos + k)) = bs.getD k 0
  old : ∀ a, (∀ k, k < bs.length → a ≠ place sb chain (pos + k)) → dev'.mem a = dev.mem a

theorem putBytes_puts {j o c : Nat} {bs : List UInt8} (hc : chain[j]? = some c)
    (hbs : o + bs.length ≤ sb.clusterSize) :
    Puts sb chain (j * sb.clusterSize + o) bs dev (putBytes dev sb c o bs) := by
  have hplace : ∀ k, k < bs.length →
      place sb chain (j * sb.clusterSize + o + k) = sb.bytesPerSector * sb.firstSector c + o + k := by
    intro k hk
    rw [Nat.add_assoc, place_in_cluster hc (by omega), Nat.add_assoc]
  refine ⟨rfl, fun k hk => ?_, fun a ha => store_outside ?_⟩
  · rw [hplace k hk]
    exact (store_inside (by omega) (by omega)).trans (by rw [Nat.add_sub_cancel_left])
  · by_contra hin
    have hk : a - (sb.bytesPerSector * sb.firstSector c + o) < bs.length := by omega
    exact ha _ hk (by rw [hplace _ hk]; omega)

theorem Puts.append {bs cs : List UInt8} {dev₁ : BlockDevice} (h : Puts sb chain pos bs dev dev₁)
    (h' : Puts sb chain (pos + bs.length) cs dev₁ dev')
    (hinj : ∀ k k', k < bs.length → k' < cs.length →
      place sb chain (pos + k) ≠ place sb chain (pos + bs.length + k')) :
    Puts sb chain pos (bs ++ cs) dev dev' := by
  refine ⟨h'.sectors.trans h.sectors, fun k hk => ?_, fun a ha => ?_⟩ <;> rw [length_append] at *
  · by_cases hkn : k < bs.length
    · rw [h'.old _ (fun k' hk' => hinj k k' hkn hk'), h.new k hkn, getD_append _ _ _ _ hkn]
    · have hlater := h'.new (k - bs.length) (by omega)
      rwa [Nat.add_assoc, Nat.add_sub_cancel' (by omega), ← getD_append_right _ _ _ _ (by omega)] at hlater
  · rw [h'.old a (fun k hk => Nat.add_assoc pos .. ▸ ha _ (by omega)), h.old a (fun k hk => ha k (by omega))]

theorem writeFileLoop_cons {c j o n written : Nat} {buf : List UInt8} (ha : Addressable sb c)
    (hdev : sb.firstSector c + sb.sectorsPerCluster ≤ dev.sectors) (ho : o < sb.clusterSize)
    (hn : n = min (buf.length - written) (sb.clusterSize - o)) (hpos : 0 < n) :
    writeFileLoop dev sb buf (c :: suf) written (j * sb.clusterSize + o) =
      if buf.length ≤ written + n then
        some (putBytes dev sb c o ((buf.drop written).take n), .ok (written + n))
      else writeFileLoop (putBytes dev sb c o ((buf.drop written).take n)) sb buf suf (written + n)
        (j * sb.clusterSize + o + n) := by
  have hlen : ((buf.drop written).take n).length = n := by
    rw [length_take, length_drop]
    omega
  have hdata : ((dev.mem.load (512 * sb.firstSector c) sb.clusterSize).take o ++ (buf.drop written).take n ++
      (dev.mem.load (512 * sb.firstSector c) sb.clusterSize).drop (o + n)).length = sb.clusterSize := by
    simp only [length_append, length_take, length_drop, length_load]
    omega
  rw [writeFileLoop, ha.read hdev]
  dsimp only
  rw [bytesPerCluster_eq ha.size, if_neg (Nat.ne_of_gt sb.clusterSize_pos), Nat.mul_add_mod_of_lt ho, ← hn,
    if_pos hpos, ha.write hdata hdev, store_patched hlen (by omega), putBytes, ha.sector]

theorem writeFileLoop_spec (haddr : ∀ c ∈ chain, Addressable sb c) (hnd : chain.Nodup)
    (hlow : ∀ c ∈ chain, 2 ≤ c) (hon : OnDevice dev sb chain) {buf : List UInt8}
    {pre suf : List Nat} (hchain : pre ++ suf = chain) {o written : Nat} (ho : o < sb.clusterSize)
    (hwritten : written < buf.length)
    (hend : pre.length * sb.clusterSize + o + (buf.length - written) ≤ chain.length * sb.clusterSize) :
    ∃ dev', writeFileLoop dev sb buf suf written (pre.length * sb.clusterSize + o) = some (dev', .ok buf.length) ∧
      Puts sb chain (pre.length * sb.clusterSize + o) (buf.drop written) dev dev' := by
  induction suf generalizing pre o written dev with
  | nil =>
    rw [append_nil] at hchain
    subst hchain
    omega
  | cons c suf ih =>
    have hmem : c ∈ chain := by simp [← hchain]
    have hget : chain[pre.length]? = some c := by simp [← hchain]
    obtain ⟨n, hn⟩ : ∃ n, n = min (buf.length - written) (sb.clusterSize - o) := ⟨_, rfl⟩
    have hlen : ((buf.drop written).take n).length = n := by
      rw [length_take, length_drop]
      omega
    have hput := @putBytes_puts dev sb chain pre.length o c ((buf.drop written).take n) hget (by omega)
    rw [writeFileLoop_cons (haddr c hmem) (hon.cluster hmem (haddr c hmem)) ho hn (by omega)]
    by_cases hlast : buf.length ≤ written + n
    · rw [take_of_length_le (by rw [length_drop]; omega)] at hput ⊢
      exact ⟨_, by rw [if_pos hlast, show written + n = buf.length by omega], hput⟩
    · have hnext : pre.length * sb.clusterSize + o + n = (pre ++ [c]).length * sb.clusterSize + 0 := by
        rw [length_append, length_singleton, Nat.succ_mul]
        omega
      obtain ⟨dev', hloop, hrest⟩ :=
        @ih (putBytes dev sb c o ((buf.drop written).take n)) (hon.same rfl) (pre ++ [c]) (by simpa using hchain) 0
          (written + n) sb.clusterSize_pos (by omega) (by omega)
      rw [← hnext] at hloop hrest
      refine ⟨dev', by rw [if_neg hlast, hloop], ?_⟩
      rw [← take_append_drop n (buf.drop written), drop_drop]
      refine hput.append (by rwa [hlen]) fun k k' hk hk' heq => ?_
      -- what the later clusters get lies elsewhere
      rw [length_drop] at hk'
      have hsame := place_inj hnd hlow (by omega) (by omega) heq
      omega

structure FileOn (dev : BlockDevice) (sb : ExfatSuperBlock) (fuel start : Nat) (chain : List Nat) : Prop where
  walk : readFatChain dev sb fuel start = some chain
  onDevice : OnDevice dev sb chain

section

variable (h : FileOn dev sb fuel start chain)

include h

theorem FileOn.same (hs : SameVolume sb dev dev') : FileOn dev' sb fuel start chain :=
  ⟨(fatLoop_congr h.walk).2 fun c hc => fatEntry_congr hs (h.onDevice.fatBefore c hc), h.onDevice.same hs.sectors⟩

theorem FileOn.two_le {c : Nat} (hc : c ∈ chain) : 2 ≤ c :=
  (inVolume_iff.mp (readFatChain_inVolume h.walk hc)).1

theorem FileOn.readFile_eq (offset len : Nat) :
    readFile dev sb fuel start offset len = readFileLoop dev sb len chain [] offset := by
  rw [readFile, h.walk, Option.bind_some]

theorem FileOn.writeFile_eq (offset : Nat) (data : List UInt8) :
    writeFile dev sb fuel start offset data = writeFileLoop dev sb data chain 0 offset := by
  rw [writeFile, h.walk, Option.bind_some]

end

theorem heap_le_place (sb : ExfatSuperBlock) (chain : List Nat) (p : Nat) :
    sb.bytesPerSector * sb.clusterHeapOffset ≤ place sb chain p := by
  rw [place, Nat.add_assoc]
  exact Nat.le_add_right _ _

section Addressed

variable (h : FileOn dev sb fuel start chain) (haddr : ∀ c ∈ chain, Addressable sb c)
include h haddr

theorem reads_of_first (hoffset : offset < sb.clusterSize) (hend : offset + len ≤ chain.length * sb.clusterSize) :
    ReadsAt sb fuel start chain dev offset len := by
  have hloop := @readFileLoop_spec dev sb len chain haddr h.onDevice [] chain rfl [] offset hoffset
    (Nat.zero_le _) (by simpa using hend)
  rw [ReadsAt, h.readFile_eq]
  simpa using hloop

theorem reads_nothing (offset : Nat) : ReadsAt sb fuel start chain dev offset 0 := by
  rw [ReadsAt, h.readFile_eq]
  cases chain with
  | nil => rfl
  | cons c rest =>
    have ha := haddr c (by simp)
    rw [readFileLoop, ha.read (h.onDevice.cluster (by simp) ha)]
    dsimp only
    rw [bytesPerCluster_eq ha.size, if_neg (Nat.ne_of_gt sb.clusterSize_pos)]
    simp [bytesAt]

theorem writes_nothing (offset : Nat) : WritesAt sb fuel start chain dev offset [] := by
  refine ⟨dev, ?_, rfl, fun k hk => absurd hk (Nat.not_lt_zero k), fun a _ => rfl, reads_nothing h haddr offset⟩
  rw [h.writeFile_eq]
  cases chain with
  | nil => rfl
  | cons c rest =>
    have ha := haddr c (by simp)
    rw [writeFileLoop, ha.read (h.onDevice.cluster (by simp) ha)]
    dsimp only
    rw [bytesPerCluster_eq ha.size, if_neg (Nat.ne_of_gt sb.clusterSize_pos)]
    simp

theorem writes_of_first {data : List UInt8} (hdata : data ≠ []) (hoffset : offset < sb.clusterSize)
    (hend : offset + data.length ≤ chain.length * sb.clusterSize) : WritesAt sb fuel start chain dev offset data := by
  obtain ⟨dev', hloop, hsec, hnew, hold⟩ :=
    @writeFileLoop_spec dev sb chain haddr (readFatChain_nodup h.walk) (fun _ => h.two_le) h.onDevice data [] chain rfl
      offset 0 hoffset (length_pos_of_ne_nil hdata) (by simpa using hend)
  simp only [length_nil, Nat.zero_mul, Nat.zero_add, drop_zero] at hloop hnew hold
  have hvolume : SameVolume sb dev dev' :=
    ⟨hsec, fun a ha => hold a fun k _ heq => absurd (heap_le_place sb chain (offset + k)) (by omega)⟩
  refine ⟨dev', by rw [h.writeFile_eq, hloop], hsec, hnew, hold, ?_⟩
  have hread := reads_of_first (h.same hvolume) haddr hoffset hend
  have hbytes : bytesAt dev' sb chain offset data.length = data := by
    apply ext_getElem (by simp)
    intro k hk hk'
    have hbyte := hnew k hk'
    rw [getD_eq_getElem _ _ hk'] at hbyte
    simpa [bytesAt] using hbyte
  rw [ReadsAt, hbytes] at hread
  exact hread

theorem positional_of_first (hoffset : len = 0 ∨ offset < sb.clusterSize)
    (hend : offset + len ≤ chain.length * sb.clusterSize) : RequestPositional sb fuel start chain dev offset len := by
  intro dev' hs
  by_cases hlen : len = 0
  · subst hlen
    refine ⟨reads_nothing (h.same hs) haddr offset, fun data hdata => ?_⟩
    rw [length_eq_zero_iff] at hdata
    subst hdata
    exact writes_nothing (h.same hs) haddr offset
  · have hfirst : offset < sb.clusterSize := hoffset.resolve_left hlen
    refine ⟨reads_of_first (h.same hs) haddr hfirst hend, fun data hdata => ?_⟩
    subst hdata
    exact writes_of_first (h.same hs) haddr (fun hnil => hlen (by rw [hnil]; rfl)) hfirst hend

end Addressed

theorem readFileLoop_extends {done r : List UInt8}
    (h : readFileLoop dev sb len suf done pos = some (.ok r)) : done <+: r := by
  induction suf generalizing done pos with
  | nil =>
    cases h
    exact prefix_refl _
  | cons c suf ih =>
    rw [readFileLoop] at h
    cases hc : readCluster dev sb c sb.bytesPerCluster with
    | error e =>
      rw [hc] at h
      cases h
    | ok data =>
      rw [hc] at h
      dsimp only at h
      split_ifs at h
      · cases h
        exact prefix_append _ _
      · exact (prefix_append _ _).trans (ih h)

theorem FileOn.first_byte {c : Nat} {rest : List Nat} (h : FileOn dev sb fuel start (c :: rest)) (hlen : 0 < len)
    {r : List UInt8} (hr : readFile dev sb fuel start offset len = some (.ok r)) :
    512 ≤ sb.bytesPerSector ∧ sb.clusterSize < 2 ^ 32 ∧
      r[0]? = some (clusterByte dev sb c (offset % sb.clusterSize)) := by
  rw [h.readFile_eq, readFileLoop] at hr
  cases hc : readCluster dev sb c sb.bytesPerCluster with
  | error e =>
    rw [hc] at hr
    cases hr
  | ok data =>
    rw [hc] at hr
    dsimp only at hr
    by_cases h0 : sb.bytesPerCluster = 0
    · rw [if_pos h0] at hr
      cases hr
    · have hsize := clusterSize_lt h0
      have hmod := Nat.mod_lt offset sb.clusterSize_pos
      rw [bytesPerCluster_eq hsize] at hr hc
      refine ⟨(readCluster_inv hc).1, hsize, ?_⟩
      have hbyte := readCluster_byte hc hmod le_rfl
      have hpiece : ([] ++ (data.drop (offset % sb.clusterSize)).take
          (min (len - ([] : List UInt8).length) (sb.clusterSize - offset % sb.clusterSize)))[0]? =
          some (clusterByte dev sb c (offset % sb.clusterSize)) := by
        rw [nil_append, getElem?_take_of_lt (by simp; omega), getElem?_drop, Nat.add_zero, hbyte]
      split_ifs at hr
      · cases hr
        exact hpiece
      · obtain ⟨tail, htail⟩ := readFileLoop_extends hr
        rw [← htail, getElem?_append_left (List.getElem?_eq_some_iff.mp hpiece).1]
        exact hpiece

def withByte (dev : BlockDevice) (a : Nat) (b : UInt8) : BlockDevice :=
  { dev with mem := update dev.mem a b }

theorem RequestPositional.source {c : Nat} {rest : List Nat} (h : FileOn dev sb fuel start (c :: rest))
    (hr : RequestPositional sb fuel start (c :: rest) dev offset len) (hlen : 0 < len) :
    512 ≤ sb.bytesPerSector ∧ sb.clusterSize < 2 ^ 32 ∧ offset % sb.clusterSize % sb.bytesPerSector < 512 ∧
      512 * ((sb.clusterToSector c + offset % sb.clusterSize / sb.bytesPerSector) % 2 ^ 32) +
        offset % sb.clusterSize % sb.bytesPerSector = place sb (c :: rest) offset := by
  have hbyte : ∀ dev', SameVolume sb dev dev' → 512 ≤ sb.bytesPerSector ∧ sb.clusterSize < 2 ^ 32 ∧
      dev'.mem (place sb (c :: rest) offset) = clusterByte dev' sb c (offset % sb.clusterSize) := by
    intro dev' hs
    obtain ⟨h512, hsize, hfirst⟩ := (h.same hs).first_byte hlen (hr dev' hs).1
    refine ⟨h512, hsize, ?_⟩
    simpa [bytesAt, hlen] using hfirst
  obtain ⟨h512, hsize, -⟩ := hbyte dev ⟨rfl, fun _ _ => rfl⟩
  -- another byte at the place shows in what is read
  have hchanged : ∀ b, clusterByte (withByte dev (place sb (c :: rest) offset) b) sb c (offset % sb.clusterSize) = b := by
    intro b
    have hle := heap_le_place sb (c :: rest) offset
    have hsame' : SameVolume sb dev (withByte dev (place sb (c :: rest) offset) b) :=
      ⟨rfl, fun a ha => update_of_ne (by omega) _ _⟩
    rw [← (hbyte _ hsame').2.2]
    exact update_self ..
  refine ⟨h512, hsize, ?_⟩
  by_contra hne
  have hkept : ∀ b, clusterByte dev sb c (offset % sb.clusterSize) = b := by
    intro b
    rw [← hchanged b, clusterByte, clusterByte]
    split_ifs with hin
    · exact (update_of_ne (fun heq => hne ⟨hin, heq⟩) _ _).symm
    · rfl
  exact absurd ((hkept 0).symm.trans (hkept 1)) (by decide)

section Necessary

variable {c : Nat} {rest : List Nat} (h : FileOn dev sb fuel start (c :: rest))
  (hf : FilePositional sb fuel start (c :: rest) dev)
include h hf

theorem FilePositional.first_cluster {o : Nat} (ho : o < sb.clusterSize) :
    sb.clusterSize < 2 ^ 32 ∧ 512 ≤ sb.bytesPerSector ∧ o % sb.bytesPerSector < 512 ∧
      512 * ((sb.clusterToSector c + o / sb.bytesPerSector) % 2 ^ 32) + o % sb.bytesPerSector =
        sb.bytesPerSector * sb.firstSector c + o := by
  have hend : o + 1 ≤ (c :: rest).length * sb.clusterSize := by
    rw [length_cons, Nat.succ_mul]
    omega
  obtain ⟨h512, hsize, hin, hplace⟩ := (hf o 1 hend).source h Nat.one_pos
  rw [Nat.mod_eq_of_lt ho] at hin hplace
  have hc := @place_in_cluster sb (c :: rest) 0 o c rfl ho
  rw [Nat.zero_mul, Nat.zero_add] at hc
  exact ⟨hsize, h512, hin, hplace.trans hc⟩

theorem FilePositional.sector_size : sb.bytesPerSector = 512 := by
  obtain ⟨-, h512, -⟩ := hf.first_cluster h sb.clusterSize_pos
  by_contra hne
  have hlarge : sb.bytesPerSector ≤ sb.clusterSize := Nat.le_mul_of_pos_right _ sb.sectorsPerCluster_pos
  -- byte 512 of a larger sector is never transferred
  obtain ⟨-, -, hin, -⟩ := hf.first_cluster h (show 512 < sb.clusterSize by omega)
  rw [Nat.mod_eq_of_lt (by omega)] at hin
  exact Nat.lt_irrefl _ hin

theorem FilePositional.addressable : Addressable sb c := by
  have hsector := hf.sector_size h
  have hspc := sb.sectorsPerCluster_pos
  have hlast : 512 * (sb.sectorsPerCluster - 1) < sb.clusterSize := by
    rw [clusterSize, hsector]
    omega
  obtain ⟨hsize, -, -, hplace⟩ := hf.first_cluster h hlast
  rw [hsector, Nat.mul_div_cancel_left _ (by decide)] at hplace
  exact ⟨hsector, hsize, by omega⟩

end Necessary

theorem not_positional_of_later {c : Nat} {rest : List Nat} (h : FileOn dev sb fuel start (c :: rest))
    (ha : Addressable sb c) (hlen : 0 < len) (hoffset : sb.clusterSize ≤ offset)
    (hend : offset + len ≤ (c :: rest).length * sb.clusterSize) :
    ¬ RequestPositional sb fuel start (c :: rest) dev offset len := by
  intro hr
  obtain ⟨-, -, -, hplace⟩ := hr.source h hlen
  have hmod := Nat.mod_lt offset sb.clusterSize_pos
  have hsector : offset % sb.clusterSize / sb.bytesPerSector < sb.sectorsPerCluster :=
    Nat.div_lt_of_lt_mul hmod
  have hfirst := @place_in_cluster sb (c :: rest) 0 (offset % sb.clusterSize) c rfl hmod
  rw [Nat.zero_mul, Nat.zero_add] at hfirst
  have hsame : place sb (c :: rest) offset = place sb (c :: rest) (offset % sb.clusterSize) := by
    rw [← hplace, hfirst, ha.sector_eq hsector, ha.sector]
    omega
  have heq := place_inj (readFatChain_nodup h.walk) (fun _ => h.two_le) (by omega) (by omega) hsame
  omega

theorem FilePositional.single {c : Nat} {rest : List Nat} (h : FileOn dev sb fuel start (c :: rest))
    (hf : FilePositional sb fuel start (c :: rest) dev) : rest = [] ∧ Addressable sb c := by
  have ha := hf.addressable h
  refine ⟨?_, ha⟩
  by_contra hrest
  have hend : sb.clusterSize + 1 ≤ (c :: rest).length * sb.clusterSize := by
    have hpos := sb.clusterSize_pos
    have htwo : 2 * sb.clusterSize ≤ (c :: rest).length * sb.clusterSize :=
      Nat.mul_le_mul_right _ (Nat.succ_le_succ (length_pos_of_ne_nil hrest))
    omega
  exact not_positional_of_later h ha Nat.one_pos le_rfl hend (hf _ 1 hend)

theorem filePositional_iff (h : FileOn dev sb fuel start chain) :
    FilePositional sb fuel start chain dev ↔ chain = [] ∨ ∃ c, chain = [c] ∧ Addressable sb c := by
  constructor
  · intro hf
    cases chain with
    | nil => exact .inl rfl
    | cons c rest =>
      obtain ⟨hrest, ha⟩ := hf.single h
      exact .inr ⟨c, by rw [hrest], ha⟩
  · rintro (rfl | ⟨c, rfl, ha⟩) offset len hend
    · exact positional_of_first h (by simp) (by simp at hend; omega) hend
    · refine positional_of_first h (by simpa using ha) ?_ hend
      simp at hend
      omega

theorem requestPositional_iff (h : FileOn dev sb fuel start chain) (haddr : ∀ c ∈ chain, Addressable sb c)
    (hend : offset + len ≤ chain.length * sb.clusterSize) :
    RequestPositional sb fuel start chain dev offset len ↔ len = 0 ∨ offset < sb.clusterSize := by
  refine ⟨fun hr => ?_, fun hfirst => positional_of_first h haddr hfirst hend⟩
  by_contra hlater
  cases chain with
  | nil =>
    simp at hend
    omega
  | cons c rest =>
    exact not_positional_of_later h (haddr c (by simp)) (by omega) (by omega) hend hr

/-- For every file on a device: reads and writes work at every offset of the file if and only if the
file has no cluster, or just one on sectors that are those of the device; and on such sectors a
request works if and only if it is empty or starts in the first cluster. -/
theorem file_io_positional_iff (h : FileOn dev sb fuel start chain) :
    (FilePositional sb fuel start chain dev ↔ chain = [] ∨ ∃ c, chain = [c] ∧ Addressable sb c) ∧
    ((∀ c ∈ chain, Addressable sb c) → ∀ offset len, offset + len ≤ chain.length * sb.clusterSize →
      (RequestPositional sb fuel start chain dev offset len ↔ len = 0 ∨ offset < sb.clusterSize)) :=
  ⟨filePositional_iff h, fun haddr _ _ hend => requestPositional_iff h haddr hend⟩

def chainedDevice : BlockDevice :=
  ⟨16, fun a => if a = 520 then 3 else if 524 ≤ a ∧ a < 527 then 255 else if a = 527 then 15
    else if a = 1536 then 7 else 0⟩

theorem chainedDevice_file : FileOn chainedDevice smallVolume 2 2 [2, 3] :=
  ⟨by decide +kernel, ⟨by decide, by decide⟩⟩

theorem smallVolume_addressable : ∀ c ∈ [2, 3], Addressable smallVolume c := by
  intro c hc
  rcases mem_pair.mp hc with rfl | rfl <;> exact ⟨by decide, by decide, by decide⟩

theorem file_io_positional_chained : ¬ FilePositional smallVolume 2 2 [2, 3] chainedDevice ∧
    RequestPositional smallVolume 2 2 [2, 3] chainedDevice 500 24 ∧
    ¬ RequestPositional smallVolume 2 2 [2, 3] chainedDevice 512 1 := by
  obtain ⟨hfile, hrequest⟩ := file_io_positional_iff chainedDevice_file
  refine ⟨fun hf => ?_, (hrequest smallVolume_addressable 500 24 (by decide)).mpr (by decide), fun hr => ?_⟩
  · rcases hfile.mp hf with hnil | ⟨c, hone, -⟩
    · cases hnil
    · cases hone
  · exact absurd ((hrequest smallVolume_addressable 512 1 (by decide)).mp hr) (by decide)

theorem second_cluster_not_read : ¬ ∀ dev sb fuel start chain, FileOn dev sb fuel start chain →
      ∀ offset len, offset + len ≤ chain.length * sb.clusterSize →
        ReadsAt sb fuel start chain dev offset len ∧
          ∀ data : List UInt8, data.length = len → WritesAt sb fuel start chain dev offset data := by
  intro hall
  have hread := (hall _ _ _ _ _ chainedDevice_file 512 1 (by decide)).1
  have hgot : readFile chainedDevice smallVolume 2 2 512 1 = some (.ok [0]) := by decide +kernel
  have hwant : bytesAt chainedDevice smallVolume [2, 3] 512 1 = [7] := by decide +kernel
  rw [ReadsAt, hgot, hwant] at hread
  exact absurd hread (by decide)

end AntX.Exfat
