import AntX.Hvfs.Metadata

/-! The directory part of the dataset metadata (services/fs/hvfs/hvfs_data.rs). The writer stores no
object ids, so the reader takes eight bytes of what follows each name as its id. -/

namespace AntX.Hvfs

open AntX.Lib List HvZap HvZapEntry

abbrev Binding := List UInt8 × UInt64

def weight (name : List UInt8) : Nat := nonzero name + if name = [] then 0 else 1

def weights (ps : List Binding) : Nat := (ps.map fun p => weight p.1).sum

def marked (ps : List Binding) : Nat := ps.countP fun p => p.2 != 0

def unnamed (ps : List Binding) : Nat := ps.countP fun p => p.1.isEmpty

def spare (es : List HvZapEntry) : Nat := if es.any (HvZapEntry.named []) then 0 else 1

theorem spare_append_le (es fs : List HvZapEntry) : spare (es ++ fs) ≤ spare es := by
  rw [spare, spare, any_append]
  cases es.any (named []) with
  | true => exact le_rfl
  | false =>
    rw [Bool.false_or, if_neg Bool.false_ne_true]
    split_ifs
    · exact Nat.zero_le _
    · exact le_rfl

variable {n : Nat} {bs name rest l value : List UInt8} {z z' : HvZap} {ps : List Binding} {ds : HvDataset}

theorem takeEntries_cases (h : takeEntries (n + 1) bs z = some z') :
    ∃ l name ids next, bs = l ++ (name ++ (ids ++ next)) ∧ name.length = (UInt16.ofNat (leNat l)).toNat ∧
      takeEntries n next (z.insertU64 (nameOf name) (UInt64.ofNat (leNat ids))).2 = some z' := by
  rw [takeEntries] at h
  dsimp only at h
  split_ifs at h with hlong hrest
  have hrest' : (takeU16 bs).2 = bs.drop 2 := rfl
  refine ⟨bs.take 2, ((takeU16 bs).2).take (takeU16 bs).1.toNat,
    (((takeU16 bs).2).drop (takeU16 bs).1.toNat).take 8,
    (((takeU16 bs).2).drop (takeU16 bs).1.toNat).drop 8, ?_, ?_, h⟩
  · rw [take_append_drop, take_append_drop, hrest', take_append_drop]
  · rw [length_take]
    have hlen : (takeU16 bs).1 = UInt16.ofNat (leNat (bs.take 2)) := rfl
    rw [← hlen]
    omega

theorem takeEntries_entry (hlen : name.length ≤ hvZapMaxName) (hvalid : validUtf8 name = true)
    (hrest : 8 ≤ rest.length) :
    takeEntries (n + 1) (entryBytes name ++ rest) z =
      takeEntries n (rest.drop 8) (z.insertU64 name (takeU64 rest).1).2 := by
  have hmax : hvZapMaxName = 64 := rfl
  have hname : maxNameLen = 4096 := rfl
  have htake : takeU16 (entryBytes name ++ rest) = (UInt16.ofNat name.length, name ++ rest) := by
    rw [entryBytes, append_assoc, takeU16_u16Bytes]
  have hnat : (UInt16.ofNat name.length).toNat = name.length := by
    rw [UInt16.toNat_ofNat', Nat.mod_eq_of_lt (by omega)]
  have hsize : (entryBytes name ++ rest).length = 2 + name.length + rest.length := by
    rw [length_append, length_entryBytes]
  rw [takeEntries, if_neg (by omega)]
  rw [htake]
  rw [hnat, if_neg (by omega), if_neg (by rw [length_append]; omega), drop_left,
    take_left, nameOf, if_pos hvalid]
  rfl

theorem takeEntries_length (h : takeEntries n bs z = some z') : z'.entries.length ≤ z.entries.length + n := by
  induction n generalizing bs z with
  | zero =>
    cases h
    exact le_rfl
  | succ n ih =>
    obtain ⟨l, name, ids, next, -, -, hnext⟩ := takeEntries_cases h
    have hle := ih hnext
    rcases z.insertU64_cases (nameOf name) (UInt64.ofNat (leNat ids)) with hsame | ⟨-, hpush⟩
    · omega
    · rw [hpush, length_append, length_singleton] at hle
      omega

theorem validUtf8_ascii {a : UInt8} (h : a < 0x80) (rest : List UInt8) :
    validUtf8 (a :: rest) = validUtf8 rest := by
  rw [validUtf8.eq_def]
  exact if_pos h

theorem validUtf8_zeros (h : nonzero bs = 0) : validUtf8 bs = true := by
  induction bs with
  | nil => rfl
  | cons b bs ih =>
    obtain ⟨rfl, htail⟩ := nonzero_cons_eq_zero.mp h
    rw [validUtf8_ascii (by decide)]
    exact ih htail

theorem nonzero_nameOf (bs : List UInt8) : nonzero (nameOf bs) ≤ nonzero bs := by
  rw [nameOf]
  split_ifs with h
  · exact le_rfl
  · have hpos : nonzero bs ≠ 0 := fun h0 => h (validUtf8_zeros h0)
    have hone : nonzero [0x3F] = 1 := rfl
    omega

theorem nameOf_eq_nil : nameOf bs = [] ↔ bs = [] := by
  rw [nameOf]
  split_ifs with h
  · exact Iff.rfl
  · constructor
    · intro hq
      cases hq
    · rintro rfl
      exact absurd rfl h

theorem length_marked (hlen : name.length = (UInt16.ofNat (leNat l)).toNat) (hne : name ≠ []) :
    1 ≤ nonzero l := by
  by_contra hlt
  have hzero := leNat_eq_zero (show nonzero l = 0 by omega)
  rw [hzero] at hlen
  exact hne (length_eq_zero_iff.mp hlen)

theorem weight_getName (hlen : name.length = (UInt16.ofNat (leNat l)).toNat) :
    weight (HvZapEntry.new (nameOf name) value).getName ≤ nonzero l + nonzero name := by
  have hsub := getName_new_sub (nameOf name) value
  have hcount : nonzero (HvZapEntry.new (nameOf name) value).getName ≤ nonzero (nameOf name) :=
    hsub.countP_le
  have hname := nonzero_nameOf name
  rw [weight]
  split_ifs with hnil
  · omega
  · have hne : name ≠ [] := by
      intro h0
      have hle := hsub.length_le
      have hzero : (nameOf name).length = 0 := by rw [nameOf_eq_nil.mpr h0, length_nil]
      exact hnil (length_eq_zero_iff.mp (by omega))
    have hone := length_marked hlen hne
    omega

theorem unnamed_entry {es : List HvZapEntry} {e : HvZapEntry}
    (hentry : HvZapEntry.new (nameOf name) value = e)
    (hlen : name.length = (UInt16.ofNat (leNat l)).toNat)
    (hany : es.any (HvZapEntry.named (nameOf name)) = false) :
    weight e.getName + (if e.getName.isEmpty then 1 else 0) + spare (es ++ [e]) ≤
      nonzero l + nonzero name + spare es := by
  have hmono := spare_append_le es [e]
  by_cases hnil : e.getName = []
  · have hzero : weight e.getName = 0 := by
      rw [hnil]
      rfl
    rw [hzero, hnil, isEmpty_nil, if_pos rfl]
    by_cases hname : name = []
    · have hname' : nameOf name = [] := nameOf_eq_nil.mpr hname
      have hnamed : e.named [] = true := by
        rw [named_iff]
        refine ⟨hentry ▸ rfl, ?_, hnil⟩
        rw [← hentry, hname']
        rfl
      rw [hname'] at hany
      have hspare : spare es = 1 := by rw [spare, hany, if_neg Bool.false_ne_true]
      have hused : spare (es ++ [e]) = 0 := by
        rw [spare, any_append, any_cons, hnamed, Bool.true_or, Bool.or_true, if_pos rfl]
      omega
    · have hone := length_marked hlen hname
      omega
  · have hweight : weight e.getName ≤ nonzero l + nonzero name := hentry ▸ weight_getName hlen
    have hfull : e.getName.isEmpty = false := by simpa using hnil
    rw [hfull, if_neg Bool.false_ne_true]
    omega

/-- The entries that the reader adds, when it adds one for each that it reads, are paid for by
non-zero bytes; of an empty name only the first can come for nothing. -/
theorem takeEntries_counts (h : takeEntries n bs z = some z')
    (hall : z.entries.length + n ≤ z'.entries.length) :
    ∃ new, z'.pairs = z.pairs ++ new ∧ weights new + marked new ≤ nonzero bs ∧
      weights new + unnamed new ≤ nonzero bs + spare z.entries := by
  induction n generalizing bs z with
  | zero =>
    cases h
    refine ⟨[], (append_nil _).symm, Nat.zero_le _, Nat.zero_le _⟩
  | succ n ih =>
    obtain ⟨l, name, ids, next, rfl, hlen, hnext⟩ := takeEntries_cases h
    have hle := takeEntries_length hnext
    rcases z.insertU64_cases (nameOf name) (UInt64.ofNat (leNat ids)) with hsame | ⟨hany, hpush⟩
    · omega
    rw [hpush] at hnext
    obtain ⟨new, hpairs, hmarked, hunnamed⟩ := ih hnext (by
      rw [length_append, length_singleton]
      omega)
    generalize hid : UInt64.ofNat (leNat ids) = id at *
    generalize hentry : HvZapEntry.new (nameOf name) (u64Bytes id) = e at *
    have hweight : weight e.getName ≤ nonzero l + nonzero name := hentry ▸ weight_getName hlen
    have hmark : (if id != 0 then 1 else 0) ≤ nonzero ids := by
      by_cases h0 : nonzero ids = 0
      · have hzero : id = 0 := by
          rw [← hid, leNat_eq_zero h0]
          rfl
        simp [hzero]
      · split_ifs <;> omega
    refine ⟨(e.getName, id) :: new, ?_, ?_, ?_⟩
    · rw [hpairs, ← hentry, pairs_push, hentry, append_assoc]
      rfl
    · have hsum : weights ((e.getName, id) :: new) = weight e.getName + weights new := rfl
      rw [hsum, marked, countP_cons, ← marked]
      simp only [nonzero_append]
      omega
    · have hsum : weights ((e.getName, id) :: new) = weight e.getName + weights new := rfl
      have hfirst := unnamed_entry hentry hlen hany
      rw [hsum, unnamed, countP_cons, ← unnamed]
      simp only [nonzero_append]
      dsimp only at hunnamed ⊢
      omega

theorem nonzero_length (h : n ≤ hvZapMaxName) :
    nonzero (u16Bytes (UInt16.ofNat n)) = if n = 0 then 0 else 1 := by
  have hall : ∀ m : Fin 65, nonzero (u16Bytes (UInt16.ofNat m)) = if m.val = 0 then 0 else 1 := by
    decide
  exact hall ⟨n, Nat.lt_succ_of_le h⟩

theorem nonzero_entryBytes (h : name.length ≤ hvZapMaxName) : nonzero (entryBytes name) = weight name := by
  rw [entryBytes, nonzero_append, nonzero_length h, weight, Nat.add_comm]
  simp only [length_eq_zero_iff]

theorem nonzero_entries (h : ∀ p ∈ ps, p.1.length ≤ hvZapMaxName) :
    nonzero (entries (ps.map Prod.fst)) = weights ps := by
  induction ps with
  | nil => rfl
  | cons p ps ih =>
    have hcons : entries ((p :: ps).map Prod.fst) = entryBytes p.1 ++ entries (ps.map Prod.fst) := rfl
    have hsum : weights (p :: ps) = weight p.1 + weights ps := rfl
    rw [hcons, hsum, nonzero_append, nonzero_entryBytes (h p mem_cons_self),
      ih fun q hq => h q (mem_cons_of_mem p hq)]

theorem entryBytes_zero {m : Nat} (hlen : name.length ≤ hvZapMaxName) (hm : 2 ≤ m)
    (h : nonzero ((entryBytes name ++ rest).take m) = 0) : name = [] := by
  have hsplit : (entryBytes name ++ rest).take m =
      u16Bytes (UInt16.ofNat name.length) ++ (name ++ rest).take (m - 2) := by
    rw [entryBytes, append_assoc, take_append, length_u16Bytes, take_of_length_le]
    exact hm
  rw [hsplit, nonzero_append, nonzero_length hlen] at h
  by_contra hne
  rw [if_neg fun h0 => hne (length_eq_zero_iff.mp h0)] at h
  omega

theorem takeU64_eq_zero (h : (takeU64 bs).1 = 0) : nonzero (bs.take 8) = 0 := by
  apply nonzero_eq_zero
  have hlt := leNat_lt (bs.take 8)
  have hpow : 256 ^ (bs.take 8).length ≤ 256 ^ 8 :=
    Nat.pow_le_pow_right (by decide) (length_take_le 8 bs)
  have hval : (UInt64.ofNat (leNat (bs.take 8))).toNat = 0 := congrArg UInt64.toNat h
  rw [UInt64.toNat_ofNat', Nat.mod_eq_of_lt (by omega)] at hval
  exact hval

theorem takeU64_of_zero (h : nonzero (bs.take 8) = 0) : (takeU64 bs).1 = 0 := by
  have hzero : leNat (bs.take 8) = 0 := leNat_eq_zero h
  change UInt64.ofNat (leNat (bs.take 8)) = 0
  rw [hzero]
  rfl

theorem pair_name {p : Binding} (h : p ∈ ds.dirZap.pairs) :
    p.1.length ≤ hvZapMaxName ∧ nonzero p.1 = p.1.length ∧ validUtf8 p.1 = true := by
  obtain ⟨e, -, rfl⟩ := mem_map.mp h
  exact ⟨e.getName_length, e.getName_nonzero, e.getName_valid⟩

/-- The directories that survive: none, one binding to the id zero, or such a binding to a proper
name followed by the empty name. -/
def Survives : List Binding → Prop
  | [] => True
  | [a] => a.2 = 0
  | [a, b] => a.2 = 0 ∧ a.1 ≠ [] ∧ b = ([], 0)
  | _ => False

theorem marked_eq_zero : marked ps = 0 ↔ ∀ p ∈ ps, p.2 = 0 := by
  rw [marked, countP_eq_zero]
  simp

theorem takeEntries_first (hlen : name.length ≤ hvZapMaxName) (hvalid : validUtf8 name = true)
    (hrest : 8 ≤ rest.length)
    (h : takeEntries (n + 1) (entryBytes name ++ rest) HvZap.new = some z)
    (hall : n + 1 ≤ z.entries.length) : ∃ p ∈ z.pairs, p.2 = (takeU64 rest).1 := by
  rw [takeEntries_entry hlen hvalid hrest, insertU64_new (by decide) rfl] at h
  obtain ⟨new, hpairs, -, -⟩ := takeEntries_counts h (by
    change 0 + 1 + n ≤ _
    omega)
  rw [hpairs, pairs_push]
  exact ⟨_, mem_append_left new (mem_append_right _ (mem_singleton_self _)), rfl⟩

section
variable {ps : List Binding} {s : Nat} {z : HvZap}
  (hps : ∀ p ∈ ps, p.1.length ≤ hvZapMaxName ∧ nonzero p.1 = p.1.length ∧ validUtf8 p.1 = true)
  (hs : ps.length * 8 ≤ s)
include hps

theorem read_counts
    (h : takeEntries ps.length (entries (ps.map Prod.fst) ++ replicate s 0) HvZap.new = some z)
    (hperm : z.pairs.Perm ps) :
    ps.length ≤ z.entries.length ∧ (∀ p ∈ z.pairs, p.2 = 0) ∧ unnamed ps ≤ 1 := by
  have hlen : ps.length ≤ z.entries.length := by
    have hle : z.pairs.length ≤ z.entries.length := by
      rw [HvZap.pairs, length_map]
      exact length_filter_le _ _
    rwa [hperm.length_eq] at hle
  obtain ⟨new, hpairs, hmarked, hunnamed⟩ := takeEntries_counts h (by
    change 0 + ps.length ≤ _
    omega)
  have hnew : z.pairs = new := hpairs
  subst hnew
  have hweights : weights z.pairs = weights ps := (hperm.map fun p : Binding => weight p.1).sum_nat
  have hcount : unnamed z.pairs = unnamed ps := hperm.countP_eq _
  have hspare : spare HvZap.new.entries = 1 := rfl
  rw [nonzero_append, nonzero_entries fun p hp => (hps p hp).1, nonzero_replicate] at hmarked hunnamed
  refine ⟨hlen, ?_, ?_⟩
  · apply marked_eq_zero.mp
    omega
  · omega

include hs in
theorem survives_of_read
    (h : takeEntries ps.length (entries (ps.map Prod.fst) ++ replicate s 0) HvZap.new = some z)
    (hperm : z.pairs.Perm ps) : Survives ps := by
  obtain ⟨hlen, hzero, hunnamed⟩ := read_counts hps h hperm
  have hids : ∀ p ∈ ps, p.2 = 0 := fun p hp => hzero p (hperm.mem_iff.mpr hp)
  rcases ps with _ | ⟨a, _ | ⟨b, rest⟩⟩
  · trivial
  · exact hids a mem_cons_self
  · have ha := hps a mem_cons_self
    have hb := hps b (by simp)
    have hbytes : entries ((a :: b :: rest).map Prod.fst) ++ replicate s 0 =
        entryBytes a.1 ++ (entryBytes b.1 ++ (entries (rest.map Prod.fst) ++ replicate s 0)) := by
      simp [entries]
    rw [length_cons, hbytes] at h
    have hroom : 8 ≤ (entryBytes b.1 ++ (entries (rest.map Prod.fst) ++ replicate s 0)).length := by
      rw [length_append, length_append, length_replicate]
      rw [length_cons] at hs
      omega
    -- The id of the first binding is zero, and it was read from the lengths of the next names.
    obtain ⟨p, hp, hid⟩ := takeEntries_first ha.1 ha.2.2 hroom h hlen
    have hblank := takeU64_eq_zero (hid.symm.trans (hzero p hp))
    have hbname := entryBytes_zero hb.1 (by decide) hblank
    have hbnil : b = ([], 0) := Prod.ext hbname (hids b (by simp))
    subst hbnil
    cases rest with
    | nil =>
      refine ⟨hids a mem_cons_self, ?_, rfl⟩
      intro hanil
      simp [unnamed, hanil] at hunnamed
    | cons c rest =>
      have hc := hps c (by simp)
      have htake : (entryBytes [] ++ (entries ((c :: rest).map Prod.fst) ++
          replicate s 0)).take 8 = entryBytes [] ++ (entryBytes c.1 ++
            (entries (rest.map Prod.fst) ++ replicate s 0)).take 6 := by
        have hcons : entries ((c :: rest).map Prod.fst) ++ replicate s 0 =
            entryBytes c.1 ++ (entries (rest.map Prod.fst) ++ replicate s 0) := by
          simp [entries]
        rw [hcons, take_append]
        rfl
      rw [htake, nonzero_append] at hblank
      have hcname := entryBytes_zero hc.1 (by decide) (Nat.eq_zero_of_add_eq_zero hblank).2
      simp only [unnamed, countP_cons, hcname, isEmpty_nil, if_true] at hunnamed
      omega

omit hps in
theorem zeros_entry (h : 2 ≤ n) : replicate n (0 : UInt8) = entryBytes [] ++ replicate (n - 2) 0 := by
  have hempty : entryBytes [] = replicate 2 0 := rfl
  rw [hempty, replicate_append_replicate, Nat.add_sub_cancel' h]

include hs in
theorem read_of_survives (h : Survives ps) :
    ∃ z, takeEntries ps.length (entries (ps.map Prod.fst) ++ replicate s 0) HvZap.new = some z ∧
      z.pairs = ps := by
  match ps, h with
  | [], _ => exact ⟨HvZap.new, rfl, rfl⟩
  | [a], ha =>
    obtain ⟨hlen, hzero, hvalid⟩ := hps a mem_cons_self
    have hbytes : entries ([a].map Prod.fst) ++ replicate s 0 =
        entryBytes a.1 ++ replicate s 0 := by simp [entries]
    have hid : (takeU64 (replicate s 0)).1 = 0 :=
      takeU64_of_zero (by rw [take_replicate, nonzero_replicate])
    rw [length_singleton, hbytes, takeEntries_entry hlen hvalid (by simpa using hs),
      insertU64_new (by decide) rfl, takeEntries]
    refine ⟨_, rfl, ?_⟩
    rw [pairs_push, getName_new _ hlen hzero hvalid, hid]
    exact congrArg (fun id => [(a.1, id)]) (Eq.symm ha)
  | [a, b], ⟨ha, hne, hb⟩ =>
    subst hb
    obtain ⟨hlen, hzero, hvalid⟩ := hps a mem_cons_self
    have hroom : 16 ≤ s := hs
    have hbytes : entries ([a, ([], 0)].map Prod.fst) ++ replicate s 0 =
        entryBytes a.1 ++ replicate (s + 2) 0 := by
      rw [zeros_entry (show 2 ≤ s + 2 by omega)]
      simp [entries]
    have hid : ∀ n, (takeU64 (replicate n 0)).1 = 0 := fun n =>
      takeU64_of_zero (by rw [take_replicate, nonzero_replicate])
    have hname : ∀ value, (HvZapEntry.new a.1 value).getName = a.1 := fun value =>
      getName_new value hlen hzero hvalid
    have hother : ∀ value, [HvZapEntry.new a.1 value].any (named []) = false := by
      intro value
      have hnamed : (HvZapEntry.new a.1 value).named [] = false := by
        rw [Bool.eq_false_iff]
        intro hn
        exact hne ((hname value).symm.trans (named_iff.mp hn).2.2)
      rw [any_cons, hnamed]
      rfl
    rw [hbytes, length_cons, takeEntries_entry hlen hvalid (by rw [length_replicate]; omega),
      insertU64_new (by decide) rfl, drop_replicate, zeros_entry (by omega),
      length_singleton, takeEntries_entry (Nat.zero_le _) rfl (by rw [length_replicate]; omega),
      insertU64_new (by change 1 < 256; decide) (hother _), takeEntries]
    refine ⟨_, rfl, ?_⟩
    rw [pairs_push, pairs_push, hname, hid, hid]
    exact congrArg (fun id => [(a.1, id), ([], 0)]) (Eq.symm ha)

end

/-- The buffer is written and read back by a dataset that has just been made, and what is stored of
the objects, the counter and the bindings of the directory are as before. -/
def RoundTrips (ds : HvDataset) : Prop :=
  ∃ buf ds', serializeBuffer ds = some buf ∧ deserializeBuffer HvDataset.new buf = some ds' ∧
    ds'.objset.objects.map HvDmuObject.restored = ds.usedObjects.map HvDmuObject.restored ∧
    ds'.objset.nextObjId = ds.objset.nextObjId ∧ ds'.dirZap.pairs.Perm ds.dirZap.pairs

theorem slack_names (ds : HvDataset) : ds.dirZap.pairs.length * 8 ≤ slack ds := by
  rw [slack, HvDataset.names, length_map]
  exact Nat.le_add_left _ _

theorem RoundTrips.survives (hds : Storable ds) (h : RoundTrips ds) : Survives ds.dirZap.pairs := by
  obtain ⟨buf, ds', hbuf, hread, -, -, hperm⟩ := h
  rw [serializeBuffer_eq hds.limited, Option.some.injEq] at hbuf
  subst hbuf
  rw [deserializeBuffer_eq hds, Option.map_eq_some_iff] at hread
  obtain ⟨z, hz, rfl⟩ := hread
  rw [HvDataset.names, length_map] at hz
  exact survives_of_read (fun p hp => pair_name hp) (slack_names ds) hz hperm

/-- Of the metadata that fits in a buffer, the directory alone decides whether it is read back. -/
theorem metadata_round_trip_iff {ds : HvDataset} (hds : Storable ds) :
    RoundTrips ds ↔ Survives ds.dirZap.pairs := by
  constructor
  · exact RoundTrips.survives hds
  · intro h
    obtain ⟨z, hz, hpairs⟩ := read_of_survives (fun p hp => pair_name hp) (slack_names ds) h
    have hread := @deserializeBuffer_eq ds HvDataset.new hds
    have hclear : HvDataset.new.dirZap.clear = HvZap.new := rfl
    rw [HvDataset.names, length_map, hclear, hz, Option.map_some] at hread
    refine ⟨_, _, serializeBuffer_eq hds.limited, hread, ?_, rfl, ?_⟩
    · rw [map_map]
      rfl
    · exact List.Perm.of_eq hpairs

def boundTo (id : UInt64) : HvDataset :=
  { HvDataset.new.init 0 with dirZap := (HvZap.new.insertU64 [0x61] id).2 }

theorem boundTo_pairs (id : UInt64) : (boundTo id).dirZap.pairs = [([0x61], id)] := by
  have hzap : (boundTo id).dirZap = { HvZap.new with entries := HvZap.new.entries ++
      [.new [0x61] (u64Bytes id)] } := rfl
  rw [hzap, pairs_push, getName_new _ (by decide) rfl rfl]
  rfl

theorem boundTo_storable (id : UInt64) : Storable (boundTo id) where
  objects := by
    have hfew : ((HvObjSet.init 0).objects.filter HvDmuObject.used).length ≤ maxSerialize := by decide
    exact hfew
  names := by
    rw [boundTo_pairs, length_singleton]
    decide
  pad := by
    have hpad : ∀ o ∈ (HvObjSet.init 0).objects, o.bp.pad = (0, 0) := by decide
    exact fun o ho _ => hpad o ho

theorem metadata_round_trip_bound_zero : Storable (boundTo 0) ∧ RoundTrips (boundTo 0) := by
  refine ⟨boundTo_storable 0, (metadata_round_trip_iff (boundTo_storable 0)).mpr ?_⟩
  rfl

-- The name of the first file that is created in a new dataset is bound to 4.
theorem metadata_loses_id : ¬ ∀ ds, Storable ds → RoundTrips ds := by
  intro h
  have hsurvives := (h (boundTo 4) (boundTo_storable 4)).survives (boundTo_storable 4)
  exact absurd hsurvives (by decide : (4 : UInt64) ≠ 0)

end AntX.Hvfs
