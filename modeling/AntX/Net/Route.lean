import Mathlib.Data.Fintype.Basic
import Mathlib.Data.List.MinMax

/-! The route table, `services/net/route.rs`, shared by both address families. A route with prefix
length 0 contains every address, of either family. -/

namespace AntX.Net

open List BitVec

/-- An address of version 4 is the word that its octets spell. -/
inductive IpAddr
  | v4 (addr : BitVec 32)
  | v6 (octets : Fin 16 → BitVec 8)
deriving DecidableEq

structure RouteEntry where
  dest : IpAddr
  prefixLen : Nat
  gateway : IpAddr
deriving DecidableEq

structure RouteQueryResult where
  gateway : IpAddr
  prefixLen : Nat
deriving DecidableEq

def ipv4Mask (prefixLen : Nat) : BitVec 32 :=
  if 32 ≤ prefixLen then 0xFFFFFFFF#32 else ~~~((1#32 <<< (32 - prefixLen)) - 1#32)

def octetMask (remBits : Nat) : BitVec 8 := 0xFF#8 <<< (8 - remBits)

def ipv6CidrContains (net dest : Fin 16 → BitVec 8) (prefixLen : Nat) : Bool :=
  if h : 128 ≤ prefixLen then decide (net = dest)
  else if ¬∀ i : Fin 16, i.1 < prefixLen / 8 → net i = dest i then false
  else if prefixLen % 8 = 0 then true
  else
    let last : Fin 16 := ⟨prefixLen / 8, by omega⟩
    net last &&& octetMask (prefixLen % 8) = dest last &&& octetMask (prefixLen % 8)

def cidrContains (entry : RouteEntry) (dest : IpAddr) : Bool :=
  if entry.prefixLen = 0 then true
  else match entry.dest, dest with
    | .v4 net, .v4 d => d &&& ipv4Mask entry.prefixLen = net &&& ipv4Mask entry.prefixLen
    | .v6 net, .v6 d => ipv6CidrContains net d entry.prefixLen
    | _, _ => false

/-- `max_by_key` returns the last of several maxima, `argmax` the first. -/
def routeQuery (table : List RouteEntry) (dest : IpAddr) : Option RouteQueryResult :=
  ((table.filter (cidrContains · dest)).reverse.argmax (·.prefixLen)).map fun r =>
    ⟨r.gateway, r.prefixLen⟩

def IpAddr.sameFamily : IpAddr → IpAddr → Bool
  | .v4 _, .v4 _ => true
  | .v6 _, .v6 _ => true
  | _, _ => false

/-- The bits of an address from the front, in network order. -/
def IpAddr.bit : IpAddr → Nat → Bool
  | .v4 a, i => a.getMsbD i
  | .v6 o, i => if h : i < 128 then (o ⟨i / 8, by omega⟩).getMsbD (i % 8) else false

def RouteEntry.Covers (r : RouteEntry) (dest : IpAddr) : Prop :=
  r.dest.sameFamily dest = true ∧ ∀ i < r.prefixLen, r.dest.bit i = dest.bit i

/-- The answer to a query is a covering route with the longest prefix, if any route covers. -/
def LongestPrefix (table : List RouteEntry) (dest : IpAddr) : Option RouteQueryResult → Prop
  | some q => ∃ r ∈ table, r.Covers dest ∧ q = ⟨r.gateway, r.prefixLen⟩ ∧
      ∀ r' ∈ table, r'.Covers dest → r'.prefixLen ≤ r.prefixLen
  | none => ∀ r ∈ table, ¬r.Covers dest

variable {w p : Nat} {a b m : BitVec w} {r : RouteEntry} {dest : IpAddr} {table l : List RouteEntry}

theorem masked_eq_iff (hm : ∀ i < w, m.getMsbD i = decide (i < p)) :
    a &&& m = b &&& m ↔ ∀ i < p, a.getMsbD i = b.getMsbD i := by
  constructor
  · intro h i hi
    by_cases hw : i < w
    · have hbit := congrArg (BitVec.getMsbD · i) h
      simpa [getMsbD_and, hm i hw, hi] using hbit
    · have hge : w ≤ i := Nat.le_of_not_lt hw
      rw [getMsbD_of_ge _ _ hge, getMsbD_of_ge _ _ hge]
  · intro h
    refine eq_of_getMsbD_eq fun i hw => ?_
    rw [getMsbD_and, getMsbD_and, hm i hw]
    by_cases hi : i < p
    · rw [h i hi]
    · simp [hi]

theorem ipv4Mask_bit : ∀ i < 32, (ipv4Mask p).getMsbD i = decide (i < p) := by
  intro i hi
  rw [ipv4Mask]
  split_ifs with hp
  · have hone : ∀ i : Fin 32, (0xFFFFFFFF#32).getMsbD i = true := by decide
    rw [hone ⟨i, hi⟩, decide_eq_true (by omega)]
  · have hmask : ∀ p i : Fin 32,
        (~~~((1#32 <<< (32 - p.1)) - 1#32)).getMsbD i = decide (i.1 < p.1) := by decide +kernel
    exact hmask ⟨p, by omega⟩ ⟨i, hi⟩

theorem octetMask_bit (hp : p < 8) : ∀ i < 8, (octetMask p).getMsbD i = decide (i < p) := by
  intro i hi
  have hmask : ∀ p i : Fin 8, (octetMask p).getMsbD i = decide (i.1 < p.1) := by decide
  exact hmask ⟨p, hp⟩ ⟨i, hi⟩

theorem v6_bits_iff {net d : Fin 16 → BitVec 8} : (∀ i < p, (IpAddr.v6 net).bit i = (IpAddr.v6 d).bit i) ↔
      ∀ o : Fin 16, ∀ j < 8, 8 * o.1 + j < p → (net o).getMsbD j = (d o).getMsbD j := by
  constructor
  · intro h o j hj hlt
    have hbit := h (8 * o + j) hlt
    have hdiv : (8 * o.1 + j) / 8 = o := by omega
    have hmod : (8 * o.1 + j) % 8 = j := by omega
    simpa [IpAddr.bit, show 8 * o.1 + j < 128 by omega, hdiv, hmod] using hbit
  · intro h i hi
    by_cases hin : i < 128
    · simp only [IpAddr.bit, dif_pos hin]
      exact h ⟨i / 8, by omega⟩ (i % 8) (by omega) (by simp only; omega)
    · simp [IpAddr.bit, hin]

theorem ipv6CidrContains_iff {net d : Fin 16 → BitVec 8} :
    ipv6CidrContains net d p = true ↔ ∀ i < p, (IpAddr.v6 net).bit i = (IpAddr.v6 d).bit i := by
  rw [v6_bits_iff]
  by_cases hp : 128 ≤ p
  · rw [ipv6CidrContains, dif_pos hp, decide_eq_true_iff]
    refine ⟨fun h o j _ _ => h ▸ rfl, fun h => ?_⟩
    funext o
    exact eq_of_getMsbD_eq fun j hj => h o j hj (by omega)
  · have hlast : p / 8 < 16 := by omega
    have hmask := masked_eq_iff (a := net ⟨p / 8, hlast⟩) (b := d ⟨p / 8, hlast⟩)
      (octetMask_bit (p := p % 8) (by omega))
    have hspec : ipv6CidrContains net d p = true ↔ (∀ o : Fin 16, o.1 < p / 8 → net o = d o) ∧
        (p % 8 = 0 ∨ ∀ j < p % 8, (net ⟨p / 8, hlast⟩).getMsbD j = (d ⟨p / 8, hlast⟩).getMsbD j) := by
      rw [← hmask, ipv6CidrContains, dif_neg hp]
      split_ifs with hfull hrem <;> simp_all
    rw [hspec]
    constructor
    · rintro ⟨hfull, hrem⟩ o j hj hlt
      by_cases ho : o.1 < p / 8
      · rw [hfull o ho]
      · have he : o = ⟨p / 8, hlast⟩ := Fin.ext (by simp only; omega)
        rw [he]
        exact hrem.resolve_left (by omega) j (by omega)
    · intro h
      exact ⟨fun o ho => eq_of_getMsbD_eq fun j hj => h o j hj (by omega),
        .inr fun j hj => h _ j (by omega) (by simp only; omega)⟩

theorem cidrContains_iff : cidrContains r dest = true ↔ r.prefixLen = 0 ∨ r.Covers dest := by
  obtain ⟨net, p, gateway⟩ := r
  by_cases hz : p = 0
  · simp [cidrContains, hz]
  · rcases net with net | net <;> rcases dest with d | d
    · simp [cidrContains, hz, RouteEntry.Covers, IpAddr.sameFamily, IpAddr.bit,
        masked_eq_iff ipv4Mask_bit, eq_comm]
    · simp [cidrContains, hz, RouteEntry.Covers, IpAddr.sameFamily]
    · simp [cidrContains, hz, RouteEntry.Covers, IpAddr.sameFamily]
    · simp [cidrContains, hz, RouteEntry.Covers, IpAddr.sameFamily, ipv6CidrContains_iff]

def lastDefault (table : List RouteEntry) : Option RouteEntry :=
  (table.filter (·.prefixLen = 0)).getLast?

theorem lastDefault_eq (hm : (table.filter (cidrContains · dest)).reverse.argmax (·.prefixLen) = some r)
    (hz : r.prefixLen = 0) (hnone : ∀ r ∈ table, r.Covers dest → r.prefixLen = 0) :
    lastDefault table = some r := by
  have hsame : table.filter (·.prefixLen = 0) = table.filter (cidrContains · dest) := by
    refine filter_congr fun x hx => ?_
    rw [Bool.eq_iff_iff, cidrContains_iff, decide_eq_true_iff]
    exact ⟨.inl, fun h => h.elim id (hnone x hx)⟩
  rw [lastDefault, hsame, ← head?_reverse]
  cases hl : (table.filter (cidrContains · dest)).reverse with
  | nil => simp [hl] at hm
  | cons z rest =>
    rw [hl] at hm
    have hidx := (argmax_eq_some_iff.1 hm).2.2 z mem_cons_self (by omega)
    by_cases he : z = r
    · rw [he, head?_cons]
    · simp [idxOf_cons_ne _ he] at hidx

/-- A query answers by the longest prefix exactly when a route with a proper prefix covers the
destination, or the last default route has the gateway of one of the family asked for. -/
theorem route_query_longest_iff (table : List RouteEntry) (dest : IpAddr) :
    LongestPrefix table dest (routeQuery table dest) ↔
      (∃ r ∈ table, 0 < r.prefixLen ∧ r.Covers dest) ∨ ∀ z, lastDefault table = some z →
        ∃ r ∈ table, r.prefixLen = 0 ∧ r.dest.sameFamily dest = true ∧ r.gateway = z.gateway := by
  have hin : ∀ r, r ∈ table.filter (cidrContains · dest) ↔
      r ∈ table ∧ (r.prefixLen = 0 ∨ r.Covers dest) := fun r => by
    rw [mem_filter, cidrContains_iff]
  rw [routeQuery]
  cases hm : (table.filter (cidrContains · dest)).reverse.argmax (·.prefixLen) with
  | none =>
    have hempty := reverse_eq_nil_iff.1 (argmax_eq_none.1 hm)
    rw [hempty] at hin
    refine iff_of_true (fun r hr hc => by simpa using (hin r).2 ⟨hr, .inr hc⟩) (.inr fun z hz => ?_)
    have hz := mem_filter.1 (mem_of_getLast? hz)
    simpa using (hin z).2 ⟨hz.1, .inl (by simpa using hz.2)⟩
  | some m =>
    obtain ⟨hmem, hmax, -⟩ := argmax_eq_some_iff.1 hm
    simp only [mem_reverse, hin] at hmem hmax
    by_cases hpos : 0 < m.prefixLen
    · have hc := hmem.2.resolve_left hpos.ne'
      exact iff_of_true ⟨m, hmem.1, hc, rfl, fun r hr hr' => hmax r ⟨hr, .inr hr'⟩⟩
        (.inl ⟨m, hmem.1, hpos, hc⟩)
    · have hzero : m.prefixLen = 0 := by omega
      have hnone : ∀ r ∈ table, r.Covers dest → r.prefixLen = 0 := fun r hr hc => by
        have := hmax r ⟨hr, .inr hc⟩
        omega
      have hlast := lastDefault_eq hm hzero hnone
      constructor
      · rintro ⟨r, hr, hc, he, -⟩
        simp only [RouteQueryResult.mk.injEq] at he
        refine .inr fun z hz => ⟨r, hr, hnone r hr hc, hc.1, ?_⟩
        rw [hlast] at hz
        rw [← Option.some.inj hz, he.1]
      · rintro (⟨r, hr, hrp, hc⟩ | h)
        · exact absurd (hnone r hr hc) hrp.ne'
        · obtain ⟨r, hr, hrz, hfam, hgw⟩ := h m hlast
          refine ⟨r, hr, ⟨hfam, by simp [hrz]⟩, by simp [hgw, hrz, hzero], fun r' hr' hc => ?_⟩
          rw [hnone r' hr' hc]
          exact Nat.zero_le _

/-- A default route of version 4 answers a query for an address of version 6. -/
theorem default_route_crosses_families : ¬LongestPrefix [⟨.v4 0, 0, .v4 0x0A000001#32⟩] (.v6 fun _ => 0)
      (routeQuery [⟨.v4 0, 0, .v4 0x0A000001#32⟩] (.v6 fun _ => 0)) := by
  rintro ⟨r, hr, hc, -⟩
  rw [mem_singleton.1 hr] at hc
  exact absurd hc.1 (by decide)

end AntX.Net
