import Mathlib.Data.List.GetD
import AntX.Lib.LogTable
import AntX.Hvfs.Metaslab

/-! RAID-Z of services/fs/hvfs/raidz.rs: arithmetic on bytes by tables, striped columns with their
parity, and reconstruction. All parity columns tell two pieces of data apart or none does. -/

namespace AntX.Hvfs

open AntX.Lib List
open Option hiding filter_map

def hvRaidzMinCols : Nat := 2
def hvRaidzMaxCols : Nat := 16

inductive HvRaidzLevel where
  | single
  | raidZ1
  | raidZ2
  | raidZ3
  | mirror
  deriving DecidableEq, Repr

def HvRaidzLevel.parityCols : HvRaidzLevel → Nat
  | .single => 0
  | .raidZ1 => 1
  | .raidZ2 => 2
  | .raidZ3 => 3
  | .mirror => 0

def HvRaidzLevel.maxFailures : HvRaidzLevel → Nat
  | .single => 0
  | .raidZ1 => 1
  | .raidZ2 => 2
  | .raidZ3 => 3
  | .mirror => 1

/-- The entries that are read: every index is a remainder by 255, or 255 less a logarithm. -/
def gfExp : List UInt8 :=
  [0x01, 0x02, 0x04, 0x08, 0x10, 0x20, 0x40, 0x80, 0x1d, 0x3a, 0x74, 0xe8, 0xcd, 0x87, 0x13, 0x26,
   0x4c, 0x98, 0x2d, 0x5a, 0xb4, 0x75, 0xea, 0xc9, 0x8f, 0x03, 0x06, 0x0c, 0x18, 0x30, 0x60, 0xc0,
   0x9d, 0x27, 0x4e, 0x9c, 0x25, 0x4a, 0x94, 0x35, 0x6a, 0xd4, 0xb5, 0x77, 0xee, 0xc1, 0x9f, 0x23,
   0x46, 0x8c, 0x05, 0x0a, 0x14, 0x28, 0x50, 0xa0, 0x5d, 0xba, 0x69, 0xd2, 0xb9, 0x6f, 0xde, 0xa1,
   0x5f, 0xbe, 0x61, 0xc2, 0x99, 0x2f, 0x5e, 0xbc, 0x65, 0xca, 0x89, 0x0f, 0x1e, 0x3c, 0x78, 0xf0,
   0xfd, 0xe7, 0xd3, 0xbb, 0x6b, 0xd6, 0xb1, 0x7f, 0xfe, 0xe1, 0xdf, 0xa3, 0x5b, 0xb6, 0x71, 0xe2,
   0xd9, 0xaf, 0x43, 0x86, 0x11, 0x22, 0x44, 0x88, 0x0d, 0x1a, 0x34, 0x68, 0xd0, 0xbd, 0x67, 0xce,
   0x81, 0x1f, 0x3e, 0x7c, 0xf8, 0xed, 0xc7, 0x93, 0x3b, 0x76, 0xec, 0xc5, 0x97, 0x33, 0x66, 0xcc,
   0x85, 0x17, 0x2e, 0x5c, 0xb8, 0x6d, 0xda, 0xa9, 0x4f, 0x9e, 0x21, 0x42, 0x84, 0x15, 0x2a, 0x54,
   0xa8, 0x4d, 0x9a, 0x29, 0x52, 0xa4, 0x55, 0xaa, 0x49, 0x92, 0x39, 0x72, 0xe4, 0xd5, 0xb7, 0x73,
   0xe6, 0xd1, 0xbf, 0x63, 0xc6, 0x91, 0x3f, 0x7e, 0xfc, 0xe5, 0xd7, 0xb3, 0x7b, 0xf6, 0xf1, 0xff,
   0xe3, 0xdb, 0xab, 0x4b, 0x96, 0x31, 0x62, 0xc4, 0x95, 0x37, 0x6e, 0xdc, 0xa5, 0x57, 0xae, 0x41,
   0x82, 0x19, 0x32, 0x64, 0xc8, 0x8d, 0x07, 0x0e, 0x1c, 0x38, 0x70, 0xe0, 0xdd, 0xa7, 0x53, 0xa6,
   0x51, 0xa2, 0x59, 0xb2, 0x79, 0xf2, 0xf9, 0xef, 0xc3, 0x9b, 0x2b, 0x56, 0xac, 0x45, 0x8a, 0x09,
   0x12, 0x24, 0x48, 0x90, 0x3d, 0x7a, 0xf4, 0xf5, 0xf7, 0xf3, 0xfb, 0xeb, 0xcb, 0x8b, 0x0b, 0x16,
   0x2c, 0x58, 0xb0, 0x7d, 0xfa, 0xe9, 0xcf, 0x83, 0x1b, 0x36, 0x6c, 0xd8, 0xad, 0x47, 0x8e, 0x01]

def gfLog : List UInt8 :=
  [0x00, 0x00, 0x01, 0x19, 0x02, 0x32, 0x1a, 0xc6, 0x03, 0xdf, 0x33, 0xee, 0x1b, 0x68, 0xc7, 0x4b,
   0x04, 0x64, 0xe0, 0x0e, 0x34, 0x8d, 0xef, 0x81, 0x1c, 0xc1, 0x69, 0xf8, 0xc8, 0x08, 0x4c, 0x71,
   0x05, 0x8a, 0x65, 0x2f, 0xe1, 0x24, 0x0f, 0x21, 0x35, 0x93, 0x8e, 0xda, 0xf0, 0x12, 0x82, 0x45,
   0x1d, 0xb5, 0xc2, 0x7d, 0x6a, 0x27, 0xf9, 0xb9, 0xc9, 0x9a, 0x09, 0x78, 0x4d, 0xe4, 0x72, 0xa6,
   0x06, 0xbf, 0x8b, 0x62, 0x66, 0xdd, 0x30, 0xfd, 0xe2, 0x98, 0x25, 0xb3, 0x10, 0x91, 0x22, 0x88,
   0x36, 0xd0, 0x94, 0xce, 0x8f, 0x96, 0xdb, 0xbd, 0xf1, 0xd2, 0x13, 0x5c, 0x83, 0x38, 0x46, 0x40,
   0x1e, 0x42, 0xb6, 0xa3, 0xc3, 0x48, 0x7e, 0x6e, 0x6b, 0x3a, 0x28, 0x54, 0xfa, 0x85, 0xba, 0x3d,
   0xca, 0x5e, 0x9b, 0x9f, 0x0a, 0x15, 0x79, 0x2b, 0x4e, 0xd4, 0xe5, 0xac, 0x73, 0xf3, 0xa7, 0x57,
   0x07, 0x70, 0xc0, 0xf7, 0x8c, 0x80, 0x63, 0x0d, 0x67, 0x4a, 0xde, 0xed, 0x31, 0xc5, 0xfe, 0x18,
   0xe3, 0xa5, 0x99, 0x77, 0x26, 0xb8, 0xb4, 0x7c, 0x11, 0x44, 0x92, 0xd9, 0x23, 0x20, 0x89, 0x2e,
   0x37, 0x3f, 0xd1, 0x5b, 0x95, 0xbc, 0xcf, 0xcd, 0x90, 0x87, 0x97, 0xb2, 0xdc, 0xfc, 0xbe, 0x61,
   0xf2, 0x56, 0xd3, 0xab, 0x14, 0x2a, 0x5d, 0x9e, 0x84, 0x3c, 0x39, 0x53, 0x47, 0x6d, 0x41, 0xa2,
   0x1f, 0x2d, 0x43, 0xd8, 0xb7, 0x7b, 0xa4, 0x76, 0xc4, 0x17, 0x49, 0xec, 0x7f, 0x0c, 0x6f, 0xf6,
   0x6c, 0xa1, 0x3b, 0x52, 0x29, 0x9d, 0x55, 0xaa, 0xfb, 0x60, 0x86, 0xb1, 0xbb, 0xcc, 0x3e, 0x5a,
   0xcb, 0x59, 0x5f, 0xb0, 0x9c, 0xa9, 0xa0, 0x51, 0x0b, 0xf5, 0x16, 0xeb, 0x7a, 0x75, 0x2c, 0xd7,
   0x4f, 0xae, 0xd5, 0xe9, 0xe6, 0xe7, 0xad, 0xe8, 0x74, 0xd6, 0xf4, 0xea, 0xa8, 0x50, 0x58, 0xaf]

def power (i : Nat) : UInt8 := gfExp.getD i 0

def logarithm (a : UInt8) : Nat := (gfLog.getD a.toNat 0).toNat

def gfMul (a b : UInt8) : UInt8 :=
  if a = 0 ∨ b = 0 then 0 else power ((logarithm a + logarithm b) % 255)

def gfInv (a : UInt8) : UInt8 := if a = 0 then 0 else power (255 - logarithm a)

variable (mat : List (List UInt8))

def entry (row col : Nat) : UInt8 := (mat.getD row []).getD col 0

def swapRows (i j : Nat) : List (List UInt8) :=
  (mat.set i (mat.getD j [])).set j (mat.getD i [])

def findPivot (n col : Nat) : Option Nat :=
  (range' col (n - col)).find? fun row => entry mat row col != 0

def scaleRow (row : Nat) (factor : UInt8) : List (List UInt8) :=
  mat.modify row fun entries => entries.map fun x => gfMul x factor

def eliminate (col : Nat) : List (List UInt8) :=
  mat.mapIdx fun i entries =>
    if i = col ∨ entries.getD col 0 = 0 then entries
    else zipWith (fun x y => x ^^^ gfMul (entries.getD col 0) y) entries (mat.getD col [])

def invertColumn (n : Nat) (mat : List (List UInt8)) (col : Nat) : Option (List (List UInt8)) :=
  (findPivot mat n col).map fun row =>
    let mat := if row ≠ col then swapRows mat row col else mat
    eliminate (scaleRow mat col (gfInv (entry mat col col))) col

/-- `none` stands for the answer `false`. -/
def gfInvertMatrix (n : Nat) : Option (List (List UInt8)) :=
  (range n).foldlM (invertColumn n) mat

structure HvRaidzMap where
  level : HvRaidzLevel
  ncols : Nat
  nparity : Nat

namespace HvRaidzMap

def new (level : HvRaidzLevel) (ncols : Nat) : HvRaidzMap :=
  ⟨level, max hvRaidzMinCols (min ncols hvRaidzMaxCols), level.parityCols⟩

variable (m : HvRaidzMap)

def dataCols : Nat := m.ncols - m.nparity

def totalUnits (data : List UInt8) : Nat :=
  (data.length + (hvPoolBlockSize * m.dataCols - 1)) / (hvPoolBlockSize * m.dataCols)

abbrev columnSize (data : List UInt8) : Nat := m.totalUnits data * hvPoolBlockSize

def unit (data : List UInt8) (col unitIdx : Nat) : List UInt8 :=
  let src := (data.drop (unitIdx * hvPoolBlockSize * m.dataCols + col * hvPoolBlockSize)).take hvPoolBlockSize
  src ++ replicate (hvPoolBlockSize - src.length) 0

def dataColumn (data : List UInt8) (col : Nat) : List UInt8 :=
  (range (m.totalUnits data)).flatMap (m.unit data col)

def coeff (p col : Nat) : UInt8 := power ((p * m.dataCols + col) % 255)

def parityByte (data : List UInt8) (p off : Nat) : UInt8 :=
  (range m.dataCols).foldl
    (fun val col => val ^^^ gfMul (m.coeff p col) ((m.dataColumn data col).getD off 0)) 0

def parityColumn (data : List UInt8) (p : Nat) : List UInt8 :=
  (range (m.totalUnits data * hvPoolBlockSize)).map (m.parityByte data p)

def generateParity (data : List UInt8) : List (List UInt8) :=
  if m.dataCols = 0 then []
  else (range m.nparity).map (m.parityColumn data) ++ (range m.dataCols).map (m.dataColumn data)

/-- The entry in the right half of the matrix, in the row of `col` and the column of `fc`. Numbers wrap
when a parity column is subtracted from. -/
def mixing (col fc : Nat) : UInt8 :=
  if col < m.nparity then
    power ((col * m.dataCols + (fc + 2 ^ 64 - m.nparity) % 2 ^ 64) % 2 ^ 64 % 255)
  else if fc < m.nparity then power ((fc * m.dataCols + (col - m.nparity)) % 255)
  else if fc - m.nparity = col - m.nparity then 1 else 0

-- The rows are first made with other right halves, which are then written anew as a whole.
def matrix (failed : List Nat) : List (List UInt8) :=
  failed.mapIdx fun i col =>
    (range failed.length).map (fun j => if j = i then 1 else 0) ++ failed.map (m.mixing col)

/-- A byte of a failed column; `none` for an index outside the row of the matrix. -/
def rebuiltByte (parityData : List (List UInt8)) (failed : List Nat)
    (row : List UInt8) (pos : Nat) : Option UInt8 :=
  ((range m.ncols).filter fun col => !failed.contains col).foldlM (fun val col => do
      let column ← parityData[col]?
      let weight ← row[failed.length + min col (failed.length - 1 + m.nparity)]?
      return val ^^^ gfMul weight (column.getD pos 0)) 0

def rebuiltColumn (parityData : List (List UInt8)) (failed : List Nat) (len : Nat)
    (row : List UInt8) : Option (List UInt8) :=
  (range len).mapM (m.rebuiltByte parityData failed row)

def joined (columns : List (List UInt8)) : List UInt8 :=
  (range m.dataCols).flatMap fun col => columns.getD (m.nparity + col) []

section

variable (parityData : List (List UInt8)) (failed : List Nat)

def lacking : Bool :=
  (range m.ncols).any fun col => !failed.contains col && decide (parityData.length ≤ col)

def surviving : List (List UInt8) :=
  (range m.ncols).map fun col => if failed.contains col then [] else parityData.getD col []

/-- The outer `none` stands for a panic, the inner one for the result `None`. -/
def reconstructData : Option (Option (List UInt8)) :=
  if m.level.maxFailures < failed.length then some none
  else if failed = [] then
    if 0 < m.dataCols ∧ parityData.length < m.ncols then none else some (some (m.joined parityData))
  else
    match gfInvertMatrix (m.matrix failed) failed.length with
    | none => some none
    | some mat =>
      if m.lacking parityData failed ∨ failed.any fun fc => decide (m.ncols ≤ fc) then none
      else
        let len := (parityData.getD m.nparity []).length / hvPoolBlockSize * hvPoolBlockSize
        (mat.mapM (m.rebuiltColumn parityData failed len)).map fun rebuilt =>
          some (m.joined ((failed.zip rebuilt).foldl (fun columns r => columns.set r.1 r.2)
            (m.surviving parityData failed)))

end

end HvRaidzMap

def gfTable : LogTable UInt8 := ⟨0, 255, power, logarithm⟩

def carried (x : UInt8) : UInt8 := (x >>> 7) * 0x1d

def double (x : UInt8) : UInt8 := x <<< 1 ^^^ carried x

theorem gfMul_eq (a b : UInt8) : gfMul a b = gfTable.mul a b := rfl

def turnOfPowers : List UInt8 := gfExp.take 255

variable {i : Nat}

theorem power_getElem? (hi : i < 255) : turnOfPowers[i]? = some (power i) := by
  have hlen : gfExp.length = 256 := by decide +kernel
  have hlt : i < gfExp.length := by omega
  rw [turnOfPowers, getElem?_take_of_lt hi, power, getD_eq_getElem?_getD, getElem?_eq_getElem hlt, getD_some]

theorem power_ne_zero (hi : i < 255) : power i ≠ 0 := by
  have hall : turnOfPowers.all (· != 0) = true := by decide +kernel
  have hmem := mem_of_getElem? (power_getElem? hi)
  simpa using all_eq_true.mp hall _ hmem

theorem logarithm_power (hi : i < 255) : logarithm (power i) = i := by
  have hmap : turnOfPowers.map logarithm = range 255 := by decide +kernel
  have hget := congrArg (fun l => l[i]?) hmap
  simpa [power_getElem? hi, hi] using hget

theorem power_succ (hi : i < 255) : power ((i + 1) % 255) = double (power i) := by
  have hmap : turnOfPowers.map double = turnOfPowers.tail ++ [1] := by decide +kernel
  have hget := congrArg (fun l => l[i]?) hmap
  have hlen : turnOfPowers.length = 255 := by decide +kernel
  simp only [getElem?_map, power_getElem? hi, map_some] at hget
  by_cases hlast : i = 254
  · subst hlast
    have hone : power 0 = 1 := by decide +kernel
    rw [some.inj hget, show (254 + 1) % 255 = 0 from rfl, hone]
  · rw [getElem?_append_left (by rw [length_tail, hlen]; omega), getElem?_tail,
      power_getElem? (by omega)] at hget
    rw [Nat.mod_eq_of_lt (by omega)]
    exact (some.inj hget).symm

theorem exists_power {x : UInt8} (hx : x ≠ 0) : ∃ i, i < 255 ∧ power i = x := by
  have hinj : Set.InjOn (fun i => (power i).toNat) (Finset.range 255) := by
    intro i hi j hj hij
    have hlog := congrArg logarithm (UInt8.toNat_inj.mp hij)
    rwa [logarithm_power (Finset.mem_range.mp hi), logarithm_power (Finset.mem_range.mp hj)] at hlog
  have hsub : (Finset.range 255).image (fun i => (power i).toNat) ⊆ Finset.Ico 1 256 := by
    intro n hn
    obtain ⟨i, hi, rfl⟩ := Finset.mem_image.mp hn
    have hne : (power i).toNat ≠ 0 := fun h0 => power_ne_zero (Finset.mem_range.mp hi) (UInt8.toNat_inj.mp h0)
    exact Finset.mem_Ico.mpr ⟨by omega, (power i).toNat_lt⟩
  have himage := Finset.eq_of_subset_of_card_le hsub
    (by rw [Finset.card_image_of_injOn hinj, Finset.card_range, Nat.card_Ico])
  have hx0 : x.toNat ≠ 0 := fun h0 => hx (UInt8.toNat_inj.mp h0)
  have hmem : x.toNat ∈ Finset.Ico 1 256 := Finset.mem_Ico.mpr ⟨by omega, x.toNat_lt⟩
  rw [← himage] at hmem
  obtain ⟨i, hi, hval⟩ := Finset.mem_image.mp hmem
  exact ⟨i, Finset.mem_range.mp hi, UInt8.toNat_inj.mp hval⟩

theorem gf_generated : gfTable.Generated double where
  pos := by decide
  exp_ne _ := power_ne_zero
  log_exp _ := logarithm_power
  exp_log x hx := by
    obtain ⟨i, hi, rfl⟩ := exists_power hx
    have hlog : gfTable.log (power i) = i := logarithm_power hi
    rw [hlog]
    exact ⟨hi, rfl⟩
  step _ := power_succ
  turn_zero := by decide

theorem high_bit (x : UInt8) : x >>> 7 = 0 ∨ x >>> 7 = 1 := by
  have hlt : (x >>> 7).toNat < 2 := by
    have hx := x.toNat_lt
    change x.toNat >>> 7 < 2
    omega
  have hval : (x >>> 7).toNat = 0 ∨ (x >>> 7).toNat = 1 := by omega
  rcases hval with hval | hval
  · exact .inl (UInt8.toNat_inj.mp hval)
  · exact .inr (UInt8.toNat_inj.mp hval)

theorem double_xor (x y : UInt8) : double (x ^^^ y) = double x ^^^ double y := by
  have hcarry : carried (x ^^^ y) = carried x ^^^ carried y := by
    rw [carried, carried, carried, UInt8.shiftRight_xor]
    rcases high_bit x with hx | hx <;> rcases high_bit y with hy | hy <;> rw [hx, hy] <;> decide
  rw [double, double, double, UInt8.shiftLeft_xor, hcarry]
  ac_rfl

theorem gfMul_assoc (a b c : UInt8) : gfMul a (gfMul b c) = gfMul (gfMul a b) c := by
  exact gf_generated.mul_assoc a b c

theorem gfMul_foldl {ι : Type} (a : UInt8) (f : ι → UInt8) (l : List ι) :
    gfMul a (l.foldl (fun v c => v ^^^ f c) 0) = l.foldl (fun v c => v ^^^ gfMul a (f c)) 0 := by
  have hzero : gfTable.mul a 0 = 0 := LogTable.mul_zero a
  have hfold := gf_generated.mul_foldl double_xor rfl a f l 0
  rwa [hzero] at hfold

namespace HvRaidzMap

variable {m : HvRaidzMap} {data : List UInt8} {col off p : Nat}

def source (m : HvRaidzMap) (col off : Nat) : Nat :=
  off / hvPoolBlockSize * hvPoolBlockSize * m.dataCols + col * hvPoolBlockSize + off % hvPoolBlockSize

theorem length_unit (m : HvRaidzMap) (data : List UInt8) (col unitIdx : Nat) :
    (m.unit data col unitIdx).length = hvPoolBlockSize := by
  simp only [unit, length_append, length_replicate, length_take]
  omega

theorem unit_getElem? (m : HvRaidzMap) (data : List UInt8) (col unitIdx : Nat) {b : Nat}
    (hb : b < hvPoolBlockSize) : (m.unit data col unitIdx)[b]? =
      some (data.getD (unitIdx * hvPoolBlockSize * m.dataCols + col * hvPoolBlockSize + b) 0) := by
  rw [unit]
  generalize unitIdx * hvPoolBlockSize * m.dataCols + col * hvPoolBlockSize = start
  by_cases hin : start + b < data.length
  · rw [getElem?_append_left (by rw [length_take, length_drop]; omega),
      getElem?_take_of_lt hb, getElem?_drop, getD_eq_getElem?_getD,
      getElem?_eq_getElem hin, getD_some]
  · have hlen : ((data.drop start).take hvPoolBlockSize).length ≤ b := by
      rw [length_take, length_drop]
      omega
    rw [getElem?_append_right hlen, getElem?_replicate_of_lt (by omega), getD_eq_default _ _ (by omega)]

theorem length_dataColumn (m : HvRaidzMap) (data : List UInt8) (col : Nat) :
    (m.dataColumn data col).length = m.columnSize data := by
  rw [dataColumn, length_pieces fun u _ => m.length_unit data col u, length_range]

theorem dataColumn_getElem? (hoff : off < m.columnSize data) :
    (m.dataColumn data col)[off]? = some (data.getD (m.source col off) 0) := by
  have hunit : off / hvPoolBlockSize < m.totalUnits data := by
    rw [columnSize, hvPoolBlockSize] at hoff
    rw [hvPoolBlockSize]
    omega
  rw [dataColumn, getElem?_pieces (by decide) fun u _ => m.length_unit data col u,
    getElem?_range hunit, bind_some, unit_getElem? m data col _ (Nat.mod_lt _ (by decide)),
    source]

theorem length_le_units (hcols : 0 < m.dataCols) :
    data.length ≤ m.totalUnits data * (hvPoolBlockSize * m.dataCols) := by
  have hpos : 0 < hvPoolBlockSize * m.dataCols := Nat.mul_pos (by decide) hcols
  rw [totalUnits]
  generalize hvPoolBlockSize * m.dataCols = width at hpos
  have hdiv := Nat.div_add_mod (data.length + (width - 1)) width
  have hmod := Nat.mod_lt (data.length + (width - 1)) hpos
  rw [Nat.mul_comm] at hdiv
  omega

theorem dataColumn_getD (hcols : 0 < m.dataCols) (col off : Nat) :
    (m.dataColumn data col).getD off 0 = data.getD (m.source col off) 0 := by
  by_cases hoff : off < m.columnSize data
  · rw [getD_eq_getElem?_getD, dataColumn_getElem? hoff, getD_some]
  · have hunits : m.totalUnits data ≤ off / hvPoolBlockSize := by
      rw [Nat.le_div_iff_mul_le (by decide)]
      exact Nat.not_lt.mp hoff
    have hsource : data.length ≤ m.source col off := by
      have hle := Nat.mul_le_mul_right (hvPoolBlockSize * m.dataCols) hunits
      have hlen := @length_le_units m data hcols
      rw [source, Nat.mul_assoc]
      omega
    rw [getD_eq_default _ _ hsource, getD_eq_default]
    rw [length_dataColumn]
    omega

theorem parityByte_eq (hcols : 0 < m.dataCols) (p off : Nat) :
    m.parityByte data p off = (range m.dataCols).foldl
      (fun val col => val ^^^ gfMul (m.coeff p col) (data.getD (m.source col off) 0)) 0 := by
  rw [parityByte]
  congr 1
  funext val col
  rw [dataColumn_getD hcols]

theorem parityByte_multiple (m : HvRaidzMap) (data : List UInt8) (p off : Nat) :
    m.parityByte data p off = gfMul (power (p * m.dataCols % 255)) (m.parityByte data 0 off) := by
  rw [parityByte, parityByte, gfMul_foldl]
  congr 1
  funext val col
  have hcoeff : m.coeff p col = gfMul (power (p * m.dataCols % 255)) (m.coeff 0 col) := by
    rw [coeff, coeff, Nat.zero_mul, Nat.zero_add]
    exact (gf_generated.exp_mul_exp (p * m.dataCols) col).symm
  rw [hcoeff, gfMul_assoc]

theorem parityColumn_getElem? (hoff : off < m.columnSize data) :
    (m.parityColumn data p)[off]? = some (m.parityByte data p off) := by
  rw [parityColumn, getElem?_map, getElem?_range hoff, map_some]

variable {data' : List UInt8}

def differing (columns columns' : List (List UInt8)) (n : Nat) : Nat :=
  ((range n).filter fun c => decide (columns[c]? ≠ columns'[c]?)).length

def weight (m : HvRaidzMap) (data : List UInt8) (off : Nat) : UInt8 :=
  (range m.dataCols).foldl
    (fun val col => val ^^^ gfMul (power (col % 255)) (data.getD (m.source col off) 0)) 0

abbrev Differ (m : HvRaidzMap) (data data' : List UInt8) : Prop :=
  ∃ off, off < m.columnSize data ∧ m.weight data off ≠ m.weight data' off

def touched (m : HvRaidzMap) (data data' : List UInt8) : Nat :=
  ((range m.dataCols).filter fun c => decide (m.dataColumn data c ≠ m.dataColumn data' c)).length

theorem weight_eq (hcols : 0 < m.dataCols) : m.weight data off = m.parityByte data 0 off := by
  rw [parityByte_eq hcols, weight]
  congr 1
  funext val col
  rw [coeff, Nat.zero_mul, Nat.zero_add]

theorem totalUnits_congr (hlen : data.length = data'.length) : m.totalUnits data = m.totalUnits data' := by
  rw [totalUnits, totalUnits, hlen]

theorem parityColumn_ne_iff (hcols : 0 < m.dataCols) (hlen : data.length = data'.length) (p : Nat) :
    m.parityColumn data p ≠ m.parityColumn data' p ↔ m.Differ data data' := by
  have hbyte : ∀ off, m.parityByte data p off = m.parityByte data' p off ↔
      m.weight data off = m.weight data' off := by
    intro off
    have hpower : power (p * m.dataCols % 255) ≠ 0 := power_ne_zero (Nat.mod_lt _ (by decide))
    rw [weight_eq hcols, weight_eq hcols, parityByte_multiple, parityByte_multiple m data']
    constructor
    · exact gf_generated.mul_cancel hpower
    · exact congrArg _
  rw [parityColumn, parityColumn, ← totalUnits_congr hlen, Ne, map_inj_left, not_forall]
  simp only [mem_range, hbyte, Classical.not_imp]

theorem generateParity_parity (hcols : 0 < m.dataCols) (hp : p < m.nparity) :
    (m.generateParity data)[p]? = some (m.parityColumn data p) := by
  have hlen : ((range m.nparity).map (m.parityColumn data)).length = m.nparity := by simp
  rw [generateParity, if_neg (by omega), getElem?_append_left (by omega), getElem?_map,
    getElem?_range hp, map_some]

theorem generateParity_data {col : Nat} (hcol : col < m.dataCols) :
    (m.generateParity data)[m.nparity + col]? = some (m.dataColumn data col) := by
  have hlen : ((range m.nparity).map (m.parityColumn data)).length = m.nparity := by simp
  rw [generateParity, if_neg (by omega), getElem?_append_right (by omega), hlen,
    Nat.add_sub_cancel_left, getElem?_map, getElem?_range hcol, map_some]

theorem parity_getD (hcols : 0 < m.dataCols) (hp : p < m.nparity) :
    (m.generateParity data).getD p [] = m.parityColumn data p := by
  rw [getD_eq_getElem?_getD, generateParity_parity hcols hp, getD_some]

theorem data_getD {col : Nat} (hcol : col < m.dataCols) :
    (m.generateParity data).getD (m.nparity + col) [] = m.dataColumn data col := by
  rw [getD_eq_getElem?_getD, generateParity_data hcol, getD_some]

theorem differing_parity (hcols : 0 < m.dataCols) (hlen : data.length = data'.length) :
    differing (m.generateParity data) (m.generateParity data') m.nparity =
      if m.Differ data data' then m.nparity else 0 := by
  have hcase : ∀ p ∈ range m.nparity,
      (decide ((m.generateParity data)[p]? ≠ (m.generateParity data')[p]?) = true ↔ m.Differ data data') := by
    intro p hp
    have hlt := mem_range.mp hp
    rw [decide_eq_true_eq, generateParity_parity hcols hlt, generateParity_parity hcols hlt, Ne,
      some.injEq, ← parityColumn_ne_iff hcols hlen p]
  rw [differing]
  split_ifs with hdiff
  · rw [filter_eq_self.mpr fun p hp => (hcase p hp).mpr hdiff, length_range]
  · rw [filter_eq_nil_iff.mpr fun p hp h => hdiff ((hcase p hp).mp h), length_nil]

theorem differing_data (m : HvRaidzMap) (data data' : List UInt8) :
    ((range m.dataCols).filter fun c => decide ((m.generateParity data)[m.nparity + c]? ≠
      (m.generateParity data')[m.nparity + c]?)).length = m.touched data data' := by
  congr 1
  apply filter_congr
  intro c hc
  have hlt := mem_range.mp hc
  rw [generateParity_data hlt, generateParity_data hlt, decide_eq_decide, Ne, some.injEq]

theorem touched_pos (hcols : 0 < m.dataCols) (hdiff : m.weight data off ≠ m.weight data' off) :
    0 < m.touched data data' := by
  by_contra hzero
  have hnil : (range m.dataCols).filter (fun c => decide (m.dataColumn data c ≠ m.dataColumn data' c)) = [] :=
    length_eq_zero_iff.mp (by rw [touched] at hzero; omega)
  have hsame := filter_eq_nil_iff.mp hnil
  apply hdiff
  rw [weight_eq hcols, weight_eq hcols, parityByte, parityByte]
  apply foldl_ext
  intro val col hcol
  have heq : m.dataColumn data col = m.dataColumn data' col := by simpa using hsame col hcol
  rw [heq]

theorem differing_eq (hcols : 0 < m.dataCols) (hlen : data.length = data'.length)  :
    differing (m.generateParity data) (m.generateParity data') m.ncols =
      (if m.Differ data data' then m.nparity else 0) + m.touched data data' := by
  have hsum : m.ncols = m.nparity + m.dataCols := by
    rw [dataCols] at hcols ⊢
    omega
  rw [hsum, differing, range_add, filter_append, length_append, filter_map, length_map]
  exact congrArg₂ _ (differing_parity hcols hlen) (differing_data ..)

/-- Two pieces of data of one length differ in more columns than there are parity columns just when
their weighted sums differ at some offset, or so many data columns already differ. -/
theorem columns_apart_iff (level : HvRaidzLevel) (ncols : Nat) (hcols : 0 < (new level ncols).dataCols)
    (data data' : List UInt8) (hlen : data.length = data'.length) :
    level.parityCols + 1 ≤ differing ((new level ncols).generateParity data)
        ((new level ncols).generateParity data') (new level ncols).ncols ↔
      (∃ off, off < (new level ncols).totalUnits data * hvPoolBlockSize ∧
        (new level ncols).weight data off ≠ (new level ncols).weight data' off) ∨
      level.parityCols + 1 ≤ (new level ncols).touched data data' := by
  have hparity : (new level ncols).nparity = level.parityCols := rfl
  rw [differing_eq hcols hlen, hparity]
  split_ifs with hdiff
  · have hpos : 0 < (new level ncols).touched data data' := by
      obtain ⟨off, -, hoff⟩ := hdiff
      exact touched_pos hcols hoff
    simp only [hdiff, true_or, iff_true]
    omega
  · simp only [hdiff, false_or, Nat.zero_add]

theorem columns_apart_one_byte :
    3 ≤ differing ((new .raidZ2 4).generateParity [0]) ((new .raidZ2 4).generateParity [1]) 4 :=
  (columns_apart_iff .raidZ2 4 (by decide) [0] [1] rfl).mpr (.inl ⟨0, by decide, by decide +kernel⟩)

theorem touched_le (m : HvRaidzMap) (data data' : List UInt8) : m.touched data data' ≤ m.dataCols := by
  have hle := length_filter_le (fun c => decide (m.dataColumn data c ≠ m.dataColumn data' c))
    (range m.dataCols)
  rwa [length_range] at hle

def hidden : List UInt8 := replicate 4096 2 ++ replicate 4096 1

theorem weight_two_columns (data : List UInt8) {off : Nat} (hoff : off < 4096) :
    (new .raidZ2 4).weight data off =
      0 ^^^ gfMul 1 (data.getD off 0) ^^^ gfMul 2 (data.getD (4096 + off) 0) := by
  have hcols : (new .raidZ2 4).dataCols = 2 := rfl
  have hfirst : (new .raidZ2 4).source 0 off = off := by
    rw [source, hvPoolBlockSize, hcols]
    omega
  have hsecond : (new .raidZ2 4).source 1 off = 4096 + off := by
    rw [source, hvPoolBlockSize, hcols]
    omega
  change 0 ^^^ gfMul 1 (data.getD ((new .raidZ2 4).source 0 off) 0) ^^^
    gfMul 2 (data.getD ((new .raidZ2 4).source 1 off) 0) = _
  rw [hfirst, hsecond]

theorem weight_hidden {off : Nat} (hoff : off < 4096) :
    (new .raidZ2 4).weight (replicate 8192 0) off = (new .raidZ2 4).weight hidden off := by
  have hfirst : hidden.getD off 0 = 2 := by
    rw [hidden, getD_append _ _ _ _ (by rwa [length_replicate]), getD_replicate _ hoff]
  have hsecond : hidden.getD (4096 + off) 0 = 1 := by
    rw [hidden, getD_append_right _ _ _ _ (by rw [length_replicate]; omega), length_replicate,
      Nat.add_sub_cancel_left, getD_replicate _ hoff]
  rw [weight_two_columns _ hoff, weight_two_columns _ hoff, getD_replicate _ (by omega),
    getD_replicate _ (by omega), hfirst, hsecond]
  decide +kernel

theorem columns_apart_fails : ¬ ∀ (level : HvRaidzLevel) (ncols : Nat) (data data' : List UInt8),
      (level = .raidZ2 ∨ level = .raidZ3) → 2 ≤ (new level ncols).dataCols →
      data.length = data'.length → data ≠ data' →
      level.parityCols + 1 ≤ differing ((new level ncols).generateParity data)
        ((new level ncols).generateParity data') (new level ncols).ncols := by
  intro hall
  have hlen : (replicate 8192 (0 : UInt8)).length = hidden.length := by
    rw [hidden, length_append, length_replicate, length_replicate, length_replicate]
  have hne : replicate 8192 0 ≠ hidden := by
    intro heq
    have hhead := congrArg (·.getD 0 0) heq
    exact absurd hhead (by decide)
  have hfar := hall .raidZ2 4 (replicate 8192 0) hidden (.inl rfl) (by decide) hlen hne
  have hsame : ¬ (new .raidZ2 4).Differ (replicate 8192 0) hidden := by
    have hsize : (new .raidZ2 4).columnSize (replicate 8192 0) = 4096 := by
      rw [columnSize, totalUnits, length_replicate]
      rfl
    rw [Differ, hsize]
    rintro ⟨off, hoff, hweight⟩
    exact hweight (weight_hidden hoff)
  rw [differing_eq (by decide) hlen, if_neg hsame] at hfar
  have hle : (new .raidZ2 4).touched (replicate 8192 0) hidden ≤ 2 := touched_le _ _ _
  have hthree : HvRaidzLevel.parityCols .raidZ2 + 1 = 3 := rfl
  omega

end HvRaidzMap

end AntX.Hvfs
