import AntX.Lib.Run
import AntX.Hvfs.Raidz

/-! What RAID-Z of services/fs/hvfs/raidz.rs gets back after columns have failed: multiples of the
first parity column. A scrub notices any one changed column. -/

namespace AntX.Hvfs

open AntX.Lib List

theorem gfInv_one : gfInv 1 = 1 := by decide +kernel

theorem gfMul_one (x : UInt8) : gfMul x 1 = x := by
  have hone : gfTable.exp 0 = 1 := by decide +kernel
  have hmul := gf_generated.one_mul x
  rw [hone, LogTable.mul_comm] at hmul
  exact hmul

structure Unital (mat : List (List UInt8)) (n : Nat) : Prop where
  length : mat.length = n
  diagonal : ∀ i < n, entry mat i i = 1
  other : ∀ i < n, ∀ j < n, j ≠ i → entry mat i j = 0

variable {mat : List (List UInt8)} {n col i p k pos : Nat}

theorem Unital.invertColumn (hu : Unital mat n) (hcol : col < n) : invertColumn n mat col = some mat := by
  have hpivot : findPivot mat n col = some col := by
    obtain ⟨k, hk⟩ : ∃ k, n - col = k + 1 := ⟨n - col - 1, by omega⟩
    have hone : (entry mat col col != 0) = true := by
      rw [hu.diagonal col hcol]
      decide
    rw [findPivot, hk, range'_succ, find?_cons, hone]
  have hscale : scaleRow mat col (gfInv (entry mat col col)) = mat := by
    rw [hu.diagonal col hcol, gfInv_one, scaleRow]
    simp only [gfMul_one, map_id']
    exact modify_id col mat
  have helim : eliminate mat col = mat := by
    apply ext_getElem?
    intro i
    rw [eliminate, getElem?_mapIdx]
    by_cases hi : i < mat.length
    · have hrow : mat.getD i [] = mat[i] := by simp [hi]
      rw [getElem?_eq_getElem hi, Option.map_some]
      congr 1
      apply if_pos
      by_cases hic : i = col
      · exact .inl hic
      · have hzero := hu.other i (hu.length ▸ hi) col hcol (Ne.symm hic)
        rw [entry, hrow] at hzero
        exact .inr hzero
    · rw [getElem?_eq_none (by omega), Option.map_none]
  rw [AntX.Hvfs.invertColumn, hpivot, Option.map_some]
  simp only [ne_eq, not_true_eq_false, if_false]
  rw [hscale, helim]

theorem Unital.gfInvertMatrix (hu : Unital mat n) : gfInvertMatrix mat n = some mat := by
  have hstay : ∀ l : List Nat, (∀ col ∈ l, col < n) → l.foldlM (AntX.Hvfs.invertColumn n) mat = some mat := by
    intro l hl
    induction l with
    | nil => rfl
    | cons col l ih =>
      rw [foldlM_cons, hu.invertColumn (hl col mem_cons_self)]
      exact ih fun c hc => hl c (mem_cons_of_mem _ hc)
  exact hstay _ fun col hcol => mem_range.mp hcol

namespace HvRaidzMap

variable {m : HvRaidzMap} {data : List UInt8} {columns : List (List UInt8)} {failed : List Nat}

theorem matrix_getElem? (m : HvRaidzMap) (failed : List Nat) (i : Nat) :
    (m.matrix failed)[i]? = failed[i]?.map fun col =>
      (range failed.length).map (fun j => if j = i then 1 else 0) ++ failed.map (m.mixing col) := by
  rw [matrix, getElem?_mapIdx]

theorem matrix_left {j : Nat} (hi : i < failed.length) (hj : j < failed.length) :
    entry (m.matrix failed) i j = if j = i then 1 else 0 := by
  have hrow : j < ((range failed.length).map fun j => if j = i then (1 : UInt8) else 0).length := by
    simpa using hj
  rw [entry, getD_eq_getElem?_getD (l := m.matrix failed), matrix_getElem?,
    getElem?_eq_getElem hi, Option.map_some, Option.getD_some, getD_append _ _ _ _ hrow]
  simp [hj]

theorem matrix_unital (m : HvRaidzMap) (failed : List Nat) : Unital (m.matrix failed) failed.length where
  length := by simp [matrix]
  diagonal i hi := by rw [matrix_left hi hi, if_pos rfl]
  other i hi j hj hne := by rw [matrix_left hi hj, if_neg hne]

def survivors (m : HvRaidzMap) (failed : List Nat) : List Nat :=
  (range m.ncols).filter fun col => !failed.contains col

theorem mem_survivors : col ∈ m.survivors failed ↔ col < m.ncols ∧ col ∉ failed := by
  simp [survivors]

def recombined (m : HvRaidzMap) (columns : List (List UInt8)) (failed : List Nat) (col pos : Nat) : UInt8 :=
  (m.survivors failed).foldl
    (fun val p => val ^^^ gfMul ((failed.map (m.mixing col)).getD p 0) ((columns.getD p []).getD pos 0)) 0

section Byte

variable {left : List UInt8} {col pos : Nat}

theorem rebuiltByte_some (hleft : left.length = failed.length) (hparity : 0 < m.nparity)
    (hlow : ∀ p ∈ m.survivors failed, p < failed.length) (hcolumns : m.ncols ≤ columns.length) :
    m.rebuiltByte columns failed (left ++ failed.map (m.mixing col)) pos =
      some (m.recombined columns failed col pos) := by
  apply foldlM_some
  intro val p hp
  have hlt := hlow p hp
  have hin : p < columns.length := by
    have := (mem_survivors.mp hp).1
    omega
  have hindex : failed.length + min p (failed.length - 1 + m.nparity) = left.length + p := by omega
  simp [hindex, hin, hlt]

theorem rebuiltByte_none (hleft : left.length = failed.length) (hparity : 0 < m.nparity)
    (hp : p ∈ m.survivors failed) (hhigh : failed.length ≤ p) :
    m.rebuiltByte columns failed (left ++ failed.map (m.mixing col)) pos = none := by
  apply foldlM_none hp
  intro val
  have hout : (left ++ failed.map (m.mixing col))[failed.length + min p (failed.length - 1 + m.nparity)]? =
      none := by
    apply getElem?_eq_none
    rw [length_append, length_map]
    omega
  rw [hout]
  cases columns[p]? <;> rfl

end Byte

theorem units_pos (hcols : 0 < m.dataCols) (hdata : data ≠ []) : 0 < m.totalUnits data := by
  have hpos := length_pos_of_ne_nil hdata
  exact Nat.pos_of_mul_pos_right (lt_of_lt_of_le hpos (length_le_units hcols))

structure Damaged (m : HvRaidzMap) (data : List UInt8) (failed : List Nat) (columns : List (List UInt8)) :
    Prop where
  length : columns.length = m.ncols
  sizes : ∀ (col : Nat) (c : List UInt8), columns[col]? = some c → c.length = m.totalUnits data * hvPoolBlockSize
  kept : ∀ col : Nat, col ∉ failed → columns[col]? = (m.generateParity data)[col]?

theorem Damaged.length_first (hd : m.Damaged data failed columns) (hcols : 0 < m.dataCols) :
    (columns.getD m.nparity []).length = m.columnSize data := by
  have hfirst : m.nparity < columns.length := by
    have hlen := hd.length
    rw [dataCols] at hcols
    omega
  rw [getD_eq_getElem?_getD, getElem?_eq_getElem hfirst, Option.getD_some,
    hd.sizes _ _ (getElem?_eq_getElem hfirst)]

structure Loss (m : HvRaidzMap) (failed : List Nat) : Prop where
  cols : 0 < m.dataCols
  parity : 0 < m.nparity
  allowed : m.level.maxFailures = m.nparity
  ne_nil : failed ≠ []
  few : failed.length ≤ m.nparity
  inside : ∀ fc ∈ failed, fc < m.ncols

def patched (m : HvRaidzMap) (columns : List (List UInt8)) (failed : List Nat) (len : Nat) :
    List (List UInt8) :=
  failed.foldl (fun cols fc => cols.set fc ((range len).map (m.recombined columns failed fc)))
    (m.surviving columns failed)

theorem reconstructData_failed (hloss : m.Loss failed) (hd : m.Damaged data failed columns) :
    m.reconstructData columns failed =
      ((m.matrix failed).mapM (m.rebuiltColumn columns failed (m.columnSize data))).map
        fun rebuilt => some (m.joined ((failed.zip rebuilt).foldl (fun cols r => cols.set r.1 r.2)
          (m.surviving columns failed))) := by
  have hlacking : m.lacking columns failed = false := by
    rw [lacking, any_eq_false]
    intro col hcol
    have hlt := mem_range.mp hcol
    simp [hd.length, hlt]
  have hinside : (failed.any fun fc => decide (m.ncols ≤ fc)) = false := by
    rw [any_eq_false]
    intro fc hfc
    simpa using hloss.inside fc hfc
  have hlen : (columns.getD m.nparity []).length / hvPoolBlockSize * hvPoolBlockSize =
      m.columnSize data := by
    rw [hd.length_first hloss.cols, Nat.mul_div_cancel _ (by decide)]
  rw [reconstructData, hloss.allowed, if_neg (Nat.not_lt.mpr hloss.few), if_neg hloss.ne_nil,
    (m.matrix_unital failed).gfInvertMatrix]
  simp only [hlacking, hinside, Bool.false_eq_true, or_self, if_false, hlen]

theorem mapM_rebuilt (hparity : 0 < m.nparity) (hcolumns : m.ncols ≤ columns.length)
    (hlow : ∀ p ∈ m.survivors failed, p < failed.length) (len : Nat) :
    (m.matrix failed).mapM (m.rebuiltColumn columns failed len) =
      some (failed.map fun fc => (range len).map (m.recombined columns failed fc)) := by
  apply mapM_mapIdx_some
  intro i fc _
  exact mapM_some fun pos _ => rebuiltByte_some (by simp) hparity hlow hcolumns

theorem reconstructData_patched (hloss : m.Loss failed) (hd : m.Damaged data failed columns)
    (hlow : ∀ p ∈ m.survivors failed, p < failed.length) :
    m.reconstructData columns failed =
      some (some (m.joined (m.patched columns failed (m.columnSize data)))) := by
  rw [reconstructData_failed hloss hd, mapM_rebuilt hloss.parity hd.length.ge hlow, Option.map_some,
    patched, ← map_prod_left_eq_zip, foldl_map]

theorem reconstructData_panics (hloss : m.Loss failed) (hd : m.Damaged data failed columns)
    (hdata : data ≠ []) (hp : p ∈ m.survivors failed) (hhigh : failed.length ≤ p) :
    m.reconstructData columns failed = none := by
  have hfirst : 0 < failed.length := length_pos_of_ne_nil hloss.ne_nil
  have hrow := m.matrix_getElem? failed 0
  rw [getElem?_eq_getElem hfirst, Option.map_some] at hrow
  have hoff : 0 ∈ range (m.columnSize data) :=
    mem_range.mpr (Nat.mul_pos (units_pos hloss.cols hdata) (by decide))
  rw [reconstructData_failed hloss hd, mapM_none (mem_of_getElem? hrow), Option.map_none]
  exact mapM_none hoff (rebuiltByte_none (by simp) hloss.parity hp hhigh)

theorem patched_first (hloss : m.Loss failed) (hfirst : m.nparity ∈ failed) (len : Nat) :
    (m.patched columns failed len).getD m.nparity [] =
      (range len).map (m.recombined columns failed m.nparity) := by
  have hset : ∀ (fcs : List Nat) (base : List (List UInt8)) (g : Nat → List UInt8), m.nparity < base.length →
      m.nparity ∈ fcs ∨ base.getD m.nparity [] = g m.nparity →
      (fcs.foldl (fun cols fc => cols.set fc (g fc)) base).getD m.nparity [] = g m.nparity := by
    intro fcs
    induction fcs with
    | nil => simp
    | cons fc fcs ih =>
      intro base g hlen hmem
      apply ih _ _ (by simpa using hlen)
      by_cases hfc : fc = m.nparity
      · simp [hfc, hlen]
      · rcases hmem with hmem | hbase
        · exact .inl ((mem_cons.mp hmem).resolve_left (Ne.symm hfc))
        · right
          simpa [getElem?_set_ne hfc] using hbase
  have hcols := hloss.cols
  rw [dataCols] at hcols
  exact hset failed _ (fun fc => (range len).map (m.recombined columns failed fc))
    (by simp [surviving]; omega) (.inl hfirst)

theorem joined_take (hcols : 0 < m.dataCols) (hk : k ≤ (columns.getD m.nparity []).length) :
    (m.joined columns).take k = (columns.getD m.nparity []).take k := by
  obtain ⟨d, hd⟩ : ∃ d, m.dataCols = d + 1 := ⟨m.dataCols - 1, by omega⟩
  rw [joined, hd, range_succ_eq_map, flatMap_cons, Nat.add_zero, take_append_of_le_length hk]

def share (m : HvRaidzMap) (failed : List Nat) (col : Nat) : UInt8 :=
  (m.survivors failed).foldl (fun val p =>
    val ^^^ gfMul ((failed.map (m.mixing col)).getD p 0) (power (p * m.dataCols % 255))) 0

section

variable (hloss : m.Loss failed) (hd : m.Damaged data failed columns)
  (hlow : ∀ p ∈ m.survivors failed, p < failed.length)

include hloss hd hlow

theorem recombined_eq (col : Nat) (hpos : pos < m.columnSize data) :
    m.recombined columns failed col pos = gfMul (m.share failed col) (m.weight data pos) := by
  rw [gfMul_eq, LogTable.mul_comm, share]
  have hfold := gfMul_foldl (m.weight data pos) (fun p =>
    gfMul ((failed.map (m.mixing col)).getD p 0) (power (p * m.dataCols % 255))) (m.survivors failed)
  rw [gfMul_eq] at hfold
  rw [hfold, recombined]
  apply foldl_ext
  intro val p hp
  have hp' : p < m.nparity := lt_of_lt_of_le (hlow p hp) hloss.few
  have hcolumn : columns.getD p [] = m.parityColumn data p := by
    rw [getD_eq_getElem?_getD, hd.kept p (mem_survivors.mp hp).2, generateParity_parity hloss.cols hp',
      Option.getD_some]
  have hbyte : (columns.getD p []).getD pos 0 = gfMul (power (p * m.dataCols % 255)) (m.weight data pos) := by
    rw [hcolumn, getD_eq_getElem?_getD, parityColumn_getElem? hpos, Option.getD_some,
      parityByte_multiple, weight_eq hloss.cols]
  rw [hbyte]
  congr 1
  rw [gfMul_eq, gfMul_eq, gfMul_eq, gfMul_eq, gf_generated.mul_assoc]
  exact LogTable.mul_comm _ _

theorem reconstructData_take (hk : k ≤ m.columnSize data) :
    ∃ bytes, m.reconstructData columns failed = some (some bytes) ∧
      bytes.take k = (range k).map fun pos => gfMul (m.share failed m.nparity) (m.weight data pos) := by
  have hcols := hloss.cols
  have hfirst : m.nparity ∈ failed := by
    by_contra hkept
    have hlt := hlow m.nparity (mem_survivors.mpr ⟨by rw [dataCols] at hcols; omega, hkept⟩)
    have hfew := hloss.few
    omega
  refine ⟨_, reconstructData_patched hloss hd hlow, ?_⟩
  have hcolumn := @patched_first m columns failed hloss hfirst (m.columnSize data)
  rw [joined_take hcols (by rw [hcolumn]; simpa using hk), hcolumn, ← map_take, take_range,
    Nat.min_eq_left hk]
  apply map_congr_left
  intro pos hpos
  exact recombined_eq hloss hd hlow _ (lt_of_lt_of_le (mem_range.mp hpos) hk)

end

theorem xor_range_except {f g : Nat → UInt8} (hi : i < n) (hsame : ∀ c < n, c ≠ i → f c = g c) :
    (range n).foldl (fun val c => val ^^^ f c) 0 ^^^ f i =
      (range n).foldl (fun val c => val ^^^ g c) 0 ^^^ g i := by
  induction n with
  | zero => omega
  | succ n ih =>
    simp only [range_succ, foldl_append, foldl_cons, foldl_nil]
    by_cases hlast : i = n
    · subst hlast
      have hfront : (range i).foldl (fun val c => val ^^^ f c) 0 =
          (range i).foldl (fun val c => val ^^^ g c) 0 := by
        apply foldl_ext
        intro val c hc
        have hlt := mem_range.mp hc
        rw [hsame c (by omega) (by omega)]
      simp only [UInt8.xor_assoc, UInt8.xor_self, hfront]
    · have hfront := ih (by omega) fun c hc hne => hsame c (by omega) hne
      rw [hsame n (by omega) (Ne.symm hlast), UInt8.xor_assoc, UInt8.xor_comm (g n), ← UInt8.xor_assoc,
        hfront, UInt8.xor_assoc, UInt8.xor_comm (g i), ← UInt8.xor_assoc]

theorem xor_range_only {f : Nat → UInt8} (hi : i < n) (hf : ∀ c < n, c ≠ i → f c = 0) :
    (range n).foldl (fun val c => val ^^^ f c) 0 = f i := by
  have hzero : (range n).foldl (fun val _ => val ^^^ 0) (0 : UInt8) = 0 := foldl_fixed' (fun _ => rfl) _
  have hsum := xor_range_except (g := fun _ => 0) hi hf
  rw [hzero] at hsum
  exact UInt8.xor_eq_zero_iff.mp hsum

theorem weight_only (hcol : col < m.dataCols)
    (hrest : ∀ c < m.dataCols, c ≠ col → data.getD (m.source c pos) 0 = 0) :
    m.weight data pos = gfMul (power (col % 255)) (data.getD (m.source col pos) 0) := by
  apply xor_range_only hcol
  intro c hc hne
  rw [hrest c hc hne, gfMul, if_pos (.inr rfl)]

theorem weight_first (hcols : 0 < m.dataCols)
    (hrest : ∀ c < m.dataCols, c ≠ 0 → data.getD (m.source c pos) 0 = 0) :
    m.weight data pos = data.getD (m.source 0 pos) 0 := by
  rw [weight_only hcols hrest]
  exact gf_generated.one_mul _

def mended : List (HvRaidzLevel × Nat × List Nat) :=
  [(.raidZ1, 2, [1]), (.raidZ2, 3, [2, 1]), (.raidZ2, 4, [2, 3]), (.raidZ3, 4, [3, 1, 2]),
   (.raidZ3, 4, [3, 2, 1]), (.raidZ3, 5, [3, 1, 4]), (.raidZ3, 5, [3, 4, 2]), (.raidZ3, 6, [3, 4, 5]),
   (.raidZ3, 6, [3, 5, 4])]

def mends (m : HvRaidzMap) (failed : List Nat) : Bool :=
  (m.survivors failed).all (· < failed.length) && m.share failed m.nparity == 1

def lists : List (List Nat) :=
  let some := range 6
  some.map ([·]) ++ some.flatMap (fun i => some.map ([i, ·])) ++
    some.flatMap fun i => some.flatMap fun j => some.map ([i, j, ·])

theorem mem_lists (hne : failed ≠ []) (hlen : failed.length ≤ 3) (hin : ∀ fc ∈ failed, fc < 6) :
    failed ∈ lists := by
  match failed, hne, hlen with
  | [i], _, _ => simpa [lists] using hin
  | [i, j], _, _ => simpa [lists] using hin
  | [i, j, k], _, _ => simpa [lists] using hin

theorem mends_small : ∀ level ∈ [HvRaidzLevel.raidZ1, .raidZ2, .raidZ3], ∀ c < 7, level.parityCols < c →
    ∀ failed ∈ lists, failed.Nodup → failed.length ≤ level.parityCols → (∀ fc ∈ failed, fc < c) →
      mends ⟨level, c, level.parityCols⟩ failed = mended.contains (level, c, failed) := by
  decide +kernel

/-- From whatever is left of any data of this length the data come back. -/
def Recovers (m : HvRaidzMap) (failed : List Nat) (n : Nat) : Prop :=
  ∀ data columns, data.length = n → m.Damaged data failed columns →
    ∃ bytes, m.reconstructData columns failed = some (some bytes) ∧ bytes.take n = data

theorem damaged_self (hcols : 0 < m.dataCols) (data : List UInt8) (failed : List Nat) :
    m.Damaged data failed (m.generateParity data) where
  length := by
    rw [generateParity, if_neg (by omega), length_append, length_map, length_map, length_range, length_range]
    rw [dataCols] at hcols ⊢
    omega
  sizes col c hc := by
    rw [generateParity, if_neg (by omega)] at hc
    rcases mem_append.mp (mem_of_getElem? hc) with hmem | hmem
    · obtain ⟨p, -, rfl⟩ := mem_map.mp hmem
      rw [parityColumn, length_map, length_range]
    · obtain ⟨d, -, rfl⟩ := mem_map.mp hmem
      rw [length_dataColumn]
  kept _ _ := rfl

def spot (n i : Nat) : List UInt8 := (replicate n 0).set i 1

theorem length_spot (n i : Nat) : (spot n i).length = n := by simp [spot]

theorem spot_getD (hi : i < n) (j : Nat) : (spot n i).getD j 0 = if j = i then 1 else 0 := by
  rw [spot, getD_eq_getElem?_getD, getElem?_set]
  by_cases hj : i = j
  · rw [if_pos hj, if_pos (by simpa using hi), if_pos hj.symm, Option.getD_some]
  · rw [if_neg hj, if_neg (Ne.symm hj), getElem?_getD_replicate_default_eq]

theorem range_getD (data : List UInt8) : ((range data.length).map fun i => data.getD i 0) = data := by
  apply ext_getElem?
  intro i
  by_cases hi : i < data.length <;> simp [hi]

theorem source_first (h : m.dataCols = 1 ∨ pos < hvPoolBlockSize) : m.source 0 pos = pos := by
  rw [source]
  rcases h with hone | hlt
  · have hblock : hvPoolBlockSize = 4096 := rfl
    rw [hone, hblock]
    omega
  · rw [Nat.div_eq_of_lt hlt, Nat.mod_eq_of_lt hlt]
    omega

theorem weight_spot_first (hcols : 0 < m.dataCols) (hn : 0 < n) : m.weight (spot n 0) 0 = 1 := by
  have hsource : ∀ col, m.source col 0 = col * hvPoolBlockSize := by simp [source]
  rw [weight_first hcols, hsource, spot_getD hn]
  · rfl
  · intro c _ hne
    rw [hsource, spot_getD hn, if_neg (Nat.mul_ne_zero hne (by decide))]

theorem weight_spot_second (hcols : 1 < m.dataCols) (hn : hvPoolBlockSize < n) :
    m.weight (spot n hvPoolBlockSize) 0 = 2 := by
  have hsource : ∀ col, m.source col 0 = col * hvPoolBlockSize := by simp [source]
  rw [weight_only hcols, hsource, spot_getD hn]
  · decide +kernel
  · intro c _ hne
    rw [hsource, spot_getD hn, if_neg (by rw [hvPoolBlockSize]; omega)]

theorem Recovers.low (hloss : m.Loss failed) (hn : 0 < n) (hrec : m.Recovers failed n) :
    ∀ p ∈ m.survivors failed, p < failed.length := by
  intro p hp
  by_contra hhigh
  have hself := damaged_self hloss.cols (spot n 0) failed
  have hdata : spot n 0 ≠ [] := ne_nil_of_length_pos (by rw [length_spot]; exact hn)
  obtain ⟨bytes, hbytes, -⟩ := hrec _ _ (length_spot n 0) hself
  rw [reconstructData_panics hloss hself hdata hp (Nat.not_lt.mp hhigh)] at hbytes
  cases hbytes

theorem Recovers.head (hloss : m.Loss failed) (hn : 0 < n) (hrec : m.Recovers failed n) (i : Nat) :
    gfMul (m.share failed m.nparity) (m.weight (spot n i) 0) = (spot n i).getD 0 0 := by
  have hself := damaged_self hloss.cols (spot n i) failed
  have hdata : spot n i ≠ [] := ne_nil_of_length_pos (by rw [length_spot]; exact hn)
  obtain ⟨bytes, hbytes, htake⟩ := hrec _ _ (length_spot n i) hself
  obtain ⟨bytes', hbytes', hfirst⟩ := reconstructData_take hloss hself (hrec.low hloss hn)
    (Nat.mul_pos (units_pos hloss.cols hdata) (by decide : 0 < hvPoolBlockSize))
  have hsame : bytes = bytes' := by
    rw [hbytes] at hbytes'
    exact Option.some.inj (Option.some.inj hbytes')
  have hhead : (spot n i)[0]? = bytes'[0]? := by
    rw [← htake, getElem?_take_of_lt hn, hsame]
  have hget : bytes'[0]? = some (gfMul (m.share failed m.nparity) (m.weight (spot n i) 0)) := by
    rw [← getElem?_take_of_lt Nat.zero_lt_one, hfirst]
    rfl
  rw [getD_eq_getElem?_getD, hhead, hget, Option.getD_some]

theorem recovers_lost_iff (hloss : m.Loss failed) (hn : 0 < n) :
    m.Recovers failed n ↔ m.mends failed = true ∧ (m.dataCols = 1 ∨ n ≤ hvPoolBlockSize) := by
  have hcols := hloss.cols
  constructor
  · intro hrec
    have hshare : m.share failed m.nparity = 1 := by
      have hfirst := hrec.head hloss hn 0
      rwa [weight_spot_first hcols hn, gfMul_one, spot_getD hn, if_pos rfl] at hfirst
    refine ⟨?_, ?_⟩
    · rw [mends, hshare]
      simpa using hrec.low hloss hn
    · by_contra hlong
      have hsecond := hrec.head hloss hn hvPoolBlockSize
      rw [weight_spot_second (by omega) (by omega), hshare, spot_getD (by omega)] at hsecond
      revert hsecond
      decide +kernel
  · rintro ⟨hmends, hshort⟩ data columns hlen hd
    rw [mends, Bool.and_eq_true, all_eq_true, beq_iff_eq] at hmends
    obtain ⟨hlow, hshare⟩ := hmends
    have hdata : data ≠ [] := ne_nil_of_length_pos (by omega)
    have hfit : n ≤ m.columnSize data := by
      have hunits := units_pos hcols hdata
      have hle := @length_le_units m data hcols
      rw [hlen] at hle
      rcases hshort with hone | hshort
      · rwa [hone, Nat.mul_one] at hle
      · exact hshort.trans (Nat.le_mul_of_pos_left _ hunits)
    obtain ⟨bytes, hbytes, htake⟩ := reconstructData_take hloss hd (by simpa using hlow) hfit
    refine ⟨bytes, hbytes, ?_⟩
    rw [htake, hshare, ← hlen]
    refine Eq.trans (map_congr_left ?_) (range_getD data)
    intro pos hpos
    have hlt := mem_range.mp hpos
    have hone : gfMul 1 (m.weight data pos) = m.weight data pos := gf_generated.one_mul _
    have hself : m.source 0 pos = pos := source_first (by omega)
    rw [hone, weight_first hcols, hself]
    intro c hc hne
    apply getD_eq_default
    have hwide : hvPoolBlockSize ≤ c * hvPoolBlockSize := Nat.le_mul_of_pos_left _ (Nat.pos_of_ne_zero hne)
    rw [source]
    omega

theorem units_eq_one (hn : data ≠ []) (hle : data.length ≤ m.dataCols * hvPoolBlockSize) :
    m.totalUnits data = 1 := by
  have hpos := length_pos_of_ne_nil hn
  rw [Nat.mul_comm] at hle
  apply Nat.div_eq_of_lt_le <;> omega

theorem joined_getElem? (hcols : 0 < m.dataCols) (hdata : data ≠ [])
    (hi : i / (m.columnSize data) < m.dataCols) :
    (m.joined (m.generateParity data))[i]? = some (data.getD (m.source
      (i / (m.columnSize data)) (i % (m.columnSize data))) 0) := by
  have hpos : 0 < m.columnSize data := Nat.mul_pos (units_pos hcols hdata) (by decide)
  have hsize : ∀ col ∈ range m.dataCols,
      ((m.generateParity data).getD (m.nparity + col) []).length = m.columnSize data := by
    intro col hcol
    rw [data_getD (mem_range.mp hcol), length_dataColumn]
  rw [joined, getElem?_pieces hpos hsize, getElem?_range hi, Option.bind_some,
    data_getD hi, dataColumn_getElem? (Nat.mod_lt _ hpos)]

theorem Damaged.intact (hd : m.Damaged data [] columns) :
    m.reconstructData columns [] = some (some (m.joined (m.generateParity data))) := by
  have hsame : columns = m.generateParity data :=
    ext_getElem? fun col => hd.kept col (not_mem_nil)
  rw [reconstructData, if_neg (by simp), if_pos rfl, if_neg (by have := hd.length; omega), hsame]

theorem place_of_short (hlen : data.length = n) (hi : i < n)
    (hshort : m.dataCols = 1 ∨ n ≤ m.dataCols * hvPoolBlockSize) :
    i / (m.columnSize data) < m.dataCols ∧
      m.source (i / (m.columnSize data)) (i % (m.columnSize data)) = i := by
  rw [columnSize]
  rcases hshort with hone | hshort
  · have hle := @length_le_units m data (by omega)
    rw [hone, Nat.mul_one, hlen] at hle
    rw [Nat.div_eq_of_lt (by omega), Nat.mod_eq_of_lt (by omega)]
    exact ⟨by omega, source_first (.inl hone)⟩
  · rw [units_eq_one (ne_nil_of_length_pos (by omega)) (by omega), Nat.one_mul, source, Nat.mod_mod,
      Nat.div_eq_of_lt (Nat.mod_lt i (by decide)), Nat.mul_comm _ hvPoolBlockSize, Nat.mul_comm _ hvPoolBlockSize]
    refine ⟨Nat.div_lt_of_lt_mul (by rw [Nat.mul_comm]; omega), ?_⟩
    rw [Nat.mul_zero, Nat.zero_mul, Nat.zero_add, Nat.div_add_mod]

theorem not_recovers_striped (hmany : 1 < m.dataCols) (hlong : m.dataCols * hvPoolBlockSize < n) :
    ¬ m.Recovers [] n := by
  intro hrec
  have hwide : 2 * hvPoolBlockSize ≤ m.dataCols * hvPoolBlockSize := Nat.mul_le_mul_right _ hmany
  have hpos : 0 < hvPoolBlockSize := by decide
  generalize hspot : spot n (m.dataCols * hvPoolBlockSize) = data
  have hlen : data.length = n := by rw [← hspot, length_spot]
  have hdata : data ≠ [] := ne_nil_of_length_pos (by omega)
  obtain ⟨bytes, hbytes, htake⟩ := hrec data _ hlen (damaged_self (by omega) data [])
  rw [(damaged_self (by omega) data []).intact] at hbytes
  have hunits : 1 < m.totalUnits data := by
    have hle := @length_le_units m data (by omega)
    rw [Nat.mul_comm hvPoolBlockSize] at hle
    by_contra hfew
    have hone := Nat.mul_le_mul_right (m.dataCols * hvPoolBlockSize) (Nat.not_lt.mp hfew)
    omega
  have hlarge : hvPoolBlockSize < m.columnSize data := (Nat.lt_mul_iff_one_lt_left hpos).mpr hunits
  have hsource : m.source 0 hvPoolBlockSize = m.dataCols * hvPoolBlockSize := by
    rw [source, Nat.div_self hpos, Nat.mod_self, Nat.one_mul, Nat.zero_mul, Nat.add_zero, Nat.mul_comm]
  have hmoved : bytes[hvPoolBlockSize]? = some 1 := by
    rw [← Option.some.inj (Option.some.inj hbytes), joined_getElem? (by omega) hdata,
      Nat.div_eq_of_lt hlarge, Nat.mod_eq_of_lt hlarge, hsource, ← hspot, spot_getD hlong, if_pos rfl]
    rw [Nat.div_eq_of_lt hlarge]
    omega
  have hzero : data.getD hvPoolBlockSize 0 = 0 := by
    rw [← hspot, spot_getD hlong, if_neg (by omega)]
  rw [← htake, getD_eq_getElem?_getD, getElem?_take_of_lt (by omega), hmoved] at hzero
  exact absurd hzero (by decide)

theorem recovers_intact_iff (hcols : 0 < m.dataCols) (hn : 0 < n) :
    m.Recovers [] n ↔ m.dataCols = 1 ∨ n ≤ m.dataCols * hvPoolBlockSize := by
  constructor
  · intro hrec
    by_contra hlong
    exact not_recovers_striped (by omega) (by omega) hrec
  · intro hshort data columns hlen hd
    have hdata : data ≠ [] := ne_nil_of_length_pos (by omega)
    refine ⟨_, hd.intact, ?_⟩
    apply ext_getElem?
    intro i
    by_cases hi : i < n
    · obtain ⟨hin, hplace⟩ := place_of_short hlen hi hshort
      rw [getElem?_take_of_lt hi, joined_getElem? hcols hdata hin, hplace]
      simp [hlen, hi]
    · have htake : ((m.joined (m.generateParity data)).take n).length ≤ i := by
        rw [length_take]
        omega
      rw [getElem?_eq_none htake, getElem?_eq_none (by omega)]

theorem recovers_nothing (hcols : 0 < m.dataCols) (hfailed : failed = [] ∨ m.Loss failed) :
    m.Recovers failed 0 := by
  intro data columns hlen hd
  obtain rfl := length_eq_zero_iff.mp hlen
  rcases hfailed with rfl | hloss
  · exact ⟨_, hd.intact, rfl⟩
  · have hsize : m.columnSize [] = 0 := by
      have hpos : 0 < hvPoolBlockSize * m.dataCols := Nat.mul_pos (by decide) hcols
      rw [columnSize, totalUnits, Nat.div_eq_of_lt (by omega), Nat.zero_mul]
    have hrows : (m.matrix failed).mapM (m.rebuiltColumn columns failed 0) =
        some ((m.matrix failed).map fun _ => []) := mapM_some fun _ _ => rfl
    rw [reconstructData_failed hloss hd, hsize, hrows]
    exact ⟨_, rfl, rfl⟩

theorem mends_iff {level : HvRaidzLevel} (hlevel : level = .raidZ1 ∨ level = .raidZ2 ∨ level = .raidZ3) {c : Nat}
    (hcols : level.parityCols < c) (hne : failed ≠ []) (hnodup : failed.Nodup)
    (hfew : failed.length ≤ level.parityCols) (hin : ∀ fc ∈ failed, fc < c) :
    mends ⟨level, c, level.parityCols⟩ failed = true ↔ (level, c, failed) ∈ mended := by
  have hthree : level.parityCols ≤ 3 := by cases level <;> decide
  by_cases hc : c < 7
  · have hmem : failed ∈ lists := mem_lists hne (by omega) fun fc hfc => by have := hin fc hfc; omega
    have hlevels : level ∈ [HvRaidzLevel.raidZ1, .raidZ2, .raidZ3] := by simpa using hlevel
    rw [mends_small level hlevels c hc hcols failed hmem hnodup hfew hin, contains_iff_mem]
  · constructor
    · intro hmends
      rw [mends, Bool.and_eq_true, all_eq_true] at hmends
      -- all columns from `failed.length` on have failed, which are too many
      have hsub : Finset.Ico failed.length c ⊆ failed.toFinset := by
        intro p hp
        have hp' := Finset.mem_Ico.mp hp
        rw [mem_toFinset]
        by_contra hkept
        have hlow := hmends.1 p (mem_survivors.mpr ⟨hp'.2, hkept⟩)
        rw [decide_eq_true_eq] at hlow
        omega
      have hcard := (Finset.card_le_card hsub).trans failed.toFinset_card_le
      rw [Nat.card_Ico] at hcard
      omega
    · intro hmem
      have hsmall : ∀ x ∈ mended, x.2.1 < 7 := by decide
      exact absurd (hsmall _ hmem) hc

/-- Data of `n` bytes come back from all that can be left of them just when there are none, when nothing
has failed and the data fill no more than a unit of each data column, or after one of the nine losses that
are made good, if they fill no more than the first unit. -/
theorem recovers_iff (level : HvRaidzLevel) (hlevel : level = .raidZ1 ∨ level = .raidZ2 ∨ level = .raidZ3)
    (ncols : Nat) (hcols : 0 < (new level ncols).dataCols) (failed : List Nat) (hnodup : failed.Nodup)
    (hin : ∀ fc ∈ failed, fc < (new level ncols).ncols) (hfew : failed.length ≤ (new level ncols).nparity)
    (n : Nat) :
    (new level ncols).Recovers failed n ↔ n = 0 ∨
      (failed = [] ∧ ((new level ncols).dataCols = 1 ∨ n ≤ (new level ncols).dataCols * hvPoolBlockSize)) ∨
      ((level, (new level ncols).ncols, failed) ∈ mended ∧
        ((new level ncols).dataCols = 1 ∨ n ≤ hvPoolBlockSize)) := by
  have hloss : failed ≠ [] → (new level ncols).Loss failed := by
    intro hne
    have hlevels : 0 < level.parityCols ∧ level.maxFailures = level.parityCols := by
      rcases hlevel with rfl | rfl | rfl <;> decide
    exact ⟨hcols, hlevels.1, hlevels.2, hne, hfew, hin⟩
  rcases Nat.eq_zero_or_pos n with rfl | hn
  · simp only [true_or, iff_true]
    by_cases hne : failed = []
    · exact recovers_nothing hcols (.inl hne)
    · exact recovers_nothing hcols (.inr (hloss hne))
  · by_cases hne : failed = []
    · subst hne
      have hnone : (level, (new level ncols).ncols, []) ∉ mended := by simp [mended]
      simp only [recovers_intact_iff hcols hn, hnone, hn.ne', true_and, false_and, false_or, or_false]
    · have hparity : level.parityCols < (new level ncols).ncols := by
        have hdata : 0 < (new level ncols).ncols - level.parityCols := hcols
        omega
      have hmends := mends_iff hlevel hparity hne hnodup hfew hin
      rw [recovers_lost_iff (hloss hne) hn]
      simp only [hne, hn.ne', false_and, false_or]
      exact and_congr_left' hmends

theorem recovers_single_column : (new .raidZ1 2).Recovers [1] 5000 :=
  (recovers_iff .raidZ1 (.inl rfl) 2 (by decide) [1] (by decide) (by decide) (by decide) 5000).mpr
    (.inr (.inr ⟨by decide, .inl rfl⟩))

theorem first_data_column_lost :
    ¬ ∀ level : HvRaidzLevel, level = .raidZ1 ∨ level = .raidZ2 ∨ level = .raidZ3 →
      ∀ ncols, 0 < (new level ncols).dataCols → ∀ failed : List Nat, failed.Nodup →
      (∀ fc ∈ failed, fc < (new level ncols).ncols) → failed.length ≤ (new level ncols).nparity →
      ∀ data columns, (new level ncols).Damaged data failed columns →
        ∃ bytes, (new level ncols).reconstructData columns failed = some (some bytes) ∧
          bytes.take data.length = data := by
  intro hall
  have hloss : (new .raidZ1 3).Loss [1] := ⟨by decide, by decide, rfl, by simp, by decide, by decide⟩
  have hself := damaged_self hloss.cols [7] [1]
  obtain ⟨bytes, hbytes, -⟩ := hall .raidZ1 (.inl rfl) 3 hloss.cols [1] (by decide) hloss.inside hloss.few [7] _ hself
  -- the second data column, of number 2, is left
  rw [reconstructData_panics hloss hself (by simp) (mem_survivors.mpr (by decide : 2 < 3 ∧ 2 ∉ [1])) (by decide)]
    at hbytes
  cases hbytes

def computed (m : HvRaidzMap) (columns : List (List UInt8)) (p off : Nat) : UInt8 :=
  (range m.dataCols).foldl
    (fun val col => val ^^^ gfMul (m.coeff p col) ((columns.getD (m.nparity + col) []).getD off 0)) 0

def verifyParity (m : HvRaidzMap) (columns : List (List UInt8)) : Bool :=
  decide (m.ncols ≤ columns.length) &&
    (range ((columns.getD m.nparity []).length / hvPoolBlockSize * hvPoolBlockSize)).all fun off =>
      (range m.nparity).all fun p => m.computed columns p off == (columns.getD p []).getD off 0

variable {c off : Nat}

theorem verifyParity_iff (hcols : 0 < m.dataCols) (hd : m.Damaged data failed columns) :
    m.verifyParity columns = true ↔ ∀ off < m.columnSize data, ∀ p < m.nparity,
      m.computed columns p off = (columns.getD p []).getD off 0 := by
  rw [verifyParity, hd.length_first hcols, Nat.mul_div_cancel _ (by decide)]
  simp [hd.length]

theorem verifyParity_generated (hcols : 0 < m.dataCols) (data : List UInt8) :
    m.verifyParity (m.generateParity data) = true := by
  refine (verifyParity_iff hcols (damaged_self hcols data [])).mpr fun off hoff p hp => ?_
  rw [parity_getD hcols hp, getD_eq_getElem?_getD, parityColumn_getElem? hoff, Option.getD_some]
  apply foldl_ext
  intro val col hcol
  rw [data_getD (mem_range.mp hcol)]

theorem accepted_byte (hparity : 0 < m.nparity) (hcols : 0 < m.dataCols) (hd : m.Damaged data [c] columns)
    (hok : m.verifyParity columns = true) (hc : c < m.ncols) (hoff : off < m.columnSize data) :
    (columns.getD c []).getD off 0 = ((m.generateParity data).getD c []).getD off 0 := by
  have hsum := (verifyParity_iff hcols hd).mp hok off hoff
  have hsum' := (verifyParity_iff hcols (damaged_self hcols data [])).mp (verifyParity_generated hcols data) off hoff
  have hkept : ∀ i ≠ c, columns.getD i [] = (m.generateParity data).getD i [] := by
    intro i hi
    rw [getD_eq_getElem?_getD, getD_eq_getElem?_getD, hd.kept i (by simpa using hi)]
  by_cases hlow : c < m.nparity
  · rw [← hsum c hlow, ← hsum' c hlow]
    apply foldl_ext
    intro val col _
    rw [hkept _ (by omega)]
  · -- the first parity byte is right, so the sums agree and with them the one term that could differ
    obtain ⟨col, rfl⟩ : ∃ col, c = m.nparity + col := ⟨c - m.nparity, by omega⟩
    have hsame : m.computed columns 0 off = m.computed (m.generateParity data) 0 off := by
      rw [hsum 0 hparity, hsum' 0 hparity, hkept 0 (by omega)]
    have hterm := xor_range_except (n := m.dataCols) (i := col) (by rw [dataCols]; omega) fun i _ hi =>
      congrArg (fun column => gfMul (m.coeff 0 i) (column.getD off 0)) (hkept (m.nparity + i) (by omega))
    rw [computed, computed] at hsame
    rw [hsame] at hterm
    exact gf_generated.mul_cancel (power_ne_zero (Nat.mod_lt _ (by decide))) ((UInt8.xor_right_inj _).mp hterm)

/-- The scrub accepts the columns that were written and rejects all others that differ from them in one
column only, of whatever kind. -/
theorem scrub_sound (m : HvRaidzMap) (hparity : 0 < m.nparity) (hcols : 0 < m.dataCols) (data : List UInt8) :
    m.verifyParity (m.generateParity data) = true ∧
      ∀ c columns, m.Damaged data [c] columns → columns ≠ m.generateParity data →
        m.verifyParity columns = false := by
  refine ⟨verifyParity_generated hcols data, fun c columns hd hne => ?_⟩
  by_contra hok
  have hself := damaged_self hcols data []
  apply hne
  apply ext_getElem (hd.length.trans hself.length.symm)
  intro i hi hi'
  by_cases hic : i = c
  · subst hic
    have hsize := hd.sizes i _ (getElem?_eq_getElem hi)
    apply ext_getElem (hsize.trans (hself.sizes i _ (getElem?_eq_getElem hi')).symm)
    intro off hoff hoff'
    have hbyte := accepted_byte hparity hcols hd (by simpa using hok) (hd.length ▸ hi) (hsize ▸ hoff)
    simpa [hi, hi', hoff, hoff'] using hbyte
  · have hkept := hd.kept i (by simpa using hic)
    simpa [hi, hi'] using hkept

theorem scrub_sound_mirror : (new .raidZ1 2).verifyParity ((new .raidZ1 2).generateParity [7]) = true ∧
    ∀ c columns, (new .raidZ1 2).Damaged [7] [c] columns → columns ≠ (new .raidZ1 2).generateParity [7] →
      (new .raidZ1 2).verifyParity columns = false :=
  scrub_sound (new .raidZ1 2) (by decide) (by decide) [7]

end HvRaidzMap

end AntX.Hvfs
