import Mathlib.Data.List.GetD
import AntX.Lib.Bytes

/-! Byte memories: ranges are stored, cleared and loaded, and words of four bytes are read back where
nothing was stored over them. -/

namespace AntX.Lib

open List

abbrev Memory : Type := Nat → UInt8

namespace Memory

section

variable (m : Memory) (start : Nat)

def store (bs : List UInt8) : Memory := fun a =>
  if start ≤ a then bs.getD (a - start) (m a) else m a

def zero (start stop : Nat) : Memory := fun a => if start ≤ a ∧ a < stop then 0 else m a

def load (start n : Nat) : List UInt8 := (range n).map fun i => m (start + i)

def word : Nat := leNat (m.load start 4)

def upTo (n : Nat) : Memory := fun a => if a < n then m a else 0

end

variable {m m' : Memory} {start start' stop n a v : Nat} {bs : List UInt8}

theorem store_outside (h : a < start ∨ start + bs.length ≤ a) : m.store start bs a = m a := by
  by_cases hs : start ≤ a
  · rw [store, if_pos hs, getD_eq_default]
    omega
  · rw [store, if_neg hs]

theorem store_inside (hs : start ≤ a) (hlt : a < start + bs.length) :
    m.store start bs a = bs.getD (a - start) 0 := by
  have hi : a - start < bs.length := by omega
  rw [store, if_pos hs, getD_eq_getElem _ _ hi, getD_eq_getElem _ _ hi]

theorem store_outside_block {size b offset : Nat} (hlen : bs.length ≤ size - offset % size) (ha : a / size ≠ b) :
    m.store (b * size + offset % size) bs a = m a := by
  apply store_outside
  by_contra hin
  have hlow : b * size ≤ a := by omega
  have hhigh : a < (b + 1) * size := by
    rw [Nat.add_mul, Nat.one_mul]
    omega
  exact ha (Nat.div_eq_of_lt_le hlow hhigh)

theorem zero_outside (h : a < start ∨ stop ≤ a) : m.zero start stop a = m a := by
  rw [zero, if_neg]
  omega

theorem zero_inside (hs : start ≤ a) (hlt : a < stop) : m.zero start stop a = 0 := by
  rw [zero, if_pos ⟨hs, hlt⟩]

@[simp] theorem length_load : (m.load start n).length = n := by simp [load]

theorem load_congr (h : ∀ i < n, m (start + i) = m' (start' + i)) : m.load start n = m'.load start' n := by
  apply map_congr_left
  intro i hi
  exact h i (mem_range.mp hi)

theorem load_add (k : Nat) : m.load start (n + k) = m.load start n ++ m.load (start + n) k := by
  simp [load, range_add, Function.comp_def, Nat.add_assoc]

theorem load_slice {k o : Nat} (h : o + k ≤ n) : ((m.load start n).drop o).take k = m.load (start + o) k := by
  obtain ⟨rest, rfl⟩ := Nat.exists_eq_add_of_le h
  rw [Nat.add_assoc, load_add, drop_left' length_load, load_add, take_left' length_load]

theorem store_nil : m.store start [] = m := by
  funext a
  exact store_outside (by simp only [length_nil]; omega)

theorem store_append (cs : List UInt8) :
    (m.store start bs).store (start + bs.length) cs = m.store start (bs ++ cs) := by
  funext a
  by_cases hbs : a < start + bs.length
  · rw [store_outside (Or.inl hbs)]
    by_cases hs : start ≤ a
    · rw [store_inside hs hbs, store_inside hs (by rw [length_append]; omega), getD_append _ _ _ _ (by omega)]
    · rw [store_outside (by omega), store_outside (by omega)]
  · by_cases hcs : a < start + bs.length + cs.length
    · rw [store_inside (by omega) hcs, store_inside (by omega) (by rw [length_append]; omega),
        getD_append_right _ _ _ _ (by omega), Nat.sub_add_eq]
    · rw [store_outside (by omega), store_outside (by omega), store_outside (by rw [length_append]; omega)]

theorem load_store : (m.store start bs).load start bs.length = bs := by
  apply ext_getElem length_load
  intro i hi hlt
  have hin : (m.store start bs) (start + i) = bs.getD (start + i - start) 0 :=
    store_inside (Nat.le_add_right _ _) (by omega)
  simp [load, hin, hlt]

theorem store_load (m : Memory) (start n : Nat) : m.store start (m.load start n) = m := by
  funext a
  by_cases hin : start ≤ a ∧ a < start + n
  · rw [store_inside hin.1 (by rw [length_load]; exact hin.2), getD_eq_getElem _ _ (by rw [length_load]; omega)]
    simp [load, Nat.add_sub_cancel' hin.1]
  · exact store_outside (by rw [length_load]; omega)

theorem store_patched {o k : Nat} (hk : bs.length = k) (h : o + k ≤ n) :
    m.store start ((m.load start n).take o ++ bs ++ (m.load start n).drop (o + k)) = m.store (start + o) bs := by
  subst hk
  obtain ⟨rest, rfl⟩ := Nat.exists_eq_add_of_le h
  have hfirst : (m.load start (o + bs.length + rest)).take o = m.load start o := by
    rw [Nat.add_assoc, load_add, take_left' length_load]
  have hlast : (m.load start (o + bs.length + rest)).drop (o + bs.length) =
      (m.store (start + o) bs).load (start + o + bs.length) rest := by
    rw [load_add, drop_left' length_load]
    refine load_congr fun i _ => ?_
    rw [store_outside (by omega)]
    exact congrArg m (by omega)
  rw [hfirst, hlast, ← store_append, ← store_append, store_load, length_load, length_append, length_load,
    ← Nat.add_assoc, store_load]

theorem word_congr (h : ∀ i < 4, m (start + i) = m' (start + i)) : m.word start = m'.word start := by
  rw [word, word, load_congr h]

theorem word_of_zero (h : ∀ i < 4, m (start + i) = 0) : m.word start = 0 := by
  have hload : m.load start 4 = replicate 4 0 := by
    apply eq_replicate_of_mem
    intro b hb
    obtain ⟨i, hi, rfl⟩ := mem_map.mp hb
    exact h i (mem_range.mp hi)
  rw [word, hload]
  rfl

theorem word_store (hv : v < 2 ^ 32) : (m.store start (leBytes 4 v)).word start = v := by
  have hload := @load_store m start (leBytes 4 v)
  rw [length_leBytes] at hload
  rw [word, hload, leNat_leBytes]
  exact Nat.mod_eq_of_lt (by omega)

end Memory

end AntX.Lib
