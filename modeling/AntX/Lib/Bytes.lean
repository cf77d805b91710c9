import Mathlib.Data.List.Induction
import Mathlib.Tactic.Ring

/-! Byte lists: little-endian fields written one after the other and taken off the front again,
well-formed UTF-8, and sequences written at offsets. -/

namespace AntX.Lib

open List

def leBytes : (width n : Nat) → List UInt8
  | 0, _ => []
  | w + 1, n => UInt8.ofNat n :: leBytes w (n / 256)

def leNat : List UInt8 → Nat
  | [] => 0
  | b :: bs => b.toNat + 256 * leNat bs

@[simp] theorem length_leBytes (w n : Nat) : (leBytes w n).length = w := by
  induction w generalizing n with
  | zero => rfl
  | succ w ih => rw [leBytes, length_cons, ih]

theorem leNat_leBytes (w n : Nat) : leNat (leBytes w n) = n % 256 ^ w := by
  induction w generalizing n with
  | zero => rw [leBytes, leNat, Nat.pow_zero, Nat.mod_one]
  | succ w ih =>
    rw [leBytes, leNat, ih, Nat.pow_succ', Nat.mod_mul, UInt8.toNat_ofNat']

variable (bs : List UInt8)

theorem leNat_lt : leNat bs < 256 ^ bs.length := by
  induction bs with
  | nil => exact Nat.one_pos
  | cons b bs ih =>
    have hb := b.toNat_lt
    rw [leNat, length_cons, Nat.pow_succ]
    omega

theorem leBytes_zero (w : Nat) : leBytes w 0 = replicate w 0 := by
  induction w with
  | zero => rfl
  | succ w ih =>
    rw [leBytes, Nat.zero_div, ih, replicate_succ]
    rfl

def takeLe (w : Nat) (bs : List UInt8) : Nat × List UInt8 := (leNat (bs.take w), bs.drop w)

theorem takeLe_leBytes (w n : Nat) (rest : List UInt8) :
    takeLe w (leBytes w n ++ rest) = (n % 256 ^ w, rest) := by
  rw [takeLe, take_left' (length_leBytes w n), drop_left' (length_leBytes w n), leNat_leBytes]

def u8Bytes (x : UInt8) : List UInt8 := leBytes 1 x.toNat
def u16Bytes (x : UInt16) : List UInt8 := leBytes 2 x.toNat
def u32Bytes (x : UInt32) : List UInt8 := leBytes 4 x.toNat
def u64Bytes (x : UInt64) : List UInt8 := leBytes 8 x.toNat

def takeU8 : UInt8 × List UInt8 := (UInt8.ofNat (takeLe 1 bs).1, (takeLe 1 bs).2)
def takeU16 : UInt16 × List UInt8 :=
  (UInt16.ofNat (takeLe 2 bs).1, (takeLe 2 bs).2)
def takeU32 : UInt32 × List UInt8 :=
  (UInt32.ofNat (takeLe 4 bs).1, (takeLe 4 bs).2)
def takeU64 : UInt64 × List UInt8 :=
  (UInt64.ofNat (takeLe 8 bs).1, (takeLe 8 bs).2)

@[simp] theorem length_u8Bytes (x : UInt8) : (u8Bytes x).length = 1 := length_leBytes _ _
@[simp] theorem length_u16Bytes (x : UInt16) : (u16Bytes x).length = 2 := length_leBytes _ _
@[simp] theorem length_u32Bytes (x : UInt32) : (u32Bytes x).length = 4 := length_leBytes _ _
@[simp] theorem length_u64Bytes (x : UInt64) : (u64Bytes x).length = 8 := length_leBytes _ _

variable (rest : List UInt8)

@[simp] theorem takeU8_u8Bytes (x : UInt8) : takeU8 (u8Bytes x ++ rest) = (x, rest) := by
  have hx : x.toNat % 256 ^ 1 = x.toNat := Nat.mod_eq_of_lt x.toNat_lt
  rw [takeU8, u8Bytes, takeLe_leBytes, hx, UInt8.ofNat_toNat]

@[simp] theorem takeU16_u16Bytes (x : UInt16) : takeU16 (u16Bytes x ++ rest) = (x, rest) := by
  have hx : x.toNat % 256 ^ 2 = x.toNat := Nat.mod_eq_of_lt x.toNat_lt
  rw [takeU16, u16Bytes, takeLe_leBytes, hx, UInt16.ofNat_toNat]

@[simp] theorem takeU32_u32Bytes (x : UInt32) : takeU32 (u32Bytes x ++ rest) = (x, rest) := by
  have hx : x.toNat % 256 ^ 4 = x.toNat := Nat.mod_eq_of_lt x.toNat_lt
  rw [takeU32, u32Bytes, takeLe_leBytes, hx, UInt32.ofNat_toNat]

@[simp] theorem takeU64_u64Bytes (x : UInt64) : takeU64 (u64Bytes x ++ rest) = (x, rest) := by
  have hx : x.toNat % 256 ^ 8 = x.toNat := Nat.mod_eq_of_lt x.toNat_lt
  rw [takeU64, u64Bytes, takeLe_leBytes, hx, UInt64.ofNat_toNat]

structure Writer where
  buf : List UInt8
  off : Nat

namespace Writer

def poke (w : Writer) (bs : List UInt8) : Option Writer :=
  if w.off + bs.length ≤ w.buf.length then
    some { w with buf := w.buf.take w.off ++ (bs ++ w.buf.drop (w.off + bs.length)) }
  else none

def skip (w : Writer) (n : Nat) : Writer := { w with off := w.off + n }

def put (w : Writer) (bs : List UInt8) : Option Writer := (w.poke bs).map fun w => w.skip bs.length

/-- The buffer up to the offset, and a number of zeros behind it. -/
structure Filled (w : Writer) (front : List UInt8) (room : Nat) : Prop where
  buf : w.buf = front ++ replicate room 0
  off : w.off = front.length

variable {w : Writer} {front : List UInt8} {room : Nat}

section

variable (h : w.Filled front room)

include h

theorem Filled.length : w.buf.length = w.off + room := by
  rw [h.buf, h.off, length_append, length_replicate]

theorem Filled.poke {bs : List UInt8} (hroom : bs.length ≤ room) :
    w.poke bs = some ⟨front ++ (bs ++ replicate (room - bs.length) 0), w.off⟩ := by
  have hle : w.off + bs.length ≤ w.buf.length := by
    rw [h.length]
    omega
  rw [Writer.poke, if_pos hle, h.buf, h.off, take_left, drop_append,
    drop_eq_nil_of_le (by omega), nil_append, drop_replicate]
  have hsub : room - (front.length + bs.length - front.length) = room - bs.length := by omega
  rw [hsub]

theorem Filled.put {bs : List UInt8} (hroom : bs.length ≤ room) :
    ∃ w', w.put bs = some w' ∧ w'.Filled (front ++ bs) (room - bs.length) := by
  rw [Writer.put, h.poke hroom]
  refine ⟨_, rfl, ?_, ?_⟩
  · rw [append_assoc]
    rfl
  · rw [length_append, ← h.off]
    rfl

theorem Filled.skip {n : Nat} (hroom : n ≤ room) : (w.skip n).Filled (front ++ replicate n 0) (room - n) where
  buf := by
    rw [append_assoc, replicate_append_replicate, Nat.add_sub_cancel' hroom]
    exact h.buf
  off := by
    rw [length_append, length_replicate, ← h.off]
    rfl

theorem Filled.poke_zero {n : Nat} (hroom : n ≤ room) : w.poke (replicate n 0) = some w := by
  have hlen : (replicate n (0 : UInt8)).length = n := length_replicate
  rw [h.poke (by omega), hlen, replicate_append_replicate, Nat.add_sub_cancel' hroom, ← h.buf]

end

def puts (w : Writer) (fields : List (List UInt8)) : Option Writer := fields.foldlM put w

theorem Filled.puts (h : w.Filled front room) {fields : List (List UInt8)}
    (hroom : fields.flatten.length ≤ room) :
    ∃ w', w.puts fields = some w' ∧ w'.Filled (front ++ fields.flatten) (room - fields.flatten.length) := by
  induction fields generalizing w front room with
  | nil => exact ⟨w, rfl, by simpa using h⟩
  | cons bs fields ih =>
    rw [flatten_cons, length_append] at hroom
    obtain ⟨w₁, hput, hw₁⟩ := h.put (show bs.length ≤ room by omega)
    obtain ⟨w₂, hputs, hw₂⟩ := ih hw₁ (by omega)
    refine ⟨w₂, ?_, ?_⟩
    · rw [Writer.puts, foldlM_cons, hput]
      exact hputs
    · rw [flatten_cons, length_append, ← append_assoc, Nat.sub_add_eq]
      exact hw₂

end Writer

def nonzero : Nat := bs.countP (· != 0)

@[simp] theorem nonzero_append (as bs : List UInt8) :
    nonzero (as ++ bs) = nonzero as + nonzero bs := countP_append

@[simp] theorem nonzero_replicate (n : Nat) : nonzero (replicate n 0) = 0 := by
  induction n with
  | zero => rfl
  | succ n ih => rw [replicate_succ, nonzero, countP_cons_of_neg (by simp)]; exact ih

theorem nonzero_cons_eq_zero {b : UInt8} {bs : List UInt8} : nonzero (b :: bs) = 0 ↔ b = 0 ∧ nonzero bs = 0 := by
  simp [nonzero]

theorem leNat_eq_zero {bs : List UInt8} (h : nonzero bs = 0) : leNat bs = 0 := by
  induction bs with
  | nil => rfl
  | cons b bs ih =>
    obtain ⟨rfl, htail⟩ := nonzero_cons_eq_zero.mp h
    rw [leNat, ih htail]
    rfl

theorem nonzero_eq_zero {bs : List UInt8} (h : leNat bs = 0) : nonzero bs = 0 := by
  induction bs with
  | nil => rfl
  | cons b bs ih =>
    rw [leNat] at h
    have hb : b = 0 := UInt8.toNat_inj.mp (show b.toNat = 0 by omega)
    exact nonzero_cons_eq_zero.mpr ⟨hb, ih (by omega)⟩

def isCont (b : UInt8) : Bool := 0x80 ≤ b && b ≤ 0xBF

/-- What `core::str::from_utf8` accepts. -/
def validUtf8 : List UInt8 → Bool
  | [] => true
  | a :: rest =>
    if a < 0x80 then validUtf8 rest
    else
      match rest with
      | [] => false
      | b :: rest =>
        if 0xC2 ≤ a && a ≤ 0xDF then isCont b && validUtf8 rest
        else
          match rest with
          | [] => false
          | c :: rest =>
            if 0xE0 ≤ a && a ≤ 0xEF then
              isCont b && isCont c && (a != 0xE0 || 0xA0 ≤ b) && (a != 0xED || b ≤ 0x9F) && validUtf8 rest
            else
              match rest with
              | [] => false
              | d :: rest =>
                0xF0 ≤ a && a ≤ 0xF4 && isCont b && isCont c && isCont d &&
                  (a != 0xF0 || 0x90 ≤ b) && (a != 0xF4 || b ≤ 0x8F) && validUtf8 rest

variable {α : Type} (z : α)

def splice (bs : List α) (o : Nat) (d : List α) : List α :=
  bs.take o ++ (replicate (o - bs.length) z ++ (d ++ bs.drop (o + d.length)))

/-- What the writes make of the empty sequence, in their order. -/
def contents (ws : List (Nat × List α)) : List α := ws.foldl (fun bs w => splice z bs w.1 w.2) []

theorem length_splice (bs : List α) (o : Nat) (d : List α) :
    (splice z bs o d).length = max bs.length (o + d.length) := by
  simp only [splice, length_append, length_take, length_replicate, length_drop]
  omega

theorem splice_middle {a b c d : List α} {o : Nat} (ha : a.length = o) (hb : b.length = d.length) :
    splice z (a ++ (b ++ c)) o d = a ++ (d ++ c) := by
  have hgap : o - (a ++ (b ++ c)).length = 0 := by
    rw [length_append]
    omega
  have hdrop : (a ++ (b ++ c)).drop (o + d.length) = c := by
    rw [← append_assoc]
    exact drop_left' (by rw [length_append]; omega)
  rw [splice, take_left' ha, hgap, hdrop, replicate_zero, nil_append]

theorem contents_concat (ws : List (Nat × List α)) (w : Nat × List α) :
    contents z (ws ++ [w]) = splice z (contents z ws) w.1 w.2 := by
  rw [contents, foldl_append]
  rfl

theorem contents_length_le {ws : List (Nat × List α)} {n : Nat} :
    (contents z ws).length ≤ n ↔ ∀ w ∈ ws, w.1 + w.2.length ≤ n := by
  induction ws using List.reverseRecOn with
  | nil => simp [contents]
  | append_singleton ws w ih =>
    rw [contents_concat, length_splice, Nat.max_le, ih]
    simp [or_imp, forall_and]

theorem contents_covered {ws : List (Nat × List α)} {d : List α}
    (h : ∀ w ∈ ws, w.1 + w.2.length ≤ d.length) : contents z (ws ++ [(0, d)]) = d := by
  have hlen := (contents_length_le z).mpr h
  rw [contents_concat, splice]
  simp [drop_eq_nil_of_le hlen]

theorem length_pieces {ι : Type} {f : ι → List α} {b : Nat} {l : List ι} (hf : ∀ a ∈ l, (f a).length = b) :
    (l.flatMap f).length = l.length * b := by
  induction l with
  | nil => simp
  | cons a l ih =>
    have hhead := hf a mem_cons_self
    have htail := ih fun c hc => hf c (mem_cons_of_mem a hc)
    rw [flatMap_cons, length_append, hhead, htail, length_cons, Nat.succ_mul, Nat.add_comm]

theorem getElem?_pieces {ι : Type} {f : ι → List α} {b : Nat} {l : List ι} (hb : 0 < b)
    (hf : ∀ a ∈ l, (f a).length = b) (i : Nat) :
    (l.flatMap f)[i]? = l[i / b]?.bind fun a => (f a)[i % b]? := by
  induction l generalizing i with
  | nil => simp
  | cons a l ih =>
    have hhead := hf a mem_cons_self
    have htail := ih fun c hc => hf c (mem_cons_of_mem a hc)
    rw [flatMap_cons]
    by_cases hi : i < b
    · rw [getElem?_append_left (by omega), Nat.div_eq_of_lt hi, Nat.mod_eq_of_lt hi]
      rfl
    · have hle : b ≤ i := Nat.le_of_not_lt hi
      rw [getElem?_append_right (by omega), hhead, htail, Nat.div_eq_sub_div hb hle, Nat.mod_eq_sub_mod hle]
      rfl

end AntX.Lib
