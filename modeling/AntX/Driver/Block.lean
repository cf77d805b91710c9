import AntX.Error
import AntX.Lib.Memory

/-! The block device layer of framework/driver/block.rs: a device is an array of sectors of 512
bytes, and transfers go through a buffer that has to be long enough. -/

namespace AntX.Driver

open AntX.Lib List Memory

/-- The bytes of sector `s` stand at `512 * s` and after. A missing device is one without sectors. -/
structure BlockDevice where
  sectors : Nat
  mem : Memory

namespace BlockDevice

section

variable (dev : BlockDevice) (start count : Nat) (buf : List UInt8)

def blkRead (sector : Nat) : Option (List UInt8) :=
  if sector < dev.sectors then some (dev.mem.load (512 * sector) 512) else none

def blkWrite (sector : Nat) (buf : List UInt8) : Option BlockDevice :=
  if sector < dev.sectors then some { dev with mem := dev.mem.store (512 * sector) buf } else none

def readLoop : (k i : Nat) → List UInt8 → Except KernelError (List UInt8)
  | 0, _, buf => .ok buf
  | k + 1, i, buf =>
    match dev.blkRead (start + i) with
    | none => .error .io
    | some bytes => readLoop k (i + 1) (buf.take (512 * i) ++ bytes ++ buf.drop (512 * i + 512))

def readSectors : Except KernelError (List UInt8) :=
  if buf.length < count * 512 then .error .invalidArgument else dev.readLoop start count 0 buf

def writeLoop (dev : BlockDevice) (start : Nat) (buf : List UInt8) :
    (k i : Nat) → BlockDevice × Except KernelError Unit
  | 0, _ => (dev, .ok ())
  | k + 1, i =>
    match dev.blkWrite (start + i) ((buf.drop (512 * i)).take 512) with
    | none => (dev, .error .io)
    | some dev => dev.writeLoop start buf k (i + 1)

/-- A write that fails part of the way leaves the sectors before written. -/
def writeSectors : BlockDevice × Except KernelError Unit :=
  if buf.length < count * 512 then (dev, .error .invalidArgument) else dev.writeLoop start buf count 0

end

variable {dev : BlockDevice} {start count k i : Nat} {buf : List UInt8}

theorem readLoop_ok (hdev : start + i + k ≤ dev.sectors) (hbuf : 512 * (i + k) ≤ buf.length) :
    dev.readLoop start k i buf =
      .ok (buf.take (512 * i) ++ dev.mem.load (512 * (start + i)) (512 * k) ++ buf.drop (512 * (i + k))) := by
  induction k generalizing i buf with
  | zero => simp [readLoop, Memory.load]
  | succ k ih =>
    have hlen : (buf.take (512 * i) ++ dev.mem.load (512 * (start + i)) 512).length = 512 * (i + 1) := by
      rw [length_append, length_take, length_load]
      omega
    have hdrop : (buf.take (512 * i) ++ dev.mem.load (512 * (start + i)) 512 ++ buf.drop (512 * i + 512)).drop
        (512 * (i + 1 + k)) = buf.drop (512 * (i + (k + 1))) := by
      rw [drop_append, hlen, drop_eq_nil_of_le (by omega), nil_append, drop_drop]
      exact congrArg buf.drop (by omega)
    rw [readLoop, blkRead, if_pos (by omega)]
    dsimp only
    rw [ih (by omega) (by simp only [length_append, length_drop, hlen]; omega), hdrop,
      take_left' hlen, show 512 * (k + 1) = 512 + 512 * k by omega, load_add,
      show 512 * (start + (i + 1)) = 512 * (start + i) + 512 by omega]
    simp only [append_assoc]

theorem readSectors_ok (hdev : start + count ≤ dev.sectors) (hbuf : 512 * count ≤ buf.length) :
    dev.readSectors start count buf =
      .ok (dev.mem.load (512 * start) (512 * count) ++ buf.drop (512 * count)) := by
  rw [readSectors, if_neg (by omega), readLoop_ok (by omega) (by omega)]
  simp

theorem readSectors_short (hbuf : buf.length < 512 * count) :
    dev.readSectors start count buf = .error .invalidArgument := by
  rw [readSectors, if_pos (by omega)]

theorem readSectors_one : dev.readSectors start 1 buf =
    if buf.length < 512 then .error .invalidArgument
    else if start < dev.sectors then .ok (dev.mem.load (512 * start) 512 ++ buf.drop 512)
    else .error .io := by
  by_cases hbuf : buf.length < 512
  · rw [if_pos hbuf, readSectors_short hbuf]
  · rw [if_neg hbuf]
    by_cases hdev : start < dev.sectors
    · rw [if_pos hdev, readSectors_ok hdev (by omega), Nat.mul_one]
    · rw [if_neg hdev, readSectors, if_neg (by omega), readLoop, Nat.add_zero, blkRead, if_neg hdev]

theorem writeLoop_ok (hdev : start + i + k ≤ dev.sectors) (hbuf : 512 * (i + k) ≤ buf.length) :
    dev.writeLoop start buf k i =
      ({ dev with mem := dev.mem.store (512 * (start + i)) ((buf.drop (512 * i)).take (512 * k)) }, .ok ()) := by
  induction k generalizing i dev with
  | zero => simp [writeLoop, store_nil]
  | succ k ih =>
    have hlen : ((buf.drop (512 * i)).take 512).length = 512 := by
      rw [length_take, length_drop]
      omega
    have hsplit : (buf.drop (512 * i)).take (512 * (k + 1)) =
        (buf.drop (512 * i)).take 512 ++ (buf.drop (512 * (i + 1))).take (512 * k) := by
      rw [show 512 * (k + 1) = 512 + 512 * k by omega, take_add, drop_drop]
      congr 3
    rw [writeLoop, blkWrite, if_pos (by omega)]
    dsimp only
    rw [ih (by dsimp only; omega) (by omega), hsplit, ← store_append, hlen]
    congr 4

theorem writeSectors_ok (hdev : start + count ≤ dev.sectors) (hbuf : 512 * count ≤ buf.length) :
    dev.writeSectors start count buf =
      ({ dev with mem := dev.mem.store (512 * start) (buf.take (512 * count)) }, .ok ()) := by
  rw [writeSectors, if_neg (by omega), writeLoop_ok (by omega) (by omega)]
  simp

end BlockDevice

end AntX.Driver
