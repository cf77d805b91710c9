import AntX.Hvfs.HvfsData

/-! Reads of a file of services/fs/hvfs/hvfs_data.rs in memory mode: only the last write can be read
back, and only as far as the first block. -/

namespace AntX.Hvfs

open AntX.Lib List UInt64
open Option hiding map_map

theorem length_rawSlice (beyond : Nat → UInt8) (data : List UInt8) (len : Nat) :
    (rawSlice beyond data len).length = len := by
  rw [rawSlice, length_map, length_range]

theorem getElem?_rawSlice (beyond : Nat → UInt8) (data : List UInt8) {len k : Nat} (h : k < len) :
    (rawSlice beyond data len)[k]? = some (data.getD k (beyond k)) := by
  rw [rawSlice, getElem?_map, getElem?_range h, map_some]

theorem take_rawSlice (beyond : Nat → UInt8) {data : List UInt8} {len n : Nat}
    (hn : n ≤ data.length) (hlen : n ≤ len) : (rawSlice beyond data len).take n = data.take n := by
  apply ext_getElem?
  intro k
  rw [getElem?_take, getElem?_take]
  split_ifs with hk
  · rw [getElem?_rawSlice beyond data (by omega), getD_eq_getElem?_getD, getElem?_eq_getElem (by omega)]
    rfl
  · rfl

theorem window_rawSlice (beyond : Nat → UInt8) {data : List UInt8} {len off n : Nat}
    (hn : off + n ≤ data.length) (hlen : off + n ≤ len) :
    ((rawSlice beyond data len).drop off).take n = (data.drop off).take n := by
  have htake := congrArg (List.drop off) (take_rawSlice beyond hn hlen)
  rwa [drop_take, drop_take, Nat.add_sub_cancel_left] at htake

theorem getElem?_copyInto {buf bytes : List UInt8} {k : Nat} (h : bytes.length ≤ k) :
    (copyInto buf bytes)[k]? = buf[k]? := by
  rw [copyInto, getElem?_append_right h, getElem?_drop]
  congr 1
  omega

theorem blockKey_first (objId txg : UInt64) {offset : UInt64} (h : offset.toNat < 4096) :
    blockKey objId offset txg = blockKey objId 0 txg := by
  have hzero : offset / 4096 = 0 := by
    apply UInt64.toNat_inj.mp
    exact Nat.div_eq_of_lt h
  rw [blockKey, blockKey, hzero]
  rfl

theorem toNat_add_ofNat (a : UInt64) (n : Nat) : (a + UInt64.ofNat n).toNat = (a.toNat + n) % 2 ^ 64 := by
  rw [UInt64.toNat_add, toNat_ofNat', Nat.add_mod_mod]

theorem not_every_byte {b : Option UInt8} (h : ∀ x, b = some x) : False :=
  absurd (some.inj ((h 0).symm.trans (h 1))) (by decide)

namespace HvfsData

structure ReadCall where
  beyond : Nat → UInt8
  buf : List UInt8
  count : UInt32

def ReadCall.room (r : ReadCall) : Nat := min r.count.toNat r.buf.length

/-- A read into a buffer full of `x`, with `y` behind the buffers of the cache. -/
def ReadCall.filled (y x : UInt8) (n : Nat) : ReadCall := ⟨fun _ => y, replicate n x, UInt32.ofNat n⟩

theorem ReadCall.room_filled (y x : UInt8) {n : Nat} (h : n < 2 ^ 32) : (filled y x n).room = n := by
  rw [room, filled, length_replicate, UInt32.toNat_ofNat', Nat.mod_eq_of_lt h, Nat.min_self]

def readAll (api : PwmApi) (i : Nat) : HvfsData → List ReadCall → Option (List UInt8)
  | _, [] => some []
  | h, r :: rs =>
    match read api r.beyond h i r.buf r.count with
    | some (.ok n, buf, h) => (readAll api i h rs).map fun bytes => buf.take n ++ bytes
    | _ => none

structure Opened (api : PwmApi) (h : HvfsData) (i : Nat) (fd : HvfsFd) (obj : HvDmuObject) : Prop where
  memory : h.mode = .memory
  opened : h.openFd i = some fd
  found : h.ds.objset.getObj fd.objId = some obj
  granted : checkPermission api obj fd.pwm 0x01 = true

variable {api : PwmApi} {h h' : HvfsData} {i : Nat} {fd : HvfsFd} {obj : HvDmuObject}

theorem isDiskMode_memory (hm : h.mode = .memory) : h.isDiskMode = false := by
  rw [isDiskMode, hm]
  rfl

theorem openFd_setOffset (h : HvfsData) (i : Nat) (offset : UInt64) :
    (h.setOffset i offset).openFd i = (h.openFd i).map fun fd => { fd with offset := offset } := by
  have hfd : (h.setOffset i offset).fds i = { h.fds i with offset := offset } :=
    Function.update_self _ _ _
  rw [openFd, openFd, hfd]
  split_ifs <;> rfl

theorem Opened.seek_start (ho : Opened api h i fd obj) :
    Opened api (h.seek i 0 0).2 i { fd with offset := 0 } obj ∧ (h.seek i 0 0).2.arc = h.arc := by
  have hseek : (h.seek i 0 0).2 = h.setOffset i 0 := by
    rw [seek, ho.opened]
    dsimp only
    rw [ho.found]
    rfl
  rw [hseek]
  refine ⟨⟨ho.memory, ?_, ho.found, ho.granted⟩, rfl⟩
  rw [openFd_setOffset, ho.opened]
  rfl

def toRead (fd : HvfsFd) (obj : HvDmuObject) (r : ReadCall) : Nat :=
  min (min r.count.toNat (obj.size.toNat - fd.offset.toNat)) r.buf.length

def delivered (h : HvfsData) (fd : HvfsFd) (obj : HvDmuObject) (r : ReadCall) : List UInt8 :=
  match h.arc.content (blockKey fd.objId fd.offset obj.birthTxg) with
  | some data =>
    let start := fd.offset.toNat % hvPoolBlockSize
    let stop := min (start + toRead fd obj r) hvPoolBlockSize
    copyInto r.buf (((rawSlice r.beyond data hvPoolBlockSize).drop start).take (stop - start))
  | none => r.buf

theorem fill_memory (hm : h.mode = .memory) (r : ReadCall) :
    ∃ arc, h.fill r.beyond obj fd (toRead fd obj r) r.buf =
        some (delivered h fd obj r, { h with arc := arc }) ∧
      ∀ k, arc.content k = h.arc.content k := by
  have hfst := h.arc.lookup_fst (blockKey fd.objId fd.offset obj.birthTxg)
  have hsnd := h.arc.content_lookup (blockKey fd.objId fd.offset obj.birthTxg)
  rw [fill, delivered]
  generalize h.arc.lookup (blockKey fd.objId fd.offset obj.birthTxg) = found at hfst hsnd
  obtain ⟨data, arc⟩ := found
  rw [← hfst]
  cases data with
  | some data =>
    refine ⟨arc.release (blockKey fd.objId fd.offset obj.birthTxg), rfl, ?_⟩
    intro k
    rw [HvArc.content_release, hsnd]
  | none =>
    refine ⟨arc, ?_, hsnd⟩
    have hstill : isDiskMode { h with arc := arc } = false := isDiskMode_memory hm
    dsimp only
    rw [hstill, Bool.false_and, if_neg Bool.false_ne_true]

theorem Opened.read (ho : Opened api h i fd obj) (r : ReadCall) :
    ∃ buf h', HvfsData.read api r.beyond h i r.buf r.count = some (.ok (toRead fd obj r), buf, h') ∧
      Opened api h' i { fd with offset := fd.offset + UInt64.ofNat (toRead fd obj r) } obj ∧
      (∀ k, h'.arc.content k = h.arc.content k) ∧
      buf.take (toRead fd obj r) = (delivered h fd obj r).take (toRead fd obj r) := by
  obtain ⟨arc, hfill, hcontent⟩ := @fill_memory h fd obj ho.memory r
  have hread : HvfsData.read api r.beyond h i r.buf r.count =
      if toRead fd obj r = 0 then some (.ok 0, r.buf, h)
      else (h.fill r.beyond obj fd (toRead fd obj r) r.buf).map fun p =>
        (.ok (toRead fd obj r), p.1, p.2.setOffset i (fd.offset + UInt64.ofNat (toRead fd obj r))) := by
    rw [HvfsData.read, ho.opened]
    dsimp only
    rw [ho.found]
    dsimp only
    rw [ho.granted]
    rfl
  by_cases hzero : toRead fd obj r = 0
  · refine ⟨r.buf, h, ?_, ?_, fun _ => rfl, ?_⟩
    · rw [hread, if_pos hzero, hzero]
    · have hstay : fd.offset + UInt64.ofNat 0 = fd.offset := UInt64.add_zero _
      rw [hzero, hstay]
      exact ho
    · rw [hzero, take_zero, take_zero]
  · refine ⟨delivered h fd obj r, setOffset { h with arc := arc } i
      (fd.offset + UInt64.ofNat (toRead fd obj r)), ?_, ?_, hcontent, rfl⟩
    · rw [hread, if_neg hzero, hfill, map_some]
    · refine ⟨ho.memory, ?_, ho.found, ho.granted⟩
      have hopen : openFd { h with arc := arc } i = some fd := ho.opened
      rw [openFd_setOffset, hopen]
      rfl

theorem Opened.readAll_length (ho : Opened api h i fd obj) (rs : List ReadCall) :
    ∃ bytes, readAll api i h rs = some bytes ∧ bytes.length ≤ obj.size.toNat - fd.offset.toNat := by
  induction rs generalizing h fd with
  | nil => exact ⟨[], rfl, Nat.zero_le _⟩
  | cons r rs ih =>
    obtain ⟨buf, h', hread, ho', -, -⟩ := ho.read r
    obtain ⟨bytes, hall, hlen⟩ := ih ho'
    refine ⟨buf.take (toRead fd obj r) ++ bytes, ?_, ?_⟩
    · rw [readAll, hread]
      dsimp only
      rw [hall, map_some]
    · have hle : toRead fd obj r ≤ obj.size.toNat - fd.offset.toNat :=
        (Nat.min_le_left _ _).trans (Nat.min_le_right _ _)
      have hsize := obj.size.toNat_lt
      have hnext := toNat_add_ofNat fd.offset (toRead fd obj r)
      dsimp only at hlen
      have htake : (buf.take (toRead fd obj r)).length ≤ toRead fd obj r := length_take_le _ _
      rw [length_append]
      have hfd := fd.offset.toNat_lt
      by_cases hzero : toRead fd obj r = 0 <;> omega

theorem delivered_first {d : List UInt8} (r : ReadCall)
    (hcontent : h.arc.content (blockKey fd.objId 0 obj.birthTxg) = some d)
    (hpos : fd.offset.toNat < 4096) {n : Nat} (hn : n ≤ toRead fd obj r)
    (hblock : fd.offset.toNat + n ≤ 4096) :
    (delivered h fd obj r).take n = ((rawSlice r.beyond d 4096).drop fd.offset.toNat).take n := by
  have hraw := length_rawSlice r.beyond d 4096
  rw [delivered, blockKey_first _ _ hpos, hcontent]
  dsimp only
  rw [hvPoolBlockSize, Nat.mod_eq_of_lt hpos, copyInto, take_append_of_le_length]
  · rw [take_take, Nat.min_eq_left (by omega)]
  · rw [length_take, length_drop, hraw]
    omega

theorem Opened.readAll_whole (ho : Opened api h i fd obj) {d : List UInt8}
    (hcontent : h.arc.content (blockKey fd.objId 0 obj.birthTxg) = some d)
    (hsize : obj.size.toNat = d.length) (hblock : d.length ≤ 4096)
    (hpos : fd.offset.toNat ≤ d.length) (rs : List ReadCall) :
    readAll api i h rs = some ((d.drop fd.offset.toNat).take (rs.map ReadCall.room).sum) := by
  induction rs generalizing h fd with
  | nil => rfl
  | cons r rs ih =>
    obtain ⟨buf, h', hread, ho', hsame, hbuf⟩ := ho.read r
    have hmin : toRead fd obj r = min r.room (d.drop fd.offset.toNat).length := by
      rw [toRead, ReadCall.room, hsize, length_drop]
      omega
    have hroom : toRead fd obj r ≤ d.length - fd.offset.toNat := by
      rw [hmin, length_drop]
      exact Nat.min_le_right _ _
    have hnext : (fd.offset + UInt64.ofNat (toRead fd obj r)).toNat = fd.offset.toNat + toRead fd obj r := by
      rw [toNat_add_ofNat, Nat.mod_eq_of_lt (by omega)]
    have htail := ih ho' (by rw [hsame]; exact hcontent) (by dsimp only; omega)
    have hhead : buf.take (toRead fd obj r) = (d.drop fd.offset.toNat).take (toRead fd obj r) := by
      by_cases hzero : toRead fd obj r = 0
      · rw [hzero, take_zero, take_zero]
      · rw [hbuf, delivered_first r hcontent (by omega) le_rfl (by omega),
          window_rawSlice _ (by omega) (by omega)]
    rw [readAll, hread]
    dsimp only at htail ⊢
    rw [htail, map_some, hnext, hhead, ← drop_drop, map_cons, sum_cons,
      ← take_add, some.injEq, take_eq_take_iff]
    omega

inductive FileCall where
  | write (buf : List UInt8) (count : UInt32) (now : UInt64)
  | seek (offset : Int64) (whence : UInt32)

def fileStep (api : PwmApi) (i : Nat) (h : HvfsData) : FileCall → Option HvfsData
  | .write buf count now => (write api now h i buf count).map Prod.snd
  | .seek offset whence => some (seek h i offset whence).2

def Refused (api : PwmApi) (i : Nat) (h : HvfsData) : FileCall → Prop
  | .write buf count now => ∃ e h', write api now h i buf count = some (.error e, h')
  | .seek _ _ => False

def Stuck (i : Nat) (h : HvfsData) : FileCall → Prop
  | .write buf count _ => buf.take count.toNat ≠ [] ∧
      h.arc.Jammed (blockKey (h.fds i).objId (h.fds i).offset h.currentTxg)
  | .seek _ _ => False

structure Cursor where
  pos : UInt64
  size : UInt64

namespace Cursor

def step (c : Cursor) : FileCall → Cursor
  | .write buf count _ =>
    let data := buf.take count.toNat
    if data = [] then c
    else
      let stop := c.pos + UInt64.ofNat data.length
      ⟨stop, max stop c.size⟩
  | .seek offset whence =>
    if whence = 0 then { c with pos := 0 + offset.toUInt64 }
    else if whence = 1 then { c with pos := c.pos + offset.toUInt64 }
    else if whence = 2 then { c with pos := c.size + offset.toUInt64 }
    else c

def wrote (c : Cursor) : FileCall → List (Nat × List UInt8)
  | .write buf count _ =>
    let data := buf.take count.toNat
    if data = [] then [] else [(c.pos.toNat, data)]
  | .seek _ _ => []

end Cursor

def trace : Cursor → List FileCall → List (Nat × List UInt8)
  | _, [] => []
  | c, call :: calls => c.wrote call ++ trace (c.step call) calls

def fileBytes (ws : List (Nat × List UInt8)) : List UInt8 := contents 0 ws

structure Backed (api : PwmApi) (i : Nat) (ws : List (Nat × List UInt8)) (c : Cursor) (h : HvfsData)
    (fd : HvfsFd) (obj : HvDmuObject) : Prop extends Opened api h i fd obj where
  distinct : h.ds.objset.Distinct
  indexed : h.arc.Indexed
  pos : fd.offset = c.pos
  size : obj.size = c.size
  extent : c.size.toNat ≤ (fileBytes ws).length
  exact_extent : (fileBytes ws).length < 2 ^ 64 → c.size.toNat = (fileBytes ws).length
  nonempty : ∀ w ∈ ws, w.2 ≠ []
  last : ∀ w, ws.getLast? = some w →
    h.arc.content (blockKey fd.objId (UInt64.ofNat w.1) obj.birthTxg) = some w.2

variable {c : Cursor} {ws : List (Nat × List UInt8)} {buf : List UInt8} {count : UInt32} {now : UInt64}

theorem Backed.seek (hb : Backed api i ws c h fd obj) (offset : Int64) (whence : UInt32) :
    ∃ fd', Backed api i ws (c.step (.seek offset whence)) (HvfsData.seek h i offset whence).2 fd' obj := by
  -- Whatever the place is, only the descriptor and the cursor go there.
  have hplace : ∀ p : UInt64, Backed api i ws { c with pos := p } (h.setOffset i p)
      { fd with offset := p } obj := by
    intro p
    refine ⟨⟨hb.memory, ?_, hb.found, hb.granted⟩, hb.distinct, hb.indexed, rfl, hb.size, hb.extent,
      hb.exact_extent, hb.nonempty, hb.last⟩
    rw [openFd_setOffset, hb.opened]
    rfl
  rw [HvfsData.seek, hb.opened]
  dsimp only
  rw [hb.found, Cursor.step]
  dsimp only
  split_ifs
  · exact ⟨_, hplace _⟩
  · rw [hb.pos]
    exact ⟨_, hplace _⟩
  · rw [hb.size]
    exact ⟨_, hplace _⟩
  · exact ⟨fd, hb⟩

/-- What a write in memory mode that is not refused does: without bytes nothing, otherwise it puts them
into the cache and moves on. -/
theorem write_eq (ho : Opened api h i fd obj) (hr : ¬ Refused api i h (.write buf count now)) :
    buf.take count.toNat = [] ∧ write api now h i buf count = some (.ok 0, h) ∨
    buf.take count.toNat ≠ [] ∧ ∃ bp spa, write api now h i buf count =
      (h.arc.insert (blockKey fd.objId fd.offset h.currentTxg) (buf.take count.toNat)).map fun arc =>
        (.ok (buf.take count.toNat).length, setOffset { h with
          spa := spa, arc := arc
          ds := { h.ds with objset := (h.ds.objset.updateObj (written obj bp h.currentTxg fd.offset
            (UInt64.ofNat (buf.take count.toNat).length) now)).2 } } i
          (fd.offset + UInt64.ofNat (buf.take count.toNat).length)) := by
  have hdisk := isDiskMode_memory ho.memory
  have hrefused : ∀ e h', write api now h i buf count ≠ some (.error e, h') :=
    fun e h' hw => hr ⟨e, h', hw⟩
  rw [write, ho.opened] at hrefused ⊢
  dsimp only at hrefused ⊢
  have hflags : ¬ (fd.flags &&& 0x0001 ≠ 0 ∧ fd.flags &&& 0x0002 = 0) := by
    intro hf
    rw [if_pos hf] at hrefused
    exact hrefused _ _ rfl
  rw [if_neg hflags, ho.found] at hrefused ⊢
  dsimp only at hrefused ⊢
  have hperm : checkPermission api obj fd.pwm 0x02 = true := by
    by_contra hp
    rw [Bool.not_eq_true] at hp
    rw [hp] at hrefused
    exact hrefused _ _ rfl
  rw [hperm, Bool.not_true, if_neg Bool.false_ne_true, hdisk] at hrefused ⊢
  by_cases hdata : buf.take count.toNat = []
  · exact .inl ⟨hdata, if_pos hdata⟩
  · refine .inr ⟨hdata, ?_⟩
    rw [if_neg hdata] at hrefused ⊢
    cases halloc : h.spa.allocate (buf.take count.toNat).length .fletcher4 .off h.currentTxg with
    | none =>
      rw [halloc] at hrefused
      exact absurd rfl (hrefused _ _)
    | some result =>
      obtain ⟨bp, spa⟩ := result
      refine ⟨bp, spa, ?_⟩
      have hmem : isDiskMode { h with spa := spa } = false := hdisk
      dsimp only
      rw [if_neg Bool.false_ne_true, store, hmem, if_neg Bool.false_ne_true, Option.map_map]
      rfl

theorem toNat_max (a b : UInt64) : (max a b).toNat = max a.toNat b.toNat := by
  change (if a ≤ b then b else a).toNat = _
  split_ifs with hle
  · exact (Nat.max_eq_right hle).symm
  · have hlt : b.toNat ≤ a.toNat := Nat.le_of_lt (Nat.lt_of_not_le hle)
    exact (Nat.max_eq_left hlt).symm

theorem extent_write {size stop n : Nat} (hle : size ≤ n) (heq : n < 2 ^ 64 → size = n) :
    max (stop % 2 ^ 64) size ≤ max n stop ∧
      (max n stop < 2 ^ 64 → max (stop % 2 ^ 64) size = max n stop) := by
  constructor
  · omega
  · intro hlt
    rw [heq (by omega), Nat.mod_eq_of_lt (by omega), Nat.max_comm]

theorem Backed.write (hb : Backed api i ws c h fd obj) (hr : ¬ Refused api i h (.write buf count now))
    (hw : fileStep api i h (.write buf count now) = some h') :
    ∃ fd' obj', Backed api i (ws ++ c.wrote (.write buf count now))
      (c.step (.write buf count now)) h' fd' obj' := by
  rw [fileStep] at hw
  rcases write_eq hb.toOpened hr with ⟨hdata, heq⟩ | ⟨hdata, bp, spa, heq⟩
  · rw [heq] at hw
    cases hw
    rw [Cursor.wrote, Cursor.step, if_pos hdata, if_pos hdata, append_nil]
    exact ⟨fd, obj, hb⟩
  · rw [heq, Option.map_map] at hw
    obtain ⟨arc, harc, rfl⟩ := map_eq_some_iff.mp hw
    rw [Function.comp_apply]
    obtain ⟨hid, hused⟩ := HvObjSet.getObj_objId hb.found
    obtain ⟨hind, hcontent⟩ := hb.indexed.insert harc
    rw [Cursor.wrote, Cursor.step, if_neg hdata, if_neg hdata]
    generalize hlen : (buf.take count.toNat).length = len at *
    have hbytes : (fileBytes (ws ++ [(c.pos.toNat, buf.take count.toNat)])).length =
        max (fileBytes ws).length (c.pos.toNat + len) := by
      rw [fileBytes, contents_concat, length_splice, hlen]
      rfl
    obtain ⟨hext, hexact⟩ := @extent_write _ (c.pos.toNat + len) _ hb.extent hb.exact_extent
    refine ⟨{ fd with offset := fd.offset + UInt64.ofNat len },
      written obj bp h.currentTxg fd.offset (UInt64.ofNat len) now,
      ⟨hb.memory, ?_, ?_, hb.granted⟩, ?_, hind, ?_, ?_, ?_, ?_, ?_, ?_⟩
    · rw [openFd_setOffset]
      change (h.openFd i).map _ = _
      rw [hb.opened]
      rfl
    · exact HvObjSet.getObj_updateObj hb.distinct hb.found hid hused
    · change (h.ds.objset.updateObj _).2.ids.Nodup
      rw [HvObjSet.updateObj_ids]
      exact hb.distinct
    · rw [← hb.pos]
    · rw [← hb.pos, ← hb.size]
      rfl
    · rw [toNat_max, toNat_add_ofNat, hbytes]
      exact hext
    · rw [toNat_max, toNat_add_ofNat, hbytes]
      exact hexact
    · intro w hw'
      rcases mem_append.mp hw' with hw' | hw'
      · exact hb.nonempty w hw'
      · rw [mem_singleton.mp hw']
        exact hdata
    · intro w hw'
      rw [getLast?_concat, some.injEq] at hw'
      subst hw'
      rw [UInt64.ofNat_toNat, ← hb.pos]
      exact hcontent

theorem Backed.step {call : FileCall} (hb : Backed api i ws c h fd obj)
    (hr : ¬ Refused api i h call) (hstep : fileStep api i h call = some h') :
    ∃ fd' obj', Backed api i (ws ++ c.wrote call) (c.step call) h' fd' obj' := by
  cases call with
  | write buf count now => exact hb.write hr hstep
  | seek offset whence =>
    cases hstep
    obtain ⟨fd', hb'⟩ := hb.seek offset whence
    rw [Cursor.wrote, append_nil]
    exact ⟨fd', obj, hb'⟩

theorem Opened.returns_iff {call : FileCall} (ho : Opened api h i fd obj)
    (hr : ¬ Refused api i h call) : (fileStep api i h call).isSome = true ↔ ¬ Stuck i h call := by
  cases call with
  | write buf count now =>
    have hfd : h.fds i = fd := by
      have hopen := ho.opened
      rw [openFd] at hopen
      split_ifs at hopen
      exact some.inj hopen
    rw [fileStep, Stuck, hfd]
    rcases write_eq ho hr with ⟨hdata, heq⟩ | ⟨hdata, bp, spa, heq⟩
    · rw [heq]
      simp [hdata]
    · rw [heq, isSome_map, isSome_map, ← @HvArc.insert_none_iff _ _ (buf.take count.toNat),
        isSome_iff_ne_none]
      simp [hdata]
  | seek offset whence => exact ⟨fun _ hstuck => hstuck, fun _ => rfl⟩

section

variable {calls : List FileCall} (hb : Backed api i ws c h fd obj)
  (hg : Along (fileStep api i) (fun h call => ¬ Refused api i h call) h calls)

include hb hg

theorem Backed.run (hrun : runOpt (fileStep api i) h calls = some h') :
    ∃ c' fd' obj', Backed api i (ws ++ trace c calls) c' h' fd' obj' := by
  induction calls generalizing h ws c fd obj with
  | nil =>
    cases hrun
    rw [trace, append_nil]
    exact ⟨c, fd, obj, hb⟩
  | cons call calls ih =>
    obtain ⟨h₁, hstep, hrun⟩ := bind_eq_some_iff.mp hrun
    obtain ⟨fd₁, obj₁, hb₁⟩ := hb.step hg.1 hstep
    rw [trace, ← append_assoc]
    exact ih hb₁ (hg.2 h₁ hstep) hrun

theorem Backed.calls_return_iff : (runOpt (fileStep api i) h calls).isSome = true ↔
      Along (fileStep api i) (fun h call => ¬ Stuck i h call) h calls := by
  apply @runOpt_isSome_iff _ _ _ _ _ (fun h => ∃ ws c fd obj, Backed api i ws c h fd obj) _ _ h _ _ hg
  · intro s call s' hs hr hstep
    obtain ⟨ws, c, fd, obj, hs⟩ := hs
    obtain ⟨fd', obj', hs'⟩ := hs.step hr hstep
    exact ⟨_, _, fd', obj', hs'⟩
  · intro s call hs hr
    obtain ⟨ws, c, fd, obj, hs⟩ := hs
    exact hs.toOpened.returns_iff hr
  · exact ⟨ws, c, fd, obj, hb⟩

end

/-- From the start of the file, reads that ask for enough hand out exactly these bytes, whatever was in
the caller's buffers and lies behind the buffers of the cache. -/
def ReadsBack (api : PwmApi) (i : Nat) (h : HvfsData) (expected : List UInt8) : Prop :=
  ∀ rs : List ReadCall, expected.length ≤ (rs.map ReadCall.room).sum →
    readAll api i (HvfsData.seek h i 0 0).2 rs = some expected

/-- The last write starts the file, covers all others and stays in the first block. -/
def Whole (ws : List (Nat × List UInt8)) : Prop :=
  ws = [] ∨ ∃ d, ws.getLast? = some (0, d) ∧ d.length ≤ hvPoolBlockSize ∧
    ∀ w ∈ ws, w.1 + w.2.length ≤ d.length

theorem Backed.readsBack (hb : Backed api i ws c h fd obj) (hwhole : Whole ws) :
    ReadsBack api i h (fileBytes ws) := by
  intro rs hroom
  obtain ⟨ho, harc⟩ := hb.toOpened.seek_start
  have hextent := hb.extent
  have hexact := hb.exact_extent
  rw [← hb.size] at hextent hexact
  rcases hwhole with rfl | ⟨d, hlast, hblock, hcover⟩
  · obtain ⟨bytes, hall, hlen⟩ := ho.readAll_length rs
    have hnil : fileBytes [] = [] := rfl
    rw [hnil, length_nil] at hextent
    have hbytes : bytes = [] := length_eq_zero_iff.mp (by omega)
    rw [hall, hbytes, hnil]
  · have hblock' : d.length ≤ 4096 := hblock
    obtain ⟨pre, hpre⟩ := getLast?_eq_some_iff.mp hlast
    have hfile : fileBytes ws = d := by
      rw [hpre]
      apply contents_covered
      intro w hw
      exact hcover w (by rw [hpre]; exact mem_append_left _ hw)
    rw [hfile] at hroom hexact ⊢
    have hcontent : (HvfsData.seek h i 0 0).2.arc.content (blockKey fd.objId 0 obj.birthTxg) =
        some d := by
      have hkey := hb.last _ hlast
      have hzero : UInt64.ofNat 0 = 0 := rfl
      rw [hzero] at hkey
      rw [harc, hkey]
    have hsize : obj.size.toNat = d.length := hexact (Nat.lt_of_le_of_lt hblock' (by decide))
    have hzero : ({ fd with offset := 0 } : HvfsFd).offset.toNat = 0 := rfl
    have hreads := ho.readAll_whole hcontent hsize hblock' (by exact Nat.zero_le _) rs
    rw [hzero, drop_zero, take_of_length_le hroom] at hreads
    exact hreads

theorem Opened.readAll_behind {bytes : List UInt8} {r : ReadCall} {rs : List ReadCall}
    (ho : Opened api h i fd obj) (hpos : fd.offset.toNat = 0) (hsize : hvPoolBlockSize < obj.size.toNat)
    (hroom : hvPoolBlockSize < r.room) (hall : readAll api i h (r :: rs) = some bytes) :
    bytes[hvPoolBlockSize]? = r.buf[hvPoolBlockSize]? := by
  obtain ⟨buf, h₁, hread, -, -, hbuf⟩ := ho.read r
  have hmany : hvPoolBlockSize < toRead fd obj r := by
    rw [ReadCall.room] at hroom
    rw [toRead, hpos]
    omega
  rw [readAll, hread] at hall
  obtain ⟨rest, -, rfl⟩ := map_eq_some_iff.mp hall
  have hput : (buf.take (toRead fd obj r))[hvPoolBlockSize]? = r.buf[hvPoolBlockSize]? := by
    rw [hbuf, getElem?_take_of_lt hmany, delivered]
    split
    · apply getElem?_copyInto
      rw [length_take, length_drop, length_rawSlice]
      omega
    · rfl
  have hcap : hvPoolBlockSize < r.buf.length := Nat.lt_of_lt_of_le hroom (Nat.min_le_right _ _)
  rw [getElem?_append_left, hput]
  rw [getElem?_eq_getElem hcap] at hput
  exact (List.getElem?_eq_some_iff.mp hput).1

theorem Opened.block_of_readsBack {bytes : List UInt8} (ho : Opened api h i fd obj)
    (hreads : ReadsBack api i h bytes) : bytes.length ≤ hvPoolBlockSize := by
  by_contra hlong
  obtain ⟨hstart, -⟩ := ho.seek_start
  -- The buffer of the first call is full of `x`; the others make up for the length of the file.
  have hbyte : ∀ x : UInt8, bytes[hvPoolBlockSize]? = some x := by
    intro x
    have hlarge := @ReadCall.room_filled 0 x 8192 (by decide)
    have hone := @ReadCall.room_filled 0 x 1 (by decide)
    have hall := hreads (.filled 0 x 8192 :: replicate bytes.length (.filled 0 x 1))
      (by rw [map_cons, sum_cons, map_replicate, sum_replicate_nat, hone]; omega)
    obtain ⟨bytes', hall', hlen⟩ := hstart.readAll_length _
    obtain rfl := some.inj (hall.symm.trans hall')
    rw [hstart.readAll_behind rfl (by omega) (by rw [hlarge]; decide) hall]
    exact getElem?_replicate_of_lt (by decide)
  exact not_every_byte hbyte

theorem Opened.readAll_one {d : List UInt8} {r : ReadCall} (ho : Opened api h i fd obj)
    (hcontent : h.arc.content (blockKey fd.objId 0 obj.birthTxg) = some d)
    (hpos : fd.offset.toNat = 0) (hsize : obj.size.toNat = r.room) (hblock : r.room ≤ 4096) :
    readAll api i h [r] = some ((rawSlice r.beyond d 4096).take r.room) := by
  obtain ⟨buf, h₁, hread, -, -, hbuf⟩ := ho.read r
  have hall : toRead fd obj r = r.room := by
    rw [ReadCall.room] at hsize
    rw [toRead, ReadCall.room, hpos, hsize]
    omega
  have hfirst := delivered_first r hcontent (by omega) hall.ge (by omega)
  rw [hpos, drop_zero] at hfirst
  rw [readAll, hread]
  dsimp only
  rw [readAll, map_some, append_nil, hbuf, hall, hfirst]

theorem Backed.whole (hb : Backed api i ws c h fd obj) (hreads : ReadsBack api i h (fileBytes ws)) :
    Whole ws := by
  have hblock : (fileBytes ws).length ≤ 4096 := hb.toOpened.block_of_readsBack hreads
  cases hlast : ws.getLast? with
  | none => exact .inl (getLast?_eq_none_iff.mp hlast)
  | some w =>
    obtain ⟨o, d⟩ := w
    have hmem : (o, d) ∈ ws := mem_of_getLast? hlast
    have hends : ∀ w ∈ ws, w.1 + w.2.length ≤ (fileBytes ws).length :=
      (contents_length_le 0).mp le_rfl
    have hend : o + d.length ≤ (fileBytes ws).length := hends _ hmem
    have hpos : 0 < d.length := length_pos_iff.mpr (hb.nonempty _ hmem)
    obtain ⟨ho, harc⟩ := hb.toOpened.seek_start
    have hkey : (HvfsData.seek h i 0 0).2.arc.content (blockKey fd.objId 0 obj.birthTxg) = some d := by
      have hoff : (UInt64.ofNat o).toNat = o := by
        rw [toNat_ofNat', Nat.mod_eq_of_lt (by omega)]
      have hstored := hb.last _ hlast
      dsimp only at hstored
      rw [blockKey_first fd.objId obj.birthTxg (by omega)] at hstored
      rw [harc, hstored]
    have hsize : obj.size.toNat = (fileBytes ws).length := by
      rw [hb.size]
      exact hb.exact_extent (by omega)
    -- Whatever lies behind the buffer of the last write, the file is read as its beginning.
    have hshown : ∀ x : UInt8, fileBytes ws = (rawSlice (fun _ => x) d 4096).take (fileBytes ws).length := by
      intro x
      have hroom := @ReadCall.room_filled x 0 (fileBytes ws).length (by omega)
      have hone := ho.readAll_one hkey rfl (hsize.trans hroom.symm) (hroom.symm ▸ hblock)
      have hall := hreads [.filled x 0 (fileBytes ws).length] (by rw [map_singleton, sum_singleton, hroom])
      rw [hall, hroom] at hone
      exact some.inj hone
    have hlong : (fileBytes ws).length ≤ d.length := by
      by_contra hshort
      have hbyte : ∀ x : UInt8, (fileBytes ws)[d.length]? = some x := by
        intro x
        rw [hshown x, getElem?_take_of_lt (by omega), getElem?_rawSlice _ _ (by omega),
          getD_eq_getElem?_getD, getElem?_eq_none le_rfl]
        rfl
      exact not_every_byte hbyte
    have hstart : o = 0 := by omega
    subst hstart
    refine .inr ⟨d, hlast, ?_, ?_⟩
    · change d.length ≤ 4096
      omega
    · intro w hw
      exact (hends w hw).trans hlong

theorem Backed.empty (ho : Opened api h i fd obj) (hempty : obj.size = 0)
    (hd : h.ds.objset.Distinct) (hind : h.arc.Indexed) : Backed api i [] ⟨fd.offset, 0⟩ h fd obj :=
  ⟨ho, hd, hind, rfl, hempty, Nat.zero_le _, fun _ => rfl, fun _ hw => (by cases hw),
    fun _ hw => (by cases hw)⟩

/-- For an empty file and calls of which none is refused: the calls return and the file reads back as
its writes describe it, just when no write finds the cache jammed and the last write is the whole file
within the first block. -/
theorem file_reads_back_iff (ho : Opened api h i fd obj) (hempty : obj.size = 0)
    (hd : h.ds.objset.Distinct) (hind : h.arc.Indexed) {calls : List FileCall}
    (hg : Along (fileStep api i) (fun h call => ¬ Refused api i h call) h calls) :
    (∃ h', runOpt (fileStep api i) h calls = some h' ∧
        ReadsBack api i h' (fileBytes (trace ⟨fd.offset, 0⟩ calls))) ↔
      Along (fileStep api i) (fun h call => ¬ Stuck i h call) h calls ∧
        Whole (trace ⟨fd.offset, 0⟩ calls) := by
  have hb := Backed.empty ho hempty hd hind
  rw [← hb.calls_return_iff hg, isSome_iff_exists]
  constructor
  · intro ⟨h', hrun, hreads⟩
    obtain ⟨c', fd', obj', hb'⟩ := hb.run hg hrun
    exact ⟨⟨h', hrun⟩, hb'.whole hreads⟩
  · intro ⟨⟨h', hrun⟩, hwhole⟩
    obtain ⟨c', fd', obj', hb'⟩ := hb.run hg hrun
    exact ⟨h', hrun, hb'.readsBack hwhole⟩

def oneFd : HvfsFd := ⟨4, 0, 0x0100, 7, true⟩

theorem oneFile_opened : Opened oneAdmin oneFile 0 oneFd (.newFile 4 7) := ⟨rfl, rfl, oneFile_getObj, rfl⟩

theorem oneFile_indexed : oneFile.arc.Indexed := HvArc.indexed_init 256

theorem not_refused {n : Nat} (hw : (write api now h i buf count).map Prod.fst = some (.ok n)) :
    ¬ Refused api i h (.write buf count now) := by
  intro ⟨e, h', herror⟩
  rw [herror] at hw
  cases hw

theorem oneFile_granted : Along (fileStep oneAdmin 0) (fun h call => ¬ Refused oneAdmin 0 h call) oneFile
    [.write [0x61, 0x62] 2 0] := by
  refine ⟨not_refused (n := 2) rfl, ?_⟩
  intro h' _
  trivial

theorem file_reads_back_short :
    ∃ h', runOpt (fileStep oneAdmin 0) oneFile [.write [0x61, 0x62] 2 0] = some h' ∧
      ReadsBack oneAdmin 0 h' [0x61, 0x62] := by
  refine (file_reads_back_iff oneFile_opened rfl oneFile_distinct oneFile_indexed
    oneFile_granted).mpr ⟨⟨?_, fun _ _ => trivial⟩, .inr ⟨[0x61, 0x62], rfl, by decide, by decide⟩⟩
  intro ⟨_, hp, _⟩
  exact absurd hp (by decide)

theorem oneFile_append_granted : Along (fileStep oneAdmin 0)
    (fun h call => ¬ Refused oneAdmin 0 h call) oneFile
    [.write [0x61, 0x62] 2 0, .write [0x63, 0x64] 2 0] := by
  refine ⟨not_refused (n := 2) rfl, ?_⟩
  intro h' hstep
  cases hstep
  refine ⟨not_refused (n := 2) rfl, ?_⟩
  intro h'' _
  trivial

theorem file_loses_first_write :
    ¬ ∀ (api : PwmApi) (h : HvfsData) (i : Nat) (fd : HvfsFd) (obj : HvDmuObject),
      Opened api h i fd obj → obj.size = 0 → h.ds.objset.Distinct → h.arc.Indexed →
      ∀ calls : List FileCall, Along (fileStep api i) (fun h call => ¬ Refused api i h call) h calls →
        ∃ h', runOpt (fileStep api i) h calls = some h' ∧
          ReadsBack api i h' (fileBytes (trace ⟨fd.offset, 0⟩ calls)) := by
  intro hall
  obtain ⟨h', hrun, hreads⟩ := hall oneAdmin oneFile 0 oneFd _ oneFile_opened rfl oneFile_distinct
    oneFile_indexed _ oneFile_append_granted
  have hb := Backed.empty oneFile_opened rfl oneFile_distinct oneFile_indexed
  obtain ⟨c', fd', obj', hb'⟩ := hb.run oneFile_append_granted hrun
  rcases hb'.whole hreads with hnil | ⟨d, hlast, -, -⟩
  · cases hnil
  · cases hlast

end HvfsData

end AntX.Hvfs
