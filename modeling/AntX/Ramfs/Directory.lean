import AntX.Hvfs.Zap
import AntX.Lib.Run
import AntX.Ramfs.Ownership

/-! Directories of services/fs/ramfs_core and what the calls on them write. Strings are their bytes.
A call is given the answers the name cache, another component, makes to its lookups. -/

namespace AntX.Ramfs

open AntX.Lib AntX.Hvfs Option Set

def vfsMaxName : Nat := 64

/-- `size_of::<RamFsDirEntry>()`: node, type and three bytes of padding, name. -/
def direntSize : Nat := 8 + vfsMaxName

structure RamFsDirEntry where
  node : Nat
  fileType : UInt8
  name : List UInt8
  name_length : name.length = vfsMaxName

namespace RamFsDirEntry

def new : RamFsDirEntry := ⟨0, 0, List.replicate vfsMaxName 0, List.length_replicate⟩

/-- The name is cut to leave room for the closing zero; what stood behind it stays. -/
def setName (e : RamFsDirEntry) (name : List UInt8) : RamFsDirEntry where
  node := e.node
  fileType := e.fileType
  name := name.take (vfsMaxName - 1) ++ 0 :: e.name.drop (min name.length (vfsMaxName - 1) + 1)
  name_length := by
    have hlen := e.name_length
    simp only [List.length_append, List.length_take, List.length_cons, List.length_drop, hlen, vfsMaxName]
    omega

def readAt (m : Memory) (offset : Nat) : RamFsDirEntry :=
  ⟨m.word offset, m (offset + 4), m.load (offset + 8) vfsMaxName, Memory.length_load⟩

def bytes (e : RamFsDirEntry) : List UInt8 := leBytes 4 e.node ++ [e.fileType, 0, 0, 0] ++ e.name

theorem length_bytes (e : RamFsDirEntry) : e.bytes.length = direntSize := by
  have hlen := e.name_length
  simp only [bytes, List.length_append, length_leBytes, List.length_cons, List.length_nil, hlen, direntSize]

/-- The name up to the first zero; bytes that are no string count as the empty one. -/
def text (e : RamFsDirEntry) : List UInt8 :=
  let bytes := e.name.takeWhile (· ≠ 0)
  if validUtf8 bytes then bytes else []

def named (name : List UInt8) (e : RamFsDirEntry) : Bool := e.node != 0 && e.text == name

end RamFsDirEntry

inductive DCacheResult where
  | hit (ino : Nat)
  | negative
  | miss
  deriving DecidableEq, Repr

namespace RamFsData

variable (s : RamFsData)

def writeEntry (offset : Nat) (e : RamFsDirEntry) : RamFsData :=
  { s with dataArea := s.dataArea.store offset e.bytes }

def numEntries (node : RamFsNode) : Nat := node.size / direntSize

def findEntry (s : RamFsData) (block : Nat) (test : RamFsDirEntry → Bool) :
    (k i : Nat) → Option (Option (Nat × RamFsDirEntry))
  | 0, _ => some none
  | k + 1, i =>
    let offset := block * ramfsBlockSize + i * direntSize
    if offset + direntSize ≤ dataLen then
      let e := RamFsDirEntry.readAt s.dataArea offset
      if test e then some (some (offset, e)) else findEntry s block test k (i + 1)
    else none

def searchNode (node : RamFsNode) (test : RamFsDirEntry → Bool) : Option (Option (Nat × RamFsDirEntry)) :=
  s.findEntry (node.directBlocks 0) test (numEntries node) 0

def lookupIn (current : Nat) (component : List UInt8) : Option (Option Nat) :=
  if ramfsMaxNodes ≤ current then none
  else
    let node := s.nodes current
    if node.fileType ≠ .dir ∨ node.directBlocks 0 = u32Max then some none
    else (s.searchNode node (RamFsDirEntry.named component)).map fun r => r.map fun found => found.2.node

def walk (s : RamFsData) : List (List UInt8) → List DCacheResult → Nat → Option (Option Nat)
  | [], _, current => some (some current)
  | component :: rest, answers, current =>
    if component = [] then walk s rest answers current
    else
      match answers.head? with
      | some (.hit ino) => walk s rest answers.tail ino
      | some .negative => some none
      | some .miss | none =>
        match s.lookupIn current component with
        | none => none
        | some none => some none
        | some (some next) => walk s rest answers.tail next

/-- `/` is the byte 47. -/
def resolvePath (answers : List DCacheResult) (path : List UInt8) : Option (Option Nat) :=
  s.walk ((path.dropWhile (· = 47)).splitOn 47) answers s.rootNode

def freshNode (id : Nat) (fileType : VfsFileType) (pwm : UInt64) (block linkCount : Nat) : RamFsNode where
  nodeId := id
  fileType := fileType
  sensitivity := 0
  ownerPwm := pwm
  size := if fileType = .dir then 2 * direntSize else 0
  directBlocks := fun i => if i = 0 then block else 0
  indirectBlock := 0
  doubleIndirectBlock := 0
  linkCount := linkCount
  used := true

def allocNode (fileType : VfsFileType) (pwm : UInt64) : Option Nat × RamFsData :=
  match firstFrom (fun i => !(s.nodes i).used) (ramfsMaxNodes - 1) 1 with
  | some id =>
    (some id, s.blockAlloc.2.modifyNode id fun _ => freshNode id fileType pwm s.blockAlloc.1 1)
  | none => (none, s)

def dot (node : Nat) : RamFsDirEntry := { RamFsDirEntry.new with node := node, fileType := 1 }.setName [46]

def dotDot (node : Nat) : RamFsDirEntry :=
  { RamFsDirEntry.new with node := node, fileType := 1 }.setName [46, 46]

def writeDots (block self parent : Nat) : RamFsData :=
  (s.writeEntry (block * ramfsBlockSize) (dot self)).writeEntry
    (block * ramfsBlockSize + direntSize) (dotDot parent)

def mount : RamFsData :=
  let empty : RamFsData := ⟨fun _ => RamFsNode.new, fun _ => 0, fun _ => false, [], 1⟩
  let new := empty.blockAlloc
  (new.2.modifyNode 1 fun _ => freshNode 1 .dir 1 new.1 2).writeDots new.1 1 1

def checkParent (api : PwmApi) (s : RamFsData) (answers : List DCacheResult) (path name : List UInt8)
    (pwm : UInt64) : Option (Except KernelError Nat) :=
  if name = [] ∨ 47 ∈ name then some (.error .invalidArgument)
  else
    (s.resolvePath answers path).bind fun r =>
      match r with
      | none => some (.error .fileNotFound)
      | some parent =>
        let node := s.nodes parent
        if ramfsMaxNodes ≤ parent then some (.error .invalidArgument)
        else if !node.used then some (.error .fileNotFound)
        else if node.fileType ≠ .dir then some (.error .notADirectory)
        else if !s.checkPermission api node pwm fsCapCreate then some (.error .permissionDenied)
        else if node.directBlocks 0 = u32Max then some (.error .fileNotFound)
        else (s.searchNode node (RamFsDirEntry.named name)).map fun found =>
          if found.isSome then .error .alreadyExists else .ok parent

def nextEntry (node : RamFsNode) : Nat :=
  node.directBlocks 0 * ramfsBlockSize + numEntries node * direntSize

def addEntry (parent node : Nat) (fileType : VfsFileType) (name : List UInt8) :
    Option RamFsData :=
  let offset := nextEntry (s.nodes parent)
  if dataLen < offset + direntSize then none
  else
    let e := { RamFsDirEntry.new with node := node, fileType := fileType.toU8 }.setName name
    some ((s.writeEntry offset e).modifyNode parent fun n =>
      { n with size := (n.size + direntSize) % 2 ^ 32, linkCount := (n.linkCount + 1) % 2 ^ 32 })

def createFile (api : PwmApi) (s : RamFsData) (answers : List DCacheResult) (path name : List UInt8)
    (pwm : UInt64) : Option (Option Nat × RamFsData) :=
  (s.checkParent api answers path name pwm).map fun checked =>
    match checked with
    | .error _ => (none, s)
    | .ok parent =>
      match s.allocNode .file pwm with
      | (none, s) => (none, s)
      | (some id, s) =>
        match s.addEntry parent id .file name with
        | none => (none, s)
        | some s => (some id, s)

def mkdir (api : PwmApi) (s : RamFsData) (answers : List DCacheResult) (path name : List UInt8)
    (pwm : UInt64) : Option (Except KernelError Unit × RamFsData) :=
  (s.checkParent api answers path name pwm).map fun checked =>
    match checked with
    | .error e => (.error e, s)
    | .ok parent =>
      match s.allocNode .dir pwm with
      | (none, s) => (.error .fileNotFound, s)
      | (some id, s) =>
        let block := (s.nodes id).directBlocks 0
        if block = u32Max then (.error .fileNotFound, s)
        else
          let s := (s.writeDots block id parent).modifyNode id fun n => { n with linkCount := 2 }
          if (s.nodes parent).directBlocks 0 = u32Max then (.error .fileNotFound, s)
          else
            match s.addEntry parent id .dir name with
            | none => (.error .noSpace, s)
            | some s => (.ok (), s)

def parentPath (path : List UInt8) : List UInt8 :=
  match path.reverse.dropWhile (· ≠ 47) with
  | [] | [_] => [47]
  | _ :: rest => rest.reverse

/-- Clears the first entry for a node; the entry stays in its place with node number 0. -/
def removeEntry (parent id : Nat) : Option RamFsData :=
  let node := s.nodes parent
  if ramfsMaxNodes ≤ parent then none
  else if node.directBlocks 0 = u32Max then some s
  else (s.searchNode node fun e => e.node == id).map fun found =>
    match found with
    | some (offset, e) => s.writeEntry offset { e with node := 0 }
    | none => s

def unlink (api : PwmApi) (s : RamFsData) (answers parentAnswers : List DCacheResult)
    (path : List UInt8) (pwm : UInt64) : Option (Except KernelError Unit × RamFsData) :=
  (s.resolvePath answers path).bind fun r =>
    match r with
    | none => some (.error .fileNotFound, s)
    | some id =>
      if ramfsMaxNodes ≤ id then none
      else if !(s.nodes id).used then some (.error .fileNotFound, s)
      else if !s.checkPermission api (s.nodes id) pwm fsCapWrite then
        some (.error .permissionDenied, s)
      else
        (s.resolvePath parentAnswers (parentPath path)).bind fun r =>
          match r with
          | none => some (.error .fileNotFound, s)
          | some parent =>
            (s.removeEntry parent id).bind fun s =>
              (s.truncate api id 0 pwm).map fun r =>
                (.ok (), r.2.modifyNode id fun n =>
                  { n with used := false, fileType := .file, linkCount := 0, ownerPwm := 0 })

end RamFsData

namespace RamFsData

variable {s s' s₁ : RamFsData} {id m b d block offset parent : Nat} {q : Ref} {fileType : VfsFileType}
  {pwm : UInt64} {e : RamFsDirEntry} {name : List UInt8}

theorem freshNode_pointer (id : Nat) (fileType : VfsFileType) (pwm : UInt64) (block linkCount : Nat)
    (mem : Memory) (q : Ref) :
    (freshNode id fileType pwm block linkCount).pointer mem q = if q = .direct 0 then block else 0 := by
  cases q with
  | direct i =>
    by_cases hi : i = 0
    · subst hi
      rfl
    · simp [RamFsNode.pointer, freshNode, hi]
  | _ => simp [RamFsNode.pointer, freshNode, entryOf_zero]

structure Allocated (s s' : RamFsData) (fileType : VfsFileType) (pwm : UInt64) (id block : Nat) : Prop where
  inRange : id < ramfsMaxNodes
  unused : (s.nodes id).used = false
  node : s'.nodes id = freshNode id fileType pwm block 1
  others : ∀ m, m ≠ id → s'.nodes m = s.nodes m
  frame : ∀ a, a / ramfsBlockSize ≠ block → s'.dataArea a = s.dataArea a
  marks : ∀ b, s'.Marked b ↔ b = block ∧ block ≠ u32Max ∨ s.Marked b
  taken : s.NoFree ∧ block = u32Max ∨
    ¬ s.Marked block ∧ block ≠ u32Max ∧ ∀ a, a / ramfsBlockSize = block → s'.dataArea a = 0

theorem allocNode_cases (s : RamFsData) (fileType : VfsFileType) (pwm : UInt64) :
    s.allocNode fileType pwm = (none, s) ∨
      ∃ id s' block, s.allocNode fileType pwm = (some id, s') ∧ Allocated s s' fileType pwm id block := by
  rw [allocNode]
  cases hfind : firstFrom (fun i => !(s.nodes i).used) (ramfsMaxNodes - 1) 1 with
  | none => exact .inl rfl
  | some id =>
    obtain ⟨hge, hlt, hunused⟩ := firstFrom_some hfind
    have hrange : id < ramfsMaxNodes := by
      omega
    have hnode : (s.nodes id).used = false := by simpa using hunused
    refine .inr ⟨id, _, s.blockAlloc.1, rfl, ?_⟩
    rcases blockAlloc_cases s with ⟨hfull, halloc⟩ | ⟨b, hb, hfree, halloc⟩
    · rw [halloc]
      refine ⟨hrange, hnode, by simp [modifyNode], fun m hm => by simp [modifyNode, hm], fun _ _ => rfl, ?_,
        .inl ⟨hfull, rfl⟩⟩
      intro c
      refine ⟨.inr, ?_⟩
      rintro (⟨-, hne⟩ | hmark)
      · exact absurd rfl hne
      · exact hmark
    · have hmax := ne_max_of_lt hb
      have hnodes : (s.takeBlock b).nodes = s.nodes := by rw [takeBlock_eq hb]
      rw [halloc]
      refine ⟨hrange, hnode, by simp [modifyNode], fun m hm => by simp [modifyNode, hm, hnodes],
        fun a ha => takeBlock_outside hb ha, fun c => ?_,
        .inr ⟨fun h => by simp [h.2] at hfree, hmax, fun a ha => takeBlock_inside ha⟩⟩
      rw [show (∀ (x : RamFsData) f c, (x.modifyNode id f).Marked c ↔ x.Marked c) from fun _ _ _ => Iff.rfl,
        takeBlock_marked hb]
      simp [hmax]

section

variable (h : Allocated s s' fileType pwm id block)

include h

theorem Allocated.unmarked : ¬ s.Marked block := by
  rcases h.taken with ⟨-, rfl⟩ | ⟨hfree, -⟩
  · exact fun hmark => hmark.ne_max rfl
  · exact hfree

theorem Allocated.frame_marked {a : Nat} (ha : s.Marked (a / ramfsBlockSize)) :
    s'.dataArea a = s.dataArea a := by
  apply h.frame
  intro hab
  exact h.unmarked (hab ▸ ha)

theorem Allocated.pointer_self (q : Ref) : s'.pointer id q = if q = .direct 0 then block else 0 := by
  rw [pointer, h.node]
  exact freshNode_pointer id fileType pwm block 1 _ q

theorem Allocated.pointer_other (hs : s.Sound univ) (hm : m ≠ id) (q : Ref) :
    s'.pointer m q = s.pointer m q := by
  rw [pointer, h.others m hm]
  apply RamFsNode.pointer_congr
  intro r hr h0 a ha
  apply h.frame_marked
  rw [ha]
  exact hs.index_marked trivial hr h0

theorem Allocated.sound (hs : s.Sound univ) : s'.Sound univ := by
  have hpoints : ∀ x c, s'.Points univ x c → s.Points univ x c ∨ x = (id, .direct 0) ∧ c = block := by
    rintro ⟨n, q⟩ c ⟨-, hp, h0, hmax⟩
    by_cases hn : n = id
    · subst hn
      rw [h.pointer_self] at hp
      by_cases hq : q = .direct 0
      · subst hq
        exact .inr ⟨rfl, hp.symm⟩
      · rw [if_neg hq] at hp
        exact absurd hp.symm h0
    · rw [h.pointer_other hs hn] at hp
      exact .inl ⟨trivial, hp, h0, hmax⟩
  have hkeep : ∀ c, s.Marked c → s'.Marked c := fun c hc => (h.marks c).mpr (Or.inr hc)
  refine ⟨?_, hkeep 0 hs.zero⟩
  by_cases hmax : block = u32Max
  · -- no block was free: the new node refers to none
    refine hs.owned.release ?_ fun c hc => .inl (hkeep c hc)
    intro x c hx
    rcases hpoints x c hx with hold | ⟨rfl, rfl⟩
    · exact hold
    · exact absurd rfl (hx.2.2.2 hmax)
  · exact hs.owned.attach h.unmarked ((h.marks block).mpr (Or.inl ⟨rfl, hmax⟩)) hkeep hpoints

theorem Allocated.intact (hs : s.Intact) : s'.Intact where
  sound := h.sound hs.sound
  rooted n hdir h0 := by
    by_cases hn : n = id
    · subst hn
      have hblock : block = 0 := by
        have hp := h.pointer_self (.direct 0)
        rw [pointer_first, h0, if_pos rfl] at hp
        exact hp.symm
      exact absurd (hblock ▸ hs.sound.zero) h.unmarked
    · rw [h.others n hn] at hdir h0
      exact hs.rooted n hdir h0

end

def HasRoom (node : RamFsNode) : Prop := (numEntries node + 1) * direntSize ≤ ramfsBlockSize

instance (node : RamFsNode) : Decidable (HasRoom node) := inferInstanceAs (Decidable (_ ≤ _))

def InBlock (d offset : Nat) : Prop :=
  d * ramfsBlockSize ≤ offset ∧ offset + direntSize ≤ d * ramfsBlockSize + ramfsBlockSize

theorem writeEntry_outside (hin : InBlock d offset) {a : Nat} (ha : a / ramfsBlockSize ≠ d) :
    (s.writeEntry offset e).dataArea a = s.dataArea a := by
  apply Memory.store_outside
  rw [e.length_bytes]
  simp only [InBlock, ramfsBlockSize] at *
  omega

theorem dirBlock_marked (hs : s.Sound univ) (hmax : (s.nodes parent).directBlocks 0 ≠ u32Max) :
    s.Marked ((s.nodes parent).directBlocks 0) := by
  by_cases h0 : (s.nodes parent).directBlocks 0 = 0
  · rw [h0]
    exact hs.zero
  · exact @Owned.taken _ _ _ _ hs.owned (parent, .direct 0) _ ⟨trivial, rfl, h0, fun h => absurd h hmax⟩

theorem dirBlock_notIndex (hs : s.Sound univ) (hmax : (s.nodes parent).directBlocks 0 ≠ u32Max) :
    s.NotIndex univ ((s.nodes parent).directBlocks 0) := by
  have hmark : s.Marked (s.pointer parent (.direct 0)) := dirBlock_marked hs hmax
  exact hs.notIndex trivial rfl hmark

theorem writeEntry_intact (hs : s.Intact) (hn : s.NotIndex univ d) (hin : InBlock d offset) :
    (s.writeEntry offset e).Intact where
  sound := hs.sound.congr (fun _ _ => hn.pointer trivial fun _ => writeEntry_outside hin) fun _ => Iff.rfl
  rooted := hs.rooted

theorem nextEntry_inBlock {node : RamFsNode} (hroom : HasRoom node) :
    InBlock (node.directBlocks 0) (nextEntry node) := by
  simp only [HasRoom, InBlock, nextEntry, direntSize, vfsMaxName, ramfsBlockSize] at *
  omega

theorem addEntry_intact (hs : s.Intact) (hroom : HasRoom (s.nodes parent))
    (hmax : (s.nodes parent).directBlocks 0 ≠ u32Max)
    (h : s.addEntry parent id fileType name = some s') :
    s'.Intact ∧ (∀ m, m ≠ parent → s'.nodes m = s.nodes m) ∧ (∀ b, s'.Marked b ↔ s.Marked b) ∧
      ∀ a, a / ramfsBlockSize ≠ (s.nodes parent).directBlocks 0 → s'.dataArea a = s.dataArea a := by
  rw [addEntry] at h
  split at h
  · cases h
  · cases h
    have hin := nextEntry_inBlock hroom
    have hwrite : ∀ e, (s.writeEntry (nextEntry (s.nodes parent)) e).Intact :=
      fun e => writeEntry_intact hs (dirBlock_notIndex hs.sound hmax) hin
    refine ⟨(within_record (hwrite _).sound ?_ ?_).intact (hwrite _), ?_, fun _ => Iff.rfl, ?_⟩
    · intro n mem q
      cases q <;> rfl
    · intro n
      rfl
    · intro m hm
      simp [modifyNode, hm, writeEntry]
    · intro a ha
      exact writeEntry_outside hin ha

theorem writeDots_outside (self : Nat) {a : Nat} (ha : a / ramfsBlockSize ≠ d) :
    (s.writeDots d self parent).dataArea a = s.dataArea a := by
  have hdot : InBlock d (d * ramfsBlockSize) := by
    simp only [InBlock, direntSize, vfsMaxName, ramfsBlockSize]
    omega
  have hdots : InBlock d (d * ramfsBlockSize + direntSize) := by
    simp only [InBlock, direntSize, vfsMaxName, ramfsBlockSize]
    omega
  rw [writeDots, writeEntry_outside hdots ha, writeEntry_outside hdot ha]

theorem writeDots_within (hs : s.Sound univ) (hb : (s.nodes id).directBlocks 0 = b) (hb0 : b ≠ 0)
    (hmark : s.Marked b) (self parent : Nat) : Within s (s.writeDots b self parent) id :=
  within_data hs (q := .direct 0) rfl hb hb0 hmark (fun _ ha => writeDots_outside self ha) rfl rfl

theorem findEntry_some {test : RamFsDirEntry → Bool} {k i : Nat}
    (h : s.findEntry b test k i = some (some (offset, e))) :
    ∃ j, j < i + k ∧ offset = b * ramfsBlockSize + j * direntSize := by
  induction k generalizing i with
  | zero => simp [findEntry] at h
  | succ k ih =>
    rw [findEntry] at h
    dsimp only at h
    split at h
    · split at h
      · cases h
        exact ⟨i, by omega, rfl⟩
      · obtain ⟨j, hj, hoff⟩ := ih h
        exact ⟨j, by omega, hoff⟩
    · cases h

def Compact (node : RamFsNode) : Prop := numEntries node * direntSize ≤ ramfsBlockSize

instance (node : RamFsNode) : Decidable (Compact node) := inferInstanceAs (Decidable (_ ≤ _))

theorem removeEntry_intact (hs : s.Intact) (hfits : Compact (s.nodes parent))
    (h : s.removeEntry parent id = some s') :
    s'.Intact ∧ s'.nodes = s.nodes ∧ (∀ b, s'.Marked b ↔ s.Marked b) ∧
      ∀ a, a / ramfsBlockSize ≠ (s.nodes parent).directBlocks 0 → s'.dataArea a = s.dataArea a := by
  rw [removeEntry] at h
  split at h
  · cases h
  · split at h
    · cases h
      exact ⟨hs, rfl, fun _ => Iff.rfl, fun _ _ => rfl⟩
    · rename_i hmax
      obtain ⟨found, hfound, hs'⟩ := map_eq_some_iff.mp h
      cases found with
      | none =>
        cases hs'
        exact ⟨hs, rfl, fun _ => Iff.rfl, fun _ _ => rfl⟩
      | some place =>
        obtain ⟨offset, e⟩ := place
        cases hs'
        obtain ⟨j, hj, hoff⟩ := findEntry_some hfound
        have hin : InBlock ((s.nodes parent).directBlocks 0) offset := by
          simp only [Compact, InBlock, direntSize, vfsMaxName, ramfsBlockSize] at *
          omega
        exact ⟨writeEntry_intact hs (dirBlock_notIndex hs.sound hmax) hin, rfl, fun _ => Iff.rfl,
          fun a ha => writeEntry_outside hin ha⟩

theorem checkParent_ok {api : PwmApi} {answers : List DCacheResult} {path : List UInt8}
    (h : s.checkParent api answers path name pwm = some (.ok parent)) :
    (s.nodes parent).used = true ∧ (s.nodes parent).fileType = .dir ∧
      (s.nodes parent).directBlocks 0 ≠ u32Max := by
  obtain ⟨-, h⟩ := ok_of_check h
  obtain ⟨r, -, h⟩ := bind_eq_some_iff.mp h
  cases r with
  | none => cases h
  | some p =>
    obtain ⟨-, h⟩ := ok_of_check h
    obtain ⟨hused, h⟩ := ok_of_check h
    obtain ⟨hdir, h⟩ := ok_of_check h
    obtain ⟨-, h⟩ := ok_of_check h
    obtain ⟨hmax, h⟩ := ok_of_check h
    obtain ⟨found, -, hfound⟩ := map_eq_some_iff.mp h
    split at hfound
    · cases hfound
    · cases hfound
      rw [Bool.not_eq_true', Bool.not_eq_false] at hused
      exact ⟨hused, not_not.mp hdir, hmax⟩

theorem createFile_cases {api : PwmApi} {answers : List DCacheResult} {path : List UInt8}
    {r : Option Nat × RamFsData} (h : s.createFile api answers path name pwm = some r) :
    r = (none, s) ∨ ∃ parent id s₁ block, s.checkParent api answers path name pwm = some (.ok parent) ∧
      Allocated s s₁ .file pwm id block ∧ (r = (none, s₁) ∨
        ∃ s₂, s₁.addEntry parent id .file name = some s₂ ∧ r = (some id, s₂)) := by
  obtain ⟨checked, hcheck, rfl⟩ := map_eq_some_iff.mp h
  cases checked with
  | error _ => exact .inl rfl
  | ok parent =>
    rcases allocNode_cases s .file pwm with halloc | ⟨id, s₁, block, halloc, hnew⟩
    · left
      simp only [halloc]
    · refine .inr ⟨parent, id, s₁, block, hcheck, hnew, ?_⟩
      simp only [halloc]
      cases hadd : s₁.addEntry parent id .file name with
      | none => exact .inl rfl
      | some s₂ => exact .inr ⟨s₂, rfl, rfl⟩

end RamFsData

end AntX.Ramfs
