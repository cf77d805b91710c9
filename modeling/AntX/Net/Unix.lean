import Mathlib.Data.Fintype.Card
import AntX.Lib.Run

/-! UNIX domain sockets, `services/net/unix.rs`: the data path, where each byte in a buffer carries
where it came from, and the connection calls. A slot with id 0 is an empty one. -/

namespace AntX.Net

open Lib

structure ScmCredentials where
  pid : UInt32
  uid : UInt32
  gid : UInt32
deriving DecidableEq, Repr

def toNeBytes (x : UInt32) : List UInt8 :=
  [UInt8.ofNat x.toNat, UInt8.ofNat (x.toNat / 2 ^ 8), UInt8.ofNat (x.toNat / 2 ^ 16),
    UInt8.ofNat (x.toNat / 2 ^ 24)]

def fromNeBytes (b : List UInt8) : UInt32 :=
  UInt32.ofNat ((b.getD 0 0).toNat + 2 ^ 8 * (b.getD 1 0).toNat + 2 ^ 16 * (b.getD 2 0).toNat +
    2 ^ 24 * (b.getD 3 0).toNat)

def credSize : Nat := 12

namespace ScmCredentials

def toBytes (c : ScmCredentials) : List UInt8 := toNeBytes c.pid ++ toNeBytes c.uid ++ toNeBytes c.gid

def ofBytes (b : List UInt8) : ScmCredentials :=
  { pid := fromNeBytes b, uid := fromNeBytes (b.drop 4), gid := fromNeBytes (b.drop 8) }

end ScmCredentials

theorem fromNeBytes_toNeBytes (x : UInt32) (rest : List UInt8) : fromNeBytes (toNeBytes x ++ rest) = x := by
  apply UInt32.toNat_inj.1
  have hx := x.toNat_lt
  simp only [fromNeBytes, toNeBytes, List.cons_append, List.nil_append, List.getD_cons_zero,
    List.getD_cons_succ, UInt8.toNat_ofNat', UInt32.toNat_ofNat']
  omega

@[simp] theorem toBytes_length (c : ScmCredentials) : c.toBytes.length = credSize := rfl

theorem ofBytes_toBytes (c : ScmCredentials) : ScmCredentials.ofBytes c.toBytes = c := by
  have hpid : fromNeBytes c.toBytes = c.pid := by
    exact fromNeBytes_toNeBytes _ _
  have huid : fromNeBytes (c.toBytes.drop 4) = c.uid := fromNeBytes_toNeBytes c.uid (toNeBytes c.gid)
  have hgid : fromNeBytes (c.toBytes.drop 8) = c.gid := fromNeBytes_toNeBytes c.gid []
  rw [ScmCredentials.ofBytes, hpid, huid, hgid]

inductive Origin where
  | payload (sender : ScmCredentials)
  | kernel (sender : ScmCredentials)
deriving DecidableEq, Repr

structure BufByte where
  val : UInt8
  origin : Origin
deriving DecidableEq, Repr

def payload (sender : ScmCredentials) (data : List UInt8) : List BufByte :=
  data.map fun b => ⟨b, .payload sender⟩

def record (sender : ScmCredentials) : List BufByte :=
  sender.toBytes.map fun b => ⟨b, .kernel sender⟩

def attachCreds (limit : Nat) (passcred : Bool) (current : ScmCredentials) (buf : List BufByte) :
    List BufByte :=
  if passcred ∧ buf.length + credSize ≤ limit then buf ++ record current else buf

def detachCreds (passcred : Bool) (buf : List BufByte) : List BufByte × Option ScmCredentials :=
  if credSize ≤ buf.length ∧ passcred then
    (buf.take (buf.length - credSize),
      some (ScmCredentials.ofBytes ((buf.drop (buf.length - credSize)).map (·.val))))
  else (buf, none)

inductive UdsError where
  | noMem
  | badFd
  | invalid
  | addrInUse
  | again
  | connRefused
  | notFound
deriving DecidableEq, Repr

inductive UnixSockType where
  | stream
  | dgram
deriving DecidableEq, Repr

inductive UnixSockState where
  | unbound
  | bound
  | listening
  | connected
  | closed
deriving DecidableEq, Repr

/-- `pending` is the ring of a listener from its head on. -/
structure UnixSocket where
  id : Nat
  sockType : UnixSockType
  state : UnixSockState
  boundPath : List UInt8
  pending : List Nat
  peer : Option Nat
  streamBuf : List BufByte
  peerClosed : Bool
  dgramBuf : List BufByte
  dgramPending : Bool
  passcred : Bool
deriving DecidableEq, Repr

def UnixSocket.empty : UnixSocket :=
  ⟨0, .stream, .unbound, [], [], none, [], false, [], false, false⟩

structure UnixPathBinding where
  path : List UInt8
  sockIdx : Fin 16
  used : Bool
deriving DecidableEq, Repr

def UnixPathBinding.empty : UnixPathBinding := ⟨[], 0, false⟩

/-- The two tables, the bits of `fd_alloc.rs` for these sockets and the next id. -/
structure UdsState where
  sockets : Fin 16 → UnixSocket
  paths : List UnixPathBinding
  taken : Fin 16 → Bool
  nextId : Nat

def udsFdBase : Int := 1000

def unixStreamBuf : Nat := 8192

def unixDgramMax : Nat := 8192

def unixPathMax : Nat := 108

def unixListenBacklog : Nat := 5

def fdToIdx (fd : Int) : Option (Fin 16) :=
  if h : udsFdBase ≤ fd ∧ fd < udsFdBase + 16 then
    some ⟨(fd - udsFdBase).toNat, by have := h.1; have := h.2; omega⟩
  else none

namespace UdsState

def init : UdsState := ⟨fun _ => .empty, List.replicate 32 .empty, fun _ => false, 1⟩

variable (s : UdsState)

def isPath (path : List UInt8) (p : UnixPathBinding) : Bool := p.used && p.path == path

def findPath (path : List UInt8) : Option UnixPathBinding := s.paths.find? (isPath path)

def socketIdxById (id : Nat) : Option (Fin 16) :=
  (List.finRange 16).find? fun i => (s.sockets i).id == id

def findFreeSocket : Option (Fin 16) := s.socketIdxById 0

def usedSocketCount : Nat := (List.finRange 16).countP fun i => (s.sockets i).id != 0

def setSocket (i : Fin 16) (x : UnixSocket) : UdsState :=
  { s with sockets := Function.update s.sockets i x }

@[simp] theorem setSocket_sockets (i j : Fin 16) (x : UnixSocket) :
    (s.setSocket i x).sockets j = if j = i then x else s.sockets j := Function.update_apply ..

def modify (i : Fin 16) (f : UnixSocket → UnixSocket) : UdsState := s.setSocket i (f (s.sockets i))

/-- No call gives a number back with `free_fd`. -/
def allocFd : Option (Fin 16 × UdsState) :=
  ((List.finRange 16).find? fun i => !s.taken i).map fun i =>
    (i, { s with taken := Function.update s.taken i true })

def advanceId : UdsState :=
  { s with nextId := if s.nextId = 2 ^ 32 - 1 then 1 else s.nextId + 1 }

section

variable {α : Type} (s : UdsState) (sockType : UnixSockType) (fd : Int)
  (k : Fin 16 → UnixSocket → UdsState × Except UdsError α)

def withIdx : UdsState × Except UdsError α :=
  match fdToIdx fd with
  | none => (s, .error .badFd)
  | some i => k i (s.sockets i)

def withOpen : UdsState × Except UdsError α :=
  s.withIdx fd fun i x => if x.id = 0 then (s, .error .badFd) else k i x

def withType : UdsState × Except UdsError α :=
  s.withIdx fd fun i x =>
    if x.id = 0 ∨ x.sockType ≠ sockType then (s, .error .invalid) else k i x

end

def udsSend (current : ScmCredentials) (fd : Int) (data : List UInt8) : UdsState × Except UdsError Nat :=
  s.withType .stream fd fun _ x =>
    if x.state ≠ .connected then (s, .error .notFound)
    else
      match x.peer.bind s.socketIdxById with
      | none => (s, .error .notFound)
      | some peerIdx =>
        let peer := s.sockets peerIdx
        if peer.peerClosed then (s, .error .notFound)
        else
          let n := min data.length (unixStreamBuf - peer.streamBuf.length)
          if n = 0 then (s, .error .again)
          else
            (s.setSocket peerIdx { peer with
              streamBuf := attachCreds unixStreamBuf peer.passcred current
                (peer.streamBuf ++ payload current (data.take n)) }, .ok n)

def udsRecvWithCreds (fd : Int) (outLen : Nat) :
    UdsState × Except UdsError (List BufByte × Option ScmCredentials) :=
  s.withType .stream fd fun idx x =>
    if x.streamBuf.length = 0 then
      if x.peerClosed then (s, .error .notFound) else (s, .error .again)
    else
      let (data, cred) := detachCreds x.passcred x.streamBuf
      (s.setSocket idx { x with streamBuf := [] }, .ok (data.take outLen, cred))

def udsRecv (fd : Int) (outLen : Nat) : UdsState × Except UdsError (List BufByte) :=
  s.withType .stream fd fun idx x =>
    if x.state ≠ .connected then (s, .error .invalid)
    else if x.streamBuf.length = 0 then
      if x.peerClosed then (s, .ok []) else (s, .error .again)
    else
      let n := min x.streamBuf.length outLen
      (s.setSocket idx { x with streamBuf := x.streamBuf.drop n }, .ok (x.streamBuf.take n))

/-- A datagram longer than the buffer makes the copy panic: `none`. -/
def udsSendto (current : ScmCredentials) (data destPath : List UInt8) :
    Option (UdsState × Except UdsError Nat) :=
  match s.findPath destPath with
  | none => some (s, .error .connRefused)
  | some binding =>
    let target := s.sockets binding.sockIdx
    if target.sockType ≠ .dgram then some (s, .error .invalid)
    else if unixDgramMax < data.length then none
    else
      some (s.setSocket binding.sockIdx { target with
        dgramBuf := attachCreds unixDgramMax target.passcred current (payload current data)
        dgramPending := true }, .ok data.length)

def udsRecvfromWithCreds (fd : Int) (outLen : Nat) :
    UdsState × Except UdsError (List BufByte × Option ScmCredentials) :=
  s.withType .dgram fd fun idx x =>
    if x.dgramPending = false then (s, .error .again)
    else
      let (data, cred) := detachCreds x.passcred x.dgramBuf
      (s.setSocket idx { x with dgramBuf := [], dgramPending := false }, .ok (data.take outLen, cred))

def udsRecvfrom (fd : Int) (outLen : Nat) : UdsState × Except UdsError (List BufByte) :=
  (s.udsRecvfromWithCreds fd outLen).map id (·.map Prod.fst)

def udsSetsockopt (fd : Int) (enable : Bool) : UdsState × Int :=
  match fdToIdx fd with
  | none => (s, -9)
  | some idx =>
    if (s.sockets idx).id = 0 then (s, -9)
    else (s.modify idx fun x => { x with passcred := enable }, 0)

def udsCreate (sockType : UnixSockType) : UdsState × Except UdsError (Fin 16) :=
  if s.findFreeSocket = none ∨ 16 ≤ s.usedSocketCount then (s, .error .noMem)
  else match s.allocFd with
    | none => (s, .error .noMem)
    | some (i, s) =>
      (s.advanceId.modify i fun x => { UnixSocket.empty with
        id := s.nextId, sockType, passcred := x.passcred }, .ok i)

def udsBind (fd : Int) (path : List UInt8) : UdsState × Except UdsError Unit :=
  if path = [] ∨ unixPathMax < path.length then (s, .error .invalid)
  else s.withOpen fd fun i x =>
    if x.state ≠ .unbound then (s, .error .invalid)
    else if (s.findPath path).isSome then (s, .error .addrInUse)
    else match s.paths.findIdx? (!·.used) with
      | none => (s, .error .noMem)
      | some p =>
        ({ s.modify i fun x => { x with boundPath := path, state := .bound } with
          paths := s.paths.set p ⟨path, i, true⟩ }, .ok ())

def udsListen (fd : Int) : UdsState × Except UdsError Unit :=
  s.withOpen fd fun i x =>
    if x.sockType ≠ .stream ∨ x.state ≠ .bound then (s, .error .invalid)
    else (s.modify i fun x => { x with state := .listening }, .ok ())

def udsAccept (fd : Int) : UdsState × Except UdsError (Fin 16) :=
  match s.allocFd with
  | none => (s, .error .noMem)
  | some (new, s) => s.withOpen fd fun i x =>
    if x.sockType ≠ .stream ∨ x.state ≠ .listening then (s, .error .invalid)
    else match x.pending with
      | [] => (s, .error .again)
      | client :: _ => match s.socketIdxById client with
        | none => (s, .error .noMem)
        | some c =>
          let t := s.advanceId.modify new fun x => { x with
            id := s.nextId, sockType := .stream, state := .connected, peer := some client,
            streamBuf := [], peerClosed := false }
          ((t.modify i fun x => { x with pending := x.pending.tail }).modify c
            fun x => { x with peer := some s.nextId }, .ok new)

def udsConnect (fd : Int) (path : List UInt8) : UdsState × Except UdsError Unit :=
  if path = [] ∨ unixPathMax < path.length then (s, .error .invalid)
  else s.withOpen fd fun i x =>
    if x.state ≠ .unbound ∧ x.state ≠ .bound then (s, .error .invalid)
    else match s.findPath path with
      | none => (s, .error .connRefused)
      | some binding =>
        let t := binding.sockIdx
        let target := s.sockets t
        if target.sockType ≠ x.sockType then (s, .error .invalid)
        else match x.sockType, target.state with
          | .stream, .listening =>
            if unixListenBacklog ≤ target.pending.length then (s, .error .again)
            else ((s.modify t fun y => { y with pending := y.pending ++ [x.id] }).modify i
              fun y => { y with state := .connected, boundPath := [] }, .ok ())
          | .dgram, _ =>
            (((s.modify i fun y => { y with peer := some target.id }).modify t
              fun y => { y with peer := some x.id }).modify i
              fun y => { y with state := .connected, boundPath := [] }, .ok ())
          | _, _ => (s, .error .connRefused)

/-- The ring is read from the slot of the listener as the loop goes. -/
def dropPending (i : Fin 16) (s : UdsState) (k : Nat) : UdsState :=
  match ((s.sockets i).pending[k]?).bind s.socketIdxById with
  | some c => s.setSocket c .empty
  | none => s

def unbind (path : List UInt8) : UdsState :=
  { s with paths := s.paths.modify (s.paths.findIdx (isPath path)) fun _ => .empty }

def udsClose (fd : Int) : UdsState × Except UdsError Unit :=
  s.withOpen fd fun i x =>
    let s := match x.sockType, x.state, x.peer.bind s.socketIdxById with
      | .stream, .connected, some p => s.modify p fun y => { y with peerClosed := true, peer := none }
      | _, _, _ => s
    let s := if x.sockType = .stream ∧ x.state = .listening then
      (List.range x.pending.length).foldl (dropPending i) s else s
    let s := if x.boundPath ≠ [] then s.unbind x.boundPath else s
    (s.setSocket i .empty, .ok ())

def udsUnlink (path : List UInt8) : UdsState × Except UdsError Unit :=
  if path = [] ∨ unixPathMax < path.length then (s, .error .invalid)
  else match s.findPath path with
    | none => (s, .error .notFound)
    | some binding =>
      ((s.unbind path).modify binding.sockIdx fun y =>
        { y with boundPath := [], state := .unbound }, .ok ())

inductive ConnCall
  | create (sockType : UnixSockType)
  | bind (fd : Int) (path : List UInt8)
  | listen (fd : Int)
  | connect (fd : Int) (path : List UInt8)
  | accept (fd : Int)
  | close (fd : Int)
  | unlink (path : List UInt8)

def connStep : ConnCall → UdsState
  | .create sockType => (s.udsCreate sockType).1
  | .bind fd path => (s.udsBind fd path).1
  | .listen fd => (s.udsListen fd).1
  | .connect fd path => (s.udsConnect fd path).1
  | .accept fd => (s.udsAccept fd).1
  | .close fd => (s.udsClose fd).1
  | .unlink path => (s.udsUnlink path).1

def takesFd : ConnCall → Bool
  | .create _ => true
  | .accept _ => true
  | _ => false

variable {s} {t : UdsState} {fd : Int} {i : Fin 16} {n : Nat} {inv : UdsState → Prop}

theorem withIdx_inv {α : Type} {k : Fin 16 → UnixSocket → UdsState × Except UdsError α} (h : inv s)
    (hk : ∀ i, fdToIdx fd = some i → inv (k i (s.sockets i)).1) : inv (s.withIdx fd k).1 := by
  rw [withIdx]
  cases hfd : fdToIdx fd with
  | none => exact h
  | some i => exact hk i hfd

theorem withOpen_inv {α : Type} {k : Fin 16 → UnixSocket → UdsState × Except UdsError α} (h : inv s)
    (hk : ∀ i, (s.sockets i).id ≠ 0 → inv (k i (s.sockets i)).1) : inv (s.withOpen fd k).1 := by
  refine withIdx_inv h fun i _ => ?_
  split_ifs with hid
  · exact h
  · exact hk i hid

theorem withType_inv {α : Type} {sockType : UnixSockType}
    {k : Fin 16 → UnixSocket → UdsState × Except UdsError α} (h : inv s)
    (hk : ∀ i, fdToIdx fd = some i → inv (k i (s.sockets i)).1) :
    inv (s.withType sockType fd k).1 := by
  refine withIdx_inv h fun i hi => ?_
  split_ifs
  · exact h
  · exact hk i hi

theorem withType_ok {α : Type} {sockType : UnixSockType} {r : α}
    {k : Fin 16 → UnixSocket → UdsState × Except UdsError α} (h : (s.withType sockType fd k).2 = .ok r) :
    ∃ i, fdToIdx fd = some i ∧ (k i (s.sockets i)).2 = .ok r := by
  rw [withType, withIdx] at h
  split at h
  · cases h
  · next i hi =>
    split_ifs at h
    exact ⟨i, hi, h⟩

/-- Numbers are neither handed out nor given back, and no slot is filled. -/
structure Within (s t : UdsState) : Prop where
  taken : t.taken = s.taken
  used : ∀ i, (t.sockets i).id ≠ 0 → (s.sockets i).id ≠ 0

theorem Within.refl (s : UdsState) : Within s s := ⟨rfl, fun _ h => h⟩

theorem Within.setSocket (h : Within s t) {x : UnixSocket} (hx : x.id ≠ 0 → (t.sockets i).id ≠ 0) :
    Within s (t.setSocket i x) := by
  refine ⟨h.taken, fun j hj => h.used j ?_⟩
  rw [setSocket_sockets] at hj
  split_ifs at hj with hji
  · exact hji ▸ hx hj
  · exact hj

theorem Within.modify (h : Within s t) {f : UnixSocket → UnixSocket} (hf : ∀ x, (f x).id = x.id) :
    Within s (t.modify i f) := h.setSocket fun hx => hf (t.sockets i) ▸ hx

theorem Within.bind (fd : Int) (path : List UInt8) : Within s (s.udsBind fd path).1 := by
  rw [udsBind]
  split
  · exact .refl s
  · refine withOpen_inv (.refl s) fun i _ => ?_
    split_ifs
    · exact .refl s
    · exact .refl s
    · split
      · exact .refl s
      · have hkept : Within s (s.modify i fun x => { x with boundPath := path, state := .bound }) :=
          .modify (.refl s) fun _ => rfl
        exact ⟨hkept.taken, hkept.used⟩

theorem Within.listen (fd : Int) : Within s (s.udsListen fd).1 := by
  refine withOpen_inv (.refl s) fun i _ => ?_
  split_ifs
  · exact .refl s
  · dsimp only
    exact .modify (.refl s) fun _ => rfl

theorem Within.connect (fd : Int) (path : List UInt8) : Within s (s.udsConnect fd path).1 := by
  rw [udsConnect]
  split
  · exact .refl s
  · refine withOpen_inv (.refl s) fun i _ => ?_
    split
    · exact .refl s
    · split
      · exact .refl s
      · dsimp only
        split
        · exact .refl s
        · split
          · split
            · exact .refl s
            · dsimp only
              refine .modify (.modify (.refl s) ?_) ?_ <;> exact fun _ => rfl
          · dsimp only
            refine .modify (.modify (.modify (.refl s) ?_) ?_) ?_ <;> exact fun _ => rfl
          · exact .refl s

theorem Within.close (fd : Int) : Within s (s.udsClose fd).1 := by
  refine withOpen_inv (.refl s) fun i _ => .setSocket ?_ fun hx => absurd rfl hx
  have hunbind : ∀ {t} path, Within s t → Within s (t.unbind path) := fun _ h => ⟨h.taken, h.used⟩
  have hdrop : ∀ t k, Within s t → Within s (dropPending i t k) := by
    intro t k h
    rw [dropPending]
    split
    · exact h.setSocket fun hx => absurd rfl hx
    · exact h
  have hpeer : Within s (match (s.sockets i).sockType, (s.sockets i).state,
        (s.sockets i).peer.bind s.socketIdxById with
      | .stream, .connected, some p => s.modify p fun y => { y with peerClosed := true, peer := none }
      | _, _, _ => s) := by
    split
    · exact .modify (.refl s) fun _ => rfl
    · exact .refl s
  split_ifs
  · exact hunbind _ (run_invariant hdrop hpeer _)
  · exact hunbind _ hpeer
  · exact run_invariant hdrop hpeer _
  · exact hpeer

theorem Within.unlink (path : List UInt8) : Within s (s.udsUnlink path).1 := by
  rw [udsUnlink]
  split
  · exact .refl s
  · split
    · exact .refl s
    · have hunbound : Within s (s.unbind path) := ⟨rfl, fun _ h => h⟩
      dsimp only
      exact hunbound.modify fun _ => rfl

/-- After `n` calls that ask for a number, `n` are taken or all of them, and only those are used. -/
structure Numbered (n : Nat) (s : UdsState) : Prop where
  taken : (Finset.univ.filter fun i => s.taken i = true).card = min 16 n
  used : ∀ i, (s.sockets i).id ≠ 0 → s.taken i = true

theorem Numbered.within (h : Numbered n s) (hw : Within s t) : Numbered n t := by
  constructor
  · rw [hw.taken, h.taken]
  · intro i hi
    rw [hw.taken]
    exact h.used i (hw.used i hi)

theorem allocFd_none_iff : s.allocFd = none ↔ ∀ i, s.taken i = true := by
  simp [allocFd]

theorem allocFd_some (h : s.allocFd = some (i, t)) :
    s.taken i = false ∧ t = { s with taken := Function.update s.taken i true } := by
  obtain ⟨j, hj, heq⟩ := Option.map_eq_some_iff.mp h
  cases heq
  exact ⟨by simpa using List.find?_some hj, rfl⟩

theorem Numbered.full (h : Numbered n s) (hnone : s.allocFd = none) : Numbered (n + 1) s := by
  have hcard : (Finset.univ.filter fun i => s.taken i = true).card = 16 := by
    rw [Finset.filter_true_of_mem fun i _ => allocFd_none_iff.mp hnone i, Finset.card_fin]
  have htaken := h.taken
  exact ⟨by omega, h.used⟩

theorem Numbered.alloc (h : Numbered n s) (ha : s.allocFd = some (i, t)) : Numbered (n + 1) t := by
  obtain ⟨hfree, rfl⟩ := allocFd_some ha
  have hset : (Finset.univ.filter fun j => Function.update s.taken i true j = true) =
      insert i (Finset.univ.filter fun j => s.taken j = true) := by
    ext j
    simp [Function.update_apply]
  have hcard : (insert i (Finset.univ.filter fun j => s.taken j = true)).card = min 16 n + 1 := by
    rw [Finset.card_insert_of_notMem (by simp [hfree]), h.taken]
  have hle := Finset.card_le_univ (insert i (Finset.univ.filter fun j => s.taken j = true))
  rw [Fintype.card_fin] at hle
  constructor
  · rw [hset]
    omega
  · intro j hj
    simp [Function.update_apply, h.used j hj]

/-- The slot of the number that was just handed out may be filled. -/
theorem Numbered.fill (h : Numbered n t) (ha : s.allocFd = some (i, t)) (f : UnixSocket → UnixSocket) :
    Numbered n (t.advanceId.modify i f) := by
  refine ⟨h.taken, fun j hj => ?_⟩
  rw [modify, setSocket_sockets] at hj
  split_ifs at hj with hji
  · obtain ⟨-, rfl⟩ := allocFd_some ha
    exact hji ▸ Function.update_self ..
  · exact h.used j hj

/-- While a number is left there is a free slot for it. -/
theorem Numbered.room (h : Numbered n s) (ha : s.allocFd = some (i, t)) :
    ¬(s.findFreeSocket = none ∨ 16 ≤ s.usedSocketCount) := by
  have hfree : (s.sockets i).id = 0 := by
    by_contra hid
    exact absurd (h.used i hid) (by simp [(allocFd_some ha).1])
  rintro (hnone | hfull)
  · exact List.find?_eq_none.mp hnone i (List.mem_finRange i) (by simpa using hfree)
  · have hall : ∀ j ∈ List.finRange 16, ((s.sockets j).id != 0) = true := by
      refine List.countP_eq_length.mp (Nat.le_antisymm List.countP_le_length ?_)
      rwa [List.length_finRange]
    simpa [hfree] using hall i (List.mem_finRange i)

theorem Numbered.create (h : Numbered n s) (sockType : UnixSockType) :
    Numbered (n + 1) (s.udsCreate sockType).1 := by
  rw [udsCreate]
  cases ha : s.allocFd with
  | none => split_ifs <;> exact h.full ha
  | some r =>
    obtain ⟨new, t⟩ := r
    rw [if_neg (h.room ha)]
    dsimp only
    exact (h.alloc ha).fill ha _

theorem Numbered.accept (h : Numbered n s) (fd : Int) : Numbered (n + 1) (s.udsAccept fd).1 := by
  rw [udsAccept]
  cases ha : s.allocFd with
  | none => exact h.full ha
  | some r =>
    obtain ⟨new, t⟩ := r
    have hnext := h.alloc ha
    refine withOpen_inv hnext fun i _ => ?_
    split
    · exact hnext
    · split
      · exact hnext
      · split
        · exact hnext
        · dsimp only
          refine (hnext.fill ha _).within (.modify (.modify (.refl _) ?_) ?_) <;> exact fun _ => rfl

theorem Numbered.step (h : Numbered n s) (c : ConnCall) :
    Numbered (n + if takesFd c then 1 else 0) (s.connStep c) := by
  cases c with
  | create sockType => exact h.create sockType
  | accept fd => exact h.accept fd
  | bind fd path => exact h.within (.bind fd path)
  | listen fd => exact h.within (.listen fd)
  | connect fd path => exact h.within (.connect fd path)
  | close fd => exact h.within (.close fd)
  | unlink path => exact h.within (.unlink path)

theorem Numbered.run (h : Numbered n s) (calls : List ConnCall) :
    Numbered (n + calls.countP takesFd) (run connStep s calls) := by
  induction calls generalizing n s with
  | nil => exact h
  | cons c calls ih =>
    rw [List.countP_cons, Nat.add_comm (calls.countP takesFd), ← Nat.add_assoc]
    exact ih (h.step c)

theorem Numbered.init : Numbered 0 init := ⟨by simp [UdsState.init], fun _ h => absurd rfl h⟩

theorem Numbered.create_ok_iff (h : Numbered n s) (sockType : UnixSockType) :
    (∃ i, (s.udsCreate sockType).2 = .ok i) ↔ n < 16 := by
  have hcard := h.taken
  rw [udsCreate]
  cases ha : s.allocFd with
  | none =>
    rw [Finset.filter_true_of_mem fun i _ => allocFd_none_iff.mp ha i, Finset.card_fin] at hcard
    have hn : ¬n < 16 := by omega
    split_ifs <;> simp [hn]
  | some r =>
    have hlt := Finset.card_lt_univ_of_notMem (s := Finset.univ.filter fun i => s.taken i = true)
      (x := r.1) (by simp [(allocFd_some ha).1])
    rw [Fintype.card_fin] at hlt
    have hn : n < 16 := by omega
    simp [h.room ha, hn]

/-- Whatever calls come between, `uds_create` succeeds if and only if fewer than sixteen
`uds_create` and `uds_accept` calls were made since boot: a number is never given back. -/
theorem create_succeeds_iff (calls : List ConnCall) (sockType : UnixSockType) :
    (∃ i, ((run connStep init calls).udsCreate sockType).2 = .ok i) ↔ calls.countP takesFd < 16 := by
  have h := Numbered.init.run calls
  rw [Nat.zero_add] at h
  exact h.create_ok_iff sockType

def createAndClose : List ConnCall :=
  (List.range 16).flatMap fun i => [.create .stream, .close (1000 + i)]

/-- Sixteen sockets created and closed in turn: none is open, and none can be created. -/
theorem create_fails_with_none_open : ¬((run connStep init createAndClose).usedSocketCount < 16 →
    ∃ i, ((run connStep init createAndClose).udsCreate .stream).2 = .ok i) := by
  decide +kernel

end UdsState

end AntX.Net
