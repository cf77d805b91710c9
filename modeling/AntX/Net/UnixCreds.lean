import AntX.Net.Unix

/-! When received credentials are those of a sender: nothing in the buffer tells a record from
payload. -/

namespace AntX.Net

open Lib List

variable {c current : ScmCredentials} {passcred : Bool} {buf data : List BufByte}

@[simp] theorem record_length (c : ScmCredentials) : (record c).length = credSize := by
  rw [record, length_map, toBytes_length]

theorem detachCreds_record (data : List BufByte) (c : ScmCredentials) :
    detachCreds true (data ++ record c) = (data, some c) := by
  have hlen : (data ++ record c).length - credSize = data.length := by
    simp
  have hval : (record c).map (·.val) = c.toBytes := by
    rw [record, map_map]
    exact map_id' _
  rw [detachCreds, if_pos (by simp), hlen, take_left, drop_left, hval, ofBytes_toBytes]

variable {d : List BufByte} {outLen : Nat}

theorem detachCreds_some (h : detachCreds passcred buf = (d, some c)) :
    passcred = true ∧ credSize ≤ buf.length := by
  rw [detachCreds] at h
  by_cases hc : credSize ≤ buf.length ∧ passcred = true
  · exact ⟨hc.2, hc.1⟩
  · rw [if_neg hc] at h
    cases h

theorem attachCreds_of_fits {limit : Nat} (hp : passcred = true) (hfit : buf.length + credSize ≤ limit) :
    attachCreds limit passcred current buf = buf ++ record current := if_pos ⟨hp, hfit⟩

/-- The bytes end with a byte that a process sent and the record of this process. -/
def EndsGenuine (buf : List BufByte) : Prop :=
  ∃ pre b c, buf = pre ++ b :: record c ∧ b.origin = .payload c

theorem endsGenuine_send {d : List UInt8} (hd : d ≠ []) :
    EndsGenuine (buf ++ payload current d ++ record current) := by
  obtain ⟨d', x, rfl⟩ : ∃ d' x, d = d' ++ [x] :=
    ⟨d.dropLast, d.getLast hd, (dropLast_concat_getLast hd).symm⟩
  refine ⟨buf ++ payload current d', ⟨x, .payload current⟩, current, ?_, rfl⟩
  simp [payload]

theorem endsGenuine_drop {n : Nat} (h : EndsGenuine buf) (hn : buf.length ≠ n + credSize) :
    (buf.drop n).length < credSize ∨ EndsGenuine (buf.drop n) := by
  obtain ⟨pre, b, c, rfl, hb⟩ := h
  by_cases hle : n ≤ pre.length
  · exact .inr ⟨pre.drop n, b, c, drop_append_of_le_length hle, hb⟩
  · have hc : credSize = 12 := rfl
    simp only [length_drop, length_append, length_cons, record_length] at hn ⊢
    omega

/-- What is consumed ends with the record of a process that sent some of it. -/
def GenuineStream (consumed : List BufByte) (c : ScmCredentials) : Prop :=
  (∃ data, consumed = data ++ record c) ∧ ∃ b ∈ consumed, b.origin = .payload c

/-- What is consumed is a datagram of a process and the record of this process. -/
def GenuineDgram (consumed : List BufByte) (c : ScmCredentials) : Prop :=
  ∃ data, consumed = payload c data ++ record c

theorem genuineStream_of_detach (h : buf.length < credSize ∨ EndsGenuine buf)
    (hd : detachCreds passcred buf = (d, some c)) : GenuineStream buf c := by
  obtain ⟨rfl, hlen⟩ := detachCreds_some hd
  obtain ⟨pre, b, c', rfl, hb⟩ := h.resolve_left (Nat.not_lt.2 hlen)
  have hsplit : pre ++ b :: record c' = (pre ++ [b]) ++ record c' := by
    simp
  rw [hsplit, detachCreds_record] at hd
  obtain rfl := Option.some.inj (Prod.mk.inj hd).2
  exact ⟨⟨pre ++ [b], hsplit⟩, b, by simp, hb⟩

theorem genuineDgram_of_detach (h : buf.length < credSize ∨ ∃ c, GenuineDgram buf c)
    (hd : detachCreds passcred buf = (d, some c)) : GenuineDgram buf c := by
  obtain ⟨rfl, hlen⟩ := detachCreds_some hd
  obtain ⟨c', data, rfl⟩ := h.resolve_left (Nat.not_lt.2 hlen)
  rw [detachCreds_record] at hd
  obtain rfl := Option.some.inj (Prod.mk.inj hd).2
  exact ⟨data, rfl⟩

/-- What a socket that wants credentials has in its buffers is too short for a record or ends
with a genuine one. -/
structure Trusted (x : UnixSocket) : Prop where
  stream : x.passcred = true → x.streamBuf.length < credSize ∨ EndsGenuine x.streamBuf
  dgram : x.passcred = true → x.dgramPending = true →
    x.dgramBuf.length < credSize ∨ ∃ c, GenuineDgram x.dgramBuf c

namespace UdsState

variable {s : UdsState} {fd : Int}

/-- This holds of every socket of the table. -/
def AllTrusted (s : UdsState) : Prop := ∀ j, Trusted (s.sockets j)

theorem AllTrusted.setSocket {i : Fin 16} {x : UnixSocket} (h : s.AllTrusted) (hx : Trusted x) :
    (s.setSocket i x).AllTrusted := by
  intro j
  rw [setSocket_sockets]
  split_ifs
  · exact hx
  · exact h j

inductive Call where
  | send (current : ScmCredentials) (fd : Int) (data : List UInt8)
  | sendto (current : ScmCredentials) (data destPath : List UInt8)
  | setsockopt (fd : Int) (enable : Bool)
  | recv (fd : Int) (outLen : Nat)
  | recvWithCreds (fd : Int) (outLen : Nat)
  | recvfrom (fd : Int) (outLen : Nat)
  | recvfromWithCreds (fd : Int) (outLen : Nat)

def step (s : UdsState) : Call → UdsState
  | .send current fd data => (s.udsSend current fd data).1
  | .sendto current data destPath =>
    match s.udsSendto current data destPath with
    | some (s', _) => s'
    | none => s
  | .setsockopt fd enable => (s.udsSetsockopt fd enable).1
  | .recv fd outLen => (s.udsRecv fd outLen).1
  | .recvWithCreds fd outLen => (s.udsRecvWithCreds fd outLen).1
  | .recvfrom fd outLen => (s.udsRecvfrom fd outLen).1
  | .recvfromWithCreds fd outLen => (s.udsRecvfromWithCreds fd outLen).1

def peerOf (s : UdsState) (fd : Int) : Option (Fin 16) :=
  (fdToIdx fd).bind fun idx => (s.sockets idx).peer.bind s.socketIdxById

def canEnable (x : UnixSocket) : Bool :=
  x.passcred || decide (x.streamBuf.length < credSize) &&
    (!x.dgramPending || decide (x.dgramBuf.length < credSize))

/-- A payload leaves room for the record that the receiver wants; credentials are turned on when
nothing that could be taken for a record is waiting; a receive without credentials does not
leave a record alone. -/
def admissible (s : UdsState) : Call → Bool
  | .send _ fd data => (s.peerOf fd).all fun i => !(s.sockets i).passcred ||
      decide ((s.sockets i).streamBuf.length + data.length + credSize ≤ unixStreamBuf)
  | .sendto _ data destPath => decide (data.length ≤ unixDgramMax) &&
      (s.findPath destPath).all fun b => !(s.sockets b.sockIdx).passcred ||
        decide (data.length + credSize ≤ unixDgramMax)
  | .setsockopt fd enable => !enable || (fdToIdx fd).all fun i => canEnable (s.sockets i)
  | .recv fd outLen => (fdToIdx fd).all fun i => !(s.sockets i).passcred ||
      (s.sockets i).streamBuf.length != outLen + credSize
  | .recvWithCreds _ _ => true
  | .recvfrom _ _ => true
  | .recvfromWithCreds _ _ => true

section

variable (h : s.AllTrusted)

include h

theorem AllTrusted.send {data : List UInt8} (hok : s.admissible (.send current fd data) = true) :
    (s.udsSend current fd data).1.AllTrusted := by
  refine withType_inv h fun idx hfd => ?_
  split
  · exact h
  · cases hp : (s.sockets idx).peer.bind s.socketIdxById with
    | none => exact h
    | some peerIdx =>
      have hroom : (s.sockets peerIdx).passcred = true →
          (s.sockets peerIdx).streamBuf.length + data.length + credSize ≤ unixStreamBuf := by
        simpa [admissible, peerOf, hfd, hp, imp_iff_not_or] using hok
      dsimp only
      split_ifs with hclosed hn
      · exact h
      · exact h
      · refine h.setSocket ⟨fun hpass => .inr ?_, (h peerIdx).dgram⟩
        have hfits := hroom hpass
        have hpos : data.take (min data.length
            (unixStreamBuf - (s.sockets peerIdx).streamBuf.length)) ≠ [] := by
          intro hnil
          have hlen := congrArg List.length hnil
          simp only [length_take, length_nil] at hlen
          omega
        rw [attachCreds_of_fits hpass]
        · exact endsGenuine_send hpos
        · simp only [payload, length_append, length_map, length_take]
          omega

theorem AllTrusted.sendto {data destPath : List UInt8}
    (hok : s.admissible (.sendto current data destPath) = true) :
    (s.step (.sendto current data destPath)).AllTrusted := by
  rw [step, udsSendto]
  cases hb : s.findPath destPath with
  | none => exact h
  | some binding =>
    have hroom : data.length ≤ unixDgramMax ∧ ((s.sockets binding.sockIdx).passcred = true →
        data.length + credSize ≤ unixDgramMax) := by
      simpa [admissible, hb, imp_iff_not_or] using hok
    dsimp only
    by_cases ht : (s.sockets binding.sockIdx).sockType ≠ .dgram
    · rw [if_pos ht]
      exact h
    · rw [if_neg ht, if_neg (Nat.not_lt.2 hroom.1)]
      refine h.setSocket ⟨(h binding.sockIdx).stream, fun hpass _ => .inr ⟨current, data, ?_⟩⟩
      exact attachCreds_of_fits hpass (by simpa [payload] using hroom.2 hpass)

theorem AllTrusted.setsockopt {enable : Bool} (hok : s.admissible (.setsockopt fd enable) = true) :
    (s.udsSetsockopt fd enable).1.AllTrusted := by
  rw [udsSetsockopt]
  cases hfd : fdToIdx fd with
  | none => exact h
  | some idx =>
    dsimp only
    split_ifs
    · exact h
    · refine h.setSocket ?_
      cases enable with
      | false => exact ⟨fun hp => absurd hp Bool.false_ne_true, fun hp => absurd hp Bool.false_ne_true⟩
      | true =>
        have hcan : canEnable (s.sockets idx) = true := by
          simpa [admissible, hfd] using hok
        by_cases hpass : (s.sockets idx).passcred = true
        · exact ⟨fun _ => (h idx).stream hpass, fun _ => (h idx).dgram hpass⟩
        · have hshort : (s.sockets idx).streamBuf.length < credSize ∧ ((s.sockets idx).dgramPending = true →
                (s.sockets idx).dgramBuf.length < credSize) := by
            simpa [canEnable, hpass, imp_iff_not_or] using hcan
          exact ⟨fun _ => .inl hshort.1, fun _ hpend => .inl (hshort.2 hpend)⟩

theorem AllTrusted.recv (hok : s.admissible (.recv fd outLen) = true) :
    (s.udsRecv fd outLen).1.AllTrusted := by
  refine withType_inv h fun idx hfd => ?_
  split_ifs
  · exact h
  · exact h
  · exact h
  · refine h.setSocket ⟨fun hpass => ?_, (h idx).dgram⟩
    have hne : (s.sockets idx).streamBuf.length ≠ outLen + credSize := by
      have hor : (s.sockets idx).passcred = false ∨ (s.sockets idx).streamBuf.length ≠ outLen + credSize := by
        simpa [admissible, hfd] using hok
      exact hor.resolve_left (by simpa using hpass)
    rcases (h idx).stream hpass with hshort | hgen
    · rw [length_drop]
      omega
    · refine endsGenuine_drop hgen ?_
      have hc : credSize = 12 := rfl
      omega

theorem AllTrusted.recvWithCreds : (s.udsRecvWithCreds fd outLen).1.AllTrusted := by
  refine withType_inv h fun idx _ => ?_
  split_ifs
  · exact h
  · exact h
  · exact h.setSocket ⟨fun _ => .inl (by simp [credSize]), (h idx).dgram⟩

theorem AllTrusted.recvfromWithCreds : (s.udsRecvfromWithCreds fd outLen).1.AllTrusted := by
  refine withType_inv h fun idx _ => ?_
  split_ifs
  · exact h
  · exact h.setSocket ⟨(h idx).stream, fun _ hp => absurd hp Bool.false_ne_true⟩

theorem AllTrusted.step {call : Call} (hok : s.admissible call = true) : (s.step call).AllTrusted := by
  cases call with
  | send current fd data => exact h.send hok
  | sendto current data destPath => exact h.sendto hok
  | setsockopt fd enable => exact h.setsockopt hok
  | recv fd outLen => exact h.recv hok
  | recvWithCreds fd outLen => exact h.recvWithCreds
  | recvfrom fd outLen | recvfromWithCreds fd outLen => exact h.recvfromWithCreds

end

theorem udsRecvWithCreds_some (h : (s.udsRecvWithCreds fd outLen).2 = .ok (d, some c)) :
    ∃ i d', fdToIdx fd = some i ∧
      detachCreds (s.sockets i).passcred (s.sockets i).streamBuf = (d', some c) := by
  obtain ⟨idx, hfd, h⟩ := withType_ok h
  split_ifs at h
  have hcred := (Prod.mk.inj (Except.ok.inj h)).2
  exact ⟨idx, _, hfd, Prod.ext rfl hcred⟩

theorem udsRecvfromWithCreds_some (h : (s.udsRecvfromWithCreds fd outLen).2 = .ok (d, some c)) :
    ∃ i d', fdToIdx fd = some i ∧ (s.sockets i).dgramPending = true ∧
      detachCreds (s.sockets i).passcred (s.sockets i).dgramBuf = (d', some c) := by
  obtain ⟨idx, hfd, h⟩ := withType_ok h
  split_ifs at h with hpend
  have hcred := (Prod.mk.inj (Except.ok.inj h)).2
  exact ⟨idx, _, hfd, by simpa using hpend, Prod.ext rfl hcred⟩

def Quiet (s : UdsState) : Prop :=
  ∀ i, (s.sockets i).streamBuf = [] ∧ (s.sockets i).dgramPending = false

theorem allTrusted_run {calls : List Call} (h₀ : Quiet s)
    (hg : Guarded step (fun s call => s.admissible call = true) s calls) :
    (run step s calls).AllTrusted := by
  refine hg.run_invariant (fun j => ⟨fun _ => .inl ?_, fun _ hp => ?_⟩) fun s call hs hok => hs.step hok
  · rw [(h₀ j).1]
    decide
  · rw [(h₀ j).2] at hp
    cases hp

/-- After admissible calls, the credentials that a receive returns are those that the kernel wrote
for a process which sent some of what is consumed. -/
theorem received_credentials_genuine {calls : List Call} (h₀ : Quiet s)
    (hg : Guarded step (fun s call => s.admissible call = true) s calls) {fd : Int} {outLen : Nat}
    {d : List BufByte} {c : ScmCredentials} :
    (((run step s calls).udsRecvWithCreds fd outLen).2 = .ok (d, some c) →
      ∃ i, fdToIdx fd = some i ∧ GenuineStream ((run step s calls).sockets i).streamBuf c) ∧
    (((run step s calls).udsRecvfromWithCreds fd outLen).2 = .ok (d, some c) →
      ∃ i, fdToIdx fd = some i ∧ GenuineDgram ((run step s calls).sockets i).dgramBuf c) := by
  have htrust := allTrusted_run h₀ hg
  constructor
  · intro hr
    obtain ⟨i, d', hfd, hd⟩ := udsRecvWithCreds_some hr
    have hpass := (detachCreds_some hd).1
    exact ⟨i, hfd, genuineStream_of_detach ((htrust i).stream hpass) hd⟩
  · intro hr
    obtain ⟨i, d', hfd, hpend, hd⟩ := udsRecvfromWithCreds_some hr
    have hpass := (detachCreds_some hd).1
    exact ⟨i, hfd, genuineDgram_of_detach ((htrust i).dgram hpass hpend) hd⟩

def connectedPair : UdsState :=
  { sockets := fun i =>
      { id := if i.val = 0 then 1 else if i.val = 1 then 2 else 0
        sockType := .stream
        state := if i.val < 2 then .connected else .unbound
        boundPath := []
        pending := []
        peer := if i.val = 0 then some 2 else if i.val = 1 then some 1 else none
        streamBuf := []
        peerClosed := false
        dgramBuf := []
        dgramPending := false
        passcred := false }
    paths := []
    taken := fun i => i.val < 2
    nextId := 3 }

def plainUser : ScmCredentials := { pid := 7, uid := 1000, gid := 1000 }

def superuser : ScmCredentials := { pid := 1, uid := 0, gid := 0 }

def askFirst : List Call := [.setsockopt 1001 true, .send plainUser 1000 [104, 105]]

theorem received_credentials_genuine_askFirst :
    ((run step connectedPair askFirst).udsRecvWithCreds 1001 64).2 =
        .ok (payload plainUser [104, 105], some plainUser) ∧
      ∃ i, fdToIdx 1001 = some i ∧
        GenuineStream ((run step connectedPair askFirst).sockets i).streamBuf plainUser := by
  have hr : ((run step connectedPair askFirst).udsRecvWithCreds 1001 64).2 =
      .ok (payload plainUser [104, 105], some plainUser) := rfl
  have hg : Guarded step (fun s call => s.admissible call = true) connectedPair askFirst := by
    decide +kernel
  exact ⟨hr, (received_credentials_genuine (fun _ => ⟨rfl, rfl⟩) hg).1 hr⟩

def askLate : List Call := [.send plainUser 1000 superuser.toBytes, .setsockopt 1001 true]

theorem forged_credentials_received :
    ((run step connectedPair askLate).udsRecvWithCreds 1001 64).2 = .ok ([], some superuser) ∧
      ((run step connectedPair askLate).sockets 1).streamBuf = payload plainUser superuser.toBytes ∧
      ¬ GenuineStream ((run step connectedPair askLate).sockets 1).streamBuf superuser := by
  have hbuf : ((run step connectedPair askLate).sockets 1).streamBuf =
      payload plainUser superuser.toBytes := rfl
  refine ⟨rfl, hbuf, ?_⟩
  rintro ⟨-, b, hb, horigin⟩
  obtain ⟨x, -, rfl⟩ := mem_map.1 hb
  cases horigin

end UdsState

end AntX.Net
