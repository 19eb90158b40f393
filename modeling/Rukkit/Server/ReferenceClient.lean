import Rukkit.Protocol.Pipe
import Rukkit.Server.Admission

/-!
# The reference client

The client the server has to agree with, reduced to what it goes by: the state it is in and
the compression setting it uses.  It changes the one by what it sends and the other by what
it reads.
-/

namespace Rukkit.Protocol

/-- The state a client enters when it sends an intention. -/
def NextState.entered : NextState → State
  | .status => .status
  | .login | .transfer => .login

end Rukkit.Protocol

namespace Rukkit.Server

open Rukkit.Lib Rukkit.Protocol

structure Reference where
  state : State
  helloSent : Bool
  finishedRead : Bool
  compression : Option Nat
deriving DecidableEq

/-- A packet from the server on its way, with the setting it was framed under. -/
structure Meant where
  compression : Option Nat
  packet : Clientbound

def Meant.framed (x : Meant) : Framed := ⟨x.compression, x.packet.encode⟩

namespace Reference

def new : Reference where
  state := .handshaking
  helloSent := false
  finishedRead := false
  compression := none

/-- The state after sending a packet. -/
def entered (state : State) (packet : Bytes) : State :=
  match state with
  | .handshaking =>
      match expectPacket Intention .handshaking packet with
      | .ok intention => intention.nextState.entered
      | .error _ => .handshaking
  | .login =>
      if (expectPacket LoginAcknowledged .login packet).isOk then .configuration else .login
  | state => state

def sendsHello (state : State) (packet : Bytes) : Bool :=
  state == .login && (expectPacket Hello .login packet).isOk

/-- After sending a packet. -/
def sends (c : Reference) (packet : Bytes) : Reference :=
  { c with
    state := entered c.state packet
    helloSent := c.helloSent || sendsHello c.state packet }

/-- The threshold in a packet, if it is a `SetCompression`. -/
def newThreshold (state : State) (packet : Bytes) : Option Nat :=
  match state, splitId packet with
  | .login, .ok (id, body) =>
      if id = ClientboundPacket.id SetCompression then
        match readVarint body with
        | .ok (threshold, _) => some threshold.toNatClampNeg
        | .error _ => none
      else none
  | _, _ => none

def readsFinished (state : State) (packet : Bytes) : Bool :=
  match state, splitId packet with
  | .login, .ok (id, _) => id == ClientboundPacket.id LoginFinished
  | _, _ => false

/-- After reading a packet. -/
def reads (c : Reference) (packet : Bytes) : Reference :=
  { c with
    finishedRead := c.finishedRead || readsFinished c.state packet
    compression := (newThreshold c.state packet).or c.compression }

/-- It sends nothing between `Hello` and `LoginFinished`. -/
def Waits (c : Reference) (_ : Bytes) : Prop := c.helloSent = true → c.finishedRead = true

/-- And it acknowledges the login only after `LoginFinished`. -/
structure Acknowledges (c : Reference) (packet : Bytes) : Prop where
  waits : c.Waits packet
  finished : c.state = .login → (expectPacket LoginAcknowledged .login packet).isOk = true →
    c.finishedRead = true

def sendAll (c : Reference) (queue : List Framed) : Reference :=
  queue.foldl (fun c x => c.sends x.packet) c

def readAll (c : Reference) (queue : List Meant) : Reference :=
  queue.foldl (fun c x => c.reads x.packet.encode) c

/-- The client can read the packets: it uses their settings and is in their states. -/
def Receives : Reference → List Meant → Prop
  | _, [] => True
  | c, x :: queue =>
      x.compression = c.compression ∧ x.packet.state = c.state ∧
      (x.packet.state = .login → c.finishedRead = false) ∧
      Receives (c.reads x.packet.encode) queue

/-- The packets were sent one after the other by a client that acknowledges in order. -/
def Polite : Reference → List Framed → Prop
  | _, [] => True
  | c, x :: queue => c.Acknowledges x.packet ∧ Polite (c.sends x.packet) queue

section Lemmas

variable {c : Reference} {packet : Bytes} {x : Framed} {queue : List Framed}

/-- A client in a state of its own leaves it only by an acknowledgement. -/
theorem sends_state (h : c.Acknowledges packet) (hstate : c.state ≠ .handshaking)
    (hlogin : c.state = .login → c.finishedRead = false) :
    (c.sends packet).state = c.state := by
  change entered c.state packet = c.state
  unfold entered
  split
  · rename_i hin
    exact absurd hin hstate
  · rename_i hin
    split
    · rename_i hack
      rw [h.finished hin hack] at hlogin
      cases hlogin hin
    · exact hin.symm
  · rfl

/-- Sending and reading commute while the state stays. -/
theorem sends_reads (q : Bytes) (h : (c.sends packet).state = c.state) :
    (c.sends packet).reads q = (c.reads q).sends packet := by
  change entered c.state packet = c.state at h
  simp only [sends, reads, h]

theorem waits_reads (q : Bytes) (h : c.Waits packet) : (c.reads q).Waits packet := by
  intro hhello
  change (c.finishedRead || readsFinished c.state q) = true
  rw [h hhello, Bool.true_or]

theorem Acknowledges.reads (q : Bytes) (h : c.Acknowledges packet) :
    (c.reads q).Acknowledges packet where
  waits := waits_reads q h.waits
  finished := by
    intro hstate hack
    change (c.finishedRead || readsFinished c.state q) = true
    rw [h.finished hstate hack, Bool.true_or]

theorem Acknowledges.readAll (queue : List Meant) : ∀ {c : Reference}, c.Acknowledges packet →
    (c.readAll queue).Acknowledges packet := by
  induction queue with
  | nil => exact id
  | cons x queue ih => exact fun h => ih (h.reads x.packet.encode)

theorem sendAll_compression (queue : List Framed) :
    ∀ c : Reference, (c.sendAll queue).compression = c.compression := by
  induction queue with
  | nil => exact fun _ => rfl
  | cons x queue ih => exact fun c => ih (c.sends x.packet)

theorem sendAll_finishedRead (queue : List Framed) :
    ∀ c : Reference, (c.sendAll queue).finishedRead = c.finishedRead := by
  induction queue with
  | nil => exact fun _ => rfl
  | cons x queue ih => exact fun c => ih (c.sends x.packet)

theorem sendAll_helloSent (queue : List Framed) : ∀ {c : Reference},
    (c.sendAll queue).helloSent = false → c.helloSent = false := by
  induction queue with
  | nil => exact id
  | cons x queue ih => exact fun h => (Bool.or_eq_false_iff.mp (ih h)).1

theorem readAll_helloSent (queue : List Meant) :
    ∀ c : Reference, (c.readAll queue).helloSent = c.helloSent := by
  induction queue with
  | nil => exact fun _ => rfl
  | cons x queue ih => exact fun c => ih (c.reads x.packet.encode)

/-- Reading never turns compression off. -/
theorem readAll_compression_none (queue : List Meant) : ∀ {c : Reference},
    (c.readAll queue).compression = none → c.compression = none := by
  induction queue with
  | nil => exact id
  | cons x queue ih => exact fun h => (Option.or_eq_none_iff.mp (ih h)).2

theorem polite_append (x : Framed) (queue : List Framed) : ∀ c : Reference,
    c.Polite (queue ++ [x]) ↔ c.Polite queue ∧ (c.sendAll queue).Acknowledges x.packet := by
  induction queue with
  | nil => exact fun c => and_comm
  | cons y queue ih =>
      intro c
      rw [List.cons_append, Polite, Polite, ih, and_assoc]
      rfl

/-- Nothing but an acknowledgement in order changes the state. -/
theorem sendAll_state (queue : List Framed) : ∀ {c : Reference}, c.state ≠ .handshaking →
    (c.state = .login → c.finishedRead = false) → c.Polite queue →
      (c.sendAll queue).state = c.state := by
  induction queue with
  | nil => exact fun _ _ _ => rfl
  | cons x queue ih =>
      intro c hstate hlogin hpolite
      have hsame := sends_state hpolite.1 hstate hlogin
      have hrest := ih (c := c.sends x.packet) (hsame ▸ hstate) (hsame ▸ hlogin) hpolite.2
      exact hrest.trans hsame

theorem polite_nil_of_waiting (hhello : c.helloSent = true) (hfinished : c.finishedRead = false)
    (h : c.Polite queue) : queue = [] := by
  cases queue with
  | nil => rfl
  | cons x queue =>
      rw [h.1.waits hhello] at hfinished
      cases hfinished

theorem receives_append (x : Meant) (queue : List Meant) : ∀ c : Reference,
    c.Receives (queue ++ [x]) ↔ c.Receives queue ∧
      (c.readAll queue).Receives [x] := by
  induction queue with
  | nil => exact fun c => ⟨fun h => ⟨trivial, h⟩, And.right⟩
  | cons y queue ih =>
      intro c
      rw [List.cons_append, Receives, Receives, ih]
      simp only [and_assoc]
      rfl

theorem state_ne_handshaking (packet : Clientbound) : packet.state ≠ .handshaking := by
  cases packet <;> (rw [Clientbound.state]; decide)

/-- What is on its way to the client does not mind what the client sends. -/
theorem Receives.sends (queue : List Meant) : ∀ {c : Reference}, c.Acknowledges packet →
    c.Receives queue →
      (c.sends packet).Receives queue ∧
      (c.sends packet).readAll queue = (c.readAll queue).sends packet := by
  induction queue with
  | nil => exact fun _ _ => ⟨trivial, rfl⟩
  | cons x queue ih =>
      intro c hack hreceives
      obtain ⟨hcompression, hstate, hlogin, hrest⟩ := hreceives
      have hsame : (c.sends packet).state = c.state := by
        apply sends_state hack
        · exact hstate ▸ state_ne_handshaking x.packet
        · exact hstate ▸ hlogin
      have hcommute := sends_reads x.packet.encode hsame
      obtain ⟨hnext, hall⟩ := ih (hack.reads x.packet.encode) hrest
      rw [← hcommute] at hnext hall
      exact ⟨⟨hcompression, hstate.trans hsame.symm, hlogin, hnext⟩, hall⟩

/-! ## What the server's packets do to it -/

theorem splitId_encodePacket {P : Type} [ClientboundPacket P] (packet : P) :
    splitId (encodePacket packet) =
      .ok (ClientboundPacket.id P, ClientboundPacket.encodeBody packet) := by
  rw [splitId, encodePacket, readVarint_writeVarint]
  simp only [Except.map, List.drop_left]

theorem newThreshold_login {q body : Bytes} {id : Int32} (h : splitId q = .ok (id, body)) :
    newThreshold .login q =
      if id = ClientboundPacket.id SetCompression then
        match readVarint body with
        | .ok (threshold, _) => some threshold.toNatClampNeg
        | .error _ => none
      else none := by
  simp only [newThreshold, h]

theorem readsFinished_login {q body : Bytes} {id : Int32} (h : splitId q = .ok (id, body)) :
    readsFinished .login q = (id == ClientboundPacket.id LoginFinished) := by
  simp only [readsFinished, h]

theorem reads_of_ne_login (h : c.state ≠ .login) (q : Bytes) : c.reads q = c := by
  have hfinished : readsFinished c.state q = false := by
    unfold readsFinished
    split
    · rename_i hin _
      exact absurd hin h
    · rfl
  have hthreshold : newThreshold c.state q = none := by
    unfold newThreshold
    split
    · rename_i hin _
      exact absurd hin h
    · rfl
  rw [reads, hfinished, hthreshold, Bool.or_false, Option.none_or]

/-- Once `LoginFinished` is read, nothing on its way changes the setting. -/
theorem Receives.readAll_of_finished (queue : List Meant) : ∀ {c : Reference},
    c.Receives queue → c.finishedRead = true → c.readAll queue = c := by
  induction queue with
  | nil => exact fun _ _ => rfl
  | cons x queue ih =>
      intro c hreceives hfinished
      obtain ⟨-, hstate, hlogin, hrest⟩ := hreceives
      have hne : c.state ≠ .login := by
        intro hin
        rw [hlogin (hstate.trans hin)] at hfinished
        cases hfinished
      have hsame := reads_of_ne_login hne x.packet.encode
      rw [hsame] at hrest
      change (c.reads x.packet.encode).readAll queue = c
      rw [hsame]
      exact ih hrest hfinished

section Login

variable (hstate : c.state = .login)

include hstate

theorem reads_loginDisconnect (packet : LoginDisconnect) :
    c.reads (Clientbound.encode (.loginDisconnect packet)) = c := by
  have hsplit := splitId_encodePacket packet
  have hid : (ClientboundPacket.id LoginDisconnect == ClientboundPacket.id LoginFinished) =
      false := by decide
  rw [reads, hstate, Clientbound.encode, newThreshold_login hsplit, readsFinished_login hsplit,
    if_neg (by decide), Option.none_or, hid, Bool.or_false, ← hstate]

theorem reads_loginFinished (packet : LoginFinished) :
    c.reads (Clientbound.encode (.loginFinished packet)) = { c with finishedRead := true } := by
  have hsplit := splitId_encodePacket packet
  rw [reads, hstate, Clientbound.encode, newThreshold_login hsplit, readsFinished_login hsplit,
    if_neg (by decide), Option.none_or, beq_self_eq_true, Bool.or_true, ← hstate]

theorem reads_setCompression {threshold : Nat} (h : threshold < 2 ^ 31) :
    c.reads (Clientbound.encode (.setCompression { threshold := asI32 threshold })) =
      { c with compression := some threshold } := by
  have hsplit := splitId_encodePacket ({ threshold := asI32 threshold } : SetCompression)
  have hid : (ClientboundPacket.id SetCompression == ClientboundPacket.id LoginFinished) =
      false := by decide
  have hread := readVarint_writeVarint (asI32 threshold) []
  rw [List.append_nil] at hread
  have hbody : newThreshold .login
      (Clientbound.encode (.setCompression { threshold := asI32 threshold })) =
        some threshold := by
    rw [Clientbound.encode, newThreshold_login hsplit, if_pos rfl]
    change (match readVarint (writeVarint (asI32 threshold)) with
      | .ok (threshold, _) => some threshold.toNatClampNeg
      | .error _ => none) = some threshold
    rw [hread]
    exact congrArg some (toNatClampNeg_asI32 h)
  rw [reads, hstate, hbody, Clientbound.encode, readsFinished_login hsplit, Option.some_or,
    hid, Bool.or_false, ← hstate]

end Login

end Lemmas

end Reference

end Rukkit.Server
