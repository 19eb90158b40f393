import Rukkit.Protocol.CheckedDecoder
import Rukkit.Protocol.CheckedPackets
import Rukkit.Protocol.ReaderSession
import Rukkit.Server.Connection

/-!
# The path of inbound bytes

From the socket to a packet: the decoder splits off a frame, `split_id` its id, and the
packet's decoder reads the rest.  With every panic of these functions in the model, none is
reached and each call returns what the panic-free model says.
-/

namespace Rukkit.Server

open Rukkit.Lib Rukkit.Lib.Checked Rukkit.Protocol

/-- `split_id`, which slices `&packet[used..]`. -/
def Checked.splitId (packet : Bytes) : Lib.Outcome ProtocolError (Int32 × Bytes) := do
  let (id, used) ← Protocol.Checked.readVarint packet
  let body ← sliceFrom packet used
  return (id, body)

theorem Checked.splitId_eq (packet : Bytes) :
    Checked.splitId packet = some (Server.splitId packet) := by
  unfold Checked.splitId Server.splitId
  rw [Protocol.Checked.readVarint_eq]
  cases hread : readVarint packet with
  | error e => rfl
  | ok found =>
      have hused := (readVarint_used hread).2.2
      exact Lib.Outcome.bind_option (sliceFrom_eq hused)

theorem decode_path_in_range {F : Flate2} {K : Cfb8} :
    (∀ d : Decoder F K, Protocol.Checked.decode d = some d.decode) ∧
    (∀ packet, Checked.splitId packet = some (splitId packet)) ∧
    (∀ (kind : Serverbound) (body : Bytes) (state : String),
      Protocol.Checked.decodeExact kind.Packet body state =
        some (decodeExact kind.Packet body state)) ∧
    ∀ r : PacketReader,
      (∃ result t, Protocol.Checked.RegistryData.decodeBody.exec r.cursor = some (result, t) ∧
        r.cursor.Advances t) ∧
      (∃ result t, Protocol.Checked.Login.decodeBody.exec r.cursor = some (result, t) ∧
        r.cursor.Advances t) ∧
      (∃ result t, Protocol.Checked.readNetwork.exec r.cursor = some (result, t) ∧
        r.cursor.Advances t) ∧
      (∃ result t, Protocol.Checked.readNamed.exec r.cursor = some (result, t) ∧
        r.cursor.Advances t) ∧
      ∀ {α : Type} (session : Session α),
        ∃ result t, session.checked.exec r.cursor = some (result, t) ∧ r.cursor.Advances t :=
  ⟨Protocol.Checked.decode_eq, Checked.splitId_eq,
    fun kind => Protocol.Checked.decodeExact_eq kind.Packet, fun r =>
    ⟨Protocol.Checked.RegistryData.decodeBody_follows.advances r,
      Protocol.Checked.Login.decodeBody_follows.advances r,
      Protocol.Checked.readNetwork_follows.advances r,
      Protocol.Checked.readNamed_follows.advances r, fun session => session.follows.advances r⟩⟩

end Rukkit.Server
