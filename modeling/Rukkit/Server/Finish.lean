import Rukkit.Server.Admission

/-!
# The end of configuration

The client's acknowledgement ends `configuration_phase` with success.  Whether the
server has asked for it.
-/

namespace Rukkit.Server

open Rukkit.Lib Rukkit.Protocol

/-- What a packet is taken for once its body has been decoded. -/
theorem decoded_eq_ok {α β : Type} {result : Except ProtocolError α} {taken other : β}
    (h : (do let _ ← liftProtocol result; return taken) = Except.ok other) :
    taken = other ∧ ∃ a, result = .ok a := by
  cases result with
  | ok a => exact ⟨Except.ok.inj h, a, rfl⟩
  | error e => cases h

theorem configurationPacket_finish_iff {packet : Bytes} :
    configurationPacket packet = .ok .finish ↔
      DecodesAs .configuration packet FinishConfigurationAck.mk := by
  constructor
  · intro h
    unfold configurationPacket at h
    cases hsplit : splitId packet with
    | error e =>
        rw [hsplit] at h
        cases h
    | ok split =>
        obtain ⟨id, body⟩ := split
        rw [hsplit] at h
        simp only [liftProtocol, bind, Except.bind] at h
        have hother : ∀ {α : Type} {result : Except ProtocolError α} {taken},
            (liftProtocol result >>= fun _ => pure taken) = Except.ok ConfigurationPacket.finish →
            taken = .finish := fun h => (decoded_eq_ok h).1
        by_cases hid : id = ServerboundPacket.id FinishConfigurationAck
        · subst hid
          obtain ⟨-, ack, hdecode⟩ := decoded_eq_ok h
          exact ⟨body, hsplit, hdecode⟩
        · split at h
          · cases hother h
          · split at h
            · cases hother h
            · split at h
              · cases hother h
              · split at h
                · cases hother h
                · cases h
  · rintro ⟨body, hsplit, hdecode⟩
    unfold configurationPacket
    rw [hsplit]
    simp only [liftProtocol, bind, Except.bind, hdecode]
    rfl

/-- A task has sent the bytes of `FinishConfiguration`. -/
def SentFinish (calls : List Call) : Prop :=
  ∃ packet result, Call.send packet result ∈ calls ∧ packet.state = .configuration ∧
    packet.encode = encodePacket FinishConfiguration.mk

/-- No packet of the configuration state that a task sends is `FinishConfiguration`. -/
theorem encode_ne_finish {packet : Clientbound} (hstate : packet.state = .configuration) :
    packet.encode ≠ encodePacket FinishConfiguration.mk := by
  have hfinish : encodePacket FinishConfiguration.mk = [3] := rfl
  rw [hfinish]
  intro h
  cases packet with
  | disconnect packet =>
      cases (show (2 : UInt8) :: ClientboundPacket.encodeBody packet = [3] from h)
  | pluginMessage packet =>
      cases (show (1 : UInt8) :: ClientboundPacket.encodeBody packet = [3] from h)
  | selectKnownPacks packet =>
      cases (show (0x0E : UInt8) :: ClientboundPacket.encodeBody packet = [3] from h)
  | _ => cases hstate

theorem not_sentFinish (calls : List Call) : ¬ SentFinish calls := by
  rintro ⟨packet, result, -, hstate, hencode⟩
  exact encode_ne_finish hstate hencode

/-- `configuration_phase` returns `Ok(())` only after `FinishConfiguration` was sent. -/
def FinishesInOrder (ctx : Context) (addr : SocketAddr) (calls : List Call) : Prop :=
  ∀ done call later hello, calls = done ++ call :: later →
    Run (Point.Step ctx addr) .run done (.configuration hello) →
    Point.Step ctx addr (.configuration hello) call (.remove hello (.ok ())) → SentFinish done

/-- No packet read in `configuration_phase` is a `FinishConfigurationAck`. -/
def NeverAcknowledges (ctx : Context) (addr : SocketAddr) (calls : List Call) : Prop :=
  ∀ done packet later hello, calls = done ++ .read (.ok packet) :: later →
    Run (Point.Step ctx addr) .run done (.configuration hello) →
    ¬ DecodesAs .configuration packet FinishConfigurationAck.mk

/-- The read that ends the phase with success. -/
theorem step_configuration_finish {ctx : Context} {addr : SocketAddr} {hello : Hello}
    {call : Call}
    (h : Point.Step ctx addr (.configuration hello) call (.remove hello (.ok ()))) :
    ∃ packet, call = .read (.ok packet) ∧ configurationPacket packet = .ok .finish := by
  generalize hnext : Point.remove hello (.ok ()) = next at h
  cases h with
  | read result =>
      cases result with
      | error e => cases hnext
      | ok packet =>
          refine ⟨packet, rfl, ?_⟩
          dsimp only [Except.bind] at hnext
          cases hpacket : configurationPacket packet with
          | error e =>
              rw [hpacket] at hnext
              cases hnext
          | ok taken =>
              rw [hpacket] at hnext
              cases taken with
              | finish => rfl
              | knownPacks => cases hnext
              | other => cases hnext

/-- A task finishes in order exactly when no packet it reads acknowledges the end of
configuration. -/
theorem finishes_in_order_iff {ctx : Context} {addr : SocketAddr} {calls : List Call} :
    FinishesInOrder ctx addr calls ↔ NeverAcknowledges ctx addr calls := by
  constructor
  · intro horder done packet later hello hcalls hdone hack
    apply not_sentFinish done
    apply horder done (.read (.ok packet)) later hello hcalls hdone
    have hstep : Point.Step ctx addr (.configuration hello) (.read (.ok packet)) _ :=
      Action.Step.read (.ok packet)
    dsimp only [Except.bind] at hstep
    rwa [configurationPacket_finish_iff.mpr hack] at hstep
  · intro hnever done call later hello hcalls hdone hstep
    obtain ⟨packet, rfl, hfinish⟩ := step_configuration_finish hstep
    exact absurd (configurationPacket_finish_iff.mp hfinish)
      (hnever done packet later hello hcalls hdone)

/-- `Notch` logs in and acknowledges at once. -/
theorem finishes_out_of_order :
    ∃ calls,
      (∃ hello, Run (Point.Step notchContext notchAddr) .run calls (.remove hello (.ok ()))) ∧
      ¬ FinishesInOrder notchContext notchAddr calls := by
  have hfinish : Point.Step notchContext notchAddr (.configuration ⟨"Notch", 0⟩) (.read (.ok [3]))
      (.remove ⟨"Notch", 0⟩ (.ok ())) := Action.Step.read _
  have hconfiguration := notch_run.trans configuration_run
  refine ⟨_, ⟨_, hconfiguration.snoc hfinish⟩, ?_⟩
  intro horder
  exact not_sentFinish _ (horder _ _ [] _ rfl hconfiguration hfinish)

end Rukkit.Server
