import Rukkit.Protocol.Writer

/-!
# Server configuration

The model of `rukkit-server/src/config.rs`: the settings a connection reads.
-/

namespace Rukkit.Server

/-- Whether `login_finished` carries the trailing flag. -/
inductive LoginFinishedFlag where
  | sendFalse
  | sendTrue
  | omit
deriving DecidableEq, Repr

/-- The value to encode, or `none` to leave the field off. -/
def LoginFinishedFlag.value : LoginFinishedFlag → Option Bool
  | .sendFalse => some false
  | .sendTrue => some true
  | .omit => none

structure ServerConfig where
  motd : String
  maxPlayers : Int32
  viewDistance : UInt8
  /-- Negative disables compression. -/
  compressionThreshold : Int32
  onlineMode : Bool
  loginFinishedFlag : LoginFinishedFlag
deriving DecidableEq, Repr

namespace ServerConfig

def default : ServerConfig where
  motd := "A Rukkit server"
  maxPlayers := 20
  viewDistance := 10
  compressionThreshold := 256
  onlineMode := false
  loginFinishedFlag := .sendFalse

/-- Compression threshold as an optional size, `none` when disabled. -/
def compression (config : ServerConfig) : Option Nat :=
  if config.compressionThreshold < 0 then none
  else some config.compressionThreshold.toNatClampNeg

theorem compression_lt {config : ServerConfig} {threshold : Nat}
    (h : config.compression = some threshold) : threshold < 2 ^ 31 := by
  unfold compression at h
  split at h
  · simp at h
  · rw [← Option.some.inj h]
    exact Int32.toNatClampNeg_lt _

end ServerConfig

end Rukkit.Server
