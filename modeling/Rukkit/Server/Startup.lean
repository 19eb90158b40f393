import Rukkit.Server.Lifecycle
import Rukkit.World.ColumnWire

/-!
# Starting the server

The model of the way from `main.rs` to the accept loop: the rest of
`rukkit-server/src/config.rs`, `Server::new`, and `Server::run` up to its loop.  The TOML
form of the settings, the parser of addresses and the length of a tick, which is a quotient
of floats, are parameters.
-/

namespace Rukkit.Server

open Rukkit.Lib Rukkit.Protocol Rukkit.World

/-! ## Configuration -/

/-- All of `ServerConfig`: to what a connection reads, the settings of the server itself. -/
structure Settings extends ServerConfig where
  /-- Address to listen on. -/
  bind : String
  /-- Chunks ticked around each player. -/
  simulationDistance : UInt8
  /-- Target ticks per second. -/
  tickRate : UInt32
  keepaliveIntervalSecs : UInt64
  keepaliveTimeoutSecs : UInt64
  /-- Generate a superflat world rather than an empty one. -/
  flatWorld : Bool
deriving DecidableEq, Repr

inductive IoError where
  | notFound
  | other (message : String)
deriving DecidableEq, Repr

inductive ConfigError where
  | read (path : String) (source : IoError)
  | write (path : String) (source : IoError)
  | parse (path source : String)
  | invalid (message : String)
deriving DecidableEq, Repr

/-- What is called outside the repository. -/
structure Platform where
  parseAddr : String → Option SocketAddr
  fromToml : String → Except String Settings
  toToml : Settings → Except String String
  tickDuration : UInt32 → Duration

/-- What reading the file of the settings gives. -/
abbrev Disk := Except IoError String

namespace Settings

def default : Settings where
  toServerConfig := ServerConfig.default
  bind := "0.0.0.0:25565"
  simulationDistance := 10
  tickRate := 20
  keepaliveIntervalSecs := 15
  keepaliveTimeoutSecs := 30
  flatWorld := true

variable (p : Platform) (settings : Settings)

def socketAddr : Except ConfigError SocketAddr :=
  match p.parseAddr settings.bind with
  | some addr => .ok addr
  | none => .error (.invalid ("`" ++ settings.bind ++ "` is not a valid address"))

/-- Rejects settings that would misbehave at runtime. -/
def validate : Except ConfigError Unit := do
  let _ ← settings.socketAddr p
  if settings.tickRate = 0 then throw (.invalid "tick_rate must be at least 1")
  if settings.viewDistance < 2 then throw (.invalid "view_distance must be at least 2")
  if settings.maxPlayers < 0 then throw (.invalid "max_players cannot be negative")
  if settings.keepaliveTimeoutSecs ≤ settings.keepaliveIntervalSecs then
    throw (.invalid "keepalive_timeout_secs must exceed keepalive_interval_secs")

/-- Loads from `path`, writing out the defaults if it does not exist.  `write` is what comes
of the write, an error with what it leaves in the file; `none` is a panic. -/
def loadOrCreate (path : String) (disk : Disk) (write : Except (IoError × Disk) Unit) :
    Option (Except ConfigError Settings) × Disk :=
  match disk with
  | .ok text =>
      match p.fromToml text with
      | .error e => (some (.error (.parse path e)), disk)
      | .ok settings =>
          match settings.validate p with
          | .error e => (some (.error e), disk)
          | .ok () => (some (.ok settings), disk)
  | .error .notFound =>
      match p.toToml default with
      | .error _ => (none, disk)
      | .ok text =>
          match write with
          | .error (e, left) => (some (.error (.write path e)), left)
          | .ok () => (some (.ok default), .ok text)
  | .error e => (some (.error (.read path e)), disk)

end Settings

/-! ## Assembly -/

/-- What the tasks share, with all of the settings. -/
structure ServerContext where
  settings : Settings
  shared : SharedState
  states : BlockStates
  limits : HeightLimits

/-- What `report_spawn_chunk` logs. -/
structure SpawnReport where
  sections : Nat
  bytes : Nat
deriving DecidableEq, Repr

/-- A server about to accept its first connection. -/
structure Started where
  addr : SocketAddr
  report : SpawnReport
  run : ServerRun

inductive StartError where
  | config (e : ConfigError)
  | io (e : IoError)
deriving DecidableEq, Repr

/-- What the system answers to one start. -/
structure Machine where
  write : Except (IoError × Disk) Unit
  runtime : Except IoError Unit
  listen : SocketAddr → Except IoError Unit

namespace ServerContext

variable (p : Platform) (machine : Machine) (md5 : Bytes → Digest)
  (componentJson : Component → String)

/-- `Server::new`: builds a server from validated configuration. -/
def new (settings : Settings) : Except ConfigError ServerContext := do
  settings.validate p
  return {
    settings
    shared := .new settings.toServerConfig
    states := .placeholder
    limits := ⟨-64, 384⟩ }

variable (server : ServerContext)

/-- What its connections read. -/
def context : Context where
  config := server.settings.toServerConfig
  md5 := md5
  componentJson := componentJson

/-- The chunk of `report_spawn_chunk`. -/
def spawnChunk : Option Chunk :=
  if server.settings.flatWorld then
    FlatGenerator.default.generate server.limits server.states
  else VoidGenerator.generate server.limits server.states

def reportSpawnChunk : Option SpawnReport := do
  let chunk ← server.spawnChunk
  let encoded ← chunk.writeSections server.states
  return { sections := chunk.sections.length, bytes := encoded.length }

/-- `run` up to the accept loop. -/
def start : Option (Except StartError Started) :=
  match server.settings.socketAddr p with
  | .error e => some (.error (.config e))
  | .ok addr =>
      match machine.listen addr with
      | .error e => some (.error (.io e))
      | .ok () =>
          server.reportSpawnChunk.map fun report => .ok {
            addr
            report
            run := ServerRun.new (server.context md5 componentJson)
              (p.tickDuration server.settings.tickRate) }

end ServerContext

/-- `main`: the settings, the runtime, the server. -/
def main (p : Platform) (machine : Machine) (md5 : Bytes → Digest)
    (componentJson : Component → String) (path : String) (disk : Disk) :
    Option (Except StartError Started) × Disk :=
  match Settings.loadOrCreate p path disk machine.write with
  | (none, disk) => (none, disk)
  | (some (.error e), disk) => (some (.error (.config e)), disk)
  | (some (.ok settings), disk) =>
      match machine.runtime with
      | .error e => (some (.error (.io e)), disk)
      | .ok () =>
          match ServerContext.new p settings with
          | .error e => (some (.error (.config e)), disk)
          | .ok server => (server.start p machine md5 componentJson, disk)

/-! ## The checks -/

namespace Settings

/-- What is wrong with the settings, in the order of the checks. -/
def problems (p : Platform) (settings : Settings) : List String :=
  ((if p.parseAddr settings.bind = none then
      ["`" ++ settings.bind ++ "` is not a valid address"] else []) ++
    (if settings.tickRate = 0 then ["tick_rate must be at least 1"] else []) ++
    (if settings.viewDistance < 2 then ["view_distance must be at least 2"] else []) ++
    (if settings.maxPlayers < 0 then ["max_players cannot be negative"] else []) ++
    if settings.keepaliveTimeoutSecs ≤ settings.keepaliveIntervalSecs then
      ["keepalive_timeout_secs must exceed keepalive_interval_secs"] else [])

/-- The first problem is the one that is reported. -/
theorem validate_eq (p : Platform) (settings : Settings) :
    settings.validate p =
      (settings.problems p).head?.elim (.ok ()) fun message => .error (.invalid message) := by
  unfold validate problems socketAddr
  cases p.parseAddr settings.bind with
  | none => rfl
  | some addr =>
      simp only [reduceCtorEq, if_false, List.nil_append]
      split
      · rfl
      · split
        · rfl
        · split
          · rfl
          · split <;> rfl

variable {p : Platform} {settings : Settings}

theorem validate_eq_ok_iff : settings.validate p = .ok () ↔ settings.problems p = [] := by
  rw [validate_eq]
  cases settings.problems p with
  | nil => exact iff_of_true rfl rfl
  | cons message messages => exact iff_of_false (by rintro ⟨⟩) (by rintro ⟨⟩)

theorem socketAddr_of_no_problems (h : settings.problems p = []) :
    ∃ addr, p.parseAddr settings.bind = some addr ∧ settings.socketAddr p = .ok addr := by
  unfold socketAddr
  cases haddr : p.parseAddr settings.bind with
  | none => simp [problems, haddr] at h
  | some addr => exact ⟨addr, rfl, rfl⟩

end Settings

/-- The TOML crate reads the default settings back from what it writes, and the address in
them is one. -/
structure Platform.KeepsDefault (p : Platform) (text : String) (addr : SocketAddr) : Prop where
  toToml_eq : p.toToml .default = .ok text
  fromToml_eq : p.fromToml text = .ok .default
  parseAddr_eq : p.parseAddr Settings.default.bind = some addr

theorem Platform.KeepsDefault.problems_eq {p : Platform} {text : String} {addr : SocketAddr}
    (h : p.KeepsDefault text addr) : Settings.default.problems p = [] := by
  rw [Settings.problems, h.parseAddr_eq, if_neg (Option.some_ne_none addr)]
  decide

/-- The default settings as the crate writes them. -/
def defaultText : String :=
  "bind = \"0.0.0.0:25565\"\nmotd = \"A Rukkit server\"\nmax_players = 20\n" ++
    "view_distance = 10\nsimulation_distance = 10\ncompression_threshold = 256\n" ++
    "online_mode = false\nlogin_finished_flag = \"send-false\"\ntick_rate = 20\n" ++
    "keepalive_interval_secs = 15\nkeepalive_timeout_secs = 30\nflat_world = true\n"

/-- A platform as far as the default settings go. -/
def defaultPlatform : Platform where
  parseAddr bind := if bind = "0.0.0.0:25565" then some ⟨.v4 0, 25565⟩ else none
  fromToml text := if text = defaultText then .ok .default else .error "not the defaults"
  toToml settings := if settings = .default then .ok defaultText else .error "not the defaults"
  tickDuration _ := 50000000

theorem keepsDefault_defaultPlatform :
    defaultPlatform.KeepsDefault defaultText ⟨.v4 0, 25565⟩ where
  toToml_eq := by simp [defaultPlatform]
  fromToml_eq := by simp [defaultPlatform]
  parseAddr_eq := by simp [defaultPlatform, Settings.default]

/-! ## Restarts -/

namespace Settings

/-- A load, whatever comes of its write. -/
def Load (p : Platform) (path : String) (disk : Disk)
    (result : Option (Except ConfigError Settings)) (disk' : Disk) : Prop :=
  ∃ write, loadOrCreate p path disk write = (result, disk')

variable {p : Platform} {path text : String} {addr : SocketAddr} {disk disk' : Disk}
  {settings : Settings} {result : Option (Except ConfigError Settings)}
  {results : List (Option (Except ConfigError Settings))}

/-- What the file gives is what was loaded. -/
def Stored (p : Platform) (settings : Settings) (disk : Disk) : Prop :=
  ∃ text, disk = .ok text ∧ p.fromToml text = .ok settings ∧ settings.problems p = []

theorem load_existing (h : Load p path (.ok text) result disk') :
    disk' = .ok text ∧ result ≠ none := by
  obtain ⟨write, hload⟩ := h
  unfold loadOrCreate at hload
  dsimp only at hload
  split at hload
  · obtain ⟨rfl, rfl⟩ := Prod.mk.inj hload
    exact ⟨rfl, by rintro ⟨⟩⟩
  · split at hload <;> obtain ⟨rfl, rfl⟩ := Prod.mk.inj hload <;> exact ⟨rfl, by rintro ⟨⟩⟩

theorem load_stored (h : Load p path disk result disk') (hstored : Stored p settings disk) :
    disk' = disk ∧ result = some (.ok settings) := by
  obtain ⟨write, hload⟩ := h
  obtain ⟨text, rfl, hparse, hvalid⟩ := hstored
  simp only [loadOrCreate, hparse, validate_eq_ok_iff.mpr hvalid] at hload
  obtain ⟨rfl, rfl⟩ := Prod.mk.inj hload
  exact ⟨rfl, rfl⟩

variable (path) in
theorem load_of_stored (h : Stored p settings disk) :
    Load p path disk (some (.ok settings)) disk := by
  obtain ⟨text, rfl, hparse, hvalid⟩ := h
  exact ⟨.ok (), by simp only [loadOrCreate, hparse, validate_eq_ok_iff.mpr hvalid]⟩

variable (path) in
theorem load_missing (hkept : p.KeepsDefault text addr) :
    Load p path (.error .notFound) (some (.ok .default)) (.ok text) :=
  ⟨.ok (), by simp only [loadOrCreate, hkept.toToml_eq]⟩

section Default

variable (hkept : p.KeepsDefault text addr)

include hkept

theorem load_ne_none (h : Load p path disk result disk') : result ≠ none := by
  cases disk with
  | ok text => exact (load_existing h).2
  | error e =>
      obtain ⟨write, hload⟩ := h
      cases e with
      | other message =>
          rw [← (Prod.mk.inj hload).1]
          rintro ⟨⟩
      | notFound =>
          simp only [loadOrCreate, hkept.toToml_eq] at hload
          split at hload <;> rw [← (Prod.mk.inj hload).1] <;> rintro ⟨⟩

/-- What has been loaded is valid, and is on the disk. -/
theorem stored_of_load (h : Load p path disk (some (.ok settings)) disk') :
    Stored p settings disk' := by
  obtain ⟨write, hload⟩ := h
  cases disk with
  | ok text =>
      unfold loadOrCreate at hload
      dsimp only at hload
      split at hload
      · cases hload
      · rename_i settings' hparse
        split at hload
        · cases hload
        · rename_i hvalid
          obtain ⟨hsome, rfl⟩ := Prod.mk.inj hload
          obtain rfl := Except.ok.inj (Option.some.inj hsome)
          exact ⟨text, rfl, hparse, validate_eq_ok_iff.mp hvalid⟩
  | error e =>
      cases e with
      | other message => cases hload
      | notFound =>
          simp only [loadOrCreate, hkept.toToml_eq] at hload
          split at hload
          · cases hload
          · obtain ⟨hsome, rfl⟩ := Prod.mk.inj hload
            obtain rfl := Except.ok.inj (Option.some.inj hsome)
            exact ⟨_, rfl, hkept.fromToml_eq, hkept.problems_eq⟩

end Default

end Settings

/-! ## From the settings to the accept loop -/

namespace ServerContext

variable {p : Platform} {settings : Settings} {server : ServerContext}

/-- What the spawn chunk stands for. -/
def spawnColumn (settings : Settings) : Column :=
  if settings.flatWorld then flatColumn .default ⟨-64, 384⟩ .placeholder
  else fun _ _ _ => BlockStates.air .placeholder

theorem new_eq_ok (h : settings.problems p = []) : ServerContext.new p settings = .ok {
    settings
    shared := .new settings.toServerConfig
    states := .placeholder
    limits := ⟨-64, 384⟩ } := by
  rw [ServerContext.new, Settings.validate_eq_ok_iff.mpr h]
  rfl

theorem spawnChunk_lives (hstates : server.states = .placeholder)
    (hlimits : server.limits = ⟨-64, 384⟩) : ∃ chunk, server.spawnChunk = some chunk ∧
    Lives ⟨-64, 384⟩ .placeholder chunk (spawnColumn server.settings) := by
  have hrep : HeightLimits.Representable ⟨-64, 384⟩ := ⟨by decide, by decide⟩
  unfold spawnChunk spawnColumn
  rw [hstates, hlimits]
  split
  · obtain ⟨chunk, hchunk, -⟩ :=
      FlatGenerator.generate_spec .default .placeholder (by decide) hrep
    exact ⟨chunk, hchunk, .generated _ hchunk⟩
  · obtain ⟨chunk, hchunk⟩ := Chunk.exists_empty ⟨-64, 384⟩ .placeholder
    exact ⟨chunk, hchunk, .empty hchunk⟩

/-- The numbers of the report are those of a chunk a client could read. -/
def Reported (settings : Settings) (report : SpawnReport) : Prop :=
  report.sections = 24 ∧ ∃ bytes decoded r, report.bytes = bytes.length ∧
    readSections (BlockStates.directBits .placeholder) 24 (PacketReader.new bytes) =
      .ok decoded r ∧ r.remaining = 0 ∧
    ∀ x y z, x < 16 → z < 16 → HeightLimits.Within ⟨-64, 384⟩ y →
      clientBlock ⟨-64, 384⟩ decoded x y z = some (spawnColumn settings x y z)

variable (server) in
theorem reportSpawnChunk_eq (hstates : server.states = .placeholder)
    (hlimits : server.limits = ⟨-64, 384⟩) : ∃ report,
    server.reportSpawnChunk = some report ∧ Reported server.settings report := by
  obtain ⟨chunk, hchunk, hlives⟩ := spawnChunk_lives hstates hlimits
  obtain ⟨hholds, -⟩ := Chunk.holds_of_lives (by decide) ⟨by decide, by decide⟩
    (.inl (by decide)) BlockStates.registered_placeholder hlives
  obtain ⟨bytes, r, hwrite, hread, hrest⟩ := hholds.onWire_reads
  refine ⟨⟨chunk.sections.length, bytes.length⟩, ?_, hholds.length_eq, bytes, _, r, rfl, hread,
    hrest, fun x y z hx hz hy => hholds.clientBlock_eq (by decide) hx hz hy⟩
  rw [reportSpawnChunk, hchunk, hstates]
  simp [hwrite]

end ServerContext

section Main

variable {p : Platform} {machine : Machine} {md5 : Bytes → Digest}
  {componentJson : Component → String} {path text : String} {addr : SocketAddr} {disk : Disk}
  {settings : Settings}

/-- Why a start fails, or how the server then stands, given what the load returned. -/
def Explains (p : Platform) (machine : Machine) (md5 : Bytes → Digest)
    (componentJson : Component → String) (loaded : Except ConfigError Settings) :
    Except StartError Started → Prop
  | .error (.config e) => loaded = .error e
  | .error (.io e) => machine.runtime = .error e ∨ ∃ addr, machine.listen addr = .error e
  | .ok started => ∃ settings, loaded = .ok settings ∧ settings.problems p = [] ∧
      p.parseAddr settings.bind = some started.addr ∧ machine.listen started.addr = .ok () ∧
      ServerContext.Reported settings started.report ∧
      started.run = ServerRun.new ⟨settings.toServerConfig, md5, componentJson⟩
        (p.tickDuration settings.tickRate)

variable (machine md5 componentJson) in
theorem start_explained (hvalid : settings.problems p = []) {server : ServerContext}
    (hnew : ServerContext.new p settings = .ok server) :
    ∃ result, server.start p machine md5 componentJson = some result ∧
      Explains p machine md5 componentJson (.ok settings) result := by
  obtain rfl := Except.ok.inj ((ServerContext.new_eq_ok hvalid).symm.trans hnew)
  obtain ⟨addr, hparse, haddr⟩ := Settings.socketAddr_of_no_problems hvalid
  unfold ServerContext.start
  simp only [haddr]
  cases hlisten : machine.listen addr with
  | error e => exact ⟨_, rfl, .inr ⟨addr, hlisten⟩⟩
  | ok listening =>
      obtain ⟨report, hreport, hreported⟩ := ServerContext.reportSpawnChunk_eq
        ⟨settings, .new settings.toServerConfig, .placeholder, ⟨-64, 384⟩⟩ rfl rfl
      exact ⟨.ok _, by rw [hreport]; rfl, settings, rfl, hvalid, hparse, hlisten, hreported, rfl⟩

end Main

end Rukkit.Server
