import Rukkit.Lib.Words
import Rukkit.Lib.Reading
import Rukkit.Lib.Checked
import Rukkit.Lib.BigEndian
import Rukkit.Lib.Base64
import Rukkit.Lib.Runs
import Rukkit.Lib.Tasks
import Rukkit.Lib.Sweep
import Rukkit.Lib.Windows
import Rukkit.Lib.Simulations
import Rukkit.Lib.Potentials
import Rukkit.Lib.Entries
import Rukkit.Lib.Grid
import Rukkit.World.BitStorage
import Rukkit.World.StorageHistory
import Rukkit.Protocol.Error
import Rukkit.Protocol.Types
import Rukkit.Protocol.Varint
import Rukkit.Protocol.VarintFormat
import Rukkit.Protocol.Writer
import Rukkit.Protocol.Reader
import Rukkit.Protocol.CheckedReader
import Rukkit.Protocol.ReaderSession
import Rukkit.Protocol.Crypt
import Rukkit.Protocol.Flate2
import Rukkit.Protocol.Codec
import Rukkit.Protocol.CheckedDecoder
import Rukkit.Protocol.Frame
import Rukkit.Protocol.FrameStream
import Rukkit.Protocol.Packetisation
import Rukkit.Protocol.Pipe
import Rukkit.World.Palette
import Rukkit.World.PaletteInvariant
import Rukkit.World.PaletteShrink
import Rukkit.World.PaletteHistory
import Rukkit.World.PaletteFailure
import Rukkit.World.Chunk
import Rukkit.World.ChunkAddressing
import Rukkit.World.ColumnHistory
import Rukkit.World.Heightmaps
import Rukkit.World.Observers
import Rukkit.World.Generator
import Rukkit.World.ChunkDecoding
import Rukkit.Protocol.ModifiedUtf8
import Rukkit.Protocol.Nbt
import Rukkit.Protocol.CheckedNbt
import Rukkit.Protocol.ModifiedUtf8Grammar
import Rukkit.Protocol.NbtRoundTrip
import Rukkit.Protocol.NbtTags
import Rukkit.Protocol.NbtSize
import Rukkit.Server.Config
import Rukkit.Protocol.Text
import Rukkit.Protocol.ComponentNbt
import Rukkit.Protocol.Packets
import Rukkit.Protocol.PlayPackets
import Rukkit.Protocol.CheckedPackets
import Rukkit.Protocol.PacketRoundTrip
import Rukkit.Server.FrameLimits
import Rukkit.Server.Player
import Rukkit.Server.Connection
import Rukkit.Server.Admission
import Rukkit.Server.Slots
import Rukkit.Server.Registry
import Rukkit.Server.StatusMoment
import Rukkit.Server.Status
import Rukkit.Server.StatusHistory
import Rukkit.Server.Favicon
import Rukkit.Server.Identity
import Rukkit.Server.Finish
import Rukkit.Server.ReadPacket
import Rukkit.Server.DecodePath
import Rukkit.Server.ReferenceClient
import Rukkit.Server.Dialogue
import Rukkit.Server.Agreement
import Rukkit.World.ColumnWire
import Rukkit.World.ViewDistance
import Rukkit.Server.TickMetrics
import Rukkit.Server.Serving
import Rukkit.Server.Lifecycle
import Rukkit.Server.Transcript
import Rukkit.Server.Progress
import Rukkit.Server.Startup
import Rukkit.Protocol.ClientPackets
import Rukkit.Protocol.ClientDecoding
import Rukkit.Protocol.NbtCompound
import Rukkit.Protocol.ComponentText
import Rukkit.Server.Legible
import Rukkit.Server.ColumnFrames
import Rukkit.Server.Served
import Rukkit.Server.Capacity
