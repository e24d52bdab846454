import TileCoder.Bits
import TileCoder.Block.Mode
import TileCoder.Block.Motion
import TileCoder.Block.Partition
import TileCoder.Block.Record
import TileCoder.Block.Reference
import TileCoder.Block.Restoration
import TileCoder.Block.Size
import TileCoder.Cdf.Basic
import TileCoder.Cdf.Training
import TileCoder.Code.Cost
import TileCoder.Code.Integer
import TileCoder.Code.Recenter
import TileCoder.Code.Source
import TileCoder.Element
import TileCoder.Element.ChromaFromLuma
import TileCoder.Element.Cut
import TileCoder.Element.Delta
import TileCoder.Element.Inter
import TileCoder.Element.Intra
import TileCoder.Element.Motion
import TileCoder.Element.Neighbour
import TileCoder.Element.Number
import TileCoder.Element.Palette
import TileCoder.Element.Program
import TileCoder.Element.References
import TileCoder.Element.Restoration
import TileCoder.Element.Segment
import TileCoder.Element.TransformTree
import TileCoder.Emit
import TileCoder.Error
import TileCoder.Frame.Basic
import TileCoder.Frame.Params
import TileCoder.Frame.Slots
import TileCoder.Frame.Tile
import TileCoder.Header.Field
import TileCoder.Header.Frame
import TileCoder.Header.Item
import TileCoder.Header.TileGroup
import TileCoder.Range.Position
import TileCoder.Range.Reader
import TileCoder.Range.Token
import TileCoder.Range.Writer
import TileCoder.Table.Slot
import TileCoder.Table.Tables
import TileCoder.Table.Trained.Frame
import TileCoder.Table.Trained.Inter
import TileCoder.Table.Trained.Intra
import TileCoder.Table.Trained.Motion
import TileCoder.Table.Trained.Palette
import TileCoder.Table.Trained.Partition
import TileCoder.Table.Trained.Reference
import TileCoder.Table.Trained.Transform
import TileCoder.Table.UndoLog
import TileCoder.Tile.Cost
import TileCoder.Tile.Primitive
import TileCoder.Tile.Reader
import TileCoder.Tile.Writer
import TileCoder.Transform.Kind
import TileCoder.Transform.Size
import TileCoder.Proofs.Cdf.Codable
import TileCoder.Proofs.Cdf.Adaptation
import TileCoder.Proofs.Cdf.Training
import TileCoder.Proofs.Range.Share
import TileCoder.Proofs.Range.BigEndian
import TileCoder.Proofs.Range.Interval
import TileCoder.Proofs.Range.Refinement
import TileCoder.Proofs.Range.Tracking
import TileCoder.Proofs.Code.Recenter
import TileCoder.Proofs.Element.Follows
import TileCoder.Proofs.Table.Counters
import TileCoder.Proofs.Table.Codable
import TileCoder.Proofs.Table.Values
import TileCoder.Proofs.Table.Unwind
import TileCoder.Proofs.Tile.InSync
import TileCoder.Proofs.Tile.Queries
import TileCoder.Proofs.Element.Block
import TileCoder.Proofs.Element.Segment
import TileCoder.Proofs.Element.Modes
import TileCoder.Proofs.Element.References
import TileCoder.Proofs.Element.Transform
import TileCoder.Proofs.Element.Delta
import TileCoder.Proofs.Element.Motion
import TileCoder.Proofs.Element.Digits
import TileCoder.Proofs.Element.Ranking
import TileCoder.Proofs.Element.Palette
import TileCoder.Proofs.Element.Restoration
import TileCoder.Proofs.Tile.Programs
import TileCoder.Proofs.Element.Safe
import TileCoder.Proofs.Range.Guarded
import TileCoder.Proofs.Range.Safety
import TileCoder.Proofs.Range.Outputs
import TileCoder.Proofs.Range.Overlong
import TileCoder.Proofs.Tile.Kept
import TileCoder.Proofs.Frame.Runs
import TileCoder.Proofs.Tile.Pieces
import TileCoder.Proofs.Tile.Tokens
import TileCoder.Proofs.Tile.Positions
import TileCoder.Proofs.Tile.Speculation
import TileCoder.Proofs.Tile.Replay
import TileCoder.Proofs.Frame.InStep
import TileCoder.Proofs.Frame.History
import TileCoder.Proofs.Tile.Recoding
import TileCoder.Proofs.Tile.Refusal
import TileCoder.Proofs.Tile.BareBits
import TileCoder.Proofs.Tile.Numbers
import TileCoder.Proofs.Header.Fields
import TileCoder.Proofs.Header.Frame
import TileCoder.Proofs.Header.Numbers
import TileCoder.Proofs.Header.TileGroup
import TileCoder.Proofs.Range.Progress
import TileCoder.Proofs.Code.Overflow
import TileCoder.Proofs.Code.ByDistance
import TileCoder.Proofs.Tile.Recentred
import TileCoder.Proofs.Range.Room
import TileCoder.Proofs.Tile.Symbols
import TileCoder.Proofs.Range.Cost
import TileCoder.Proofs.Frame.Budget
import TileCoder.Proofs.Tile.Truncation
import TileCoder.Proofs.Tile.Following
import TileCoder.Proofs.Tile.Cost
import TileCoder.Proofs.Tile.Units
import TileCoder.Proofs.Tile.Answers
import TileCoder.Proofs.Tile.ColorMap
import TileCoder.Proofs.Tile.Component
import TileCoder.Proofs.Tile.Faithful
