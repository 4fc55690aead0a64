import CellMemory.Layout.Document
import CellMemory.Manifest
import CellMemory.Program
import CellMemory.Proofs.Content
import CellMemory.Proofs.Steps
import CellMemory.Proofs.Outcome
import CellMemory.Proofs.Refusal
import CellMemory.Proofs.Atomicity
import CellMemory.Proofs.LastWrite
import CellMemory.Proofs.Safety
import CellMemory.Proofs.Frame
import CellMemory.Proofs.PrefixRegion
import CellMemory.Proofs.Indistinguishable
import CellMemory.Proofs.Effects
import CellMemory.Proofs.Transport
import CellMemory.Proofs.Batch
import CellMemory.Proofs.HeaderWords
import CellMemory.Proofs.Reading
import CellMemory.Proofs.Json.Grammar
import CellMemory.Proofs.Json.Tokens
import CellMemory.Proofs.Json.Values
import CellMemory.Proofs.Document
import CellMemory.Proofs.Tiling
import CellMemory.Proofs.Lengths
import CellMemory.Proofs.Words
import CellMemory.Proofs.Independence
import CellMemory.Proofs.WriteBack
import CellMemory.Proofs.Relayout
import CellMemory.Proofs.HeaderCodec
import CellMemory.Proofs.Journal
import CellMemory.Proofs.Messages
import CellMemory.Proofs.Codec
import CellMemory.Proofs.BooleanReports
