import WasmForge.Buffer
import WasmForge.Emission
import WasmForge.Host.Bridge
import WasmForge.Instr.Lemmas
import WasmForge.Workspace
import WasmForge.Proofs.Journal
import WasmForge.Proofs.Records
import WasmForge.Proofs.Coherence
import WasmForge.Proofs.Readers
import WasmForge.Proofs.Bodies
import WasmForge.Proofs.Sections
import WasmForge.Proofs.Compilation
import WasmForge.Proofs.HostResults
import WasmForge.Proofs.Refinement
import WasmForge.Proofs.Registration
import WasmForge.Proofs.References
import WasmForge.Proofs.BodyTyping
import WasmForge.Proofs.Validation
import WasmForge.Proofs.JsonText
import WasmForge.Proofs.JsonNumbers
import WasmForge.Proofs.JsonGrammar
import WasmForge.Proofs.JsonRecords
import WasmForge.Proofs.MapText
import WasmForge.Proofs.Overrides
import WasmForge.Proofs.Framing
import WasmForge.Proofs.ShortestForms
import WasmForge.Proofs.Frames
import WasmForge.Proofs.BufferWrites
import WasmForge.Proofs.EmbeddedMap
import WasmForge.Proofs.CodeStreams
import WasmForge.Proofs.LocalRuns
import WasmForge.Proofs.Scripts
import WasmForge.Proofs.Naming
import WasmForge.Proofs.Exchange
import WasmForge.Proofs.Interleaving
import WasmForge.Proofs.FreshRuns
import WasmForge.Proofs.EmissionErrors
import WasmForge.Proofs.MapAgreement
import WasmForge.Proofs.Growth
import WasmForge.Proofs.Provisions
import WasmForge.Proofs.ImportLinking
import WasmForge.Proofs.HostCalls
