import RenderKit.Main
import RenderKit.Proofs.Schedule.Reordering
import RenderKit.Proofs.Schedule.Schedulability
import RenderKit.Proofs.Shader.Compilation
import RenderKit.Shader.Debug
import RenderKit.Proofs.Shader.Compilability
import RenderKit.Proofs.Schedule.Reference
import RenderKit.Proofs.Shader.Marks
import RenderKit.Proofs.Number.Digits
import RenderKit.Proofs.Json.Scanning
import RenderKit.Proofs.Json.Reading
import RenderKit.Proofs.Number.Nearest
import RenderKit.Proofs.Number.Shortest
import RenderKit.Proofs.Number.Numerals
import RenderKit.Proofs.Number.Separation
import RenderKit.Proofs.Number.Restoring
import RenderKit.Proofs.Time.Calendar
import RenderKit.Proofs.Time.Reading
import RenderKit.Proofs.Document.Decoding
import RenderKit.Proofs.Document.Saving
import RenderKit.Proofs.Schedule.Waves
import RenderKit.Proofs.Shader.Contribution
import RenderKit.Proofs.Shader.Composition
import RenderKit.Proofs.Registry.Reachable
import RenderKit.Proofs.Registry.Reloading
import RenderKit.Proofs.Shader.Refreshing
import RenderKit.Proofs.Schedule.Rearranging
import RenderKit.Proofs.Shader.Removal
import RenderKit.Proofs.Shader.Hygiene
import RenderKit.Proofs.Document.Reloading
import RenderKit.Proofs.Shader.Lookup
import RenderKit.Proofs.Document.Acceptance
import RenderKit.Proofs.Document.Refreshing
import RenderKit.Proofs.Registry.Registration
import RenderKit.Proofs.Schedule.Dependencies
import RenderKit.Proofs.Schedule.Appending
import RenderKit.Proofs.Document.Numbering
import RenderKit.Proofs.Document.Session
import RenderKit.Proofs.Registry.Candidates
import RenderKit.Proofs.Registry.Discovery
import RenderKit.Proofs.Schedule.Stability
import RenderKit.Proofs.Correspondence
import RenderKit.Proofs.Schedule.Widening
import RenderKit.Proofs.Schedule.Isolation
import RenderKit.Proofs.Shader.Matching
import RenderKit.Proofs.Shader.Rewiring
import RenderKit.Proofs.Shader.Pattern
import RenderKit.Proofs.Shader.Renumbering
import RenderKit.Proofs.Shader.Connecting
import RenderKit.Proofs.Shader.Detaching
import RenderKit.Proofs.Definition.Checking
import RenderKit.Proofs.Shader.Fields
import RenderKit.Proofs.Schedule.Rounds
import RenderKit.Proofs.Shader.Substitution
import RenderKit.Proofs.Document.Records
import RenderKit.Proofs.Document.Layout
