import LegacyScript.Proofs.Bytes
import LegacyScript.Proofs.Conditional.Evaluation
import LegacyScript.Proofs.Conditional.Skipping
import LegacyScript.Proofs.Machine.Books
import LegacyScript.Proofs.Machine.Bounds
import LegacyScript.Proofs.Machine.Budget
import LegacyScript.Proofs.Machine.ElementSize
import LegacyScript.Proofs.Machine.Failures
import LegacyScript.Proofs.Machine.Frame
import LegacyScript.Proofs.Machine.Operations
import LegacyScript.Proofs.Machine.Validity
import LegacyScript.Proofs.Machine.Visits
import LegacyScript.Proofs.Number.Codec
import LegacyScript.Proofs.Script.Reading
import LegacyScript.Proofs.Signature.Matching
import LegacyScript.Proofs.Signature.Provenance
import LegacyScript.Proofs.Signature.Tests
import LegacyScript.Proofs.Signature.Endings
import LegacyScript.Proofs.Stack.Actions
import LegacyScript.Proofs.Stack.Demands
import LegacyScript.Proofs.Text.Words
import LegacyScript.Verify
import LegacyScript.Proofs.Script.Tiling
import LegacyScript.Proofs.Script.Encoding
import LegacyScript.Proofs.Text.Hex
import LegacyScript.Proofs.Opcode.Names
import LegacyScript.Proofs.Script.Words
import LegacyScript.Proofs.Script.ShortestPush
import LegacyScript.Proofs.Script.Disassembly
import LegacyScript.Proofs.Script.Assembly
import LegacyScript.Proofs.Machine.Agreement
import LegacyScript.Proofs.Machine.Isolation
import LegacyScript.Proofs.Wire.Decoding
import LegacyScript.Proofs.Transaction.Canonical
import LegacyScript.Proofs.Script.Deletion
import LegacyScript.Proofs.Script.Removal
import LegacyScript.Proofs.Script.Segments
import LegacyScript.Proofs.Script.Separators
import LegacyScript.Proofs.Der.Integer
import LegacyScript.Proofs.Signature.Grammar
import LegacyScript.Proofs.Stack.Arithmetic
import LegacyScript.Proofs.Stack.Rearrangement
import LegacyScript.Proofs.Machine.FusedTests
import LegacyScript.Proofs.Machine.PushOnly
import LegacyScript.Proofs.Number.Condition
import LegacyScript.Proofs.Machine.Building
import LegacyScript.Proofs.Machine.Log
import LegacyScript.Proofs.Machine.Causes
import LegacyScript.Proofs.Stack.Depth
