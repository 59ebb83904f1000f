import Disclosure.Text
import Disclosure.FilePath
import Disclosure.Bytes
import Disclosure.Field
import Disclosure.Json.Basic
import Disclosure.Json.Reader
import Disclosure.Json.Decoder
import Disclosure.Signal
import Disclosure.Circuit
import Disclosure.Policy.Label
import Disclosure.Policy
import Disclosure.Trustee
import Disclosure.Json.Ordered
import Disclosure.Credential
import Disclosure.Claim.Flattening
import Disclosure.Claim.Sparse
import Disclosure.Issuer
import Disclosure.Material
import Disclosure.Build
import Disclosure.Proofs.Bytes.Number
import Disclosure.Proofs.Outcome
import Disclosure.Proofs.Text.Characters
import Disclosure.Proofs.Claim.Node
import Disclosure.Proofs.Claim.Rank
import Disclosure.Proofs.Claim.Commitment
import Disclosure.Proofs.Build.Session
import Disclosure.Proofs.Claim.Flattening
import Disclosure.Proofs.Claim.Inclusion
import Disclosure.Proofs.Signal.Shape
import Disclosure.Proofs.Policy.Table
import Disclosure.Proofs.Build.Faults
import Disclosure.Proofs.Build.Buildable
import Disclosure.Proofs.Build.Resolution
import Disclosure.Proofs.Build.Inclusion
import Disclosure.Proofs.Build.SideBySide
import Disclosure.Proofs.Build.Selective
import Disclosure.Proofs.Assignment
import Disclosure.Proofs.Build.Enlargement
import Disclosure.Proofs.Build.Mapping
import Disclosure.Proofs.Build.Canonical
import Disclosure.Proofs.Claim.Reference
import Disclosure.Proofs.Claim.Contract
import Disclosure.Proofs.Build.Frame
import Disclosure.Proofs.Build.Consultation
import Disclosure.Proofs.Build.Relevance
import Disclosure.Proofs.Build.Warning
import Disclosure.Proofs.Json.Leaf
import Disclosure.Proofs.Claim.Collision
import Disclosure.Proofs.Json.Printed
import Disclosure.Proofs.Json.Record
import Disclosure.Proofs.Signal.Grammar
import Disclosure.Proofs.FileForm.Decoding
import Disclosure.Proofs.FileForm.Survival
import Disclosure.Proofs.Bytes.Hex
import Disclosure.Proofs.Issuer.Wire
import Disclosure.Proofs.Policy.Binding
import Disclosure.Proofs.Policy.Display
import Disclosure.Proofs.Text.Numeral
import Disclosure.Proofs.Policy.Heading
import Disclosure.Proofs.Claim.Deepening
import Disclosure.Proofs.Text.DecimalGrammar
import Disclosure.Proofs.Trustee.Selection
import Disclosure.Proofs.Build.Requestable
import Disclosure.Proofs.Field.Codec
import Disclosure.Proofs.Claim.Encoding
import Disclosure.Proofs.Build.Refusal
import Disclosure.Proofs.Circuit.Descriptor
