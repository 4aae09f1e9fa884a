import Conformance.Class
import Conformance.Signature
import Conformance.Kind
import Conformance.Number.Binary64
import Conformance.Number.Read
import Conformance.Number.Shortest
import Conformance.Text.Decimal
import Conformance.Text.Printable
import Conformance.Model
import Conformance.Stamp
import Conformance.Value.Basic
import Conformance.Value.Equal
import Conformance.Value.Spelling
import Conformance.Value.Property
import Conformance.Descriptor.Inspect
import Conformance.Rule
import Conformance.Record
import Conformance.Run
import Conformance.Rule.Decide
import Conformance.Stack
import Conformance.Check
import Conformance.Descriptor.Issue
import Conformance.Failure
import Conformance.Value.Convert
import Conformance.Value.Call
import Conformance.Value.Derive
import Conformance.Descriptor.Build
import Conformance.Descriptor.Inspection
import Conformance.Kind.Parse
import Conformance.Catalog
import Conformance.Scope
import Conformance.Eval
import Conformance.Session
import Conformance.Toml.Basic
import Conformance.Toml.Quoted
import Conformance.Toml.Scalar
import Conformance.Toml.Table
import Conformance.Toml.Document
import Conformance.Workspace
import Conformance.Settings
import Conformance.Proofs.Schema
import Conformance.Proofs.Inspect
import Conformance.Proofs.Acceptance
import Conformance.Proofs.Dispatch
import Conformance.Proofs.Fits
import Conformance.Proofs.Listed
import Conformance.Proofs.Sameness
import Conformance.Proofs.Meaning
import Conformance.Proofs.Soundness
import Conformance.Proofs.Exactness
import Conformance.Proofs.Transitivity
import Conformance.Proofs.Subsumption
import Conformance.Proofs.Correspondence
import Conformance.Proofs.Reflexivity
import Conformance.Proofs.Height
import Conformance.Proofs.Legible
import Conformance.Proofs.Inquiry
import Conformance.Proofs.Limits
import Conformance.Proofs.Sharing
import Conformance.Proofs.Rearrangement
import Conformance.Proofs.Replacement
import Conformance.Proofs.Robustness
import Conformance.Proofs.Trace
import Conformance.Proofs.Outcome
import Conformance.Proofs.Contents
import Conformance.Proofs.Making
import Conformance.Proofs.Construction
import Conformance.Proofs.Precedence
import Conformance.Proofs.Room
import Conformance.Proofs.Context
import Conformance.Proofs.Wrappers
import Conformance.Proofs.Fieldwise
import Conformance.Proofs.Options
import Conformance.Proofs.Enumeration
import Conformance.Proofs.Merging
import Conformance.Proofs.Conjunction
import Conformance.Proofs.Extension
import Conformance.Proofs.Loading
import Conformance.Proofs.Tabulation
import Conformance.Proofs.Children
import Conformance.Proofs.Unusable
import Conformance.Proofs.Ledger
import Conformance.Proofs.Evaluation
import Conformance.Proofs.Fixed
import Conformance.Proofs.Change
import Conformance.Proofs.Immutability
import Conformance.Proofs.Naming
