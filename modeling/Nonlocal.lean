import Nonlocal.Main
import Nonlocal.Product
import Nonlocal.Record.Writer
import Nonlocal.Proofs.Attempt
import Nonlocal.Proofs.Tuple.Enumeration
import Nonlocal.Proofs.Tuple.Index
import Nonlocal.Proofs.PartySet.Population
import Nonlocal.Proofs.PartySet.Successor
import Nonlocal.Proofs.PartySet.Enumeration
import Nonlocal.Proofs.Box.Lookup
import Nonlocal.Proofs.Identifier.Separation
import Nonlocal.Proofs.Identifier.Generated
import Nonlocal.Proofs.Identifier.Kinds
import Nonlocal.Proofs.Identifier.Numbered
import Nonlocal.Proofs.Model.Execution
import Nonlocal.Proofs.Disclosure.Stage
import Nonlocal.Proofs.Disclosure.Weights
import Nonlocal.Proofs.Disclosure.CurrentHistory
import Nonlocal.Proofs.Disclosure.Commands
import Nonlocal.Proofs.Disclosure.Modules
import Nonlocal.Proofs.Disclosure.Simulation
import Nonlocal.Proofs.Disclosure.Observation
import Nonlocal.Proofs.Disclosure.Protocol
import Nonlocal.Proofs.Disclosure.Possible
import Nonlocal.Proofs.Disclosure.Progress
import Nonlocal.Proofs.Tuple.Sum
import Nonlocal.Proofs.Tuple.Products
import Nonlocal.Proofs.Box.Completions
import Nonlocal.Proofs.Validity.Demands
import Nonlocal.Proofs.Validity.Settling
import Nonlocal.Proofs.Validity.Outcome
import Nonlocal.Proofs.Validity.Verdict
import Nonlocal.Proofs.Validity.Reports
import Nonlocal.Proofs.Validity.Idle
import Nonlocal.Proofs.Validity.Exact
import Nonlocal.Proofs.Product.Weights
import Nonlocal.Proofs.Product.Independent
import Nonlocal.Proofs.Disclosure.Conditional
import Nonlocal.Proofs.Disclosure.Reproduction
import Nonlocal.Proofs.Disclosure.PendingInputs
import Nonlocal.Proofs.Disclosure.Existence
import Nonlocal.Proofs.Disclosure.Stochastic
import Nonlocal.Proofs.Disclosure.Correspondence
import Nonlocal.Proofs.Disclosure.Identifiers
import Nonlocal.Proofs.Disclosure.WellFormed
import Nonlocal.Proofs.Box.Tabulated
import Nonlocal.Proofs.Tuple.Rearranged
import Nonlocal.Proofs.Box.Reordering
import Nonlocal.Proofs.Validity.Reordering
import Nonlocal.Proofs.Validity.Renumbering
import Nonlocal.Proofs.Source.Finding
import Nonlocal.Proofs.Source.Gaps
import Nonlocal.Proofs.Source.Layouts
import Nonlocal.Proofs.Source.Phrases
import Nonlocal.Proofs.Source.Tokens
import Nonlocal.Proofs.Source.Rules
import Nonlocal.Proofs.Source.Documents
import Nonlocal.Proofs.Decimal.Closest
import Nonlocal.Proofs.Source.Numbers
import Nonlocal.Proofs.Source.Accepted
import Nonlocal.Proofs.Text.Sliced
import Nonlocal.Proofs.Source.Places
import Nonlocal.Proofs.Source.Excerpts
import Nonlocal.Proofs.Source.Origins
import Nonlocal.Proofs.Source.Faithful
import Nonlocal.Proofs.Source.Labels
import Nonlocal.Proofs.Source.Pointed
import Nonlocal.Proofs.Disclosure.Introduced
import Nonlocal.Proofs.Answers
import Nonlocal.Proofs.Requests
import Nonlocal.Proofs.Decimal.Plain
import Nonlocal.Proofs.Disclosure.Legible
import Nonlocal.Proofs.Provenance
import Nonlocal.Proofs.Command.Compile
import Nonlocal.Proofs.Record.RoundTrip
import Nonlocal.Proofs.PartySet.Coverage
import Nonlocal.Proofs.Tuple.Codec
import Nonlocal.Proofs.Disclosure.Preconditions
import Nonlocal.Proofs.Tuple.Count
import Nonlocal.Proofs.IndexSpace
import Nonlocal.Proofs.Source.Matched
import Nonlocal.Proofs.Source.Flaws
import Nonlocal.Proofs.Source.Complaints
