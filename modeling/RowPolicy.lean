import RowPolicy.Form.Metadata
import RowPolicy.Form.Record
import RowPolicy.Guard
import RowPolicy.Proofs.Agreement
import RowPolicy.Proofs.Capture
import RowPolicy.Proofs.FailClosed
import RowPolicy.Proofs.Lexical.Compiled
import RowPolicy.Settings.Load
import RowPolicy.Settings.Logging
import RowPolicy.Proofs.Conjunction
import RowPolicy.Proofs.Grammar
import RowPolicy.Proofs.Joined
import RowPolicy.Proofs.TableNames
import RowPolicy.Proofs.Qualifiers
import RowPolicy.Proofs.Dependence
import RowPolicy.Proofs.Locality
import RowPolicy.Proofs.Evolution
import RowPolicy.Proofs.Provenance
import RowPolicy.Proofs.Synonyms
import RowPolicy.Proofs.Faults
import RowPolicy.Proofs.Lexical.Masked
import RowPolicy.Proofs.ReadBack
import RowPolicy.Proofs.Labels
import RowPolicy.Proofs.Expansion
import RowPolicy.Proofs.Lexical.Names
import RowPolicy.Proofs.Forms
import RowPolicy.Proofs.Lexical.Distinct
import RowPolicy.Proofs.Along
import RowPolicy.Proofs.Runs
import RowPolicy.Proofs.Lexical.Grouped
import RowPolicy.Proofs.CodeValues
import RowPolicy.Proofs.Dispatch
import RowPolicy.Proofs.Encoding
import RowPolicy.Proofs.Warnings
import RowPolicy.Proofs.Lexical.Quoting
import RowPolicy.Proofs.Interleaving
