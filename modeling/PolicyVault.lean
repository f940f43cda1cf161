import PolicyVault.Host.Hardening
import PolicyVault.Main
import PolicyVault.Memory.Partition
import PolicyVault.Order.Permutations
import PolicyVault.Policy.Grammar
import PolicyVault.Service.Serve
import PolicyVault.Proofs.Text.Numerals
import PolicyVault.Proofs.Text.Bytes
import PolicyVault.Proofs.Policy.Closure
import PolicyVault.Proofs.Policy.Thompson
import PolicyVault.Proofs.Policy.Trim
import PolicyVault.Proofs.Policy.Subsets
import PolicyVault.Proofs.Policy.Determinization
import PolicyVault.Proofs.Policy.Compilation
import PolicyVault.Proofs.Policy.Parsing
import PolicyVault.Proofs.Policy.Offences
import PolicyVault.Proofs.Policy.Symbols
import PolicyVault.Proofs.Policy.Numbering
import PolicyVault.Proofs.Policy.Bindings
import PolicyVault.Proofs.Policy.Histories
import PolicyVault.Proofs.Memory.Arena
import PolicyVault.Proofs.Memory.Accesses
import PolicyVault.Proofs.Memory.Layout
import PolicyVault.Proofs.Memory.Coalescing
import PolicyVault.Proofs.Memory.FirstFit
import PolicyVault.Proofs.Memory.Locality
import PolicyVault.Proofs.Memory.Canonical
import PolicyVault.Proofs.Vault.Operations
import PolicyVault.Proofs.Vault.Transitions
import PolicyVault.Proofs.Vault.Runs
import PolicyVault.Proofs.Vault.Enforcement
import PolicyVault.Proofs.Vault.Contents
import PolicyVault.Proofs.Vault.Integrity
import PolicyVault.Proofs.Vault.Snapshots
import PolicyVault.Proofs.Vault.Reservation
import PolicyVault.Proofs.Vault.Views
import PolicyVault.Proofs.Vault.Veils
import PolicyVault.Proofs.Vault.Failures
import PolicyVault.Proofs.Wire.Frames
import PolicyVault.Proofs.Wire.Packing
import PolicyVault.Proofs.Wire.Unpacking
import PolicyVault.Proofs.Wire.Requests
import PolicyVault.Proofs.Service.Refusal
import PolicyVault.Proofs.Service.Isolation
import PolicyVault.Proofs.Service.Views
import PolicyVault.Proofs.Service.Answers
import PolicyVault.Proofs.Service.Serving
import PolicyVault.Proofs.Service.Sessions
import PolicyVault.Proofs.Service.Calls
import PolicyVault.Proofs.Service.Secrecy
import PolicyVault.Proofs.Service.Agreement
import PolicyVault.Proofs.CommandLine.HexData
import PolicyVault.Proofs.Console.Dumps
import PolicyVault.Proofs.Console.Reports
import PolicyVault.Proofs.Vault.Atomicity
import PolicyVault.Proofs.Vault.Teardown
import PolicyVault.Proofs.Order.Arrangements
import PolicyVault.Proofs.Order.Visits
