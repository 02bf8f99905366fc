import Ecma.Inspection
import Ecma.Machine
import Ecma.Proofs.ArgumentsAliasing
import Ecma.Proofs.Array.Length
import Ecma.Proofs.Array.Reentrancy
import Ecma.Proofs.Array.Truncation
import Ecma.Proofs.Assignment
import Ecma.Proofs.Bindings
import Ecma.Proofs.Chains
import Ecma.Proofs.CompleteProperties
import Ecma.Proofs.CompletionValue
import Ecma.Proofs.ContextStack
import Ecma.Proofs.Declaration.Functions
import Ecma.Proofs.Description
import Ecma.Proofs.Detachment
import Ecma.Proofs.EarlyErrors
import Ecma.Proofs.Enumeration
import Ecma.Proofs.Equality
import Ecma.Proofs.Generator.LifeCycle
import Ecma.Proofs.Generator.Resume
import Ecma.Proofs.Hoisting
import Ecma.Proofs.Instantiation
import Ecma.Proofs.Jumps
import Ecma.Proofs.KeyOrder
import Ecma.Proofs.Number.RoundTrip
import Ecma.Proofs.PrimitiveTargets
import Ecma.Proofs.Reconciliation
import Ecma.Proofs.Restriction
import Ecma.Proofs.Spreading
import Ecma.Proofs.StrictTargets
