import ContractRegistry.Main
import ContractRegistry.Proofs.Backfill
import ContractRegistry.Proofs.Catalog.Containment
import ContractRegistry.Proofs.Catalog.EnumWidth
import ContractRegistry.Proofs.Catalog.Registration
import ContractRegistry.Proofs.Command.Persisted
import ContractRegistry.Proofs.Elementary
import ContractRegistry.Proofs.Forwarded
import ContractRegistry.Proofs.Layout.Covered
import ContractRegistry.Proofs.Layout.DataSlot
import ContractRegistry.Proofs.Layout.Depth
import ContractRegistry.Proofs.Layout.DerivedSlots
import ContractRegistry.Proofs.Layout.Elements
import ContractRegistry.Proofs.Layout.Failures
import ContractRegistry.Proofs.Layout.Interchange
import ContractRegistry.Proofs.Layout.Occurrence
import ContractRegistry.Proofs.Layout.Overflow
import ContractRegistry.Proofs.Layout.Paths
import ContractRegistry.Proofs.Layout.Reordered
import ContractRegistry.Proofs.Layout.Spans
import ContractRegistry.Proofs.Layout.Storable
import ContractRegistry.Proofs.Layout.Writing
import ContractRegistry.Proofs.Metadata.Equivalent
import ContractRegistry.Proofs.Onboarding.Isolated
import ContractRegistry.Proofs.Onboarding.Retries
import ContractRegistry.Proofs.Source.Accepted
import ContractRegistry.Proofs.Source.Bracketed
import ContractRegistry.Proofs.Source.Cut
import ContractRegistry.Proofs.Source.Derived
import ContractRegistry.Proofs.Source.Flattened
import ContractRegistry.Proofs.Source.Inlined
import ContractRegistry.Proofs.Source.Overrun
import ContractRegistry.Proofs.Source.Precedence
import ContractRegistry.Proofs.Source.ReadBack
import ContractRegistry.Proofs.Source.Repeated
import ContractRegistry.Proofs.Source.Sized
import ContractRegistry.Proofs.Source.Spaced
import ContractRegistry.Proofs.Source.Unrelated
import ContractRegistry.Proofs.Source.Unstored
import ContractRegistry.Proofs.Source.Walk
import ContractRegistry.Proofs.Store.Loaded
import ContractRegistry.Proofs.Store.Registry
import ContractRegistry.Proofs.Store.Reload
import ContractRegistry.Proofs.Store.Shared
import ContractRegistry.Proofs.Word
