import KernelForge.Device.Hook
import KernelForge.Launch.Session
import KernelForge.Proofs.Effects
import KernelForge.Proofs.Naming
import KernelForge.Proofs.Flow
import KernelForge.Proofs.Freshness
import KernelForge.Proofs.Pieces
import KernelForge.Proofs.Layout
import KernelForge.Proofs.Braces
import KernelForge.Proofs.Acceptance
import KernelForge.Proofs.Labels
import KernelForge.Proofs.Meaning
import KernelForge.Proofs.Calls
import KernelForge.Proofs.UpToDate
import KernelForge.Proofs.Traversal
import KernelForge.Proofs.Closing
import KernelForge.Proofs.Skeleton
import KernelForge.Proofs.Hygiene
import KernelForge.Proofs.BuildOnce
import KernelForge.Proofs.Arguments
import KernelForge.Proofs.Artifacts
import KernelForge.Proofs.Copies
import KernelForge.Proofs.Crew
import KernelForge.Proofs.CurrentBindings
import KernelForge.Proofs.Faults
import KernelForge.Proofs.Schedules
import KernelForge.Proofs.FiniteMap
import KernelForge.Proofs.Utf8
import KernelForge.Proofs.Discovery
import KernelForge.Proofs.Choice
import KernelForge.Proofs.PhiNames
import KernelForge.Proofs.Execution
import KernelForge.Proofs.ParallelCopies
import KernelForge.Proofs.Traces
import KernelForge.Proofs.AnyOrder
import KernelForge.Proofs.Recursion
import KernelForge.Proofs.Placement
import KernelForge.Proofs.FailedRuns
import KernelForge.Proofs.StringLiterals
import KernelForge.Proofs.ReadBack
import KernelForge.Proofs.Hoisting
import KernelForge.Proofs.Parentheses
import KernelForge.Proofs.AnyDriver
import KernelForge.Proofs.Cells
import KernelForge.Proofs.Slots
import KernelForge.Proofs.Headers
