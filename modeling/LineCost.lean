import LineCost.Main
import LineCost.Pattern.Lemmas
import LineCost.Proofs.Attribution.Handouts
import LineCost.Proofs.Attribution.DirectPass
import LineCost.Proofs.Attribution.RangePass
import LineCost.Proofs.Attribution.Exactness
import LineCost.Proofs.Attribution.ConsumeOnce
import LineCost.Proofs.Text.Codec
import LineCost.Proofs.Outline.Tokens
import LineCost.Proofs.Outline.Steps
import LineCost.Proofs.Outline.Loaded
import LineCost.Proofs.Attribution.Frame
import LineCost.Proofs.Outline.RoundTrip
import LineCost.Proofs.Listing.Blocks
import LineCost.Proofs.Listing.Sections
import LineCost.Proofs.Listing.Rows
import LineCost.Proofs.Listing.Exactness
import LineCost.Proofs.Attribution.Reconciliation
import LineCost.Proofs.Cost.Lookup
import LineCost.Proofs.Outline.Grammar
import LineCost.Proofs.Run.LineCosts
import LineCost.Proofs.Listing.OneTable
import LineCost.Proofs.Listing.Isolation
import LineCost.Proofs.Run.AllOrNothing
import LineCost.Proofs.Run.Again
import LineCost.Proofs.Attribution.Confined
import LineCost.Proofs.Attribution.Keys
import LineCost.Proofs.Attribution.Rounds
import LineCost.Proofs.Run.Accounts
import LineCost.Proofs.Attribution.BlockOrder
import LineCost.Proofs.Attribution.Leftovers
import LineCost.Proofs.Attribution.Partition
import LineCost.Proofs.Listing.Extents
import LineCost.Proofs.Attribution.Contributions
import LineCost.Proofs.Cost.Filing
import LineCost.Proofs.Cost.CaseBlind
import LineCost.Proofs.Cost.Unambiguous
import LineCost.Proofs.Cost.History
import LineCost.Proofs.Listing.Balanced
import LineCost.Proofs.Run.Recording
import LineCost.Proofs.Run.Accumulation
import LineCost.Proofs.Outline.FirstFault
import LineCost.Proofs.Attribution.Guarded
import LineCost.Proofs.Listing.Printed
import LineCost.Proofs.Text.Spelling
import LineCost.Proofs.Listing.Overflow
import LineCost.Proofs.Run.Checked
