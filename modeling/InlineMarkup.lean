import InlineMarkup.Compile
import InlineMarkup.Proofs.Compile
import InlineMarkup.Proofs.Generated.Agreement
import InlineMarkup.Proofs.Markup.Balance
import InlineMarkup.Proofs.Markup.Reread
import InlineMarkup.Proofs.Reconcile.Outcome
import InlineMarkup.Proofs.Reconcile.Recognition
import InlineMarkup.Proofs.Region.Adjacency
import InlineMarkup.Proofs.Region.Items
import InlineMarkup.Proofs.Region.Unfinished
import InlineMarkup.Proofs.Reconcile.Residue
import InlineMarkup.Proofs.Region.Rescan
import InlineMarkup.Proofs.Generated.Translation
import InlineMarkup.Proofs.Markup.Fault
import InlineMarkup.Proofs.Diagnostic
import InlineMarkup.Proofs.Reconcile.Ranges
import InlineMarkup.Proofs.Segment.Reprint
import InlineMarkup.Proofs.Markup.Extension
import InlineMarkup.Proofs.Markup.Opening
import InlineMarkup.Proofs.Resolution
import InlineMarkup.Proofs.Markup.Reference
import InlineMarkup.Proofs.Region.Withheld
import InlineMarkup.Proofs.Report
import InlineMarkup.Proofs.Generated.Layout
import InlineMarkup.Proofs.TagTable
import InlineMarkup.Proofs.Host.Enclosed
import InlineMarkup.Proofs.Generated.Handler
import InlineMarkup.Proofs.Markup.Termination
