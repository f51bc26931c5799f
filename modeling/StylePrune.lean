import StylePrune.Main
import StylePrune.Proofs.Prune.Fragment
import StylePrune.Proofs.Prune.Nesting
import StylePrune.Proofs.Prune.Reread
import StylePrune.Proofs.Prune.Repeat
import StylePrune.Proofs.Prune.Collapsing
import StylePrune.Proofs.Stylesheet.Calm
import StylePrune.Proofs.Stylesheet.Columns
import StylePrune.Proofs.Stylesheet.Enclosing
import StylePrune.Proofs.Stylesheet.Member
import StylePrune.Proofs.Stylesheet.Rows
import StylePrune.Proofs.Stylesheet.SelectorList
import StylePrune.Proofs.Stylesheet.Tidy
import StylePrune.Proofs.Prune.Apart
import StylePrune.Proofs.Prune.Glue
import StylePrune.Proofs.Prune.Braces
import StylePrune.Proofs.Prune.Blocks
import StylePrune.Proofs.Stylesheet.Plain
import StylePrune.Proofs.Stylesheet.Rules
import StylePrune.Proofs.Stylesheet.Layout
import StylePrune.Proofs.Prune.LoneLines
import StylePrune.Proofs.Prune.Pruning
import StylePrune.Proofs.Backup.Copies
import StylePrune.Proofs.Backup.Names
import StylePrune.Proofs.Backup.Needs
import StylePrune.Proofs.Backup.RestoringAll
import StylePrune.Proofs.Prune.AllOrNothing
import StylePrune.Proofs.Prune.InStep
import StylePrune.Proofs.Prune.RoundTrip
import StylePrune.Proofs.Analysis.Descent
import StylePrune.Proofs.Analysis.Grouping
import StylePrune.Proofs.Analysis.Partition
import StylePrune.Proofs.Analysis.Placement
import StylePrune.Proofs.Analysis.Sources
import StylePrune.Proofs.Analysis.Threshold
import StylePrune.Proofs.Backup.Answering
import StylePrune.Proofs.Backup.History
import StylePrune.Proofs.Backup.Originals
import StylePrune.Proofs.Backup.Sparing
import StylePrune.Proofs.Prune.Answering
import StylePrune.Proofs.Prune.Deeds
import StylePrune.Proofs.Prune.Predicting
import StylePrune.Proofs.Stylesheet.Spelling
import StylePrune.Proofs.Usage.Reach
import StylePrune.Proofs.Stylesheet.Lineage
import StylePrune.Proofs.Stylesheet.Comments
import StylePrune.Proofs.Prune.Deleting
import StylePrune.Proofs.Text.Takes
import StylePrune.Proofs.Text.Thinning
import StylePrune.Proofs.Text.Padding
import StylePrune.Proofs.Text.LineEnds
import StylePrune.Proofs.Stylesheet.LineFeeds
import StylePrune.Proofs.Stylesheet.Veiling
import StylePrune.Proofs.Stylesheet.Masking
import StylePrune.Proofs.Stylesheet.Padding
import StylePrune.Proofs.Stylesheet.LineEnds
import StylePrune.Proofs.Stylesheet.Groups
import StylePrune.Proofs.Stylesheet.Unmatched
import StylePrune.Proofs.Prune.Pairing
import StylePrune.Proofs.Prune.SameReading
import StylePrune.Proofs.Prune.LineEnds
import StylePrune.Proofs.Files.Listing
import StylePrune.Proofs.Backup.Log
import StylePrune.Proofs.Backup.Accounts
import StylePrune.Proofs.Backup.Atomic
import StylePrune.Proofs.Backup.Checking
