import Attribution.Main
import Attribution.Proofs.Restrictiveness
import Attribution.Proofs.Splitting
import Attribution.Proofs.Formula
import Attribution.Proofs.Chain
import Attribution.Proofs.Grouping
import Attribution.Proofs.Combining
import Attribution.Proofs.Leading
import Attribution.Proofs.Writing
import Attribution.Proofs.Discovery
import Attribution.Proofs.Encoding
import Attribution.Proofs.Inventory
import Attribution.Proofs.Matching
import Attribution.Proofs.Tagging
import Attribution.Proofs.Walking
import Attribution.Proofs.Stopping
import Attribution.Proofs.Failing
import Attribution.Proofs.Enumerating
import Attribution.Proofs.Repeating
import Attribution.Proofs.Choosing
import Attribution.Proofs.Muting
import Attribution.Proofs.Telling
import Attribution.Proofs.Standing
import Attribution.Proofs.Wording
import Attribution.Proofs.Rewrapping
import Attribution.Proofs.Heading
import Attribution.Proofs.Recognizing
import Attribution.Proofs.Surrounding
import Attribution.Proofs.Naming
import Attribution.Proofs.Joining
import Attribution.Proofs.Levels
import Attribution.Proofs.Raising
import Attribution.Proofs.Recovering
import Attribution.Proofs.Hiding
import Attribution.Proofs.Aligning
import Attribution.Proofs.Painting
import Attribution.Proofs.Ranking
import Attribution.Proofs.Resolving
import Attribution.Proofs.Agreeing
import Attribution.Proofs.Tracing
import Attribution.Proofs.Spelling
import Attribution.Proofs.Delimiting
import Attribution.Proofs.Asking
import Attribution.Proofs.Configuring
import Attribution.Proofs.Appending
