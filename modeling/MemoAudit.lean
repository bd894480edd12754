import MemoAudit.Analysis
import MemoAudit.CommandLine.Run
import MemoAudit.Discovery.Search
import MemoAudit.Expr.Walk
import MemoAudit.FileSystem.Resolution
import MemoAudit.Finding.Validation
import MemoAudit.Idiom
import MemoAudit.Log
import MemoAudit.Lowering
import MemoAudit.Main
import MemoAudit.Naming
import MemoAudit.ParseTree.Parsed
import MemoAudit.ParseTree.Shape
import MemoAudit.Path
import MemoAudit.Report.Render
import MemoAudit.Rule
import MemoAudit.Settings.Lookup
import MemoAudit.Snapshot
import MemoAudit.Toml.Reader
import MemoAudit.Workspace
import MemoAudit.Proofs.Memoization
import MemoAudit.Proofs.Complaints
import MemoAudit.Proofs.Recognition
import MemoAudit.Proofs.Renaming
import MemoAudit.Proofs.Correction
import MemoAudit.Proofs.Definitions
import MemoAudit.Proofs.Origins
import MemoAudit.Proofs.Anchors
import MemoAudit.Proofs.Totality
import MemoAudit.Proofs.Extras
import MemoAudit.Proofs.Spelling
import MemoAudit.Proofs.OrderIndependence
import MemoAudit.Proofs.Leniency
import MemoAudit.Proofs.Precedence
import MemoAudit.Proofs.Trees
import MemoAudit.Proofs.Discovery
import MemoAudit.Proofs.SoleAssignment
import MemoAudit.Proofs.Branching
import MemoAudit.Proofs.Grouping
import MemoAudit.Proofs.Locating
import MemoAudit.Proofs.Growth
import MemoAudit.Proofs.Persistence
import MemoAudit.Proofs.Monotonicity
import MemoAudit.Proofs.Gathering
import MemoAudit.Proofs.NamingRules
import MemoAudit.Proofs.DocumentOrder
import MemoAudit.Proofs.Relocation
import MemoAudit.Proofs.NormalForm
import MemoAudit.Proofs.Displacement
import MemoAudit.Proofs.Totals
import MemoAudit.Proofs.CleanFiles
import MemoAudit.Proofs.Markup
import MemoAudit.Proofs.Verbatim
import MemoAudit.Proofs.Decoding
import MemoAudit.Proofs.Traversal
import MemoAudit.Proofs.Confinement
import MemoAudit.Proofs.Shortening
import MemoAudit.Proofs.Completeness
