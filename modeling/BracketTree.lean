import BracketTree.Journal
import BracketTree.Main
import BracketTree.Progress
import BracketTree.Proofs.BracketLanguage
import BracketTree.Proofs.FirstNode
import BracketTree.Proofs.Lossless
import BracketTree.Proofs.PathOrder
import BracketTree.Proofs.Pruning
import BracketTree.Proofs.Regrouping
import BracketTree.Proofs.ReportOrder
import BracketTree.Proofs.RulesRoundTrip
import BracketTree.Proofs.Separator
import BracketTree.Proofs.TokenSets
import BracketTree.Proofs.Writing
import BracketTree.StringMap
import BracketTree.Text.Quoted
import BracketTree.Tree
import BracketTree.Vocabulary
import BracketTree.Proofs.RuleFile
import BracketTree.Proofs.Stages
import BracketTree.Proofs.RunMeaning
import BracketTree.Proofs.Ownership
import BracketTree.Proofs.Persistence
import BracketTree.Proofs.Findings
import BracketTree.Proofs.Verdict
import BracketTree.Proofs.Closability
import BracketTree.Proofs.PieceKinds
import BracketTree.Proofs.OpenGroups
import BracketTree.Proofs.StrictErrors
import BracketTree.Proofs.LeftPart
import BracketTree.Proofs.RunningDepth
import BracketTree.Proofs.TreeJson
import BracketTree.Proofs.QuotedText
import BracketTree.Proofs.OutlineLines
import BracketTree.Proofs.PatternSet
import BracketTree.Proofs.Normalizing
import BracketTree.Proofs.PartialRules
import BracketTree.Proofs.ByteOrder
import BracketTree.Proofs.ReportContent
import BracketTree.Proofs.ReportRuns
import BracketTree.Proofs.WithoutFallback
import BracketTree.Proofs.PatternText
import BracketTree.Proofs.WalkTurns
