import BehaviorTree.Compiler.KeyCheck
import BehaviorTree.Compiler.TreeCheck
import BehaviorTree.Document.KeyText
import BehaviorTree.Document.TreeText
import BehaviorTree.Json.Document
import BehaviorTree.Json.Printer
import BehaviorTree.Json.Token
import BehaviorTree.Json.Value
import BehaviorTree.Node
import BehaviorTree.Number.Quantity
import BehaviorTree.Text.Identifier
import BehaviorTree.Text.Quoted
import BehaviorTree.Tree.Builder
import BehaviorTree.Tree.Hierarchy
import BehaviorTree.Tree.Outline
import BehaviorTree.Journal
import BehaviorTree.Files.Basic
import BehaviorTree.Project.Config
import BehaviorTree.Project.Run
import BehaviorTree.Main
import BehaviorTree.Proofs.Compiler.Verdict
import BehaviorTree.Proofs.Document.RoundTrip
import BehaviorTree.Proofs.Document.EditedTrees
import BehaviorTree.Proofs.Compiler.Mirrors
import BehaviorTree.Proofs.Tree.Renaming
import BehaviorTree.Proofs.Tree.RenamedEdits
import BehaviorTree.Proofs.Document.Reloads
import BehaviorTree.Proofs.Tree.DetachedEdits
import BehaviorTree.Proofs.Document.Links
import BehaviorTree.Proofs.Document.Accounts
import BehaviorTree.Proofs.Document.Omissions
import BehaviorTree.Proofs.Tree.Cycles
import BehaviorTree.Proofs.Document.ChildEdits
import BehaviorTree.Proofs.Document.Departures
import BehaviorTree.Proofs.Document.Redefinitions
import BehaviorTree.Proofs.Document.Reversals
import BehaviorTree.Proofs.Document.LoadedEdges
import BehaviorTree.Proofs.Document.Reordering
import BehaviorTree.Proofs.Document.States
import BehaviorTree.Proofs.Document.Sections
import BehaviorTree.Proofs.Project.Inspection
import BehaviorTree.Proofs.Compiler.Errors
import BehaviorTree.Proofs.Compiler.Keys
import BehaviorTree.Proofs.Compiler.Warnings
import BehaviorTree.Proofs.Document.Keys
import BehaviorTree.Proofs.Tree.Collecting
import BehaviorTree.Proofs.Tree.Searching
import BehaviorTree.Proofs.Project.Compiling
import BehaviorTree.Proofs.Tree.GivenBack
import BehaviorTree.Proofs.Document.GivenBack
import BehaviorTree.Proofs.Document.Admission
