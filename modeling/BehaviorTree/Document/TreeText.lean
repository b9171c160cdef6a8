import BehaviorTree.Document.Assembly
import BehaviorTree.Document.Numbering
import BehaviorTree.Json.Document
import BehaviorTree.Json.Printer

/-!
# Texts of tree documents
-/

namespace BehaviorTree

open BehaviorTree.Document BehaviorTree.Json

namespace Tree

/-- The text of the document of a tree. -/
def save (tree : Tree) : String :=
  tree.toDocument.toValue.render

/-- The tree of a text, if the text holds a document. -/
def load (text : String) : Except Failure Loaded :=
  (TreeDraft.shape.read text).map TreeDraft.loaded

end Tree

end BehaviorTree
