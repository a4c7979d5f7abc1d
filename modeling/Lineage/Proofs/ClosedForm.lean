import Lineage.Proofs.Accounting

namespace Lineage

namespace TreePair

open Matching (Splits)

variable {trees : TreePair} {evidence : Evidence} {matching : Matching}

section Once

variable (h : Splits trees.before.levelOrder trees.after.levelOrder (trees.matching evidence))

include h

end Once

end TreePair

end Lineage
