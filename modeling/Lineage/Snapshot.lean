import Lineage.CodeTree

namespace Lineage

/-- One version of a code base: its declarations and the bytes of its files. -/
structure Snapshot where
  tree : CodeTree := {}
  files : PathMap ByteArray := {}
  deriving Inhabited

end Lineage
