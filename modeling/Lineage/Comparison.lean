import Lineage.Changes
import Lineage.Config
import Lineage.Report

/-!
Comparing two snapshots under given settings. The settings are checked before anything is scored.
-/

namespace Lineage

/-- The relationships between two snapshots. -/
def findRelationships (config : Config) (before after : Snapshot) :
    Except Error (List Relationship) := do
  let config ← config.validate
  relationships config.threshold before after

/-- The report of what changed between two snapshots. -/
def compareSnapshots (config : Config) (before after : Snapshot) : Except Error Report := do
  Report.build before after (← findRelationships config before after)

end Lineage
