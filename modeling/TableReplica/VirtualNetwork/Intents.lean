import TableReplica.VirtualNetwork.Records
import TableReplica.Intent.Basic
import TableReplica.Model.Schema

/-!
# Intents on a virtual network

Each change a caller asks for is one transaction, composed from the rows a client knows. A rule hangs from a switch or a group of
ports, and no two rules of one parent may agree in direction, priority and packets.
-/

namespace TableReplica.VirtualNetwork

/-- The column that holds the rules of a switch or a group of ports. -/
def ruleColumn : String := "acls"

/-- The column that holds the ports of a switch. -/
def switchPortColumn : String := "ports"

/-- The columns of a row with the given name. -/
def named (name : String) : Row := .singleton "name" (.string name)

/-- Rows with a name of their own in their table. -/
def nameKey : RowKey := .inTable ["name"]

def ruleKey : RowKey := .inParent ["direction", "priority", "match"]

/-- The switch with the given name, as the parent of its ports. -/
def switchNamed (switch : String) : Parent := ⟨switchModel.table, switchPortColumn, .key (named switch)⟩

/-- The switch that has a row among its ports. -/
def switchHolder : Parent := ⟨switchModel.table, switchPortColumn, .holder⟩

/-- Where a rule hangs. -/
inductive RuleSite where
  | switch (name : String)
  | group (name : String)
  | row (table : String) (id : RowId)
  /-- The only switch or group of ports with the name. -/
  | anyNamed (name : String)
deriving DecidableEq

namespace RuleSite

/-- The parent of a rule; only a name without a table is looked up. -/
def parent (cache : Cache) : RuleSite → Except Error Parent
  | .switch name => .ok ⟨switchModel.table, ruleColumn, .key (named name)⟩
  | .group name => .ok ⟨groupModel.table, ruleColumn, .key (named name)⟩
  | .row table id =>
    if table = switchModel.table ∨ table = groupModel.table then .ok ⟨table, ruleColumn, .id id⟩
    else .error (.badArgument (.holdsNoRules table))
  | .anyNamed name => cache.onlyParent [(switchModel.table, ruleColumn), (groupModel.table, ruleColumn)] (named name)

end RuleSite

/-- Inserts a record with a name of its own. -/
def insertNamed (schema : Schema) (cache : Cache) (names : NameSupply) (record : Record) : Except Error Insertion := do
  let row ← schema.encode record
  (names.insertRoot cache record.table row nameKey).1

/-- Inserts a row among the ports of the switch with the given name. -/
def insertSwitchPort (schema : Schema) (cache : Cache) (names : NameSupply) (switch : String) (p : SwitchPort) :
    Except Error Insertion := do
  let row ← schema.encode p.toRecord
  (names.insertUnder cache switchPortModel.table row nameKey (switchNamed switch)).1

/-- Inserts a rule and hangs it from the row of its site. -/
def insertRule (schema : Schema) (cache : Cache) (names : NameSupply) (site : RuleSite) (rule : AccessRule) :
    Except Error Insertion := do
  let parent ← site.parent cache
  let row ← schema.encode rule.toRecord
  (names.insertUnder cache ruleModel.table row ruleKey parent).1

/-- The columns of a rule with the given direction, priority and packets. -/
def ruleLike (direction : String) (priority : Int64) (packets : String) : Row :=
  .ofList [("direction", .string direction), ("priority", .integer priority), ("match", .string packets)]

/-- Takes a rule from the row of its site and deletes it. -/
def deleteRule (cache : Cache) (site : RuleSite) (direction : String) (priority : Int64) (packets : String) :
    Except Error Transaction := do
  let parent ← site.parent cache
  cache.removeChild ruleModel.table (ruleLike direction priority packets) parent

/-- Takes the row with the given name from the ports of its switch and deletes it. -/
def deleteSwitchPort (cache : Cache) (name : String) : Except Error Transaction :=
  cache.removeChild switchPortModel.table (named name) switchHolder

end TableReplica.VirtualNetwork
