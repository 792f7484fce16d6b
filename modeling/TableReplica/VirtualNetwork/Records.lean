import TableReplica.Model.Basic

/-!
# The tables of a virtual network

Five tables: switches, the ports of switches, groups of such ports, the access rules that hang from switches and groups, and named
sets of addresses.

Access rules and switch ports are the records that a caller writes whole, with checks that they must pass before anything is
composed.
-/

namespace TableReplica.VirtualNetwork

def switchModel : Model :=
  .ofFields "LogicalSwitch" "Logical_Switch" [
    .ofId "uuid",
    .mandatory "name" .string,
    .plain "ports" .references,
    .plain "acls" .references,
    .plain "other_config" .map,
    .plain "external_ids" .map]

def switchPortModel : Model :=
  .ofFields "LogicalSwitchPort" "Logical_Switch_Port" [
    .ofId "uuid",
    .mandatory "name" .string,
    .plain "addresses" .strings,
    .plain "port_security" .strings,
    .plain "tag" .integerOption,
    .plain "enabled" .booleanOption,
    .plain "external_ids" .map]

def groupModel : Model :=
  .ofFields "PortGroup" "Port_Group" [
    .ofId "uuid",
    .mandatory "name" .string,
    .plain "ports" .references,
    .plain "acls" .references,
    .plain "external_ids" .map]

def ruleModel : Model :=
  .ofFields "Acl" "ACL" [
    .ofId "uuid",
    .plain "name" .stringOption,
    .mandatory "direction" .string,
    .mandatory "priority" .integer,
    .mandatory "match" .string,
    .mandatory "action" .string,
    .plain "log" .boolean,
    .plain "severity" .stringOption,
    .plain "external_ids" .map]

def addressSetModel : Model :=
  .ofFields "AddressSet" "Address_Set" [
    .ofId "uuid",
    .mandatory "name" .string,
    .plain "addresses" .strings,
    .plain "external_ids" .map]

/-- The models of all five tables. -/
def models : List Model := [switchModel, switchPortModel, groupModel, ruleModel, addressSetModel]

/-! ## Access rules and switch ports -/

/-- An access rule. -/
structure AccessRule where
  id : String := ""
  name : Option String := none
  direction : String
  priority : Int64
  /-- The packets the rule is about. -/
  packets : String
  action : String
  log : Bool := false
  severity : Option String := none
  labels : SortedMap String String := ∅
deriving DecidableEq

namespace AccessRule

def directions : List String := ["from-lport", "to-lport"]

def actions : List String := ["allow", "allow-related", "allow-stateless", "drop", "reject", "pass"]

/-- The first thing wrong with a rule: its priority, its direction, its action, or that it is about no packets. -/
def check (a : AccessRule) : Except Violation Unit :=
  if ¬Quantity.rulePriority.Holds a.priority.toInt then .error (.outOfRange .rulePriority (.ofInt a.priority.toInt))
  else if a.direction ∉ directions then .error (.malformed .ruleDirection)
  else if a.action ∉ actions then .error (.malformed .ruleAction)
  else if a.packets.isEmpty then .error (.malformed .ruleMatch)
  else .ok ()

def toRecord (a : AccessRule) : Record where
  type := ruleModel.type
  table := ruleModel.table
  fields := .ofList [
    ("uuid", .text a.id),
    ("name", .textOption a.name),
    ("direction", .text a.direction),
    ("priority", .integer a.priority),
    ("match", .text a.packets),
    ("action", .text a.action),
    ("log", .boolean a.log),
    ("severity", .textOption a.severity),
    ("external_ids", .textMap a.labels)]

def ofRecord (r : Record) : AccessRule where
  id := r.text "uuid"
  name := r.textOption "name"
  direction := r.text "direction"
  priority := r.integer "priority"
  packets := r.text "match"
  action := r.text "action"
  log := r.boolean "log"
  severity := r.textOption "severity"
  labels := r.textMap "external_ids"

end AccessRule

/-- One of the ports of a virtual switch. -/
structure SwitchPort where
  id : String := ""
  name : String
  addresses : List String := []
  allowedAddresses : List String := []
  /-- The tag of its virtual network. -/
  tag : Option Int64 := none
  enabled : Option Bool := none
  labels : SortedMap String String := ∅
deriving DecidableEq

namespace SwitchPort

/-- The first thing wrong with it: that it has no name, or its tag. -/
def check (p : SwitchPort) : Except Violation Unit :=
  if p.name.isEmpty then .error (.malformed .switchPortName)
  else match p.tag with
    | none => .ok ()
    | some tag =>
      if Quantity.switchPortTag.Holds tag.toInt then .ok () else .error (.outOfRange .switchPortTag (.ofInt tag.toInt))

def toRecord (p : SwitchPort) : Record where
  type := switchPortModel.type
  table := switchPortModel.table
  fields := .ofList [
    ("uuid", .text p.id),
    ("name", .text p.name),
    ("addresses", .texts p.addresses),
    ("port_security", .texts p.allowedAddresses),
    ("tag", .integerOption p.tag),
    ("enabled", .booleanOption p.enabled),
    ("external_ids", .textMap p.labels)]

def ofRecord (r : Record) : SwitchPort where
  id := r.text "uuid"
  name := r.text "name"
  addresses := r.texts "addresses"
  allowedAddresses := r.texts "port_security"
  tag := r.integerOption "tag"
  enabled := r.booleanOption "enabled"
  labels := r.textMap "external_ids"

end SwitchPort

end TableReplica.VirtualNetwork
