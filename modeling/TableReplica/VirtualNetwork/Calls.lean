import TableReplica.VirtualNetwork.Intents
import TableReplica.Client.Feed

/-!
# Calls on a virtual network

What a caller may ask of a session about the tables of a virtual network. Each call composes one transaction from what the client
knows and submits it; a record is checked before anything is composed.
-/

namespace TableReplica.Session

open VirtualNetwork

variable {σ : Type}

/-- Inserts a record with a name of its own. -/
def addNamed (services : Services σ) (s : Session σ) (record : Record) : Except Error RowId × Session σ :=
  let (names, s) := s.newNames services
  s.submitInsertion services (insertNamed s.client.schema s.client.cache names record)

/-- Deletes the row of a table with the given name. -/
def removeNamed (services : Services σ) (s : Session σ) (table name : String) : Except Error Unit × Session σ :=
  let (_, s) := s.newNames services
  s.submitComposed services (s.client.cache.removeRow table (named name))

def addSwitch (services : Services σ) (s : Session σ) (name : String) : Except Error RowId × Session σ :=
  s.addNamed services (switchModel.blank.set "name" (.text name))

def removeSwitch (services : Services σ) (s : Session σ) (name : String) : Except Error Unit × Session σ :=
  s.removeNamed services switchModel.table name

/-- Adds a group of switch ports. -/
def addGroup (services : Services σ) (s : Session σ) (name : String) (members : List RowId) : Except Error RowId × Session σ :=
  s.addNamed services ((groupModel.blank.set "name" (.text name)).set "ports" (.texts (members.map RowId.text)))

def addAddresses (services : Services σ) (s : Session σ) (name : String) (addresses : List String) :
    Except Error RowId × Session σ :=
  s.addNamed services ((addressSetModel.blank.set "name" (.text name)).set "addresses" (.texts addresses))

def removeAddresses (services : Services σ) (s : Session σ) (name : String) : Except Error Unit × Session σ :=
  s.removeNamed services addressSetModel.table name

/-- Adds to the ports of the switch with the given name. -/
def addSwitchPort (services : Services σ) (s : Session σ) (switch : String) (p : SwitchPort) :
    Except Error RowId × Session σ :=
  match p.check with
  | .error v => (.error (.contract v), s)
  | .ok () =>
    let (names, s) := s.newNames services
    s.submitInsertion services (insertSwitchPort s.client.schema s.client.cache names switch p)

/-- Removes the one with the given name from the ports of its switch, whichever switch that is. -/
def removeSwitchPort (services : Services σ) (s : Session σ) (name : String) : Except Error Unit × Session σ :=
  let (_, s) := s.newNames services
  s.submitComposed services (deleteSwitchPort s.client.cache name)

/-- Adds a rule at a site. -/
def addRule (services : Services σ) (s : Session σ) (site : RuleSite) (rule : AccessRule) : Except Error RowId × Session σ :=
  match rule.check with
  | .error v => (.error (.contract v), s)
  | .ok () =>
    let (names, s) := s.newNames services
    s.submitInsertion services (insertRule s.client.schema s.client.cache names site rule)

/-- Removes the rule with the given direction, priority and packets from a site. -/
def removeRule (services : Services σ) (s : Session σ) (site : RuleSite) (direction : String) (priority : Int64)
    (packets : String) : Except Error Unit × Session σ :=
  let (_, s) := s.newNames services
  s.submitComposed services (deleteRule s.client.cache site direction priority packets)

/-- The rules of a site, in the order in which its row names them, without those the client does not know yet. -/
def rulesAt (c : Client) (site : RuleSite) : Except Error (List AccessRule) := do
  let parent ← site.parent c.cache
  let holder ← c.cache.parentId parent none
  let row ← c.cache.row parent.table holder
  let rules ← (row.links ruleColumn).mapM (fun id => known? (c.record ruleModel id))
  return rules.filterMap id
where
  /-- A rule, unless the client does not know it. -/
  known? : Except Error Record → Except Error (Option AccessRule)
    | .ok record => .ok (some (.ofRecord record))
    | .error e => if e.isMissing then .ok none else .error e

def listRules (services : Services σ) (s : Session σ) (site : RuleSite) : Except Error (List AccessRule) × Session σ :=
  let (_, s) := s.newNames services
  (rulesAt s.client site, s)

end TableReplica.Session
