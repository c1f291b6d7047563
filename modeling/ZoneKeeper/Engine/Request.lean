import ZoneKeeper.CheckIn.Basic
import ZoneKeeper.Engine.Attempt
import ZoneKeeper.Name.DomainName

namespace ZoneKeeper

inductive CheckInStatus where
  | good
  | unchanged
  | noHost
  | badAuth
  | dnsError
  | serverError
  deriving DecidableEq, Repr

namespace CheckInStatus

def token : CheckInStatus → String
  | .good => "good"
  | .unchanged => "nochg"
  | .noHost => "nohost"
  | .badAuth => "badauth"
  | .dnsError => "dnserr"
  | .serverError => "911"

def isSuccess : CheckInStatus → Bool
  | .good => true
  | .unchanged => true
  | _ => false

def ofError : Error → CheckInStatus
  | .notFound _ => .noHost
  | .rejected _ => .dnsError
  | .policy _ => .dnsError
  | .validation _ => .dnsError
  | .conflict _ => .dnsError
  | _ => .serverError

end CheckInStatus

inductive Request where
  | createDomain (principal : Principal) (name : String) (minimumTtl : Option Nat)
  | deleteDomain (principal : Principal) (name : String)
  | domain (principal : Principal) (name : String)
  | get (principal : Principal) (domain : String) (key : Key)
  | list (principal : Principal) (domain : String) (filter : Filter)
  | delete (principal : Principal) (domain : String) (key : Key)
  | write (principal : Principal) (domain : String) (operation : Operation) (payload : Json)
      (minimumTtl : Option Nat)
  | derive (principal : Principal) (domain : String) (operation : Operation) (subname : String)
      (build : List Rrset → Except Error Batch) (minimumTtl : Option Nat)
  /-- Nobody is the principal of a check-in that could not be authenticated. -/
  | checkIn (principal : Option Principal) (domain : String) (checkIn : CheckIn)

inductive Reply where
  | done
  | domain (domain : Domain)
  | view (view : View)
  | views (views : List View)
  | removed (found : Bool)
  | outcome (outcome : BatchOutcome)
  | status (status : CheckInStatus)

namespace Reply

def toJson : Reply → Json
  | .done => .null
  | .domain d => d.toJson
  | .view v => v.toJson
  | .views vs => .array (vs.map View.toJson)
  | .removed found => .bool found
  | .outcome o => o.toJson
  | .status s => .string s.token

end Reply

namespace Request

open Engine

def visibleDomain (principal : Principal) (name : String) : Engine Domain := do
  let name := normalizeDomain name
  match ← call (.getDomain name) with
  | some found => if principal.owns found then return found else throw (.noDomain name)
  | none => throw (.noDomain name)

def check (error? : Option Error) : Engine Unit :=
  match error? with
  | some e => throw e
  | none => return

def nameError? (name : String) : Option Error :=
  match DomainName.read (octets (name ++ ".")) with
  | .error flaw => some (.validation s!"Invalid domain name {name}: {flaw.message}")
  | .ok parsed =>
      if parsed.isRoot || !parsed.isHostname then
        some (.validation s!"Invalid domain name {name}: must be a hostname")
      else none

def floorError? (settings : EngineSettings) (minimumTtl : Nat) : Option Error :=
  if minimumTtl == 0 || settings.maximumTtl < minimumTtl then
    some (.validation s!"Domain minimum TTL must be between 1 and {settings.maximumTtl}")
  else none

def createDomainFor (settings : EngineSettings) (principal : Principal) (name : String)
    (minimumTtl : Option Nat) : Engine Domain := do
  let name := normalizeDomain name
  let minimumTtl := minimumTtl.getD settings.minimumTtl
  check (nameError? name)
  check (floorError? settings minimumTtl)
  locked name do
    let domain := Domain.make name principal.id minimumTtl (← EngineProgram.readClock)
    call (.createDomain domain)
    return domain

def deleteDomainFor (principal : Principal) (name : String) : Engine Unit := do
  let domain ← visibleDomain principal name
  locked domain.name do
    let rrsets ← call (.list domain.name .all)
    let found : Bool ← call (.deleteDomain domain.name)
    if found then
      let now ← EngineProgram.readClock
      EngineProgram.announce ⟨domain.name, rrsets.map fun r => .deleted r.key, now⟩
    else throw (.noDomain domain.name)

def automaticError? (type : String) : Option Error :=
  if RecordType.standing type == .automatic then
    (RecordType.refusal? type).map fun refusal => .policy refusal.message
  else none

def getFor (principal : Principal) (domain : String) (key : Key) : Engine View := do
  let domain ← visibleDomain principal domain
  check (automaticError? key.type)
  match ← call (.get domain.name key) with
  | some rrset => return rrset.view domain.name
  | none => throw (.notFound s!"RRset {key.write} does not exist in {domain.name}")

def listFor (principal : Principal) (domain : String) (filter : Filter) : Engine (List View) := do
  let domain ← visibleDomain principal domain
  check (filter.type.bind automaticError?)
  let rrsets ← call (.list domain.name filter)
  return rrsets.map (Rrset.view domain.name)

def applyFor (settings : EngineSettings) (principal : Principal) (domain : String)
    (job : BatchJob) : Engine BatchOutcome := do
  let domain ← visibleDomain principal domain
  Attempt.retrying settings (Attempt.run settings domain job) settings.maxRetries 0

def deleteFor (settings : EngineSettings) (principal : Principal) (domain : String) (key : Key) :
    Engine Bool := do
  check ((RecordType.refusal? key.type).map fun refusal => .policy refusal.message)
  let batch := Batch.ofItem (.clearing key.subname key.type)
  let outcome ← applyFor settings principal domain ⟨.update, .given batch, none⟩
  return !outcome.deleted.isEmpty

def familyItem? (settings : CheckInSettings) (apex : List Rrset) (family : Family) :
    AddressUpdate → Option BatchItem
  | .preserve => none
  | .set addresses => item addresses
  | .subnet network =>
      let stored := apex.find? (·.type == family.type)
      item (network.rewriteRecords ((stored.map (·.records.toList)).getD []))
where
  item (records : List String) : Option BatchItem :=
    some ⟨some "", some family.type, some settings.ttl, some records⟩

def checkInBatch (settings : CheckInSettings) (updates : List (Family × AddressUpdate))
    (apex : List Rrset) : Batch :=
  .ofItems (updates.filterMap fun (family, update) => familyItem? settings apex family update)

def familyUpdates (checkIn : CheckIn) : Except CheckInFlaw (List (Family × AddressUpdate)) := do
  let updates ← [Family.v4, Family.v6].mapM fun family => do
    return (← checkIn.updateFor family).map (family, ·)
  return updates.filterMap id

def mergeCheckIn (settings : EngineSettings) (principal : Principal) (domain : String)
    (checkIn : CheckIn) : Engine CheckInStatus := do
  let _ ← visibleDomain principal domain
  match familyUpdates checkIn with
  | .error flaw => throw (.validation flaw.message)
  | .ok [] => return .unchanged
  | .ok updates =>
      let build := fun apex => .ok (checkInBatch settings.checkIn updates apex)
      let _ ← applyFor settings principal domain
        ⟨.update, .derived "" build, some settings.checkIn.minimumTtl⟩
      return .good

def checkInFor (settings : EngineSettings) (principal : Option Principal) (domain : String)
    (checkIn : CheckIn) : EngineProgram CheckInStatus :=
  match principal with
  | none => return .badAuth
  | some principal => do
      match ← (mergeCheckIn settings principal domain checkIn).run with
      | .ok status => return status
      | .error e => return .ofError e

def run (settings : EngineSettings) : Request → Engine Reply
  | .createDomain principal name minimumTtl =>
      return .domain (← createDomainFor settings principal name minimumTtl)
  | .deleteDomain principal name => do
      deleteDomainFor principal name
      return .done
  | .domain principal name => return .domain (← visibleDomain principal name)
  | .get principal name key => return .view (← getFor principal name key)
  | .list principal name filter => return .views (← listFor principal name filter)
  | .delete principal name key => return .removed (← deleteFor settings principal name key)
  | .write principal name operation payload minimumTtl =>
      match Batch.ofJson payload with
      | .error errors => throw (.rejected errors)
      | .ok batch =>
          return .outcome (← applyFor settings principal name
            ⟨operation, .given batch, minimumTtl⟩)
  | .derive principal name operation subname build minimumTtl =>
      return .outcome (← applyFor settings principal name
        ⟨operation, .derived subname build, minimumTtl⟩)
  | .checkIn principal name request =>
      return .status (← checkInFor settings principal name request)

end Request

end ZoneKeeper
