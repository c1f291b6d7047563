import ZoneKeeper.Address.Network
import ZoneKeeper.Json.Decode
import ZoneKeeper.Sorted.Map
import ZoneKeeper.Text.Basic

namespace ZoneKeeper

structure CheckIn where
  shared : Option String
  ipv4 : Option String
  ipv6 : Option String
  deriving DecidableEq, Repr

inductive AddressUpdate where
  | set (addresses : List String)
  | subnet (network : Network)
  | preserve
  deriving DecidableEq, Repr

inductive CheckInFlaw where
  | mixed (parameter : String)
  | subnetAmongMany (parameter : String)
  | badSubnet (parameter : String) (flaw : NetworkFlaw)
  deriving DecidableEq, Repr

def CheckInFlaw.message : CheckInFlaw → String
  | .mixed parameter =>
      s!"IP parameter \"{parameter}\" cannot have addresses and \"preserve\" at the same time."
  | .subnetAmongMany parameter =>
      s!"IP parameter \"{parameter}\" cannot use subnet notation with multiple addresses."
  | .badSubnet parameter flaw =>
      s!"IP parameter \"{parameter}\" is an invalid subnet: {flaw.message}"

namespace Family

def type : Family → String
  | .v4 => "A"
  | .v6 => "AAAA"

def parameter : Family → String
  | .v4 => "ipv4"
  | .v6 => "ipv6"

def separator : Family → Char
  | .v4 => '.'
  | .v6 => ':'

end Family

namespace AddressUpdate

def parts (value : String) : List String :=
  (splitOn ',' value.toList).map fun part => String.ofList (Text.trimChars part)

def hasSlash (value : String) : Bool := value.toList.contains '/'

def readSubnet (parameter : String) (family : Family) (value : String) :
    Except CheckInFlaw AddressUpdate :=
  match Network.read family (octets value) with
  | .ok network => .ok (.subnet network)
  | .error flaw => .error (.badSubnet parameter flaw)

def ofValues (parameter : String) (family : Family) : List String → Except CheckInFlaw AddressUpdate
  | [value] =>
      if value == "" then .ok (.set [])
      else if value == "preserve" then .ok .preserve
      else if hasSlash value then readSubnet parameter family value
      else .ok (.set [value])
  | values =>
      if values.contains "" || values.contains "preserve" then .error (.mixed parameter)
      else if values.any hasSlash then .error (.subnetAmongMany parameter)
      else .ok (.set values)

def read (family : Family) (value : String) : Except CheckInFlaw AddressUpdate :=
  ofValues family.parameter family (SortedSet.ofList (parts value)).toList

def concerns (family : Family) (part : String) : Bool :=
  part.toList.contains family.separator || part == "" || part == "preserve"

def readShared (family : Family) (value : String) : Except CheckInFlaw (Option AddressUpdate) :=
  match (SortedSet.ofList ((parts value).filter (concerns family))).toList with
  | [] => .ok none
  | values => (ofValues "myip" family values).map some

end AddressUpdate

namespace CheckIn

def ofOwn (family : Family) : Option String → Except CheckInFlaw (Option AddressUpdate)
  | none => .ok none
  | some value => (AddressUpdate.read family value).map some

def ofShared (family : Family) : Option String → Except CheckInFlaw (Option AddressUpdate)
  | none => .ok none
  | some value => AddressUpdate.readShared family value

/-- For IPv4 the shared value goes first, for IPv6 the family's own. -/
def updateFor (c : CheckIn) : Family → Except CheckInFlaw (Option AddressUpdate)
  | .v4 => do
      match ← ofShared .v4 c.shared with
      | some update => return some update
      | none => ofOwn .v4 c.ipv4
  | .v6 => do
      match ← ofOwn .v6 c.ipv6 with
      | some update => return some update
      | none => ofShared .v6 c.shared

def ofJson? (value : Json) : Option CheckIn := do
  match ← value.fields? [["myip"], ["ipv4", "ip", "myipv4"], ["ipv6", "myipv6"]] with
  | [shared, ipv4, ipv6] =>
      return ⟨← Json.withDefault none (Json.optional? Json.string?) shared,
        ← Json.withDefault none (Json.optional? Json.string?) ipv4,
        ← Json.withDefault none (Json.optional? Json.string?) ipv6⟩
  | _ => none

end CheckIn

def Network.rewriteRecords (network : Network) (records : List String) : List String :=
  records.filterMap fun record => do
    let address ← Address.read? network.address.family (octets record)
    return (← network.rewrite? address).write.text

end ZoneKeeper
