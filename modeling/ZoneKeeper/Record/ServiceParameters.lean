import ZoneKeeper.Text.Token
import ZoneKeeper.Text.Base64
import ZoneKeeper.Address.IPv6
import ZoneKeeper.RecordType.Code

namespace ZoneKeeper

inductive ServiceValue where
  | mandatory (keys : List UInt16)
  | alpn (ids : List Octets)
  | noDefaultAlpn
  | port (number : UInt16)
  | ipv4Hint (addresses : List IPv4)
  | ech (bytes : Octets)
  | ipv6Hint (addresses : List IPv6)
  | other (bytes : Octets)
  deriving DecidableEq, Repr

structure ServiceParameters where
  entries : List (UInt16 × ServiceValue)
  deriving DecidableEq, Repr

inductive ServiceFlaw where
  | unexpectedQuoted (text : Octets)
  | unknownKey (name : Octets)
  | duplicateKey (name : Octets)
  | missingKey (name : Octets)
  | needlessValue (name : Octets)
  | missingValue (name : Octets)
  | badValue (what : String) (text : Octets)
  deriving DecidableEq, Repr

def ServiceFlaw.message : ServiceFlaw → String
  | .unexpectedQuoted text => "unexpected quoted value \"" ++ text.text ++ "\""
  | .unknownKey name => "unknown SvcParamKey '" ++ name.text ++ "'"
  | .duplicateKey name => "duplicate SvcParamKey '" ++ name.text ++ "'"
  | .missingKey name => "mandatory SvcParamKey '" ++ name.text ++ "' is missing"
  | .needlessValue name => name.text ++ " takes no value"
  | .missingValue name => name.text ++ " requires a value"
  | .badValue what text => "invalid " ++ what ++ " '" ++ text.text ++ "'"

namespace ServiceKey

def mandatory : UInt16 := 0
def alpn : UInt16 := 1
def noDefaultAlpn : UInt16 := 2
def port : UInt16 := 3
def ipv4Hint : UInt16 := 4
def ech : UInt16 := 5
def ipv6Hint : UInt16 := 6

def names : List (String × UInt16) :=
  [("mandatory", mandatory), ("alpn", alpn), ("no-default-alpn", noDefaultAlpn), ("port", port),
   ("ipv4hint", ipv4Hint), ("ech", ech), ("ipv6hint", ipv6Hint)]

def code? (text : Octets) : Option UInt16 :=
  let lower := text.lower
  match names.find? fun (name, _) => octets name == lower with
  | some (_, code) => some code
  | none => RecordType.numbered? (octets "key") lower

def name (code : UInt16) : Octets :=
  match names.find? fun (_, n) => n == code with
  | some (name, _) => octets name
  | none => octets "key" ++ Decimal.write code.toNat

def read (text : Octets) : Except ServiceFlaw UInt16 :=
  match code? text with
  | some key => .ok key
  | none => .error (.unknownKey text)

end ServiceKey

namespace ServiceValue

def readKeys (text : Octets) (seen : List UInt16) : List Octets → Except ServiceFlaw (List UInt16)
  | [] => .ok seen.reverse
  | item :: rest => do
      let key ← ServiceKey.read item
      if key == ServiceKey.mandatory || seen.contains key then
        .error (.badValue "mandatory list" text)
      else readKeys text (key :: seen) rest

def sortKeys (keys : List UInt16) : List UInt16 := keys.mergeSort (· ≤ ·)

def orBad (what : String) (text : Octets) {α : Type} : Option α → Except ServiceFlaw α
  | some a => .ok a
  | none => .error (.badValue what text)

def isAlpnId (id : Octets) : Bool := !id.isEmpty && id.length ≤ 255

def readKnown (key : UInt16) (value : Octets) : Except ServiceFlaw ServiceValue :=
  let text := value.repair
  let items := text.splitOn Octet.comma
  if key == ServiceKey.mandatory then
    (readKeys text [] items).map fun keys => .mandatory (sortKeys keys)
  else if key == ServiceKey.alpn then
    orBad "alpn list" text (if items.all isAlpnId then some (.alpn items) else none)
  else if key == ServiceKey.port then
    orBad "port" text ((Decimal.readBits? 16 text).map fun n => .port (UInt16.ofNat n))
  else if key == ServiceKey.ipv4Hint then
    orBad "ipv4hint" text ((items.mapM IPv4.readStrict?).map .ipv4Hint)
  else if key == ServiceKey.ech then
    orBad "ech" text ((Base64.read? value).map .ech)
  else
    orBad "ipv6hint" text ((items.mapM IPv6.read?).map .ipv6Hint)

def read (key : UInt16) (value : Option Octets) : Except ServiceFlaw ServiceValue :=
  if key == ServiceKey.noDefaultAlpn then
    match value with
    | none => .ok .noDefaultAlpn
    | some _ => .error (.needlessValue (ServiceKey.name key))
  else if key > ServiceKey.ipv6Hint then .ok (.other (value.getD []))
  else
    match value with
    | none => .error (.missingValue (ServiceKey.name key))
    | some [] => .error (.missingValue (ServiceKey.name key))
    | some value => readKnown key value

def wire : ServiceValue → Octets
  | .mandatory keys => keys.flatMap be16
  | .alpn ids => ids.flatMap counted
  | .noDefaultAlpn => []
  | .port number => be16 number
  | .ipv4Hint addresses => addresses.flatMap IPv4.bytes
  | .ech bytes => bytes
  | .ipv6Hint addresses => addresses.flatMap IPv6.bytes
  | .other bytes => bytes

def write : ServiceValue → Octets
  | .mandatory keys => Octet.equal :: Octets.joinWith [Octet.comma] (keys.map ServiceKey.name)
  | .alpn ids => Octet.equal :: Octets.joinWith [Octet.comma] ids
  | .noDefaultAlpn => []
  | .port number => Octet.equal :: Decimal.write number.toNat
  | .ipv4Hint addresses => Octet.equal :: Octets.joinWith [Octet.comma] (addresses.map IPv4.write)
  | .ech bytes => Octet.equal :: Octet.quote :: Base64.write bytes ++ [Octet.quote]
  | .ipv6Hint addresses => Octet.equal :: Octets.joinWith [Octet.comma] (addresses.map IPv6.write)
  | .other bytes => Octet.equal :: bytes.quoted

end ServiceValue

namespace ServiceParameters

def insert? (key : UInt16) (value : ServiceValue) :
    List (UInt16 × ServiceValue) → Option (List (UInt16 × ServiceValue))
  | [] => some [(key, value)]
  | (k, v) :: rest =>
      if key < k then some ((key, value) :: (k, v) :: rest)
      else if key == k then none
      else (insert? key value rest).map ((k, v) :: ·)

def missing (entries : List (UInt16 × ServiceValue)) : List UInt16 :=
  match entries with
  | (_, .mandatory keys) :: _ => keys.filter fun key => !entries.any (·.1 == key)
  | _ => []

def add (entries : List (UInt16 × ServiceValue)) (name : Octets) (value : Option Octets) :
    Except ServiceFlaw (List (UInt16 × ServiceValue)) := do
  let key ← ServiceKey.read name
  let value ← ServiceValue.read key value
  match insert? key value entries with
  | some entries => .ok entries
  | none => .error (.duplicateKey (ServiceKey.name key))

def split (token : Token) : Octets × Option Octets :=
  match token.bytes.cut Octet.equal with
  | some (name, value) => (name.repair, some value)
  | none => (token.text, none)

inductive Item where
  | entry (name : Octets) (value : Option Octets)
  | stray (text : Octets)
  deriving DecidableEq, Repr

def Item.ofToken (token : Token) : Item :=
  if token.quoted then .stray token.text
  else match split token with
    | (name, value) => .entry name value

def openKey? (token : Token) : Option Octets :=
  if token.quoted then none
  else match split token with
    | (name, some []) => some name
    | _ => none

def items : List Token → List Item
  | [] => []
  | [token] => [.ofToken token]
  | token :: next :: rest =>
      match openKey? token with
      | some name =>
          if next.quoted then .entry name (some next.bytes) :: items rest
          else .entry name (some []) :: items (next :: rest)
      | none => .ofToken token :: items (next :: rest)

def addItems (entries : List (UInt16 × ServiceValue)) :
    List Item → Except ServiceFlaw (List (UInt16 × ServiceValue))
  | [] => .ok entries
  | .stray text :: _ => .error (.unexpectedQuoted text)
  | .entry name value :: rest => do addItems (← add entries name value) rest

def read (tokens : List Token) : Except ServiceFlaw ServiceParameters := do
  let entries ← addItems [] (items tokens)
  match missing entries with
  | [] => .ok ⟨entries⟩
  | key :: _ => .error (.missingKey (ServiceKey.name key))

def isEmpty (p : ServiceParameters) : Bool := p.entries.isEmpty

def wireEntry (key : UInt16) (value : ServiceValue) : Octets :=
  be16 key ++ be16 (UInt16.ofNat value.wire.length) ++ value.wire

def wire (p : ServiceParameters) : Octets :=
  p.entries.flatMap fun (key, value) => wireEntry key value

def words (p : ServiceParameters) : List Octets :=
  p.entries.map fun (key, value) => ServiceKey.name key ++ value.write

end ServiceParameters

end ZoneKeeper
