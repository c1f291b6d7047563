import ZoneKeeper.Record.Canonical
import ZoneKeeper.Sorted.Map

namespace ZoneKeeper

inductive RecordSetFlaw where
  | manyRecords
  | atApex
  | belowApex
  | record (name content : String) (flaw : RecordFlaw)
  | duplicate (name content first : String)
  | tooLong (excess : Nat)
  deriving DecidableEq, Repr

namespace RecordSetFlaw

def inRecord (type name content detail : String) : String :=
  s!"Record content of {type} {name} invalid: '{content}': {detail}"

def message (type : String) : RecordSetFlaw → String
  | .manyRecords => s!"{type} RRset cannot have multiple records."
  | .atApex => s!"{type} RRset cannot have empty subname."
  | .belowApex => s!"{type} RRset must have empty subname."
  | .record name content flaw => inRecord type name content (flaw.message type)
  | .duplicate name content first =>
      inRecord type name content s!"Duplicate record content: this is identical to '{first}'"
  | .tooLong excess => s!"Total length of RRset exceeds limit by {excess} bytes."

def isConflict : RecordSetFlaw → Bool
  | .duplicate .. => true
  | _ => false

end RecordSetFlaw

namespace RecordSet

def isSingle (type : String) : Bool := type == "CNAME" || type == "DNAME"

def isBarredFromApex (type : String) : Bool := type == "CNAME" || type == "DS"

def isConfinedToApex (type : String) : Bool := type == "DNSKEY"

def shapeFlaws (type subname : String) (count : Nat) : List RecordSetFlaw :=
  (if isSingle type && count > 1 then [.manyRecords] else [])
    ++ (if isBarredFromApex type && subname.isEmpty && count > 0 then [.atApex] else [])
    ++ (if isConfinedToApex type && !subname.isEmpty && count > 0 then [.belowApex] else [])

def readEach (type name : String) (seen : List CanonicalRecord) :
    List String → List RecordSetFlaw × List CanonicalRecord
  | [] => ([], seen.reverse)
  | content :: rest =>
      match CanonicalRecord.read type content with
      | .error flaw =>
          let (flaws, records) := readEach type name seen rest
          (.record name content flaw :: flaws, records)
      | .ok record =>
          match seen.find? (·.wire == record.wire) with
          | some first =>
              let (flaws, records) := readEach type name seen rest
              (.duplicate name content first.presentation :: flaws, records)
          | none => readEach type name (record :: seen) rest

def maxResponse : Nat := 65535

def estimate (name : String) (records : List String) : Nat :=
  records.foldr (fun record size => 12 + record.utf8ByteSize + size)
    (32 + name.utf8ByteSize + 256)

def lengthFlaws (name : String) (records : List String) : List RecordSetFlaw :=
  let excess := estimate name records - maxResponse
  if excess > 0 then [.tooLong excess] else []

def read (type subname name : String) (contents : List String) :
    Except (List RecordSetFlaw) (SortedSet String) :=
  let (flaws, records) := readEach type name [] contents
  let canonical := SortedSet.ofList (records.map (·.presentation))
  match shapeFlaws type subname contents.length ++ flaws with
  | [] =>
      match lengthFlaws name canonical.toList with
      | [] => .ok canonical
      | flaws => .error flaws
  | flaws => .error flaws

end RecordSet

end ZoneKeeper
