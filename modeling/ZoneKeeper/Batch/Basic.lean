import ZoneKeeper.Error
import ZoneKeeper.Json.Decode

namespace ZoneKeeper

structure BatchItem where
  subname : Option String
  type : Option String
  ttl : Option Int
  records : Option (List String)
  deriving DecidableEq, Repr

inductive BatchShape where
  | single
  | list
  deriving DecidableEq, Repr

structure Batch where
  items : List (Except ItemErrors BatchItem)
  shape : BatchShape

namespace BatchItem

def clearing (subname type : String) : BatchItem := ⟨some subname, some type, none, some []⟩

def isClearing (item : BatchItem) : Bool := item.records.any List.isEmpty

def owner (item : BatchItem) : String := item.subname.getD ""

def structural (field message : String) : Problem := ⟨field, .structural, message⟩

def nullMessage : String := "This field may not be null."

def stringMessage : String := "Must be a string."

abbrev Shaped (α : Type) := ItemErrors × Option α

def readText (field : String) : Option Json → Shaped String
  | none => ([], none)
  | some (.string s) => ([], some s)
  | some .null => ([structural field nullMessage], none)
  | some _ => ([structural field stringMessage], none)

def readTtl : Option Json → Shaped Int
  | none => ([], none)
  | some .null => ([structural "ttl" nullMessage], none)
  | some (.int n) =>
      if -0x8000000000000000 ≤ n && n < 0x8000000000000000 then ([], some n)
      else ([structural "ttl" "A valid integer is required."], none)
  | some _ => ([structural "ttl" "A valid integer is required."], none)

def readRecord (value : Json) : Shaped String := readText "records" (some value)

def readRecords : Option Json → Shaped (List String)
  | none => ([], none)
  | some .null => ([structural "records" nullMessage], none)
  | some (.array values) =>
      (values.flatMap fun value => (readRecord value).1,
        some (values.filterMap fun value => (readRecord value).2))
  | some other =>
      ([structural "records" s!"Expected a list of items but got {other.typeName}."], none)

def ofJson : Json → Except ItemErrors BatchItem
  | .object members =>
      let (subnameErrors, subname) := readText "subname" (Json.lookup? "subname" members)
      let (typeErrors, type) := readText "type" (Json.lookup? "type" members)
      let (ttlErrors, ttl) := readTtl (Json.lookup? "ttl" members)
      let (recordsErrors, records) := readRecords (Json.lookup? "records" members)
      match subnameErrors ++ typeErrors ++ ttlErrors ++ recordsErrors with
      | [] => .ok ⟨subname, type, ttl, records⟩
      | errors => .error errors
  | other =>
      .error [structural Problem.noField s!"Expected an object, but got {other.typeName}."]

end BatchItem

namespace Batch

def ofItem (item : BatchItem) : Batch := ⟨[.ok item], .single⟩

def ofItems (items : List BatchItem) : Batch := ⟨items.map .ok, .list⟩

def ofJson : Json → Except BatchErrors Batch
  | .null => .error (.payload .structural "No data provided")
  | .object members => .ok ⟨[BatchItem.ofJson (.object members)], .single⟩
  | .array values => .ok ⟨values.map BatchItem.ofJson, .list⟩
  | other =>
      .error (.payload .structural
        s!"Expected an object or a list of objects, but got {other.typeName}.")

end Batch

end ZoneKeeper
