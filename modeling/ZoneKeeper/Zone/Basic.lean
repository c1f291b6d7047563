import ZoneKeeper.Instant
import ZoneKeeper.Name.Subname
import ZoneKeeper.Sorted.Map

namespace ZoneKeeper

structure Principal where
  id : String
  deriving DecidableEq, Repr

def normalizeDomain (name : String) : String :=
  String.ofList (((name.toList.reverse.dropWhile (· == '.')).reverse).map Char.toLower)

structure Domain where
  name : String
  owner : String
  minimumTtl : Nat
  created : Instant
  published : Option Instant
  deriving DecidableEq, Repr

def Domain.make (name owner : String) (minimumTtl : Nat) (now : Instant) : Domain :=
  ⟨normalizeDomain name, owner, minimumTtl, now, none⟩

def Principal.owns (p : Principal) (d : Domain) : Bool := d.owner == p.id

structure Key where
  subname : String
  type : String
  deriving DecidableEq, Repr

namespace Key

instance : Ord Key := ⟨compareLex (compareOn Key.subname) (compareOn Key.type)⟩

instance : Std.TransOrd Key :=
  inferInstanceAs (Std.TransCmp (compareLex (compareOn Key.subname) (compareOn Key.type)))

instance : Std.LawfulEqOrd Key where
  compare_self := Std.ReflCmp.compare_self
  eq_of_compare {a b} h := by
    have h' : (compare a.subname b.subname).then (compare a.type b.type) = .eq := h
    obtain ⟨hs, ht⟩ := Ordering.then_eq_eq.1 h'
    have := Std.LawfulEqOrd.eq_of_compare hs
    have := Std.LawfulEqOrd.eq_of_compare ht
    cases a
    cases b
    simp_all

def write (k : Key) : String :=
  (if k.subname.isEmpty then "@" else k.subname) ++ "/" ++ k.type

end Key

structure Rrset where
  subname : String
  type : String
  ttl : Nat
  records : SortedSet String
  created : Instant
  touched : Instant

def Rrset.key (r : Rrset) : Key := ⟨r.subname, r.type⟩

structure View where
  domain : String
  name : String
  rrset : Rrset

def Rrset.view (domain : String) (r : Rrset) : View := ⟨domain, ownerName r.subname domain, r⟩

structure Filter where
  subname : Option String
  type : Option String
  deriving DecidableEq, Repr

namespace Filter

def all : Filter := ⟨none, none⟩

def ofSubname (subname : String) : Filter := ⟨some subname, none⟩

def accepts (f : Filter) (r : Rrset) : Bool :=
  f.subname.all (· == r.subname) && f.type.all (· == r.type)

end Filter

end ZoneKeeper
