import ZoneKeeper.Proofs.Sorted.Map
import ZoneKeeper.Store.Call

namespace ZoneKeeper

namespace Zone

def put (zone : Zone) (key : Key) (left : Option Rrset) : Zone :=
  match left with
  | some rrset => { zone with rrsets := zone.rrsets.insert key rrset }
  | none => { zone with rrsets := zone.rrsets.erase key }

def IsKeyed (zone : Zone) : Prop := ∀ key r, zone.rrsets.get? key = some r → r.key = key

@[simp] theorem domain_put (zone : Zone) (key : Key) (left : Option Rrset) :
    (zone.put key left).domain = zone.domain := by
  cases left <;> rfl

theorem get?_put (zone : Zone) (key k : Key) (left : Option Rrset) :
    (zone.put key left).rrsets.get? k = if k = key then left else zone.rrsets.get? k := by
  cases left with
  | none => exact SortedMap.get?_erase ..
  | some r => exact SortedMap.get?_insert ..

theorem ext_get? {a b : Zone} (hd : a.domain = b.domain)
    (hr : ∀ key, a.rrsets.get? key = b.rrsets.get? key) : a = b := by
  cases a
  cases b
  obtain rfl := SortedMap.ext_get? hr
  obtain rfl := hd
  rfl

theorem IsKeyed.put {zone : Zone} (h : zone.IsKeyed) {key : Key} {left : Option Rrset}
    (hleft : ∀ r ∈ left, r.key = key) : (zone.put key left).IsKeyed := by
  intro k r hr
  rw [get?_put] at hr
  split at hr
  · next hk => rw [hk]; exact hleft r hr
  · exact h k r hr

end Zone

namespace Zones

def zone? (zones : Zones) (name : String) : Option Zone := SortedMap.get? zones name

def IsNamed (zones : Zones) : Prop :=
  ∀ name zone, zones.zone? name = some zone → zone.domain.name = name

def IsKeyed (zones : Zones) : Prop := ∀ name zone, zones.zone? name = some zone → zone.IsKeyed

theorem ext_zone? {a b : Zones} (h : ∀ name, a.zone? name = b.zone? name) : a = b :=
  SortedMap.ext_get? h

theorem zone?_insert (zones : Zones) (name name' : String) (zone : Zone) :
    zone? (zones.insert name zone) name' = if name' = name then some zone else zones.zone? name' :=
  SortedMap.get?_insert ..

theorem zone?_erase (zones : Zones) (name name' : String) :
    zone? (zones.erase name) name' = if name' = name then none else zones.zone? name' :=
  SortedMap.get?_erase ..

@[simp] theorem zone?_insert_self (zones : Zones) (name : String) (zone : Zone) :
    zone? (zones.insert name zone) name = some zone := by
  rw [zone?_insert, if_pos rfl]

@[simp] theorem zone?_erase_self (zones : Zones) (name : String) :
    zone? (zones.erase name) name = none := by
  rw [zone?_erase, if_pos rfl]

def only (name : String) : Option Zone → Zones
  | none => empty
  | some zone => empty.insert name zone

@[simp] theorem zone?_only (name : String) (zone : Option Zone) :
    (only name zone).zone? name = zone := by
  cases zone with
  | none => rfl
  | some zone => exact zone?_insert_self ..

theorem domain?_eq (zones : Zones) (name : String) :
    zones.domain? name = (zones.zone? name).map (·.domain) := rfl

def leftBy (key : Key) (ttl : Nat) (records : SortedSet String) (now : Instant)
    (stored : Option Rrset) : Option Rrset :=
  if records.isEmpty then none else some (written key ttl records now stored)

theorem key_of_mem_leftBy {key : Key} {ttl : Nat} {records : SortedSet String} {now : Instant}
    {stored : Option Rrset} (h : ∀ r ∈ stored, r.key = key) :
    ∀ r ∈ leftBy key ttl records now stored, r.key = key := by
  intro r hr
  unfold leftBy at hr
  split at hr
  · simp at hr
  · obtain rfl := Option.some.inj hr
    cases stored with
    | none => rfl
    | some s => exact h s rfl

section Modify

variable {α : Type} {zones : Zones} {name : String} {f : Zone → α × Zone}

theorem modify_of_some {zone : Zone} (h : zones.zone? name = some zone) :
    zones.modify name f = .ok ((f zone).1, zones.insert name (f zone).2) := by
  unfold zone? at h
  simp only [modify, h]

theorem modify_of_none (h : zones.zone? name = none) :
    zones.modify name f = .error (Error.noDomain name) := by
  unfold zone? at h
  simp only [modify, h]

end Modify

theorem upsert_of_some {zones : Zones} {name : String} {zone : Zone}
    (h : zones.zone? name = some zone) (key : Key) (ttl : Nat) (records : SortedSet String)
    (now : Instant) :
    zones.upsert name key ttl records now
      = .ok (leftBy key ttl records now (zone.rrsets.get? key),
          zones.insert name (zone.put key (leftBy key ttl records now (zone.rrsets.get? key)))) := by
  rw [upsert, modify_of_some h]
  unfold leftBy
  split <;> rfl

theorem restore_of_some {zones : Zones} {name : String} {zone : Zone}
    (h : zones.zone? name = some zone) (key : Key) (previous : Option Rrset) :
    zones.restore name key previous = .ok ((), zones.insert name (zone.put key previous)) := by
  rw [restore, modify_of_some h]
  cases previous <;> rfl

end Zones

namespace StoreCall

def domain? : StoreCall → Option String
  | .getDomain name => some name
  | .createDomain domain => some domain.name
  | .deleteDomain name => some name
  | .markPublished name _ => some name
  | .get domain _ => some domain
  | .list domain _ => some domain
  | .upsert domain _ _ _ => some domain
  | .restore domain _ _ => some domain
  | .flush => none

def isRead : StoreCall → Bool
  | .getDomain _ => true
  | .get .. => true
  | .list .. => true
  | _ => false

def touchesDomains : StoreCall → Bool
  | .createDomain _ => true
  | .deleteDomain _ => true
  | .markPublished .. => true
  | _ => false

def isRestore : StoreCall → Bool
  | .restore .. => true
  | _ => false

def needsZone : StoreCall → Bool
  | .markPublished .. => true
  | .upsert .. => true
  | .restore .. => true
  | _ => false

def IsKeyed : StoreCall → Prop
  | .restore _ key previous => ∀ r ∈ previous, r.key = key
  | _ => True

theorem isKeyed_of_isRead {c : StoreCall} (h : c.isRead = true) : c.IsKeyed := by
  cases c <;> trivial

end StoreCall

namespace Zones

open StoreCall

variable {zones zones' : Zones} {name : String} {c : StoreCall} {now : Instant}

theorem call_of_isRead (h : c.isRead = true) : (zones.call now c).2 = zones := by
  cases c <;> first | rfl | simp [StoreCall.isRead] at h

theorem call_of_ok {reply : c.Reply} (h : zones.carryOut now c = .ok (reply, zones')) :
    zones.call now c = (.ok reply, zones') := by
  simp only [call, h]

theorem call_of_error {e : Error} (h : zones.carryOut now c = .error e) :
    zones.call now c = (.error e, zones) := by
  simp only [call, h]

theorem call_upsert {zone : Zone} (h : zones.zone? name = some zone) (key : Key) (ttl : Nat)
    (records : SortedSet String) (now : Instant) :
    zones.call now (.upsert name key ttl records)
      = (.ok (leftBy key ttl records now (zone.rrsets.get? key)),
          zones.insert name (zone.put key (leftBy key ttl records now (zone.rrsets.get? key)))) :=
  call_of_ok (upsert_of_some h key ttl records now)

theorem call_restore {zone : Zone} (h : zones.zone? name = some zone) (key : Key)
    (previous : Option Rrset) (now : Instant) :
    zones.call now (.restore name key previous)
      = (.ok (), zones.insert name (zone.put key previous)) :=
  call_of_ok (restore_of_some h key previous)

theorem call_createDomain (domain : Domain) :
    zones.call now (.createDomain domain)
      = if (zones.zone? domain.name).isSome then
          (.error (.conflict s!"Domain {domain.name} already exists"), zones)
        else (.ok (), zones.insert domain.name ⟨domain, SortedMap.empty⟩) := by
  by_cases h : (zones.zone? domain.name).isSome
  · rw [if_pos h]
    apply call_of_error
    simp only [carryOut, create]
    rw [if_pos (show zones.contains domain.name from h)]
    rfl
  · rw [if_neg h]
    apply call_of_ok
    simp only [carryOut, create]
    rw [if_neg (show ¬ zones.contains domain.name from h)]
    rfl

theorem call_createDomain_of_none {domain : Domain} (h : zones.zone? domain.name = none)
    (now : Instant) :
    zones.call now (.createDomain domain)
      = (.ok (), zones.insert domain.name ⟨domain, SortedMap.empty⟩) := by
  rw [call_createDomain, h]
  exact if_neg Bool.false_ne_true

theorem call_createDomain_of_some {domain : Domain} {zone : Zone}
    (h : zones.zone? domain.name = some zone) (now : Instant) :
    zones.call now (.createDomain domain)
      = (.error (.conflict s!"Domain {domain.name} already exists"), zones) := by
  rw [call_createDomain, h]
  exact if_pos rfl

theorem call_of_none (h : zones.zone? name = none) (hc : c.domain? = some name)
    (hz : c.needsZone = true) : zones.call now c = (.error (Error.noDomain name), zones) := by
  apply call_of_error
  cases c with
  | markPublished n time => obtain rfl := Option.some.inj hc; exact modify_of_none h
  | upsert n key ttl records => obtain rfl := Option.some.inj hc; exact modify_of_none h
  | restore n key previous => obtain rfl := Option.some.inj hc; exact modify_of_none h
  | _ => simp [StoreCall.needsZone] at hz

theorem call_markPublished {zone : Zone} (h : zones.zone? name = some zone) (time : Instant) :
    zones.call now (.markPublished name time)
      = (.ok (), zones.insert name { zone with domain.published := some time }) :=
  call_of_ok (modify_of_some h)

theorem call_deleteDomain (name : String) :
    zones.call now (.deleteDomain name)
      = (.ok (zones.zone? name).isSome, SortedMap.erase zones name) := rfl

theorem call_getDomain (name : String) :
    zones.call now (.getDomain name) = (.ok ((zones.zone? name).map (·.domain)), zones) := rfl

theorem call_list (name : String) (filter : Filter) :
    zones.call now (.list name filter)
      = (.ok (match zones.zone? name with
          | none => []
          | some zone => zone.rrsets.values.filter filter.accepts), zones) := rfl

theorem call_get (name : String) (key : Key) :
    zones.call now (.get name key)
      = (.ok ((zones.zone? name).bind fun zone => zone.rrsets.get? key), zones) := rfl

theorem zone?_call_of_ne (zones : Zones) (now : Instant) (h : c.domain? ≠ some name) :
    (zones.call now c).2.zone? name = zones.zone? name := by
  by_cases hz : c.needsZone = true
  · cases hd : c.domain? with
    | none => cases c <;> simp [StoreCall.domain?, StoreCall.needsZone] at hd hz
    | some n =>
        have hne : name ≠ n := by
          rintro rfl
          exact h hd
        cases hzone : zones.zone? n with
        | none => rw [call_of_none hzone hd hz]
        | some zone =>
            cases c with
            | markPublished n' time =>
                obtain rfl := Option.some.inj hd
                rw [call_markPublished hzone, zone?_insert, if_neg hne]
            | upsert n' key ttl records =>
                obtain rfl := Option.some.inj hd
                rw [call_upsert hzone, zone?_insert, if_neg hne]
            | restore n' key previous =>
                obtain rfl := Option.some.inj hd
                rw [call_restore hzone, zone?_insert, if_neg hne]
            | _ => simp [StoreCall.needsZone] at hz
  · cases c with
    | createDomain domain =>
        have hne : name ≠ domain.name := fun hn => h (congrArg some hn.symm)
        rw [call_createDomain]
        split
        · rfl
        · rw [zone?_insert, if_neg hne]
    | deleteDomain n =>
        have hne : name ≠ n := fun hn => h (congrArg some hn.symm)
        rw [call_deleteDomain, zone?_erase, if_neg hne]
    | getDomain | get | list | flush => rfl
    | markPublished | upsert | restore => simp [StoreCall.needsZone] at hz

theorem call_congr (now : Instant) (hc : c.domain? = some name)
    (h : zones.zone? name = zones'.zone? name) :
    (zones.call now c).1 = (zones'.call now c).1
      ∧ (zones.call now c).2.zone? name = (zones'.call now c).2.zone? name := by
  by_cases hz : c.needsZone = true
  · cases hzone : zones.zone? name with
    | none => rw [call_of_none hzone hc hz, call_of_none (h ▸ hzone) hc hz]; exact ⟨rfl, h⟩
    | some zone =>
        have hzone' := h ▸ hzone
        cases c with
        | markPublished n time =>
            obtain rfl := Option.some.inj hc
            rw [call_markPublished hzone, call_markPublished hzone', zone?_insert_self,
              zone?_insert_self]
            exact ⟨rfl, rfl⟩
        | upsert n key ttl records =>
            obtain rfl := Option.some.inj hc
            rw [call_upsert hzone, call_upsert hzone', zone?_insert_self, zone?_insert_self]
            exact ⟨rfl, rfl⟩
        | restore n key previous =>
            obtain rfl := Option.some.inj hc
            rw [call_restore hzone, call_restore hzone', zone?_insert_self, zone?_insert_self]
            exact ⟨rfl, rfl⟩
        | _ => simp [StoreCall.needsZone] at hz
  · cases c with
    | createDomain domain =>
        obtain rfl := Option.some.inj hc
        rw [call_createDomain, call_createDomain, h]
        split
        · exact ⟨rfl, h⟩
        · rw [zone?_insert_self, zone?_insert_self]
          exact ⟨rfl, rfl⟩
    | deleteDomain n =>
        obtain rfl := Option.some.inj hc
        rw [call_deleteDomain, call_deleteDomain, zone?_erase_self, zone?_erase_self, h]
        exact ⟨rfl, rfl⟩
    | getDomain n =>
        obtain rfl := Option.some.inj hc
        rw [call_getDomain, call_getDomain, h]
        exact ⟨rfl, rfl⟩
    | get n key => obtain rfl := Option.some.inj hc; rw [call_get, call_get, h]; exact ⟨rfl, rfl⟩
    | list n filter =>
        obtain rfl := Option.some.inj hc
        rw [call_list, call_list, h]
        exact ⟨rfl, rfl⟩
    | flush => simp [StoreCall.domain?] at hc
    | markPublished | upsert | restore => simp [StoreCall.needsZone] at hz

theorem zone?_call_cases (zones : Zones) (now : Instant) (hc : c.domain? = some name) :
    (zones.call now c).2.zone? name = zones.zone? name
      ∨ (∃ domain, c = .createDomain domain ∧ zones.zone? name = none
          ∧ (zones.call now c).2.zone? name = some ⟨domain, SortedMap.empty⟩)
      ∨ (c = .deleteDomain name ∧ (zones.call now c).2.zone? name = none)
      ∨ (∃ zone, zones.zone? name = some zone
          ∧ ((∃ time, c = .markPublished name time ∧ (zones.call now c).2.zone? name
                = some { zone with domain.published := some time })
            ∨ (∃ key ttl records, c = .upsert name key ttl records
                ∧ (zones.call now c).2.zone? name
                  = some (zone.put key (leftBy key ttl records now (zone.rrsets.get? key))))
            ∨ (∃ key previous, c = .restore name key previous
                ∧ (zones.call now c).2.zone? name = some (zone.put key previous)))) := by
  by_cases hz : c.needsZone = true
  · cases hzone : zones.zone? name with
    | none => left; rw [call_of_none hzone hc hz, hzone]
    | some zone =>
        right; right; right
        refine ⟨zone, rfl, ?_⟩
        cases c with
        | markPublished n time =>
            obtain rfl := Option.some.inj hc
            left
            exact ⟨time, rfl, by rw [call_markPublished hzone, zone?_insert_self]⟩
        | upsert n key ttl records =>
            obtain rfl := Option.some.inj hc
            right; left
            exact ⟨key, ttl, records, rfl, by rw [call_upsert hzone, zone?_insert_self]⟩
        | restore n key previous =>
            obtain rfl := Option.some.inj hc
            right; right
            exact ⟨key, previous, rfl, by rw [call_restore hzone, zone?_insert_self]⟩
        | _ => simp [StoreCall.needsZone] at hz
  · cases c with
    | createDomain domain =>
        obtain rfl := Option.some.inj hc
        rw [call_createDomain]
        split
        · left; rfl
        · next hnone =>
            right; left
            refine ⟨domain, rfl, by simpa using hnone, ?_⟩
            rw [zone?_insert_self]
    | deleteDomain n =>
        obtain rfl := Option.some.inj hc
        right; right; left
        exact ⟨rfl, by rw [call_deleteDomain, zone?_erase_self]⟩
    | getDomain | get | list | flush => left; rfl
    | markPublished | upsert | restore => simp [StoreCall.needsZone] at hz

theorem exists_domain_of_call (zones : Zones) (now : Instant) (c : StoreCall) {zone : Zone}
    (hzone : (zones.call now c).2.zone? name = some zone) :
    (c = .createDomain zone.domain ∧ zone.domain.name = name ∧ zones.zone? name = none)
      ∨ ∃ old, zones.zone? name = some old ∧ (zone.domain = old.domain
        ∨ ∃ time, c = .markPublished name time
          ∧ zone.domain = { old.domain with published := some time }) := by
  by_cases hn : c.domain? = some name
  · rcases zone?_call_cases zones now hn with hsame | ⟨domain, rfl, hnone, hnew⟩ | ⟨rfl, hgone⟩ | hrest
    · exact Or.inr ⟨zone, hsame ▸ hzone, Or.inl rfl⟩
    · obtain rfl := Option.some.inj (hnew.symm.trans hzone)
      exact Or.inl ⟨rfl, Option.some.inj hn, hnone⟩
    · rw [hgone] at hzone
      cases hzone
    · obtain ⟨old, hold, ⟨time, rfl, hnew⟩ | ⟨key, ttl, records, -, hnew⟩
        | ⟨key, previous, -, hnew⟩⟩ := hrest
      all_goals obtain rfl := Option.some.inj (hnew.symm.trans hzone)
      · exact Or.inr ⟨old, hold, Or.inr ⟨time, rfl, rfl⟩⟩
      · exact Or.inr ⟨old, hold, Or.inl (Zone.domain_put ..)⟩
      · exact Or.inr ⟨old, hold, Or.inl (Zone.domain_put ..)⟩
  · exact Or.inr ⟨zone, zone?_call_of_ne zones now hn ▸ hzone, Or.inl rfl⟩

theorem IsKeyed.call (h : zones.IsKeyed) (hc : c.IsKeyed) (now : Instant) :
    (zones.call now c).2.IsKeyed := by
  intro n zone hzone
  by_cases hn : c.domain? = some n
  · rcases zone?_call_cases zones now hn with hsame | ⟨domain, rfl, -, hnew⟩ | ⟨rfl, hgone⟩ | hrest
    · exact h n zone (hsame ▸ hzone)
    · obtain rfl := Option.some.inj (hnew.symm.trans hzone)
      intro key r hr
      simp at hr
    · rw [hgone] at hzone
      cases hzone
    · obtain ⟨old, hold, ⟨time, rfl, hnew⟩ | ⟨key, ttl, records, rfl, hnew⟩
        | ⟨key, previous, rfl, hnew⟩⟩ := hrest
      · obtain rfl := Option.some.inj (hnew.symm.trans hzone)
        exact h n old hold
      · obtain rfl := Option.some.inj (hnew.symm.trans hzone)
        exact (h n old hold).put (key_of_mem_leftBy (h n old hold key))
      · obtain rfl := Option.some.inj (hnew.symm.trans hzone)
        exact (h n old hold).put hc
  · exact h n zone (zone?_call_of_ne zones now hn ▸ hzone)

theorem IsNamed.call (h : zones.IsNamed) (c : StoreCall) (now : Instant) :
    (zones.call now c).2.IsNamed := by
  intro n zone hzone
  by_cases hn : c.domain? = some n
  · rcases zone?_call_cases zones now hn with hsame | ⟨domain, rfl, -, hnew⟩ | ⟨rfl, hgone⟩ | hrest
    · exact h n zone (hsame ▸ hzone)
    · obtain rfl := Option.some.inj (hnew.symm.trans hzone)
      exact Option.some.inj hn
    · rw [hgone] at hzone
      cases hzone
    · obtain ⟨old, hold, ⟨time, -, hnew⟩ | ⟨key, ttl, records, -, hnew⟩
        | ⟨key, previous, -, hnew⟩⟩ := hrest
      all_goals
        obtain rfl := Option.some.inj (hnew.symm.trans hzone)
        simpa using h n old hold
  · exact h n zone (zone?_call_of_ne zones now hn ▸ hzone)

theorem domain_call (hc : c.touchesDomains = false) (zones : Zones) (now : Instant)
    (name : String) : ((zones.call now c).2.zone? name).map (·.domain)
      = (zones.zone? name).map (·.domain) := by
  by_cases hn : c.domain? = some name
  · rcases zone?_call_cases zones now hn with hsame | ⟨domain, rfl, -⟩ | ⟨rfl, -⟩ | hrest
    · rw [hsame]
    · simp [touchesDomains] at hc
    · simp [touchesDomains] at hc
    · obtain ⟨old, hold, ⟨time, rfl, -⟩ | ⟨key, ttl, records, -, hnew⟩
        | ⟨key, previous, -, hnew⟩⟩ := hrest
      · simp [touchesDomains] at hc
      · rw [hnew, hold]
        simp
      · rw [hnew, hold]
        simp
  · rw [zone?_call_of_ne zones now hn]

end Zones

end ZoneKeeper
