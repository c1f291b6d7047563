import ZoneKeeper.Files.Disk
import ZoneKeeper.Proofs.Files.Path
import ZoneKeeper.Proofs.Text.Reader

namespace ZoneKeeper.Disk

variable {d d' d'' : Disk} {l q place : Place} {bytes : Octets}

theorem not_isBase_of_lookup (h : d.lookup q ≠ some .folder) : (q == [] || q == root) = false := by
  cases hq : q == [] || q == root with
  | false => rfl
  | true => exact absurd (by rw [lookup, if_pos hq]) h

theorem find?_filter_of_imp {α : Type} {p r : α → Bool} (h : ∀ x, r x = true → p x = true)
    (items : List α) : (items.filter p).find? r = items.find? r := by
  rw [List.find?_filter]
  congr 1
  funext x
  cases hx : r x with
  | false => simp
  | true => simp [h x hx]

theorem lookup_put (h : d.lookup q ≠ some .folder) (e : Entry) (l : Place) :
    (d.put q e).lookup l = if l = q then some e else d.lookup l := by
  split
  · next hl =>
      have hbase := not_isBase_of_lookup h
      rw [hl, lookup, if_neg (by rw [hbase]; exact Bool.false_ne_true), put,
        List.find?_cons_of_pos (by exact beq_self_eq_true q)]
      rfl
  · next hl =>
      have hskip : ∀ x : Place × Entry, (x.1 == l) = true → (x.1 != q) = true := by
        intro x hx
        rw [bne_iff_ne, eq_of_beq hx]
        exact hl
      rw [lookup, put, List.find?_cons_of_neg (by simpa using Ne.symm hl),
        find?_filter_of_imp hskip, lookup]

theorem lookup_remove_self (h : d.lookup q ≠ some .folder) : (d.remove q).lookup q = none := by
  rw [lookup, if_neg (by rw [not_isBase_of_lookup h]; exact Bool.false_ne_true), remove,
    Option.map_eq_none_iff, List.find?_eq_none]
  intro x hx
  have hnot := (List.mem_filter.1 hx).2
  rw [beq_iff_eq]
  rintro rfl
  rw [List.isPrefixOf_iff_prefix.2 List.prefix_rfl] at hnot
  cases hnot

theorem lookup_remove (h : ¬ q <+: l) : (d.remove q).lookup l = d.lookup l := by
  have hskip : ∀ x : Place × Entry, (x.1 == l) = true → (!q.isPrefixOf x.1) = true := by
    intro x hx
    rw [eq_of_beq hx, Bool.not_eq_true', ← Bool.not_eq_true, List.isPrefixOf_iff_prefix]
    exact h
  rw [lookup, remove, find?_filter_of_imp hskip, lookup]

def IsOpen (d : Disk) (l : Place) : Prop := ∀ p, p <+: l → d.lookup p = some .folder

theorem isOpen_nil (d : Disk) : d.IsOpen [] := by
  intro p hp
  obtain rfl := List.prefix_nil.1 hp
  rfl

theorem isOpen_concat {here : Place} {name : String} :
    d.IsOpen (here ++ [name]) ↔ d.IsOpen here ∧ d.lookup (here ++ [name]) = some .folder := by
  constructor
  · exact fun h => ⟨fun p hp => h p (hp.trans (List.prefix_append _ _)), h _ List.prefix_rfl⟩
  · rintro ⟨hhere, hlast⟩ p hp
    rcases List.prefix_concat_iff.1 hp with rfl | hp
    · exact hlast
    · exact hhere p hp

theorem IsOpen.dropLast (h : d.IsOpen l) : d.IsOpen l.dropLast :=
  fun p hp => h p (hp.trans (List.dropLast_prefix l))

def SameFolders (d d' : Disk) : Prop := ∀ l, d.IsOpen l ↔ d'.IsOpen l

theorem SameFolders.refl (d : Disk) : SameFolders d d := fun _ => Iff.rfl

theorem SameFolders.symm (h : SameFolders d d') : SameFolders d' d := fun l => (h l).symm

theorem SameFolders.trans (h : SameFolders d d') (h' : SameFolders d' d'') : SameFolders d d'' :=
  fun l => (h l).trans (h' l)

theorem sameFolders_put (h : d.lookup q ≠ some .folder) (bytes : Octets) :
    SameFolders d (d.put q (.file bytes)) := by
  intro l
  refine forall_congr' fun p => imp_congr_right fun _ => ?_
  rw [lookup_put h]
  split
  · next hp => simp [hp, h]
  · exact Iff.rfl

theorem sameFolders_remove (h : d.lookup q ≠ some .folder) : SameFolders d (d.remove q) := by
  intro l
  by_cases hq : q <+: l
  · constructor
    · exact fun hopen => absurd (hopen q hq) h
    · -- Neither is a place below a file open before, nor one below nothing after.
      intro hopen
      have := hopen q hq
      rw [lookup_remove_self h] at this
      cases this
  · refine forall_congr' fun p => imp_congr_right fun hp => ?_
    rw [lookup_remove fun hqp => hq (hqp.trans hp)]

section Walk

variable {here : Place} {name : String}

theorem enter_ok (hopen : d.IsOpen here) (h : d.enter here name = .ok l) :
    d.IsOpen l ∧ ∀ d', SameFolders d d' → d'.enter here name = .ok l := by
  unfold enter at h ⊢
  split at h
  · next hdot =>
      obtain rfl := Except.ok.inj h
      exact ⟨hopen, fun d' _ => by rw [if_pos hdot]⟩
  next hdot =>
  split at h
  · next hdots =>
      obtain rfl := Except.ok.inj h
      refine ⟨?_, fun d' _ => by rw [if_neg hdot, if_pos hdots]⟩
      split
      · next hroot => exact eq_of_beq hroot ▸ hopen
      · exact hopen.dropLast
  next hdots =>
  split at h
  · cases h
  next hshort =>
  split at h
  · next hfolder =>
      obtain rfl := Except.ok.inj h
      have hnext : d.IsOpen (here ++ [name]) := isOpen_concat.2 ⟨hopen, hfolder⟩
      refine ⟨hnext, fun d' hsame => ?_⟩
      have hfolder' := (isOpen_concat.1 ((hsame _).1 hnext)).2
      rw [if_neg hdot, if_neg hdots, if_neg hshort, hfolder']
  · cases h
  · cases h

def walk (d : Disk) (pieces : List String) : Except FileFault Place := pieces.foldlM d.enter []

theorem walk_ok {pieces : List String} (h : d.walk pieces = .ok l) :
    d.IsOpen l ∧ ∀ d', SameFolders d d' → d'.walk pieces = .ok l := by
  unfold walk at h ⊢
  have hstart := d.isOpen_nil
  generalize ([] : Place) = here at h hstart
  induction pieces generalizing here with
  | nil =>
      obtain rfl := Except.ok.inj h
      exact ⟨hstart, fun _ _ => rfl⟩
  | cons name rest ih =>
      rw [List.foldlM_cons] at h
      obtain ⟨next, hnext, hrest⟩ := bind_eq_ok.1 h
      obtain ⟨hopen, hall⟩ := enter_ok hstart hnext
      obtain ⟨hl, hall'⟩ := ih next hrest hopen
      refine ⟨hl, fun d' hsame => ?_⟩
      rw [List.foldlM_cons, hall d' hsame]
      exact hall' d' hsame

theorem walk_steps (d : Disk) (pieces : List String) :
    d.walk (pieces.filter (· != ".")) = d.walk pieces := by
  have general (here : Place) :
      (pieces.filter (· != ".")).foldlM d.enter here = pieces.foldlM d.enter here := by
    induction pieces generalizing here with
    | nil => rfl
    | cons name rest ih =>
        by_cases hdot : name = "."
        · have hstay : d.enter here name = .ok here := by rw [enter, hdot]; rfl
          rw [List.filter_cons_of_neg (by simp [hdot]), List.foldlM_cons, hstay, ih]
          rfl
        · rw [List.filter_cons_of_pos (by simp [hdot]), List.foldlM_cons, List.foldlM_cons]
          exact bind_congr ih
  exact general []

theorem walk_concat (d : Disk) (pieces : List String) (name : String) :
    d.walk (pieces ++ [name]) = d.walk pieces >>= (d.enter · name) := by
  rw [walk, List.foldlM_append]
  exact bind_congr fun here => bind_pure _

end Walk

section Leads

open ZoneKeeper.Path

variable {path path' : String} {folder name name' : List Char} {place' : Place}

def Leads (d : Disk) (path : String) (place : Place) : Prop :=
  d.locate path = .ok (.named place false)

def IsPath (path : String) : Prop := '\x00' ∉ path.toList ∧ path.utf8ByteSize ≤ maxPath

theorem locate_of_isPath (hpath : IsPath path) {init : List String} {last : String}
    (hpieces : pieces path = init ++ [last]) (d : Disk) :
    d.locate path = d.walk init >>= fun here =>
      if last = "." ∨ last = ".." then (d.enter here last).map .folder
      else if maxName < last.utf8ByteSize then .error .tooLong
      else .ok (.named (here ++ [last]) (isClosed path)) := by
  rw [locate, if_neg (by simpa using hpath.1), if_neg (Nat.not_lt.2 hpath.2)]
  dsimp only
  rw [hpieces, List.getLast?_concat, List.dropLast_concat]
  refine bind_congr fun here => ?_
  simp only [Bool.or_eq_true, beq_iff_eq]
  split
  · rfl
  · split <;> rfl

theorem isPath_of_locate {site : Site} (h : d.locate path = .ok site) :
    IsPath path ∧ pieces path ≠ [] := by
  by_cases hzero : path.toList.contains '\x00' = true
  · rw [locate, if_pos hzero] at h
    cases h
  by_cases hlong : maxPath < path.utf8ByteSize
  · rw [locate, if_neg hzero] at h
    dsimp only at h
    rw [if_pos hlong] at h
    cases h
  refine ⟨⟨by simpa using hzero, Nat.not_lt.1 hlong⟩, ?_⟩
  intro hempty
  rw [locate, if_neg hzero] at h
  dsimp only at h
  rw [if_neg hlong, hempty] at h
  cases h

theorem leads_iff (h : Names path folder name) :
    d.Leads path place ↔ IsPath path ∧ (String.ofList name).utf8ByteSize ≤ maxName
      ∧ ∃ here, d.walk (pieces (String.ofList folder)) = .ok here
        ∧ place = here ++ [String.ofList name] := by
  have hdot : ¬ (String.ofList name = "." ∨ String.ofList name = "..") := by
    rintro (hn | hn)
    · exact h.ne_dot (String.ofList_injective hn)
    · exact h.ne_dots (String.ofList_injective hn)
  constructor
  · intro hlocate
    have hpath := (isPath_of_locate hlocate).1
    rw [Leads, locate_of_isPath hpath h.pieces_eq] at hlocate
    obtain ⟨here, hhere, hlast⟩ := bind_eq_ok.1 hlocate
    rw [if_neg hdot] at hlast
    split at hlast
    · cases hlast
    · next hshort =>
        injection hlast with hsite
        injection hsite with hplace
        exact ⟨hpath, Nat.not_lt.1 hshort, here, hhere, hplace.symm⟩
  · rintro ⟨hpath, hshort, here, hhere, rfl⟩
    rw [Leads, locate_of_isPath hpath h.pieces_eq, hhere, h.isClosed_eq]
    exact (if_neg hdot).trans (if_neg (Nat.not_lt.2 hshort))

theorem Leads.names (h : d.Leads path place) : ∃ folder name, Names path folder name := by
  obtain ⟨hpath, hne⟩ := isPath_of_locate h
  have hpieces := (List.dropLast_append_getLast hne).symm
  rw [Leads, locate_of_isPath hpath hpieces] at h
  obtain ⟨here, -, hlast⟩ := bind_eq_ok.1 h
  split at hlast
  · obtain ⟨_, -, hfolder⟩ := map_eq_ok.1 hlast
    cases hfolder
  next hdot =>
  split at hlast
  · cases hlast
  next hshort =>
  rw [not_or] at hdot
  injection hlast with hsite
  injection hsite with _ hclosed
  exact exists_names (List.getLast?_eq_some_getLast hne) hdot.1 hdot.2 hclosed

theorem locate_of_sameFolders {site : Site} (h : d.locate path = .ok site)
    (hsame : SameFolders d d') : d'.locate path = .ok site := by
  obtain ⟨hpath, hne⟩ := isPath_of_locate h
  have hpieces := (List.dropLast_append_getLast hne).symm
  rw [locate_of_isPath hpath hpieces] at h ⊢
  obtain ⟨here, hhere, hlast⟩ := bind_eq_ok.1 h
  obtain ⟨hopen, hall⟩ := walk_ok hhere
  rw [hall d' hsame]
  split at hlast
  · next hdot =>
      obtain ⟨l, hl, rfl⟩ := map_eq_ok.1 hlast
      exact (if_pos hdot).trans (map_eq_ok.2 ⟨l, (enter_ok hopen hl).2 d' hsame, rfl⟩)
  · next hdot => exact (if_neg hdot).trans hlast

theorem Leads.of_sameFolders (h : d.Leads path place) (hsame : SameFolders d d') :
    d'.Leads path place := locate_of_sameFolders h hsame

theorem Leads.name_eq (h : d.Leads path place) (hnames : Names path folder name)
    (hnames' : Names path' folder name') (h' : d.Leads path' place) : name = name' := by
  obtain ⟨-, -, here, hhere, hplace⟩ := (leads_iff hnames).1 h
  obtain ⟨-, -, here', hhere', hplace'⟩ := (leads_iff hnames').1 h'
  obtain rfl := Except.ok.inj (hhere.symm.trans hhere')
  have hlast := List.append_cancel_left (hplace.symm.trans hplace')
  exact String.ofList_injective (List.singleton_inj.1 hlast)

theorem find_of_folder (h : d.locate path = .ok (.folder l)) : d.find path = .ok .folder := by
  rw [find, h]
  rfl

theorem find_of_named {closed : Bool} (h : d.locate path = .ok (.named l closed)) :
    d.find path = match d.lookup l with
      | some .folder => .ok .folder
      | some (.file bytes) => if closed then .error .notFolder else .ok (.file bytes)
      | none => .error .missing := by
  simp only [find, h, bind, Except.bind]
  cases d.lookup l with
  | none => rfl
  | some entry => cases entry <;> rfl

theorem find_of_walk (hpath : IsPath path) (hne : pieces path ≠ [])
    (h : d.walk (pieces path) = .ok l) : d.find path = .ok .folder := by
  have hpieces := (List.dropLast_append_getLast hne).symm
  have hlocate := locate_of_isPath hpath hpieces d
  rw [hpieces, walk_concat] at h
  generalize (pieces path).getLast hne = last at h hlocate
  obtain ⟨here, hhere, hlast⟩ := bind_eq_ok.1 h
  rw [hhere] at hlocate
  by_cases hdot : last = "." ∨ last = ".."
  · have hsite := hlocate.trans (if_pos hdot)
    rw [hlast] at hsite
    exact find_of_folder hsite
  · rw [not_or] at hdot
    rw [enter, if_neg (by simpa using hdot.1), if_neg (by simpa using hdot.2)] at hlast
    split at hlast
    · cases hlast
    next hshort =>
    have hnamed := hlocate.trans ((if_neg (not_or.2 hdot)).trans (if_neg hshort))
    rw [find_of_named hnamed]
    cases hentry : d.lookup (here ++ [last]) with
    | none => rw [hentry] at hlast; cases hlast
    | some entry =>
        cases entry with
        | folder => rfl
        | file bytes => rw [hentry] at hlast; cases hlast

theorem IsPath.of_prefix {p : List Char} (hpath : IsPath path) (hp : p <+: path.toList) :
    IsPath (String.ofList p) := by
  obtain ⟨rest, hrest⟩ := hp
  refine ⟨fun hzero => hpath.1 ?_, ?_⟩
  · rw [← hrest, List.mem_append]
    exact Or.inl (by simpa using hzero)
  · have hsize : (String.ofList p ++ String.ofList rest).utf8ByteSize ≤ maxPath := by
      rw [← String.ofList_append, hrest, String.ofList_toList]
      exact hpath.2
    rw [String.utf8ByteSize_append] at hsize
    omega

theorem Leads.find_parent (h : d.Leads path place) {parent : String}
    (hparent : parent? path = some parent) (hne : parent ≠ "") :
    d.find parent = .ok .folder := by
  obtain ⟨folder, name, hnames⟩ := h.names
  obtain ⟨hpath, -, here, hhere, -⟩ := (leads_iff hnames).1 h
  rw [hnames.parent?_eq] at hparent
  obtain rfl := Option.some.inj hparent
  have hprefix : trim (closedOff folder) <+: path.toList := by
    rw [hnames.chars]
    exact (trim_isPrefix _).trans ((closedOff_isPrefix folder).trans (List.prefix_append _ _))
  have hwalk : d.walk (pieces (String.ofList (trim (closedOff folder)))) = .ok here := by
    rw [← walk_steps, ← steps, steps_trim, steps, pieces_closedOff hnames.isFolder, walk_steps]
    exact hhere
  refine find_of_walk (hpath.of_prefix hprefix) (pieces_ne_nil ?_) hwalk
  intro hnil
  exact hne (by rw [hnil])

theorem Leads.find_eq (h : d.Leads path place) :
    d.find path = match d.lookup place with
      | some entry => .ok entry
      | none => .error .missing := by
  rw [find_of_named h]
  cases d.lookup place with
  | none => rfl
  | some entry => cases entry <;> rfl

theorem leads_of_find (h : d.find path = .ok (.file bytes)) : ∃ place, d.Leads path place := by
  obtain ⟨site, hsite, -⟩ := bind_eq_ok.1 h
  cases site with
  | folder l =>
      rw [find_of_folder hsite] at h
      cases h
  | named place closed =>
      cases closed with
      | false => exact ⟨place, hsite⟩
      | true =>
          rw [find_of_named hsite] at h
          split at h <;> cases h

theorem Leads.isThere_eq (h : d.Leads path place) : d.isThere path = (d.lookup place).isSome := by
  rw [isThere, h.find_eq]
  cases d.lookup place <;> rfl

theorem Leads.isFolder_iff (h : d.Leads path place) (hsame : SameFolders d d') :
    d.lookup place = some .folder ↔ d'.lookup place = some .folder := by
  obtain ⟨folder, name, hnames⟩ := h.names
  obtain ⟨-, -, here, hhere, rfl⟩ := (leads_iff hnames).1 h
  have hopen := (walk_ok hhere).1
  have hboth := hsame (here ++ [String.ofList name])
  rw [isOpen_concat, isOpen_concat, ← hsame here] at hboth
  simpa [hopen] using hboth

end Leads

structure Takes (d : Disk) (path : String) (place : Place) : Prop where
  leads : d.Leads path place
  free : d.lookup place ≠ some .folder

theorem Takes.of_sameFolders {path : String} (h : d.Takes path place) (hsame : SameFolders d d') :
    d'.Takes path place where
  leads := h.leads.of_sameFolders hsame
  free := by
    rw [ne_eq, ← h.leads.isFolder_iff hsame]
    exact h.free

structure ChangedAt (q : Place) (d d' : Disk) : Prop where
  folders : SameFolders d d'
  elsewhere : ∀ l, l ≠ q → d'.lookup l = d.lookup l

theorem ChangedAt.trans (h : ChangedAt q d d') (h' : ChangedAt q d' d'') : ChangedAt q d d'' :=
  ⟨h.folders.trans h'.folders, fun l hl => (h'.elsewhere l hl).trans (h.elsewhere l hl)⟩

theorem ChangedAt.symm (h : ChangedAt q d d') : ChangedAt q d' d :=
  ⟨h.folders.symm, fun l hl => (h.elsewhere l hl).symm⟩

theorem find_of_changedAt {path : String} {entry : Entry} (hchanged : ChangedAt q d d')
    (hfree : d.lookup q ≠ some .folder) (hq : ¬ d.Leads path q) (h : d.find path = .ok entry) :
    d'.find path = .ok entry := by
  obtain ⟨site, hsite, -⟩ := bind_eq_ok.1 h
  have hsite' := locate_of_sameFolders hsite hchanged.folders
  cases site with
  | folder l =>
      rw [find_of_folder hsite] at h
      rw [find_of_folder hsite', h]
  | named l closed =>
      by_cases hl : l = q
      · subst hl
        -- A path with a slash behind the name of a file finds nothing, whatever is in the file.
        cases closed with
        | false => exact absurd hsite hq
        | true =>
            rw [find_of_named hsite] at h
            split at h
            · next hfolder => exact absurd hfolder hfree
            · cases h
            · cases h
      · rw [find_of_named hsite', hchanged.elsewhere l hl, ← find_of_named hsite, h]

theorem find_iff_of_changedAt {path sibling : String} {entry : Entry}
    (hchanged : ChangedAt q d d') (htakes : d.Takes sibling q) (hq : ¬ d.Leads path q) :
    d.find path = .ok entry ↔ d'.find path = .ok entry :=
  ⟨find_of_changedAt hchanged htakes.free hq,
    find_of_changedAt hchanged.symm (htakes.of_sameFolders hchanged.folders).free
      fun h => hq (h.of_sameFolders hchanged.folders.symm)⟩

theorem changedAt_put (h : d.lookup q ≠ some .folder) (bytes : Octets) :
    ChangedAt q d (d.put q (.file bytes)) :=
  ⟨sameFolders_put h bytes, fun l hl => by rw [lookup_put h, if_neg hl]⟩

section Acts

variable {path source target : String} {start goal : Place}

theorem create_of_takes (h : d.Takes path place) :
    d.create path = .ok (d.put place (.file [])) := by
  have hlocate := h.leads
  rw [Leads] at hlocate
  simp only [create, hlocate, bind, Except.bind]
  cases hentry : d.lookup place with
  | none => rfl
  | some entry =>
      cases entry with
      | folder => exact absurd hentry h.free
      | file bytes => rfl

theorem append_of_leads (h : d.Leads path place) {old : Octets}
    (hfile : d.lookup place = some (.file old)) (bytes : Octets) :
    d.append path bytes = .ok (d.put place (.file (old ++ bytes))) := by
  rw [Leads] at h
  simp only [append, h, bind, Except.bind, hfile]
  rfl

theorem create_ok (h : d.create path = .ok d') :
    ∃ place, d.Takes path place ∧ d' = d.put place (.file []) := by
  obtain ⟨site, hsite, hmade⟩ := bind_eq_ok.1 h
  match site, hmade with
  | .named place false, hmade =>
      dsimp only at hmade
      have hfree : d.lookup place ≠ some .folder := by
        intro hfolder
        rw [hfolder] at hmade
        cases hmade
      rw [create_of_takes ⟨hsite, hfree⟩] at h
      exact ⟨place, ⟨hsite, hfree⟩, (Except.ok.inj h).symm⟩
  | .named place true, hmade => cases hmade
  | .folder place, hmade => cases hmade

theorem append_ok (h : d.append path bytes = .ok d') :
    ∃ place old, d.Leads path place ∧ d.lookup place = some (.file old)
      ∧ d' = d.put place (.file (old ++ bytes)) := by
  obtain ⟨site, hsite, hmade⟩ := bind_eq_ok.1 h
  match site, hmade with
  | .named place false, hmade =>
      dsimp only at hmade
      cases hentry : d.lookup place with
      | none => rw [hentry] at hmade; cases hmade
      | some entry =>
          cases entry with
          | folder => rw [hentry] at hmade; cases hmade
          | file old =>
              rw [append_of_leads hsite hentry] at h
              exact ⟨place, old, hsite, hentry, (Except.ok.inj h).symm⟩
  | .named place true, hmade => cases hmade
  | .folder place, hmade => cases hmade

theorem changedAt_create (h : d.create path = .ok d') :
    ∃ place, d.Takes path place ∧ ChangedAt place d d' := by
  obtain ⟨place, htakes, rfl⟩ := create_ok h
  exact ⟨place, htakes, changedAt_put htakes.free []⟩

theorem changedAt_append (h : d.append path bytes = .ok d') :
    ∃ place, d.Takes path place ∧ ChangedAt place d d' := by
  obtain ⟨place, old, hleads, hfile, rfl⟩ := append_ok h
  have hfree : d.lookup place ≠ some .folder := by
    rw [hfile]
    exact fun h => nomatch h
  exact ⟨place, ⟨hleads, hfree⟩, changedAt_put hfree _⟩

theorem changedAt_copy (h : d.copy source target = .ok d') :
    ∃ place, d.Takes target place ∧ ChangedAt place d d' := by
  obtain ⟨entry, -, hcopied⟩ := bind_eq_ok.1 h
  cases entry with
  | folder => cases hcopied
  | file content =>
      obtain ⟨made, hmade, hcopied⟩ := bind_eq_ok.1 hcopied
      obtain ⟨bytes, -, happended⟩ := bind_eq_ok.1 hcopied
      obtain ⟨place, htakes, hcreated⟩ := changedAt_create hmade
      obtain ⟨place', htakes', hfilled⟩ := changedAt_append happended
      have hsite := (htakes.leads.of_sameFolders hcreated.folders).symm.trans htakes'.leads
      injection hsite with hsite
      injection hsite with hplace
      subst hplace
      exact ⟨place, htakes, hcreated.trans hfilled⟩

structure Renamed (goal : Place) (bytes : Octets) (d d' : Disk) : Prop where
  folders : SameFolders d d'
  moved : d'.lookup goal = some (.file bytes)

theorem renamed (hstart : d.lookup start = some (.file bytes)) (hgoal : d.Takes target goal) :
    Renamed goal bytes d ((d.remove start).put goal (.file bytes)) := by
  have hfile : d.lookup start ≠ some .folder := by rw [hstart]; exact fun h => nomatch h
  have hremoved := sameFolders_remove hfile
  have hfree := (hgoal.of_sameFolders hremoved).free
  refine ⟨hremoved.trans (sameFolders_put hfree bytes), ?_⟩
  rw [lookup_put hfree, if_pos rfl]

theorem rename_of_takes (hsource : d.Leads source start)
    (hstart : d.lookup start = some (.file bytes)) (hgoal : d.Takes target goal) :
    ∃ d', d.rename source target = .ok d' ∧ Renamed goal bytes d d' := by
  refine ⟨_, ?_, renamed hstart hgoal⟩
  have htarget := hgoal.leads
  rw [Leads] at hsource htarget
  simp only [rename, hsource, htarget, bind, Except.bind, hstart]
  cases hentry : d.lookup goal with
  | none => rfl
  | some entry =>
      cases entry with
      | folder => exact absurd hentry hgoal.free
      | file old => rfl

theorem rename_ok (h : d.rename source target = .ok d') :
    ∃ start goal bytes, d.Leads source start ∧ d.lookup start = some (.file bytes)
      ∧ d.Takes target goal ∧ Renamed goal bytes d d' := by
  obtain ⟨site, hsource, h'⟩ := bind_eq_ok.1 h
  obtain ⟨site', htarget, hmoved⟩ := bind_eq_ok.1 h'
  cases site with
  | folder place => cases hmoved
  | named start closed =>
  cases site' with
  | folder place => cases hmoved
  | named goal closed' =>
  dsimp only at hmoved
  split at hmoved
  · cases hmoved
  · cases hmoved
  next bytes hstart =>
  split at hmoved
  · cases hmoved
  next hopen =>
  rw [Bool.or_eq_true, not_or, Bool.not_eq_true, Bool.not_eq_true] at hopen
  obtain ⟨rfl, rfl⟩ := hopen
  have hfree : d.lookup goal ≠ some .folder := by
    intro hfolder
    rw [hfolder] at hmoved
    cases hmoved
  obtain ⟨moved, hrename, hrenamed⟩ := rename_of_takes hsource hstart ⟨htarget, hfree⟩
  obtain rfl := Except.ok.inj (h.symm.trans hrename)
  exact ⟨start, goal, bytes, hsource, hstart, ⟨htarget, hfree⟩, hrenamed⟩

end Acts

end ZoneKeeper.Disk
