import ZoneKeeper.Proofs.Record.ServiceValue

namespace ZoneKeeper

namespace ServiceParameters

def entryTokens (key : UInt16) (v : ServiceValue) : List Token :=
  match v.given with
  | none => [.bare (ServiceKey.name key)]
  | some t =>
      if v.isQuoted then [.bare (ServiceKey.name key ++ [Octet.equal]), .inQuotes t]
      else [.bare (ServiceKey.name key ++ Octet.equal :: t)]

theorem isBare_name (key : UInt16) : (ServiceKey.name key).all Octet.isBare = true :=
  List.all_eq_true.2 fun b hb =>
    Octet.isBare_of_isGraphic (Octets.isGraphic_iff.1 (ServiceKey.isGraphic_name key) b hb)

theorem spells_entry {key : UInt16} {v : ServiceValue} (hsettled : v.IsSettled key)
    (hbare : v.hasBareIds = true) :
    Token.Spells [ServiceKey.name key ++ v.write] (entryTokens key v) := by
  have hname := isBare_name key
  have hequal : Octet.isBare Octet.equal = true := rfl
  rw [ServiceValue.write_eq, entryTokens]
  cases hgiven : v.given with
  | none =>
      dsimp only
      rw [List.append_nil]
      exact Token.spells_bare hname (ServiceKey.name_ne_nil key)
  | some t =>
      dsimp only
      cases hquoted : v.isQuoted with
      | true =>
          have hword := Token.spells_bare_quoted (s := ServiceKey.name key ++ [Octet.equal])
            (by rw [List.all_append, hname]; rfl) (by simp) t
          rw [List.append_assoc] at hword
          exact hword
      | false =>
          obtain ⟨-, ht⟩ := hsettled.bare hbare hquoted t hgiven
          refine Token.spells_bare ?_ (by simp)
          rw [if_neg Bool.false_ne_true, List.all_append, List.all_cons, hname, ht]
          rfl

theorem isText_entry {key : UInt16} {v : ServiceValue} (hsettled : v.IsSettled key) :
    (ServiceKey.name key ++ v.write).IsText := by
  refine .append (Octets.isText_of_isAscii (Octets.isAscii_of_isGraphic
    (ServiceKey.isGraphic_name key))) ?_
  have hequal : Octets.IsText [Octet.equal] := Octets.isText_of_isAscii rfl
  rw [ServiceValue.write_eq]
  cases hgiven : v.given with
  | none => exact Octets.isText_of_isAscii rfl
  | some t =>
      dsimp only
      cases hquoted : v.isQuoted with
      | true => exact hequal.append (Octets.isText_of_isAscii (Octets.isAscii_quoted t))
      | false => exact hequal.append (hsettled.isText hquoted t hgiven)

theorem split_bare (key : UInt16) (t : Octets) :
    split (.bare (ServiceKey.name key ++ Octet.equal :: t)) = (ServiceKey.name key, some t) := by
  have hcut : (ServiceKey.name key ++ Octet.equal :: t).cut Octet.equal
      = some (ServiceKey.name key, t) :=
    Octets.cut_append_cons (ServiceKey.notMem_name rfl (by decide))
  simp only [split, Token.bare, hcut, Octets.repair_of_isAscii
    (Octets.isAscii_of_isGraphic (ServiceKey.isGraphic_name key))]

theorem split_bare_name (key : UInt16) :
    split (.bare (ServiceKey.name key)) = (ServiceKey.name key, none) := by
  have hcut : (Token.bare (ServiceKey.name key)).bytes.cut Octet.equal = none :=
    Octets.cut_of_notMem (ServiceKey.notMem_name rfl (by decide))
  have htext := Token.text_bare (Octets.isAscii_of_isGraphic (ServiceKey.isGraphic_name key))
  rw [split, hcut, htext]

theorem items_closed {token : Token} (h : openKey? token = none) (rest : List Token) :
    items (token :: rest) = .ofToken token :: items rest := by
  cases rest with
  | nil => rfl
  | cons next rest => rw [items, h]

theorem items_entry {key : UInt16} {v : ServiceValue}
    (hgiven : v.isQuoted = false → v.given ≠ some []) (rest : List Token) :
    items (entryTokens key v ++ rest) = .entry (ServiceKey.name key) v.given :: items rest := by
  unfold entryTokens
  cases hv : v.given with
  | none =>
      have hopen : openKey? (.bare (ServiceKey.name key)) = none := by
        rw [openKey?, split_bare_name]
        rfl
      dsimp only
      rw [List.singleton_append, items_closed hopen, Item.ofToken, split_bare_name]
      rfl
  | some t =>
      dsimp only
      cases hquoted : v.isQuoted with
      | true =>
          have hopen : openKey? (.bare (ServiceKey.name key ++ [Octet.equal]))
              = some (ServiceKey.name key) := by
            rw [openKey?, split_bare]
            rfl
          rw [if_pos rfl, List.cons_append, List.singleton_append, items, hopen]
          rfl
      | false =>
          have hopen : openKey? (.bare (ServiceKey.name key ++ Octet.equal :: t)) = none := by
            obtain ⟨b, later, rfl⟩ := List.exists_cons_of_ne_nil
              fun hnil => hgiven hquoted (hv.trans (congrArg some hnil))
            rw [openKey?, split_bare]
            rfl
          rw [if_neg Bool.false_ne_true, List.singleton_append, items_closed hopen, Item.ofToken,
            split_bare]
          rfl

theorem mem_insert? {key : UInt16} {v : ServiceValue}
    {entries entries' : List (UInt16 × ServiceValue)} (h : insert? key v entries = some entries') :
    ∀ e ∈ entries', e = (key, v) ∨ e ∈ entries := by
  induction entries generalizing entries' with
  | nil =>
      obtain rfl := Option.some.inj h
      exact fun e he => Or.inl (List.mem_singleton.1 he)
  | cons first rest ih =>
      rw [insert?] at h
      split at h
      · obtain rfl := Option.some.inj h
        exact fun e he => List.mem_cons.1 he
      · split at h
        · cases h
        · obtain ⟨later, hlater, rfl⟩ := Option.map_eq_some_iff.1 h
          intro e he
          rcases List.mem_cons.1 he with rfl | he
          · exact Or.inr List.mem_cons_self
          · exact (ih hlater e he).imp_right (List.mem_cons_of_mem _)

def Ascends (entries : List (UInt16 × ServiceValue)) : Prop :=
  entries.Pairwise fun a b => a.1 < b.1

theorem Ascends.insert? {key : UInt16} {v : ServiceValue}
    {entries entries' : List (UInt16 × ServiceValue)} (hascends : Ascends entries)
    (h : ServiceParameters.insert? key v entries = some entries') : Ascends entries' := by
  induction entries generalizing entries' with
  | nil =>
      obtain rfl := Option.some.inj h
      exact List.pairwise_singleton _ _
  | cons first rest ih =>
      obtain ⟨hfirst, hrest⟩ := List.pairwise_cons.1 hascends
      rw [ServiceParameters.insert?] at h
      split at h
      · next hlt =>
          obtain rfl := Option.some.inj h
          refine List.pairwise_cons.2 ⟨fun e he => ?_, hascends⟩
          rcases List.mem_cons.1 he with rfl | he
          · exact hlt
          · exact UInt16.lt_trans hlt (hfirst e he)
      · split at h
        · cases h
        · next hlt hne =>
            obtain ⟨later, hlater, rfl⟩ := Option.map_eq_some_iff.1 h
            refine List.pairwise_cons.2 ⟨fun e he => ?_, ih hrest hlater⟩
            rcases mem_insert? hlater e he with rfl | he
            · exact UInt16.lt_of_le_of_ne (UInt16.not_lt.1 hlt) fun heq =>
                hne (beq_iff_eq.2 heq.symm)
            · exact hfirst e he

theorem insert?_append {key : UInt16} (v : ServiceValue)
    {entries : List (UInt16 × ServiceValue)} (h : ∀ e ∈ entries, e.1 < key) :
    insert? key v entries = some (entries ++ [(key, v)]) := by
  induction entries with
  | nil => rfl
  | cons first rest ih =>
      have hfirst := h first List.mem_cons_self
      rw [insert?, if_neg (UInt16.not_lt.2 (UInt16.le_of_lt hfirst)),
        if_neg (by simpa using (UInt16.ne_of_lt hfirst).symm),
        ih fun e he => h e (List.mem_cons_of_mem _ he)]
      rfl

structure AreSettled (entries : List (UInt16 × ServiceValue)) : Prop where
  ascends : Ascends entries
  settled : ∀ e ∈ entries, e.2.IsSettled e.1

theorem AreSettled.add {entries entries' : List (UInt16 × ServiceValue)} {name : Octets}
    {value : Option Octets} (hsettled : AreSettled entries)
    (h : ServiceParameters.add entries name value = .ok entries') : AreSettled entries' := by
  obtain ⟨key, -, h⟩ := bind_eq_ok.1 h
  obtain ⟨v, hv, h⟩ := bind_eq_ok.1 h
  split at h
  · next hinsert =>
      obtain rfl := Except.ok.inj h
      refine ⟨hsettled.ascends.insert? hinsert, fun e he => ?_⟩
      rcases mem_insert? hinsert e he with rfl | he
      · exact (ServiceValue.gives_of_read hv).isSettled
      · exact hsettled.settled e he
  · cases h

theorem AreSettled.addItems {entries entries' : List (UInt16 × ServiceValue)} {items : List Item}
    (hsettled : AreSettled entries)
    (h : ServiceParameters.addItems entries items = .ok entries') : AreSettled entries' := by
  induction items generalizing entries with
  | nil =>
      obtain rfl := Except.ok.inj h
      exact hsettled
  | cons item rest ih =>
      cases item with
      | stray text => cases h
      | entry name value =>
          obtain ⟨later, hlater, h⟩ := bind_eq_ok.1 h
          exact ih (hsettled.add hlater) h

theorem addItems_entries (seen : List (UInt16 × ServiceValue))
    {entries : List (UInt16 × ServiceValue)}
    (hsettled : AreSettled (seen ++ entries)) :
    addItems seen (entries.map fun e => .entry (ServiceKey.name e.1) e.2.given)
      = .ok (seen ++ entries) := by
  induction entries generalizing seen with
  | nil => rw [List.append_nil, List.map_nil, addItems]
  | cons e rest ih =>
      have hvalue := hsettled.settled e (by simp)
      have habove : ∀ s ∈ seen, s.1 < e.1 := fun s hs =>
        (List.pairwise_append.1 hsettled.ascends).2.2 s hs e List.mem_cons_self
      have hadd : add seen (ServiceKey.name e.1) e.2.given = .ok (seen ++ [e]) := by
        simp only [add, ServiceKey.read_name, hvalue.read, insert?_append e.2 habove, bind,
          Except.bind]
      rw [List.append_cons] at hsettled
      simp only [List.map_cons, addItems, hadd, bind, Except.bind]
      rw [ih _ hsettled, List.append_cons seen e rest]

structure IsSettled (p : ServiceParameters) : Prop where
  entries : AreSettled p.entries
  complete : missing p.entries = []

theorem isSettled_of_read {tokens : List Token} {p : ServiceParameters}
    (h : read tokens = .ok p) : p.IsSettled := by
  obtain ⟨entries, hentries, h⟩ := bind_eq_ok.1 h
  split at h
  · next hmissing =>
      obtain rfl := Except.ok.inj h
      exact ⟨.addItems ⟨.nil, by simp⟩ hentries, hmissing⟩
  · cases h

def hasBareIds (p : ServiceParameters) : Bool := p.entries.all (·.2.hasBareIds)

def tokens (p : ServiceParameters) : List Token :=
  p.entries.flatMap fun e => entryTokens e.1 e.2

theorem spells_tokens {p : ServiceParameters} (hsettled : p.IsSettled)
    (hbare : p.hasBareIds = true) : Token.Spells p.words p.tokens := by
  have hspells : Token.Spells
      (p.entries.flatMap fun e => [ServiceKey.name e.1 ++ e.2.write]) p.tokens :=
    Token.Spells.flatMap fun e he =>
      spells_entry (hsettled.entries.settled e he) (List.all_eq_true.1 hbare e he)
  rwa [← List.map_eq_flatMap] at hspells

theorem isText_of_mem_words {p : ServiceParameters} (hsettled : p.IsSettled) :
    ∀ word ∈ p.words, word.IsText :=
  List.forall_mem_map.2 fun e he => isText_entry (hsettled.entries.settled e he)

theorem items_entries {entries : List (UInt16 × ServiceValue)}
    (hgiven : ∀ e ∈ entries, e.2.isQuoted = false → e.2.given ≠ some []) :
    items (entries.flatMap fun e => entryTokens e.1 e.2)
      = entries.map fun e => .entry (ServiceKey.name e.1) e.2.given := by
  induction entries with
  | nil => rfl
  | cons e rest ih =>
      rw [List.flatMap_cons, items_entry (hgiven e List.mem_cons_self), List.map_cons,
        ih fun s hs => hgiven s (List.mem_cons_of_mem _ hs)]

theorem read_tokens {p : ServiceParameters} (hsettled : p.IsSettled) (hbare : p.hasBareIds = true) :
    read p.tokens = .ok p := by
  have hgiven : ∀ e ∈ p.entries, e.2.isQuoted = false → e.2.given ≠ some [] :=
    fun e he hquoted hempty =>
      ((hsettled.entries.settled e he).bare (List.all_eq_true.1 hbare e he) hquoted [] hempty).1 rfl
  have hadd := addItems_entries [] hsettled.entries
  simp only [read, tokens, items_entries hgiven, hadd, bind, Except.bind, List.nil_append,
    hsettled.complete]

end ServiceParameters

end ZoneKeeper
