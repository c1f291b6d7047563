import ZoneKeeper.Proofs.Files.Disk

namespace ZoneKeeper

def FileAct.written? : FileAct → Option String
  | .create path => some path
  | .append path _ => some path
  | .copy _ target => some target
  | _ => none

namespace Disk

variable {α β : Type} {d d' : Disk}

def Disturbs (path : String) (d d' : Disk) : Prop :=
  d' = d ∨ ∃ place, d.Takes path place ∧ ChangedAt place d d'

def LeftBy (a : FileAct) (d d' : Disk) : Prop :=
  match a with
  | .makeFolders path => ∃ n, d' = (d.ensureLineage ((Path.lineage path).drop n)).2
  | a => d' = d ∨ ∃ path ∈ a.written?, Disturbs path d d'

def Fails : (a : FileAct) → a.Answer → Prop
  | .isThere _, answer => answer = false
  | .readText _, answer => ∃ fault, answer = .error fault
  | .makeFolders _, answer => ∃ fault, answer = .error fault
  | .create _, answer => ∃ fault, answer = .error fault
  | .append .., answer => ∃ fault, answer = .error fault
  | .copy .., answer => ∃ fault, answer = .error fault
  | .rename .., answer => ∃ fault, answer = .error fault

/-- How a program may end when it can be stopped at any time and any of its acts can fail: with a
result, or with none if it was stopped, and the disk that it leaves. -/
inductive MayEnd {α : Type} : FileProgram α → Disk → Option α → Disk → Prop
  | done (value : α) (d : Disk) : MayEnd (.done value) d (some value) d
  | stop (p : FileProgram α) (d : Disk) : MayEnd p d none d
  | cut {a : FileAct} {next : a.Answer → FileProgram α} {d d' : Disk} (hleft : LeftBy a d d') :
      MayEnd (.act a next) d none d'
  | carry {a : FileAct} {next : a.Answer → FileProgram α} {d d' : Disk} {result : Option α}
      (hrest : MayEnd (next (handle a d).1) (handle a d).2 result d') :
      MayEnd (.act a next) d result d'
  | fail {a : FileAct} {next : a.Answer → FileProgram α} {d left d' : Disk} {result : Option α}
      {answer : a.Answer} (hfails : Fails a answer) (hleft : LeftBy a d left)
      (hrest : MayEnd (next answer) left result d') : MayEnd (.act a next) d result d'

theorem leftBy_refl (a : FileAct) (d : Disk) : LeftBy a d d := by
  cases a with
  | makeFolders path => exact ⟨(Path.lineage path).length, by rw [List.drop_length]; rfl⟩
  | isThere | readText | create | append | copy | rename => exact .inl rfl

namespace MayEnd

theorem stopped_of_run (p : FileProgram α) (d : Disk) : MayEnd p d none (run p d).2 := by
  induction p generalizing d with
  | done value => exact .stop _ d
  | act a next ih => exact .carry (ih _ _)

theorem bind_cases {p : FileProgram α} {f : α → FileProgram β} {result : Option β}
    (h : MayEnd (p >>= f) d result d') : (result = none ∧ MayEnd p d none d')
      ∨ ∃ a left, MayEnd p d (some a) left ∧ MayEnd (f a) left result d' := by
  -- By acts: one that is cut short ends the whole program, any other leaves the rest of it.
  induction p generalizing d with
  | done value => exact .inr ⟨value, _, .done value _, h⟩
  | act a next ih =>
      cases h with
      | stop => exact .inl ⟨rfl, .stop _ _⟩
      | cut hleft => exact .inl ⟨rfl, .cut hleft⟩
      | carry hrest =>
          rcases ih _ hrest with ⟨hnone, hp⟩ | ⟨b, left, hp, hf⟩
          · exact .inl ⟨hnone, .carry hp⟩
          · exact .inr ⟨b, left, .carry hp, hf⟩
      | fail hfails hleft hrest =>
          rcases ih _ hrest with ⟨hnone, hp⟩ | ⟨b, left, hp, hf⟩
          · exact .inl ⟨hnone, .fail hfails hleft hp⟩
          · exact .inr ⟨b, left, .fail hfails hleft hp, hf⟩

theorem eq_of_done {value : α} {result : Option α} (h : MayEnd (.done value) d result d') :
    d' = d ∧ (result = none ∨ result = some value) := by
  cases h with
  | done => exact ⟨rfl, .inr rfl⟩
  | stop => exact ⟨rfl, .inl rfl⟩

theorem except_cases {ε : Type} {x : ExceptT ε FileProgram α} {f : α → ExceptT ε FileProgram β}
    {result : Option (Except ε β)} (h : MayEnd (x >>= f).run d result d') :
    (∃ reached, MayEnd x.run d reached d' ∧ (∀ a, reached ≠ some (.ok a))
        ∧ ∀ b, result ≠ some (.ok b))
      ∨ ∃ a left, MayEnd x.run d (some (.ok a)) left ∧ MayEnd (f a).run left result d' := by
  rw [ExceptT.run_bind] at h
  rcases h.bind_cases with ⟨rfl, hx⟩ | ⟨reached, left, hx, hf⟩
  · exact .inl ⟨none, hx, nofun, nofun⟩
  · cases reached with
    | ok a => exact .inr ⟨a, left, hx, hf⟩
    | error e =>
        obtain ⟨rfl, hresult⟩ := eq_of_done hf
        exact .inl ⟨_, hx, nofun, by rcases hresult with rfl | rfl <;> nofun⟩

theorem lift_cases {ε : Type} {p : FileProgram α} {result : Option (Except ε α)}
    (h : MayEnd (monadLift p : ExceptT ε FileProgram α).run d result d') :
    ∃ reached, MayEnd p d reached d' := by
  have hbind : MayEnd (p >>= fun a => pure (Except.ok a)) d result d' := by
    rw [← map_eq_pure_bind]
    exact h
  rcases hbind.bind_cases with ⟨-, hp⟩ | ⟨a, left, hp, hdone⟩
  · exact ⟨none, hp⟩
  · obtain ⟨rfl, -⟩ := eq_of_done hdone
    exact ⟨some a, hp⟩

section Act

variable {a : FileAct}

theorem act_cases {result : Option a.Answer} (h : MayEnd (.act a .done) d result d') :
    (result = none ∧ LeftBy a d d')
      ∨ (d' = (handle a d).2 ∧ (result = none ∨ result = some (handle a d).1))
      ∨ ∃ answer, result = some answer ∧ Fails a answer ∧ LeftBy a d d' := by
  cases h with
  | stop => exact .inl ⟨rfl, leftBy_refl a d⟩
  | cut hleft => exact .inl ⟨rfl, hleft⟩
  | carry hrest => exact .inr (.inl (eq_of_done hrest))
  | fail hfails hleft hrest =>
      obtain ⟨rfl, rfl | rfl⟩ := eq_of_done hrest
      · exact .inl ⟨rfl, hleft⟩
      · exact .inr (.inr ⟨_, rfl, hfails, hleft⟩)

theorem handle_eq {answer : a.Answer} (h : MayEnd (.act a .done) d (some answer) d')
    (hanswer : ¬ Fails a answer) : handle a d = (answer, d') := by
  rcases h.act_cases with ⟨hnone, -⟩ | ⟨rfl, hnone | hsome⟩ | ⟨other, hother, hfails, -⟩
  · cases hnone
  · cases hnone
  · rw [Option.some.inj hsome]
  · exact absurd (Option.some.inj hother ▸ hfails) hanswer

theorem eq_of_isThere {path : String} {result : Option Bool}
    (h : MayEnd (FileProgram.isThere path) d result d') : d' = d := by
  rcases h.act_cases with ⟨-, hsame | ⟨_, hnone, -⟩⟩ | ⟨hsame, -⟩ | ⟨_, -, -, hsame | ⟨_, hnone, -⟩⟩
  · exact hsame
  · cases hnone
  · exact hsame
  · exact hsame
  · cases hnone

end Act

end MayEnd

section Writing

variable {path source target : String} {bytes : Octets}

theorem settle_ok {made : Except FileFault Disk} (h : d.settle made = (.ok (), d')) :
    made = .ok d' := by
  cases made with
  | error fault => cases h
  | ok left =>
      obtain ⟨-, rfl⟩ := Prod.mk.inj h
      rfl

theorem disturbs_settle {made : Except FileFault Disk}
    (h : ∀ left, made = .ok left → ∃ place, d.Takes path place ∧ ChangedAt place d left) :
    Disturbs path d (d.settle made).2 := by
  cases made with
  | error fault => exact .inl rfl
  | ok left => exact .inr (h left rfl)

theorem disturbs_of_mayEnd {a : FileAct} {result : Option a.Answer}
    (h : MayEnd (.act a .done) d result d') (ha : a.written? = some path) : Disturbs path d d' := by
  have hhandled : Disturbs path d (handle a d).2 := by
    cases a with
    | isThere | makeFolders | readText | rename => cases ha
    | create p =>
        obtain rfl := Option.some.inj ha
        exact disturbs_settle fun _ => changedAt_create
    | append p bytes =>
        obtain rfl := Option.some.inj ha
        exact disturbs_settle fun _ => changedAt_append
    | copy source p =>
        obtain rfl := Option.some.inj ha
        exact disturbs_settle fun _ => changedAt_copy
  have hleft : LeftBy a d d' → Disturbs path d d' := by
    intro hleft
    cases a with
    | isThere | makeFolders | readText | rename => cases ha
    | create | append | copy =>
        rcases hleft with rfl | ⟨p, hp, hdisturbs⟩
        · exact .inl rfl
        · exact Option.some.inj (hp.symm.trans ha) ▸ hdisturbs
  rcases h.act_cases with ⟨-, h⟩ | ⟨rfl, -⟩ | ⟨_, -, -, h⟩
  · exact hleft h
  · exact hhandled
  · exact hleft h

theorem create_of_mayEnd (h : MayEnd (FileProgram.create path) d (some (.ok ())) d') :
    d.create path = .ok d' :=
  settle_ok (h.handle_eq fun hfails => nomatch hfails)

theorem append_of_mayEnd (h : MayEnd (FileProgram.append path bytes) d (some (.ok ())) d') :
    d.append path bytes = .ok d' :=
  settle_ok (h.handle_eq fun hfails => nomatch hfails)

theorem rename_cases {result : Option (Except FileFault Unit)}
    (h : MayEnd (FileProgram.rename source target) d result d') :
    (d' = d ∧ result ≠ some (.ok ()))
      ∨ (d.rename source target = .ok d' ∧ ∀ fault, result ≠ some (.error fault)) := by
  rcases h.act_cases with ⟨rfl, rfl | ⟨_, hnone, -⟩⟩ | ⟨rfl, hresult⟩
    | ⟨_, rfl, ⟨fault, rfl⟩, rfl | ⟨_, hnone, -⟩⟩
  · exact .inl ⟨rfl, nofun⟩
  · cases hnone
  · have hhandled : handle (.rename source target) d = d.settle (d.rename source target) := rfl
    rw [hhandled] at hresult ⊢
    generalize d.rename source target = made at hresult ⊢
    cases made with
    | error fault => rcases hresult with rfl | rfl <;> exact .inl ⟨rfl, nofun⟩
    | ok moved => rcases hresult with rfl | rfl <;> exact .inr ⟨rfl, nofun⟩
  · exact .inl ⟨rfl, nofun⟩
  · cases hnone

end Writing

end Disk

end ZoneKeeper
