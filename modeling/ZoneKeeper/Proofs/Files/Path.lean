import Mathlib.Data.List.TakeWhile
import ZoneKeeper.Files.Path
import ZoneKeeper.Proofs.Text.Split

namespace ZoneKeeper

namespace Path

def IsFolder (folder : List Char) : Prop := folder = [] ∨ ∃ f, folder = f ++ ['/']

theorem exists_folder (p : List Char) :
    ∃ folder name, p = folder ++ name ∧ IsFolder folder ∧ '/' ∉ name := by
  induction p with
  | nil => exact ⟨[], [], rfl, .inl rfl, List.not_mem_nil⟩
  | cons c rest ih =>
      obtain ⟨folder, name, rfl, hfolder, hname⟩ := ih
      rcases hfolder with rfl | ⟨f, rfl⟩
      · by_cases hc : c = '/'
        · exact ⟨['/'], name, by rw [hc]; rfl, .inr ⟨[], rfl⟩, hname⟩
        · refine ⟨[], c :: name, rfl, .inl rfl, ?_⟩
          rw [List.mem_cons, not_or]
          exact ⟨Ne.symm hc, hname⟩
      · exact ⟨c :: (f ++ ['/']), name, rfl, .inr ⟨c :: f, rfl⟩, hname⟩

def closedOff (folder : List Char) : List Char :=
  if folder.length ≤ 1 then folder else folder.dropLast

section Cut

variable {folder name : List Char}

theorem start_le_one (p : List Char) : start p ≤ 1 := by
  unfold start
  split <;> simp

theorem start_of_notMem (hname : '/' ∉ name) (hdot : name ≠ ['.']) : start name = 0 := by
  unfold start
  split <;> simp_all

theorem lastPiece_append (hname : '/' ∉ name) (f : List Char) :
    ((f ++ '/' :: name).reverse.takeWhile (· != '/')).reverse = name := by
  have hkeep : ∀ c ∈ name.reverse, (c != '/') = true := by
    intro c hc
    rw [bne_iff_ne]
    rintro rfl
    exact hname (List.mem_reverse.1 hc)
  rw [List.reverse_append, List.reverse_cons, List.append_assoc,
    List.takeWhile_append_of_pos hkeep]
  simp

theorem lastPiece_of_notMem (hname : '/' ∉ name) :
    (name.reverse.takeWhile (· != '/')).reverse = name := by
  rw [List.takeWhile_eq_self_iff.2, List.reverse_reverse]
  intro c hc
  rw [bne_iff_ne]
  rintro rfl
  exact hname (List.mem_reverse.1 hc)

theorem cutLast_append (hfolder : IsFolder folder) (hname : '/' ∉ name)
    (hdot : ¬ (folder = [] ∧ name = ['.'])) :
    cutLast (folder ++ name) = (closedOff folder, name) := by
  rcases hfolder with rfl | ⟨f, rfl⟩
  · have hstart : start name = 0 := start_of_notMem hname fun h => hdot ⟨rfl, h⟩
    simp only [cutLast, List.nil_append, hstart, List.drop_zero, lastPiece_of_notMem hname]
    simp [closedOff]
  · cases f with
    | nil =>
        have hstart : start ('/' :: name) = 1 := rfl
        simp only [cutLast, List.nil_append, List.singleton_append, hstart, List.drop_succ_cons,
          List.drop_zero, lastPiece_of_notMem hname]
        simp [closedOff]
    | cons c f =>
        have hle : start ((c :: f) ++ '/' :: name) ≤ (c :: f).length :=
          Nat.le_trans (start_le_one _) (by simp)
        have hbody : ((c :: f) ++ '/' :: name).drop (start ((c :: f) ++ '/' :: name))
            = (c :: f).drop (start ((c :: f) ++ '/' :: name)) ++ '/' :: name :=
          List.drop_append_of_le_length hle
        have hlead : ((c :: f) ++ '/' :: name).take (start ((c :: f) ++ '/' :: name))
            = (c :: f).take (start ((c :: f) ++ '/' :: name)) := List.take_append_of_le_length hle
        rw [List.append_assoc, List.singleton_append]
        simp only [cutLast, hbody, hlead, lastPiece_append hname]
        rw [Prod.mk.injEq]
        refine ⟨?_, rfl⟩
        rw [List.length_append, List.length_cons, Nat.add_sub_assoc (by omega),
          Nat.add_sub_cancel_left, Nat.add_sub_cancel, List.take_left, List.take_append_drop,
          closedOff, if_neg (by simp), List.dropLast_concat]

theorem start_lt (hfolder : IsFolder folder) (hname : '/' ∉ name) (hne : name ≠ [])
    (hdot : name ≠ ['.']) : start (folder ++ name) < (folder ++ name).length := by
  have hlength : 0 < name.length := List.length_pos_iff.2 hne
  rw [List.length_append]
  rcases hfolder with rfl | ⟨f, rfl⟩
  · rw [List.nil_append, start_of_notMem hname hdot]
    omega
  · have := start_le_one (f ++ ['/'] ++ name)
    simp only [List.length_append, List.length_singleton]
    omega

theorem closedOff_isPrefix (folder : List Char) : closedOff folder <+: folder := by
  unfold closedOff
  split
  · exact List.prefix_rfl
  · exact List.dropLast_prefix folder

def parts (p : List Char) : List (List Char) := (splitOn '/' p).filter (· != [])

theorem parts_append (l r : List Char) : parts (l ++ '/' :: r) = parts l ++ parts r := by
  rw [parts, splitOn_append, List.filter_append, parts, parts]

theorem parts_of_notMem (hname : '/' ∉ name) (hne : name ≠ []) : parts name = [name] := by
  rw [parts, splitOn_eq, List.splitOn_eq_singleton hname]
  simpa using hne

theorem pieces_ofList (p : List Char) :
    pieces (String.ofList p)
      = (if p.head? = some '/' then ["/"] else []) ++ (parts p).map String.ofList := by
  simp only [pieces, isAbsolute, String.toList_ofList, beq_iff_eq, parts]
  split <;> rfl

theorem pieces_append (hfolder : IsFolder folder) (hname : '/' ∉ name) (hne : name ≠ []) :
    pieces (String.ofList (folder ++ name))
      = pieces (String.ofList folder) ++ [String.ofList name] := by
  have hlast := parts_of_notMem hname hne
  rw [pieces_ofList, pieces_ofList]
  rcases hfolder with rfl | ⟨f, rfl⟩
  · have hhead : name.head? ≠ some '/' := fun h => hname (List.mem_of_mem_head? h)
    rw [List.nil_append, if_neg hhead, hlast]
    rfl
  · rw [List.append_assoc, List.singleton_append, parts_append, parts_append, hlast]
    cases f <;> simp [parts, splitOn]

theorem pieces_closedOff (hfolder : IsFolder folder) :
    pieces (String.ofList (closedOff folder)) = pieces (String.ofList folder) := by
  rcases hfolder with rfl | ⟨f, rfl⟩
  · rfl
  · cases f with
    | nil => rfl
    | cons c f =>
        rw [closedOff, if_neg (by simp), List.dropLast_concat, pieces_ofList, pieces_ofList,
          parts_append]
        simp [parts, splitOn]

theorem pieces_ne_nil {p : List Char} (h : p ≠ []) : pieces (String.ofList p) ≠ [] := by
  obtain ⟨c, rest, rfl⟩ := List.exists_cons_of_ne_nil h
  rw [pieces_ofList]
  by_cases hc : c = '/'
  · simp [hc]
  · have hparts : parts (c :: rest) ≠ [] := by
      rw [parts, splitOn, if_neg (by simpa using hc)]
      cases splitOn '/' rest <;> simp
    simpa [hc] using hparts

def steps (p : List Char) : List String := (pieces (String.ofList p)).filter (· != ".")

theorem steps_append_of_isVoid (hfolder : IsFolder folder) (hname : '/' ∉ name)
    (hvoid : isVoid name = true) : steps (folder ++ name) = steps folder := by
  rw [isVoid, Bool.or_eq_true, beq_iff_eq, beq_iff_eq] at hvoid
  rcases hvoid with rfl | rfl
  · rw [List.append_nil]
  · rw [steps, pieces_append hfolder hname (List.cons_ne_nil _ _), List.filter_append]
    exact List.append_nil _

theorem trimBy_spec (fuel : Nat) (p : List Char) :
    steps (trimBy fuel p) = steps p ∧ trimBy fuel p <+: p := by
  induction fuel generalizing p with
  | zero => exact ⟨rfl, List.prefix_rfl⟩
  | succ fuel ih =>
      rw [trimBy]
      split
      · exact ⟨rfl, List.prefix_rfl⟩
      · next hlong =>
          obtain ⟨folder, name, rfl, hfolder, hname⟩ := exists_folder p
          have hdot : ¬ (folder = [] ∧ name = ['.']) := by
            rintro ⟨rfl, rfl⟩
            exact hlong (by decide)
          rw [cutLast_append hfolder hname hdot]
          dsimp only
          split
          · next hvoid =>
              obtain ⟨hsteps, hprefix⟩ := ih (closedOff folder)
              rw [hsteps, steps_append_of_isVoid hfolder hname hvoid]
              refine ⟨?_, hprefix.trans ((closedOff_isPrefix folder).trans
                (List.prefix_append folder name))⟩
              rw [steps, pieces_closedOff hfolder, steps]
          · exact ⟨rfl, List.prefix_rfl⟩

theorem steps_trim (p : List Char) : steps (trim p) = steps p := (trimBy_spec p.length p).1

theorem trim_isPrefix (p : List Char) : trim p <+: p := (trimBy_spec p.length p).2

theorem length_closedOff_lt (hfolder : IsFolder folder)
    (hlong : start (folder ++ name) < (folder ++ name).length) :
    (closedOff folder).length < (folder ++ name).length := by
  rcases hfolder with rfl | ⟨f, rfl⟩
  · exact Nat.lt_of_le_of_lt (Nat.zero_le _) hlong
  · cases f with
    | nil => exact hlong
    | cons c f =>
        rw [closedOff, if_neg (by simp), List.dropLast_concat]
        simp only [List.length_append, List.length_singleton]
        omega

theorem trimBy_ends (fuel : Nat) {p : List Char} (hfuel : p.length ≤ fuel)
    (hlong : start (trimBy fuel p) < (trimBy fuel p).length) :
    ∃ folder name, trimBy fuel p = folder ++ name ∧ IsFolder folder ∧ '/' ∉ name
      ∧ isVoid name = false := by
  -- Every piece that does not count takes at least the slash before it away with it.
  induction fuel generalizing p with
  | zero =>
      obtain rfl := List.length_eq_zero_iff.1 (Nat.le_zero.1 hfuel)
      exact absurd hlong (Nat.not_lt_zero _)
  | succ fuel ih =>
      rw [trimBy] at hlong ⊢
      split at hlong
      · next hshort => exact absurd hlong (Nat.not_lt.2 hshort)
      next hstart =>
      rw [if_neg hstart]
      obtain ⟨folder, name, rfl, hfolder, hname⟩ := exists_folder p
      have hdot : ¬ (folder = [] ∧ name = ['.']) := by
        rintro ⟨rfl, rfl⟩
        exact hstart (by decide)
      rw [cutLast_append hfolder hname hdot] at hlong ⊢
      dsimp only at hlong ⊢
      split at hlong
      · next hvoid =>
          rw [if_pos hvoid]
          have := length_closedOff_lt hfolder (Nat.not_le.1 hstart)
          exact ih (by omega) hlong
      · next hvoid =>
          rw [if_neg hvoid]
          exact ⟨folder, name, rfl, hfolder, hname, Bool.not_eq_true _ ▸ hvoid⟩

theorem trim_append (hfolder : IsFolder folder) (hname : '/' ∉ name) (hne : name ≠ [])
    (hdot : name ≠ ['.']) : trim (folder ++ name) = folder ++ name := by
  have hvoid : isVoid name = false := by
    rw [isVoid, Bool.or_eq_false_iff, beq_eq_false_iff_ne, beq_eq_false_iff_ne]
    exact ⟨hne, hdot⟩
  rw [trim]
  cases (folder ++ name).length with
  | zero => rfl
  | succ fuel =>
      rw [trimBy, if_neg (Nat.not_le.2 (start_lt hfolder hname hne hdot)),
        cutLast_append hfolder hname fun h => hdot h.2]
      simp only [hvoid]
      rfl

end Cut

theorem stem_isPrefix (name : List Char) : stem name <+: name := by
  unfold stem
  dsimp only
  split
  · exact List.prefix_rfl
  · exact List.take_prefix _ _

def IsExtension (extension : String) : Prop :=
  extension.toList ≠ [] ∧ ∀ c ∈ extension.toList, c ≠ '/' ∧ c ≠ '.'

structure Names (path : String) (folder name : List Char) : Prop where
  chars : path.toList = folder ++ name
  isFolder : IsFolder folder
  plain : '/' ∉ name
  ne_nil : name ≠ []
  ne_dot : name ≠ ['.']
  ne_dots : name ≠ ['.', '.']

theorem exists_names {path last : String} (hlast : (pieces path).getLast? = some last)
    (hdot : last ≠ ".") (hdots : last ≠ "..") (hopen : isClosed path = false) :
    ∃ folder name, Names path folder name := by
  obtain ⟨folder, name, hchars, hfolder, hname⟩ := exists_folder path.toList
  have hpath : String.ofList (folder ++ name) = path := by rw [← hchars, String.ofList_toList]
  have hne : name ≠ [] := by
    rintro rfl
    rcases hfolder with rfl | ⟨f, rfl⟩
    · have hempty : pieces (String.ofList ([] ++ [])) = [] := by decide
      rw [← hpath, hempty] at hlast
      cases hlast
    · simp [isClosed, hchars] at hopen
  have hsame : String.ofList name = last := by
    rw [← hpath, pieces_append hfolder hname hne, List.getLast?_concat] at hlast
    exact Option.some.inj hlast
  refine ⟨folder, name, hchars, hfolder, hname, hne, ?_, ?_⟩
  · rintro rfl
    exact hdot hsame.symm
  · rintro rfl
    exact hdots hsame.symm

section Trimmed

variable {path : String} {name : List Char}

def trimmed (path : String) : String := String.ofList (trim path.toList)

theorem names_trimmed (h : fileName? path.toList = some name) :
    ∃ folder, Names (trimmed path) folder name := by
  rw [fileName?] at h
  dsimp only at h
  split at h
  · cases h
  next hlong =>
  obtain ⟨folder, last, hchars, hfolder, hplain, hvoid⟩ :=
    trimBy_ends path.toList.length (Nat.le_refl _) (Nat.not_le.1 hlong)
  rw [isVoid, Bool.or_eq_false_iff, beq_eq_false_iff_ne, beq_eq_false_iff_ne] at hvoid
  have htrim : trim path.toList = folder ++ last := hchars
  rw [htrim, cutLast_append hfolder hplain fun h' => hvoid.2 h'.2] at h
  dsimp only at h
  split at h
  · cases h
  next hdots =>
  obtain rfl := Option.some.inj h
  exact ⟨folder, by rw [trimmed, String.toList_ofList, htrim], hfolder, hplain, hvoid.1, hvoid.2,
    by simpa using hdots⟩

theorem trim_trimmed (h : fileName? path.toList = some name) :
    trim (trimmed path).toList = trim path.toList := by
  obtain ⟨folder, hnames⟩ := names_trimmed h
  rw [hnames.chars, trim_append hnames.isFolder hnames.plain hnames.ne_nil hnames.ne_dot,
    ← hnames.chars, trimmed, String.toList_ofList]

theorem parent?_trimmed (h : fileName? path.toList = some name) :
    parent? (trimmed path) = parent? path := by
  rw [parent?, parent?, parentChars?, parentChars?, trim_trimmed h]

theorem withExtension_trimmed (h : fileName? path.toList = some name) (extension : String) :
    withExtension (trimmed path) extension = withExtension path extension := by
  have hname : fileName? (trimmed path).toList = fileName? path.toList := by
    rw [fileName?, fileName?, trim_trimmed h]
  rw [withExtension, withExtension, hname, h, trim_trimmed h]

end Trimmed

namespace Names

variable {path : String} {folder name : List Char} (h : Names path folder name)

include h

theorem path_eq : path = String.ofList (folder ++ name) := by rw [← h.chars, String.ofList_toList]

theorem pieces_eq : pieces path = pieces (String.ofList folder) ++ [String.ofList name] := by
  rw [h.path_eq, pieces_append h.isFolder h.plain h.ne_nil]

theorem isClosed_eq : isClosed path = false := by
  rw [isClosed, h.chars, List.getLast?_append_of_ne_nil _ h.ne_nil, beq_eq_false_iff_ne]
  exact fun hslash => h.plain (List.mem_of_getLast? hslash)

theorem parent?_eq : parent? path = some (String.ofList (trim (closedOff folder))) := by
  rw [parent?, parentChars?, h.chars, trim_append h.isFolder h.plain h.ne_nil h.ne_dot,
    if_neg (Nat.not_le.2 (start_lt h.isFolder h.plain h.ne_nil h.ne_dot)),
    cutLast_append h.isFolder h.plain fun h' => h.ne_dot h'.2]
  rfl

theorem fileName?_eq : fileName? path.toList = some name := by
  rw [fileName?, h.chars, trim_append h.isFolder h.plain h.ne_nil h.ne_dot,
    if_neg (Nat.not_le.2 (start_lt h.isFolder h.plain h.ne_nil h.ne_dot)),
    cutLast_append h.isFolder h.plain fun h' => h.ne_dot h'.2]
  exact if_neg (by simpa using h.ne_dots)

theorem toList_withExtension (extension : String) :
    (withExtension path extension).toList
      = folder ++ (stem name ++ '.' :: extension.toList) := by
  rw [withExtension, h.fileName?_eq, h.chars,
    trim_append h.isFolder h.plain h.ne_nil h.ne_dot]
  simp

theorem sibling {extension : String} (hextension : IsExtension extension) :
    Names (withExtension path extension) folder (stem name ++ '.' :: extension.toList) := by
  obtain ⟨hne, hplain⟩ := hextension
  obtain ⟨c, rest, hext⟩ := List.exists_cons_of_ne_nil hne
  have hc : c ≠ '.' := (hplain c (hext ▸ List.mem_cons_self)).2
  refine ⟨h.toList_withExtension extension, h.isFolder, ?_, by simp, ?_, ?_⟩
  · rw [List.mem_append, List.mem_cons, not_or, not_or]
    refine ⟨fun hmem => h.plain ((stem_isPrefix name).subset hmem), by decide, ?_⟩
    exact fun hmem => (hplain '/' hmem).1 rfl
  · intro hdot
    have hmem : c ∈ stem name ++ '.' :: extension.toList := by simp [hext]
    rw [hdot] at hmem
    exact hc (List.mem_singleton.1 hmem)
  · intro hdots
    have hmem : c ∈ stem name ++ '.' :: extension.toList := by simp [hext]
    rw [hdots] at hmem
    simp at hmem
    exact hc hmem

end Names

theorem exists_names_of_extended {path extension : String}
    (h : withExtension path extension ≠ path) : ∃ folder name,
      Names (trimmed path) folder name ∧ parent? (trimmed path) = parent? path
        ∧ ∀ other, withExtension (trimmed path) other = withExtension path other := by
  cases hname : fileName? path.toList with
  | none => exact absurd (by rw [withExtension, hname]) h
  | some name =>
      obtain ⟨folder, hnames⟩ := names_trimmed hname
      exact ⟨folder, name, hnames, parent?_trimmed hname, withExtension_trimmed hname⟩

theorem parent?_withExtension {path extension : String} (h : withExtension path extension ≠ path)
    (hextension : IsExtension extension) :
    parent? (withExtension path extension) = parent? path := by
  obtain ⟨folder, name, hnames, hparent, hextended⟩ := exists_names_of_extended h
  rw [← hparent, hnames.parent?_eq, ← hextended, (hnames.sibling hextension).parent?_eq]

end Path

end ZoneKeeper
