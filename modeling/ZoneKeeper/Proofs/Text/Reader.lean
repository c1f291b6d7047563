import ZoneKeeper.Text.Basic

namespace ZoneKeeper

theorem bind_eq_ok {ε α β : Type} {x : Except ε α} {f : α → Except ε β} {b : β} :
    (x >>= f) = .ok b ↔ ∃ a, x = .ok a ∧ f a = .ok b := by
  cases x with
  | error e =>
      constructor
      · intro h
        cases h
      · rintro ⟨_, h, _⟩
        cases h
  | ok a =>
      constructor
      · exact fun h => ⟨a, rfl, h⟩
      · rintro ⟨_, h, hf⟩
        obtain rfl := Except.ok.inj h
        exact hf

theorem map_eq_ok {ε α β : Type} {x : Except ε α} {f : α → β} {b : β} :
    x.map f = .ok b ↔ ∃ a, x = .ok a ∧ f a = b := by
  cases x <;> simp [Except.map]

theorem mapM_map_eq_some_map {α β γ : Type} {read? : β → Option γ} {write : α → β} {f : α → γ}
    {items : List α} (h : ∀ a ∈ items, read? (write a) = some (f a)) :
    (items.map write).mapM read? = some (items.map f) := by
  induction items with
  | nil => rfl
  | cons a rest ih =>
      rw [List.map_cons, List.mapM_cons, h a List.mem_cons_self,
        ih fun b hb => h b (List.mem_cons_of_mem _ hb)]
      rfl

theorem mapM_map_eq_some {α β : Type} {read? : β → Option α} {write : α → β} {items : List α}
    (h : ∀ a ∈ items, read? (write a) = some a) : (items.map write).mapM read? = some items := by
  rw [mapM_map_eq_some_map h, List.map_id']

theorem mem_of_mapM {α β : Type} {read? : α → Option β} {items : List α} {results : List β}
    (h : items.mapM read? = some results) {b : β} (hb : b ∈ results) :
    ∃ a ∈ items, read? a = some b := by
  induction items generalizing results with
  | nil =>
      obtain rfl := Option.some.inj h
      cases hb
  | cons a rest ih =>
      simp only [List.mapM_cons, Option.bind_eq_bind, Option.bind_eq_some_iff] at h
      obtain ⟨first, hfirst, others, hothers, h⟩ := h
      obtain rfl := Option.some.inj h
      rcases List.mem_cons.1 hb with rfl | hb
      · exact ⟨a, List.mem_cons_self, hfirst⟩
      · obtain ⟨c, hc, hread⟩ := ih hothers hb
        exact ⟨c, List.mem_cons_of_mem _ hc, hread⟩

theorem exists_of_mapM {α β : Type} {read? : α → Option β} {items : List α} {results : List β}
    (h : items.mapM read? = some results) {a : α} (ha : a ∈ items) : ∃ b, read? a = some b := by
  induction items generalizing results with
  | nil => cases ha
  | cons first rest ih =>
      simp only [List.mapM_cons, Option.bind_eq_bind, Option.bind_eq_some_iff] at h
      obtain ⟨b, hfirst, others, hothers, -⟩ := h
      rcases List.mem_cons.1 ha with rfl | ha
      · exact ⟨b, hfirst⟩
      · exact ih hothers ha

theorem mapM_ne_nil {α β : Type} {read? : α → Option β} {items : List α} {results : List β}
    (h : items.mapM read? = some results) (hne : items ≠ []) : results ≠ [] := by
  cases items with
  | nil => exact absurd rfl hne
  | cons a rest =>
      simp only [List.mapM_cons, Option.bind_eq_bind, Option.bind_eq_some_iff] at h
      obtain ⟨b, -, others, -, h⟩ := h
      obtain rfl := Option.some.inj h
      exact List.cons_ne_nil _ _

@[simp] theorem Octets.strip?_append (s t : Octets) : strip? s (s ++ t) = some t := by
  induction s with
  | nil => cases t <;> rfl
  | cons b s ih => rw [List.cons_append, strip?, if_pos (beq_self_eq_true b), ih]

end ZoneKeeper
