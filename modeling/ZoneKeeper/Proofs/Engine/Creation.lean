import ZoneKeeper.Proofs.Feed.Mirror

namespace ZoneKeeper

namespace BatchSource

variable {source : BatchSource} {ctx : ReviewContext} {before after : Share} {key : Key}

def Names (source : BatchSource) (domain : String) (before : Share) (key : Key) : Prop :=
  ∃ zone batch item, before.zone = some zone ∧ source.Yields zone batch
    ∧ .ok item ∈ batch.items ∧ item.key? domain = some key

theorem Yields.unique {zone : Zone} {batch batch' : Batch} (h : source.Yields zone batch)
    (h' : source.Yields zone batch') : batch = batch' := by
  cases source with
  | given own => exact h.trans h'.symm
  | derived subname build => exact Except.ok.inj (h.symm.trans h')

theorem IsCarriedOut.creates (h : source.IsCarriedOut ctx before after)
    (hcreate : ctx.operation = .create) (hnames : source.Names ctx.domain before key) :
    before.content key = none ∧ after.content key ≠ none := by
  obtain ⟨zone, plan, hzone, hkeyed, ⟨batch, hyields, hplan⟩, hcarried⟩ := h
  obtain ⟨done, hsteps, hdone, hat, -⟩ := hcarried.content hzone hplan
  obtain ⟨found, named, item, hfound, hnamed, hitem, hkey⟩ := hnames
  obtain rfl := Option.some.inj (hzone.symm.trans hfound)
  obtain rfl := hyields.unique hnamed
  obtain ⟨i, hi⟩ := List.mem_iff_getElem?.1 hitem
  obtain ⟨p, hp, -, hpasses⟩ := Plan.exists_planned hplan hi
  obtain rfl := Option.some.inj (hkey.symm.trans hpasses.hasKey)
  obtain ⟨hnone, hwrite⟩ := Plan.create_writes hplan hcreate hp
  rw [Zone.get?_snapshot hkeyed (Plan.mem_touchedSubnames hplan hp)] at hnone
  have hbefore : zone.content p.key = none := by rw [Zone.content, hnone, Option.map_none]
  have hstep : p ∈ plan.steps := List.mem_append_right _ (List.mem_filter.2 ⟨hp, hwrite⟩)
  obtain ⟨d, hd, rfl⟩ := List.mem_map.1 (hsteps ▸ hstep)
  constructor
  · rw [Share.content, hzone]
    exact hbefore
  · rw [hat d hd, ← hbefore]
    exact ((hdone d hd).content_ne hkeyed hplan hstep).symm

theorem IsCarriedOut.keeps (h : source.IsCarriedOut ctx before after)
    (hcreate : ctx.operation = .create) (hkey : before.content key ≠ none) :
    after.content key ≠ none := by
  obtain ⟨zone, plan, hzone, hkeyed, ⟨batch, -, hplan⟩, hcarried⟩ := h
  obtain ⟨done, hsteps, hdone, hat, helsewhere, -⟩ := hcarried.content hzone hplan
  rw [helsewhere key fun d hd heq => ?_]
  · exact hkey
  · subst heq
    have hp : d.item ∈ plan.items :=
      (Plan.mem_steps (hsteps ▸ List.mem_map_of_mem hd)).1
    have hnone := (Plan.create_writes hplan hcreate hp).1
    rw [Zone.get?_snapshot hkeyed (Plan.mem_touchedSubnames hplan hp)] at hnone
    refine hkey ?_
    rw [Share.content, hzone, Option.bind_some, Zone.content, hnone, Option.map_none]

end BatchSource

end ZoneKeeper
