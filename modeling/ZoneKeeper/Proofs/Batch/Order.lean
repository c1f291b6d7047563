import Mathlib.Data.List.FinRange
import Mathlib.Logic.Equiv.Fin.Basic
import ZoneKeeper.Proofs.Batch.Verdict

namespace ZoneKeeper

namespace Batch

def permute (batch : Batch) (σ : Equiv.Perm (Fin batch.items.length)) : Batch :=
  ⟨List.ofFn fun i => batch.items[σ i], batch.shape⟩

structure IsPermuted (τ : Equiv.Perm ℕ) (batch batch' : Batch) : Prop where
  items : ∀ i : ℕ, batch'.items[i]? = batch.items[τ i]?
  perm : batch'.items.Perm batch.items

def onPositions {n : ℕ} (σ : Equiv.Perm (Fin n)) : Equiv.Perm ℕ :=
  σ.extendDomain Fin.equivSubtype

theorem onPositions_of_lt {n : ℕ} (σ : Equiv.Perm (Fin n)) (i : Fin n) :
    onPositions σ i = σ i := σ.extendDomain_apply_image Fin.equivSubtype i

theorem onPositions_of_le {n : ℕ} (σ : Equiv.Perm (Fin n)) {i : ℕ} (hi : n ≤ i) :
    onPositions σ i = i :=
  σ.extendDomain_apply_not_subtype Fin.equivSubtype (Nat.not_lt.2 hi)

variable (batch : Batch) (σ : Equiv.Perm (Fin batch.items.length))

theorem length_permute : (batch.permute σ).items.length = batch.items.length := List.length_ofFn

theorem perm_permute : (batch.permute σ).items.Perm batch.items := by
  have hperm := Equiv.Perm.ofFn_comp_perm σ fun i : Fin batch.items.length => batch.items[i.val]
  rw [List.ofFn_getElem] at hperm
  exact hperm

theorem isPermuted : IsPermuted (onPositions σ) batch (batch.permute σ) := by
  refine ⟨fun i => ?_, batch.perm_permute σ⟩
  by_cases hi : i < batch.items.length
  · rw [onPositions_of_lt σ ⟨i, hi⟩, List.getElem?_eq_getElem (σ ⟨i, hi⟩).isLt, permute,
      List.getElem?_ofFn, dif_pos hi]
    rfl
  · have hle := Nat.le_of_not_lt hi
    rw [onPositions_of_le σ hle, List.getElem?_eq_none hle, List.getElem?_eq_none]
    rwa [length_permute]

end Batch

def Problem.heading (p : Problem) : String × ErrorKind := (p.field, p.kind)

structure ItemErrors.Alike (errors errors' : ItemErrors) : Prop where
  fields : errors.fields = errors'.fields
  count : ∀ field, (errors.messages field).length = (errors'.messages field).length
  kinds : errors.kinds = errors'.kinds

theorem ItemErrors.Alike.of_headings {errors errors' : ItemErrors}
    (h : errors.map Problem.heading = errors'.map Problem.heading) : errors.Alike errors' := by
  have hfields : errors.map (·.field) = errors'.map (·.field) := by
    simpa [List.map_map, Function.comp_def, Problem.heading] using congrArg (List.map Prod.fst) h
  have hkinds : errors.map (·.kind) = errors'.map (·.kind) := by
    simpa [List.map_map, Function.comp_def, Problem.heading] using congrArg (List.map Prod.snd) h
  refine ⟨by rw [ItemErrors.fields, ItemErrors.fields, hfields], fun field => ?_, ?_⟩
  · have hcount (errors : ItemErrors) :
        (errors.messages field).length = (errors.map (·.field)).countP (· == field) := by
      rw [messages, List.length_map, List.countP_map, List.countP_eq_length_filter]
      rfl
    rw [hcount, hcount, hfields]
  · have hkind (errors : ItemErrors) (kind : ErrorKind) :
        errors.hasKind kind = (errors.map (·.kind)).any (· == kind) := by
      rw [hasKind, List.any_map]
      rfl
    simp only [ItemErrors.kinds, hkind, hkinds]

theorem Batch.heading_exclusionOf? {excluders excluders' : List (ℕ × String)}
    {stored : List String} (h : excluders' = [] ↔ excluders = []) :
    (exclusionOf? excluders' stored).map Problem.heading
      = (exclusionOf? excluders stored).map Problem.heading := by
  have hheading (excluders : List (ℕ × String)) :
      (exclusionOf? excluders stored).map Problem.heading
        = if excluders = [] ∧ stored = [] then none else some (Problem.noField, .conflict) := by
    cases excluders <;> cases stored <;> rfl
  simp only [hheading, h]

theorem Batch.excluders_eq_nil_iff {ctx : ReviewContext} {snapshot : Snapshot} {batch : Batch}
    {key : Key} : batch.excluders ctx snapshot key = [] ↔ ∀ i, i ∈ batch.positions →
      ∀ other ∈ batch.keyAt? ctx i, ¬ (other.subname == key.subname
        && ((other.type == "CNAME") != (key.type == "CNAME")) && batch.staysAt ctx snapshot i) = true := by
  rw [excluders, List.filterMap_eq_nil_iff]
  refine forall₂_congr fun i _ => ?_
  cases batch.keyAt? ctx i <;> simp

namespace Batch.IsPermuted

variable {τ : Equiv.Perm ℕ} {batch batch' : Batch} (h : IsPermuted τ batch batch')
  (ctx : ReviewContext) (snapshot : Snapshot)

include h

theorem mem_positions (i : ℕ) : i ∈ batch'.positions ↔ τ i ∈ batch.positions := by
  rw [positions, positions, List.mem_range, List.mem_range, ← not_le, ← not_le,
    ← List.getElem?_eq_none_iff, ← List.getElem?_eq_none_iff, h.items]

theorem forall_positions {P : ℕ → Prop} :
    (∀ i ∈ batch'.positions, P (τ i)) ↔ ∀ i ∈ batch.positions, P i := by
  simp only [h.mem_positions]
  exact τ.forall_congr_right (q := fun i => i ∈ batch.positions → P i)

theorem any_positions (p : ℕ → Bool) :
    (batch'.positions.any fun i => p (τ i)) = batch.positions.any p := by
  rw [Bool.eq_iff_iff, List.any_eq_true, List.any_eq_true]
  simp only [h.mem_positions]
  exact τ.exists_congr_right (q := fun i => i ∈ batch.positions ∧ p i = true)

theorem wellFormed? (i : ℕ) : batch'.wellFormed? i = batch.wellFormed? (τ i) := by
  rw [Batch.wellFormed?, Batch.wellFormed?, h.items]

theorem nameAt? (i : ℕ) : batch'.nameAt? i = batch.nameAt? (τ i) := by
  rw [Batch.nameAt?, Batch.nameAt?, h.wellFormed?]

theorem keyAt? (i : ℕ) : batch'.keyAt? ctx i = batch.keyAt? ctx (τ i) := by
  rw [Batch.keyAt?, Batch.keyAt?, h.wellFormed?]

theorem mem_namesakes (i j : ℕ) : j ∈ batch'.namesakes i ↔ τ j ∈ batch.namesakes (τ i) := by
  simp only [namesakes, List.mem_filter, h.mem_positions, h.nameAt?, bne_iff_ne, ne_eq,
    Bool.and_eq_true, τ.injective.eq_iff]

theorem namesakes_eq_nil (i : ℕ) : batch'.namesakes i = [] ↔ batch.namesakes (τ i) = [] := by
  simp only [List.eq_nil_iff_forall_not_mem, h.mem_namesakes]
  exact τ.forall_congr_right (q := (· ∉ batch.namesakes (τ i)))

theorem isSpared (i : ℕ) (item : BatchItem) :
    batch'.isSpared ctx snapshot i item = batch.isSpared ctx snapshot (τ i) item := by
  have hnone : (batch'.namesakes i).isEmpty = (batch.namesakes (τ i)).isEmpty := by
    rw [Bool.eq_iff_iff, List.isEmpty_iff, List.isEmpty_iff, h.namesakes_eq_nil]
  rw [Batch.isSpared, Batch.isSpared, hnone]

theorem staysAt (i : ℕ) :
    batch'.staysAt ctx snapshot i = batch.staysAt ctx snapshot (τ i) := by
  simp only [Batch.staysAt, h.wellFormed?, h.isSpared]

theorem excluders_eq_nil (key : Key) :
    batch'.excluders ctx snapshot key = [] ↔ batch.excluders ctx snapshot key = [] := by
  rw [excluders_eq_nil_iff, excluders_eq_nil_iff, ← h.forall_positions]
  simp only [h.keyAt?, h.staysAt]

theorem storedExcluders (key : Key) :
    batch'.storedExcluders ctx snapshot key = batch.storedExcluders ctx snapshot key := by
  have hany (other : Key) : (batch'.positions.any fun i =>
        batch'.keyAt? ctx i == some other && !batch'.staysAt ctx snapshot i)
      = batch.positions.any fun i =>
        batch.keyAt? ctx i == some other && !batch.staysAt ctx snapshot i := by
    rw [← h.any_positions]
    simp only [h.keyAt?, h.staysAt]
  simp only [Batch.storedExcluders, hany]

theorem headings_verdict (i : ℕ) : (batch'.verdict ctx snapshot i).map Problem.heading
    = (batch.verdict ctx snapshot (τ i)).map Problem.heading := by
  have hexclusion (item : BatchItem) :
      (batch'.exclusion? ctx snapshot item).map Problem.heading
        = (batch.exclusion? ctx snapshot item).map Problem.heading := by
    cases hkey : item.key? ctx.domain with
    | none => simp only [exclusion?, hkey, Option.bind_none]
    | some key =>
        simp only [exclusion?, hkey, Option.bind_some, h.storedExcluders]
        split
        · exact heading_exclusionOf? (h.excluders_eq_nil ctx snapshot key)
        · rfl
  rw [verdict, verdict, h.items]
  cases batch.items[τ i]? with
  | none => rfl
  | some shaped =>
      cases shaped with
      | error malformed => rfl
      | ok item =>
          dsimp only
          by_cases hshared : batch.namesakes (τ i) = []
          · rw [if_neg (not_not.2 ((h.namesakes_eq_nil i).2 hshared)), if_neg (not_not.2 hshared)]
            split
            · rfl
            · split
              · rfl
              · rw [← Option.toList_map, ← Option.toList_map, hexclusion]
          · rw [if_pos (mt (h.namesakes_eq_nil i).1 hshared), if_pos hshared]
            rfl

theorem verdict_eq_nil (i : ℕ) :
    batch'.verdict ctx snapshot i = [] ↔ batch.verdict ctx snapshot (τ i) = [] := by
  rw [← List.map_eq_nil_iff (f := Problem.heading), h.headings_verdict, List.map_eq_nil_iff]

theorem verdicts_eq_nil : (∀ i ∈ batch'.positions, batch'.verdict ctx snapshot i = [])
    ↔ ∀ i ∈ batch.positions, batch.verdict ctx snapshot i = [] := by
  rw [← h.forall_positions]
  simp only [h.verdict_eq_nil]

end Batch.IsPermuted

def PlannedItem.task (p : PlannedItem) : Key × Action := (p.key, p.action)

def Review.task? : Review → Option (Key × Action)
  | .ready key _ action => some (key, action)
  | _ => none

namespace Plan

variable {ctx : ReviewContext} {snapshot : Snapshot} {batch batch' : Batch} {plan plan' : Plan}

theorem tasks_of_make (hmake : make ctx batch snapshot = .ok plan) :
    plan.items.map PlannedItem.task
      = batch.items.filterMap fun shaped => (Review.own ctx snapshot shaped).task? := by
  rw [← Function.comp_def, ← List.filterMap_map, ← ofItems_eq_own hmake]
  refine map_items hmake fun review i => ?_
  cases review <;> rfl

theorem tasks_of_steps (plan : Plan) : plan.steps.map PlannedItem.task
    = (plan.items.map PlannedItem.task).filter (·.2.isDelete)
      ++ (plan.items.map PlannedItem.task).filter (·.2.isWrite) := by
  rw [steps, List.map_append, List.filter_map, List.filter_map]
  rfl

theorem perm_steps (hperm : batch'.items.Perm batch.items)
    (hmake : make ctx batch snapshot = .ok plan) (hmake' : make ctx batch' snapshot = .ok plan') :
    (plan'.steps.map PlannedItem.task).Perm (plan.steps.map PlannedItem.task) := by
  have htasks : (plan'.items.map PlannedItem.task).Perm (plan.items.map PlannedItem.task) := by
    rw [tasks_of_make hmake', tasks_of_make hmake]
    exact hperm.filterMap _
  rw [tasks_of_steps, tasks_of_steps]
  exact (htasks.filter _).append (htasks.filter _)

end Plan

end ZoneKeeper
