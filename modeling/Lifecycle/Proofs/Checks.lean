import Mathlib.Data.List.Forall2
import Lifecycle.Policy
import Lifecycle.Change

/-!
# Laws of checks

A check of several fields is good exactly when each of them is (`Checked.seq_eq_good_iff`), and a
list is good exactly when its items are. So a value that was written from a checked one is read back
as it was: requests (`PromotionRequest.check_toJson`) and, in the module on policies, policies.
-/

namespace Lifecycle

variable {α β : Type}

namespace Checked

/-- Checks side by side are good when both are. -/
theorem seq_eq_good_iff {f : Checked (α → β)} {x : Checked α} {value : β} :
    f <*> x = .good value ↔ ∃ g y, f = .good g ∧ x = .good y ∧ g y = value := by
  show ap f x = .good value ↔ _
  cases f with
  | good g =>
    cases x with
    | good y => simp [ap]
    | bad details => simp [ap]
  | bad details =>
    cases x with
    | good y => simp [ap]
    | bad more => simp [ap]

theorem map_eq_good_iff {f : α → β} {x : Checked α} {value : β} :
    f <$> x = .good value ↔ ∃ y, x = .good y ∧ f y = value := by
  show ap (.good f) x = .good value ↔ _
  cases x with
  | good y => simp [ap]
  | bad details => simp [ap]

/-- A check beside another one that only has to be good. -/
theorem seqLeft_eq_good_iff {x : Checked α} {y : Checked β} {value : α} :
    x <* y = .good value ↔ x = .good value ∧ ∃ other, y = .good other := by
  show Function.const β <$> x <*> y = .good value ↔ _
  rw [seq_eq_good_iff]
  simp only [map_eq_good_iff]
  constructor
  · rintro ⟨_, other, ⟨x, hx, rfl⟩, hy, rfl⟩
    exact ⟨hx, other, hy⟩
  · rintro ⟨hx, other, hy⟩
    exact ⟨_, other, ⟨value, hx, rfl⟩, hy, rfl⟩

theorem good_map_iff {f : α → β} {x : Checked α} {value : β} :
    x.map f = .good value ↔ ∃ y, x = .good y ∧ f y = value := by
  cases x <;> simp [map]

theorem pure_eq_good_iff {x value : α} : (pure x : Checked α) = .good value ↔ x = value := by
  show Checked.good x = .good value ↔ x = value
  simp

theorem under_eq_good_iff {place : Place} {x : Checked α} {value : α} :
    x.under place = .good value ↔ x = .good value := by
  cases x <;> simp [under]

end Checked

namespace Check

/-- The value under a key is checked if there is one. -/
theorem optional_eq_good_iff {fields : Table Json} {key : String} {default value : α}
    {check : Json → Checked α} :
    optional fields key default check = .good value ↔
      fields.get? key = none ∧ default = value ∨
        ∃ found, fields.get? key = some found ∧ check found = .good value := by
  unfold optional
  cases fields.get? key with
  | none => simp
  | some found => simp [Checked.under_eq_good_iff]

theorem text_eq_good_iff {value : Json} {s : String} :
    text value = .good s ↔ value = .text s := by
  cases value <;> simp [text, Checked.complain]

/-- A list is good when each of its items is. -/
theorem listOf_eq_good_iff {check : Json → Checked α} {items : List Json} {values : List α} :
    listOf check (.list items) = .good values ↔
      List.Forall₂ (fun item value => check item = .good value) items values := by
  suffices haux : ∀ position, Checked.sequence ((items.zipIdx position).map
      fun placed => (check placed.1).under (.item placed.2)) = .good values ↔
        List.Forall₂ (fun item value => check item = .good value) items values from haux 0
  induction items generalizing values with
  | nil =>
    intro position
    show Checked.good [] = .good values ↔ _
    simp [eq_comm]
  | cons item rest ih =>
    intro position
    rw [List.zipIdx_cons, List.map_cons]
    show Checked.map List.cons ((check item).under (.item position)) <*>
      Checked.sequence _ = _ ↔ _
    rw [Checked.seq_eq_good_iff]
    constructor
    · rintro ⟨g, tail, hhead, htail, rfl⟩
      obtain ⟨head, hitem, rfl⟩ := Checked.good_map_iff.mp hhead
      exact .cons (Checked.under_eq_good_iff.mp hitem) ((ih _).mp htail)
    · intro hall
      cases hall with
      | cons hhead htail =>
        exact ⟨_, _, Checked.good_map_iff.mpr ⟨_, Checked.under_eq_good_iff.mpr hhead, rfl⟩,
          (ih _).mpr htail, rfl⟩

theorem listOf_map {check : Json → Checked α} {write : α → Json} {items : List α}
    (h : ∀ item ∈ items, check (write item) = .good item) :
    listOf check (.list (items.map write)) = .good items := by
  rw [listOf_eq_good_iff, List.forall₂_map_left_iff, List.forall₂_same]
  exact h

theorem listOf_text_eq_good_iff {value : Json} {items : List String} :
    listOf text value = .good items ↔ value = Json.texts items := by
  constructor
  · intro h
    cases value with
    | list values =>
      rw [listOf_eq_good_iff] at h
      have heq : List.Forall₂ (fun item (s : String) => item = Json.text s) values items :=
        h.imp fun _ _ => text_eq_good_iff.mp
      rw [Json.texts]
      congr 1
      rwa [← List.forall₂_eq_eq_eq, List.forall₂_map_right_iff]
    | _ => cases h
  · rintro rfl
    exact listOf_map fun _ _ => rfl

end Check

/-! ### Requests -/

theorem Operation.check_name (operation : Operation) :
    Operation.check (.text operation.name) = .good operation := by
  cases operation <;> rfl

theorem Change.check_toJson (otherwise : Complaint) (change : Change) :
    Change.check otherwise change.toJson = .good change := by
  show Change.mk <$> (Checked.good change.id) <*>
    (Operation.check (.text change.operation.name)).under (.field "operation") = _
  rw [Operation.check_name]
  rfl

theorem ChangeSet.check_toJson (otherwise : Complaint) (changes : ChangeSet) :
    ChangeSet.check otherwise changes.toJson = .good changes := by
  have hlist : ∀ items : List Change,
      Check.listOf (Change.check otherwise) (.list (items.map Change.toJson)) = .good items :=
    fun items => Check.listOf_map fun change _ => Change.check_toJson otherwise change
  obtain ⟨policy, integrations, decoders, kvdbs, rules⟩ := changes
  show ChangeSet.mk
    <$> (Check.listOf (Change.check otherwise) (.list (policy.map Change.toJson))).under
      (.field "policy")
    <*> (Check.listOf (Change.check otherwise) (.list (integrations.map Change.toJson))).under
      (.field "integrations")
    <*> (Check.listOf (Change.check otherwise) (.list (decoders.map Change.toJson))).under
      (.field "decoders")
    <*> (Check.listOf (Change.check otherwise) (.list (kvdbs.map Change.toJson))).under
      (.field "kvdbs")
    <*> (Check.listOf (Change.check otherwise) (.list (rules.map Change.toJson))).under
      (.field "rules") = _
  simp only [hlist]
  rfl

theorem Space.check_name (space : Space) : Space.check (.text space.name) = .good space := by
  cases space <;> rfl

/-- A request is read back as it was written. -/
theorem PromotionRequest.check_toJson (otherwise : Complaint) (request : PromotionRequest) :
    PromotionRequest.check otherwise request.toJson = .good request := by
  show PromotionRequest.mk <$> (Space.check (.text request.space.name)).under (.field "space")
    <*> (ChangeSet.check otherwise request.changes.toJson).under (.field "changes") = _
  rw [Space.check_name, ChangeSet.check_toJson]
  rfl

end Lifecycle
