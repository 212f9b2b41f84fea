import Mathlib.Tactic.Common
import Prebuilt.Validation
/-!
Tables by their keys, and what is known of the fields of an object that was accepted.
-/
set_option autoImplicit false

namespace Prebuilt

variable {α β : Type}

namespace Table

variable {key : Text} {value : α} {table : Table α}

theorem mem_of_get? (h : get? key table = some value) : (key, value) ∈ table := by
  induction table with
  | nil => cases h
  | cons entry rest ih =>
    rw [get?] at h
    split at h
    · rename_i hkey
      cases h
      exact hkey ▸ List.mem_cons_self
    · exact List.mem_cons_of_mem _ (ih h)

theorem mem_put {entry : Text × α} (h : entry ∈ put key value table) : entry = (key, value) ∨ entry ∈ table := by
  induction table with
  | nil => exact .inl (by simpa [put] using h)
  | cons first rest ih =>
    rw [put] at h
    split at h
    · rename_i hkey
      rcases List.mem_cons.1 h with rfl | h
      · exact .inl (by rw [hkey])
      · exact .inr (List.mem_cons_of_mem _ h)
    · rcases List.mem_cons.1 h with rfl | h
      · exact .inr (List.mem_cons_self ..)
      · exact (ih h).imp_right (List.mem_cons_of_mem _)

theorem get?_put (key : Text) (value : α) (table : Table α) : get? key (put key value table) = some value := by
  induction table with
  | nil => simp [put, get?]
  | cons entry rest ih =>
    obtain ⟨k, v⟩ := entry
    by_cases hkey : k = key <;> simp [put, get?, hkey, ih]

theorem get?_put_of_ne {other : Text} (hne : key ≠ other) (value : α) (table : Table α) :
    get? other (put key value table) = get? other table := by
  induction table with
  | nil => simp [put, get?, hne]
  | cons entry rest ih =>
    obtain ⟨k, v⟩ := entry
    by_cases hkey : k = key
    · simp [put, get?, hkey, hne]
    · simp [put, get?, hkey, ih]

end Table

/-! ## Checks -/

theorem map_ok_iff {ε : Type} {f : α → β} {a : Except ε α} {y : β} : a.map f = .ok y ↔ ∃ x, a = .ok x ∧ f x = y := by
  cases a <;> simp [Except.map]

namespace Checked

theorem both_ok_iff {a : Checked α} {b : Checked β} {x : α × β} : both a b = .ok x ↔ a = .ok x.1 ∧ b = .ok x.2 := by
  cases a <;> cases b <;> simp [both, Prod.ext_iff]

theorem all_ok_iff {items : List (Checked α)} {values : List α} : all items = .ok values ↔ items = values.map .ok := by
  induction items generalizing values with
  | nil => cases values <;> simp [all]
  | cons a rest ih =>
    simp only [all, map_ok_iff, both_ok_iff, ih, Prod.exists]
    cases values with
    | nil => simp
    | cons value values => simp

end Checked

theorem Fields.required_ok_iff {fields : Fields} {name : Text} {read : List PlaceStep → Json → Checked α} {a : α} :
    Fields.required fields name read = .ok a ↔ ∃ x, Table.get? name fields = some x ∧ read [.key name] x = .ok a := by
  rw [Fields.required]
  cases Table.get? name fields <;> simp [Checked.reject]

namespace Json

variable {place : List PlaceStep} {x : Json} {t : Text}

theorem asText_ok_iff : x.asText place = .ok t ↔ x = .text t := by
  cases x <;> simp [asText, Checked.reject]

/-- A list of texts is read from a list that has some item, all of them texts. -/
theorem asTexts_ok_iff {texts : List Text} : x.asTexts place = .ok texts ↔ texts ≠ [] ∧ x = .array (texts.map .text) := by
  have hitems (items : List Json) (k : Nat) (texts : List Text) :
      (items.zipIdx k).map (fun item => item.1.asText (place ++ [PlaceStep.index item.2])) = texts.map .ok ↔
        items = texts.map .text := by
    induction items generalizing k texts with
    | nil => cases texts <;> simp
    | cons item items ih => cases texts <;> simp [asText_ok_iff, ih]
  cases x with
  | array items =>
    cases items with
    | nil => cases texts <;> simp [asTexts, Checked.reject]
    | cons item items =>
      rw [asTexts, if_neg (by simp), Checked.all_ok_iff]
      refine (hitems _ 0 texts).trans ?_
      cases texts <;> simp
  | _ => simp [asTexts, Checked.reject]

/-- A table of texts is read from an object whose values are all texts. -/
theorem asTable_ok_iff {table : Table Text} :
    x.asTable place = .ok table ↔ x = .object (table.map fun entry => (entry.1, .text entry.2)) := by
  have hfield (field : Text × Json) (entry : Text × Text) :
      (field.2.asText (place ++ [PlaceStep.key field.1])).map (fun t => (field.1, t)) = .ok entry ↔
        field = (entry.1, .text entry.2) := by
    rw [map_ok_iff]
    simp only [asText_ok_iff, Prod.ext_iff]
    exact ⟨fun ⟨t, ht, hkey, hvalue⟩ => ⟨hkey, hvalue ▸ ht⟩, fun ⟨hkey, ht⟩ => ⟨entry.2, ht, hkey, rfl⟩⟩
  have hfields (fields : Fields) (table : Table Text) :
      fields.map (fun field => (field.2.asText (place ++ [PlaceStep.key field.1])).map fun t => (field.1, t)) = table.map .ok ↔
        fields = table.map fun entry => (entry.1, .text entry.2) := by
    induction fields generalizing table with
    | nil => cases table <;> simp
    | cons field fields ih =>
      cases table with
      | nil => simp
      | cons entry table => rw [List.map_cons, List.map_cons, List.map_cons, List.cons.injEq, List.cons.injEq, hfield, ih]
  cases x with
  | object fields =>
    rw [asTable, Checked.all_ok_iff, Json.object.injEq]
    exact hfields fields table
  | _ => simp [asTable, Checked.reject]

end Json

end Prebuilt
