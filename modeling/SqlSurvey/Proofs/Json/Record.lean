import SqlSurvey.Proofs.Json.RoundTrip
import SqlSurvey.Json.Record

/-!
# Records read back from their objects

The parts of a record are found in an object with its fields, each once, and a list is read back item by item.
-/

namespace SqlSurvey.Json

variable {α : Type} {record : List Field} {fields : List (String × Json)} {field : Field} {value : Json}

/-! ## Fields -/

theorem filter_fst_eq_singleton (hNodup : (fields.map Prod.fst).Nodup) {f : String × Json} (hf : f ∈ fields) :
    fields.filter (fun g => g.1 == f.1) = [f] := by
  induction fields with
  | nil => exact absurd hf List.not_mem_nil
  | cons g fields ih =>
    obtain ⟨hg, hFields⟩ := List.nodup_cons.1 hNodup
    rcases List.mem_cons.1 hf with rfl | hf
    · have hNone : fields.filter (fun g => g.1 == f.1) = [] := by
        rw [List.filter_eq_nil_iff]
        intro g hMem hSame
        exact hg (List.mem_map.2 ⟨g, hMem, by simpa using hSame⟩)
      rw [List.filter_cons_of_pos (by simp), hNone]
    · have hOther : g.1 ≠ f.1 := fun hSame => hg (hSame ▸ List.mem_map_of_mem hf)
      rw [List.filter_cons_of_neg (by simpa using hOther), ih hFields hf]

/-- A field that is there once has its value. -/
theorem Field.value?_of_mem (hNodup : (fields.map Prod.fst).Nodup) (h : (field.name, value) ∈ fields) :
    field.value? fields = some value := by
  rw [Field.value?, filter_fst_eq_singleton hNodup h]

/-- The parts of an object are the values of the fields of the record. -/
theorem parts?_eq_some {values : List Json}
    (h : List.Forall₂ (fun field value => Field.value? field fields = some value) record values) :
    parts? record (object fields) = some values := by
  show record.mapM (fun field => field.value? fields) = some values
  induction h with
  | nil => rfl
  | cons hValue _ ih => rw [List.mapM_cons, hValue, ih]; rfl

/-- An object with just the fields of a record, in order, has their values as parts. -/
theorem parts?_object (hNames : fields.map Prod.fst = record.map Field.name)
    (hNodup : (record.map Field.name).Nodup) : parts? record (object fields) = some (fields.map Prod.snd) := by
  rw [← hNames] at hNodup
  -- each of the first fields is among all of them
  suffices hEach : ∀ fs : List (String × Json), (∀ f ∈ fs, f ∈ fields) → fs.map Prod.fst = record.map Field.name →
      List.Forall₂ (fun field value => Field.value? field fields = some value) record (fs.map Prod.snd) from
    parts?_eq_some (hEach fields (fun _ hf => hf) hNames)
  clear hNames
  induction record with
  | nil =>
    intro fs _ hNames
    obtain rfl : fs = [] := by simpa using hNames
    exact .nil
  | cons field record ih =>
    intro fs hSub hNames
    obtain ⟨f, fs, rfl⟩ := List.exists_cons_of_ne_nil (fun hNil : fs = [] => by simp [hNil] at hNames)
    obtain ⟨hName, hNames⟩ := List.cons.inj hNames
    refine .cons (Field.value?_of_mem hNodup ?_) (ih fs (fun g hg => hSub g (List.mem_cons_of_mem f hg)) hNames)
    rw [← hName]
    exact hSub f List.mem_cons_self

/-! ## Lists -/

theorem mapM_map_eq_some {f : α → Json} {g : Json → Option α} {l : List α} (h : ∀ x ∈ l, g (f x) = some x) :
    (l.map f).mapM g = some l := by
  induction l with
  | nil => rfl
  | cons x l ih =>
    rw [List.map_cons, List.mapM_cons, h x List.mem_cons_self, ih fun y hy => h y (List.mem_cons_of_mem x hy)]
    rfl

theorem asList?_array {f : α → Json} {g : Json → Option α} {l : List α} (h : ∀ x ∈ l, g (f x) = some x) :
    asList? g (array (l.map f)) = some l := mapM_map_eq_some h

@[simp] theorem asList?_strings (ss : List String) : asList? asString? (strings ss) = some ss :=
  asList?_array fun _ _ => rfl

@[simp] theorem asOptionalString?_ofOption (s : Option String) : asOptionalString? (ofOption s) = some s := by
  cases s <;> rfl

/-! ## Values that can be written -/

theorem writable_array {f : α → Json} {l : List α} (h : ∀ x ∈ l, (f x).Writable) :
    (array (l.map f)).Writable := by
  refine .array fun i hi => ?_
  obtain ⟨x, hx, rfl⟩ := List.mem_map.1 hi
  exact h x hx

theorem writable_strings (ss : List String) : (strings ss).Writable := writable_array fun s _ => .string s

theorem writable_ofOption (s : Option String) : (ofOption s).Writable := by
  cases s with
  | none => exact .null
  | some s => exact .string s

end SqlSurvey.Json
