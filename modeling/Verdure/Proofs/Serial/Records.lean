/-
  Verdure.Proofs.Serial.Records

  Reading back what was written, also after an edit.

  The fields of a record are looked up by name.  A field that is left out therefore costs its own
  value only, and a field with a name that was not written is never seen, wherever it stands
  (`FieldsEdited.lookup`).
-/
import Verdure.Serial.Definition
import Verdure.Proofs.Binary32.Width
import Mathlib.Data.List.Forall2

namespace Verdure

variable {α β γ : Type}

/-- The fields that are left out of a record, by name. -/
def Omitted : Type := String → Bool

/-- What is read for a field: its default if it is left out. -/
def Omitted.value (o : Omitted) (name : String) (default value : β) : β :=
  if o name then default else value

/-- Nothing is left out. -/
def Omitted.none : Omitted := fun _ => false

/-- Only the field with this name may be left out. -/
def Omitted.only (name : String) (out : Bool) : Omitted := fun other => out && other == name

theorem Omitted.ofNat_value (o : Omitted) (name : String) (default value : UInt64) :
    UInt64.ofNat (o.value name default.toNat value.toNat) = o.value name default value := by
  unfold Omitted.value
  split <;> exact UInt64.ofNat_toNat

namespace Json

instance : Nonempty Json := ⟨.null⟩

/-! ## Edits -/

/-- `fields'` are `fields` after an edit.  Of the fields that were written, those that are not
    left out are still there, in order, with values that `R` allows for them.  Fields with other
    names may stand anywhere. -/
def FieldsEdited (o : Omitted) (R : String → Json → Json → Prop)
    (fields fields' : List (String × Json)) : Prop :=
  List.Forall₂ (fun f f' => f'.1 = f.1 ∧ R f.1 f.2 f'.2) (fields.filter fun f => !o f.1)
    (fields'.filter fun f => decide (f.1 ∈ fields.map Prod.fst))

/-- An edit of a record. -/
inductive RecordEdited (o : Omitted) (R : String → Json → Json → Prop) : Json → Json → Prop
  | obj {fields fields' : List (String × Json)} (edited : FieldsEdited o R fields fields') :
      RecordEdited o R (.obj fields) (.obj fields')

/-- An edit of the items of a list, by their places. -/
inductive ListEdited (R : ℕ → Json → Json → Prop) : Json → Json → Prop
  | arr {items items' : List Json} (edited : ∀ i, Option.Rel (R i) items[i]? items'[i]?) :
      ListEdited R (.arr items) (.arr items')

theorem FieldsEdited.refl {R : String → Json → Json → Prop} {fields : List (String × Json)}
    (h : ∀ f ∈ fields, R f.1 f.2 f.2) : FieldsEdited .none R fields fields := by
  have h_out : (fields.filter fun f => !Omitted.none f.1) = fields :=
    List.filter_eq_self.mpr fun _ _ => rfl
  have h_names : (fields.filter fun f => decide (f.1 ∈ fields.map Prod.fst)) = fields :=
    List.filter_eq_self.mpr fun f h_f => decide_eq_true (List.mem_map_of_mem h_f)
  rw [FieldsEdited, h_out, h_names]
  exact List.forall₂_same.mpr fun f h_f => ⟨rfl, h f h_f⟩

/-- Any fields can be left out. -/
theorem exists_fieldsEdited (o : Omitted) {R : String → Json → Json → Prop}
    {fields : List (String × Json)} (h : ∀ f ∈ fields, ∃ json', R f.1 f.2 json') :
    ∃ fields', FieldsEdited o R fields fields' := by
  choose! value h_value using h
  have h_names : (((fields.filter fun f => !o f.1).map fun f => (f.1, value f)).filter
      fun f => decide (f.1 ∈ fields.map Prod.fst))
      = (fields.filter fun f => !o f.1).map fun f => (f.1, value f) := by
    refine List.filter_eq_self.mpr fun f' h_f' => ?_
    obtain ⟨f, h_f, rfl⟩ := List.mem_map.mp h_f'
    exact decide_eq_true (List.mem_map.mpr ⟨f, List.mem_of_mem_filter h_f, rfl⟩)
  refine ⟨(fields.filter fun f => !o f.1).map fun f => (f.1, value f), ?_⟩
  rw [FieldsEdited, h_names, List.forall₂_map_right_iff]
  exact List.forall₂_same.mpr fun f h_f => ⟨rfl, h_value f (List.mem_of_mem_filter h_f)⟩

theorem exists_recordEdited (o : Omitted) {R : String → Json → Json → Prop}
    {fields : List (String × Json)} (h : ∀ f ∈ fields, ∃ json', R f.1 f.2 json') :
    ∃ json', RecordEdited o R (.obj fields) json' := by
  obtain ⟨fields', h_edited⟩ := exists_fieldsEdited o h
  exact ⟨_, .obj h_edited⟩

theorem exists_listEdited {R : ℕ → Json → Json → Prop} {items : List Json}
    (h : ∀ i, ∀ item ∈ items, ∃ item', R i item item') :
    ∃ json', ListEdited R (.arr items) json' := by
  choose! value h_value using h
  refine ⟨.arr (items.mapIdx value), .arr fun i => ?_⟩
  rw [List.getElem?_mapIdx]
  cases h_item : items[i]? with
  | none => exact .none
  | some item => exact .some (h_value i item (List.mem_of_getElem? h_item))

theorem ListEdited.refl {R : ℕ → Json → Json → Prop} {items : List Json}
    (h : ∀ i, ∀ item ∈ items, R i item item) : ListEdited R (.arr items) (.arr items) := by
  refine .arr fun i => ?_
  cases h_item : items[i]? with
  | none => exact .none
  | some item => exact .some (h i item (List.mem_of_getElem? h_item))

/-! ## Records -/

theorem lookup_filter (p : String → Bool) (name : String) (fields : List (String × Json)) :
    (fields.filter fun f => p f.1).lookup name = if p name then fields.lookup name else none := by
  induction fields with
  | nil => simp
  | cons f fields ih =>
      obtain ⟨key, json⟩ := f
      by_cases h_name : name = key
      · subst h_name
        cases h_keep : p name with
        | true => simp [h_keep]
        | false => simpa [h_keep] using ih
      · have h_beq : (name == key) = false := beq_false_of_ne h_name
        rw [List.filter_cons, List.lookup_cons, h_beq]
        split
        · rw [List.lookup_cons, h_beq]
          exact ih
        · exact ih

theorem lookup_rel {R : String → Json → Json → Prop} {fields fields' : List (String × Json)}
    (h : List.Forall₂ (fun f f' => f'.1 = f.1 ∧ R f.1 f.2 f'.2) fields fields') (name : String) :
    Option.Rel (R name) (fields.lookup name) (fields'.lookup name) := by
  induction h with
  | nil => exact .none
  | @cons f f' _ _ h_head _ ih =>
      obtain ⟨key, json⟩ := f
      obtain ⟨key', json'⟩ := f'
      obtain ⟨h_key, h_value⟩ := h_head
      dsimp only at h_key h_value
      subst h_key
      rw [List.lookup_cons, List.lookup_cons]
      cases h_name : name == key' with
      | true =>
          obtain rfl := eq_of_beq h_name
          exact .some h_value
      | false => exact ih

/-- A written field is found, unless it is left out. -/
theorem FieldsEdited.lookup {o : Omitted} {R : String → Json → Json → Prop}
    {fields fields' : List (String × Json)} (h : FieldsEdited o R fields fields') {name : String}
    {json : Json} (h_written : fields.lookup name = some json) :
    o name = true ∧ fields'.lookup name = none ∨
      o name = false ∧ ∃ json', fields'.lookup name = some json' ∧ R name json json' := by
  have h_mem : name ∈ fields.map Prod.fst := by
    obtain ⟨before, after, rfl, -⟩ := List.lookup_eq_some_iff.mp h_written
    simp
  -- The name was written, so of the two filters only the one for what is left out can hide it.
  have h_rel := lookup_rel h name
  rw [lookup_filter fun name => !o name, lookup_filter fun name =>
    decide (name ∈ fields.map Prod.fst), if_pos (decide_eq_true h_mem), h_written] at h_rel
  generalize fields'.lookup name = found at h_rel
  cases h_out : o name with
  | true =>
      rw [h_out] at h_rel
      cases h_rel
      exact .inl ⟨rfl, rfl⟩
  | false =>
      rw [h_out] at h_rel
      cases h_rel with
      | some h_value => exact .inr ⟨rfl, _, rfl, h_value⟩

theorem FieldsEdited.optional {o : Omitted} {R : String → Json → Json → Prop}
    {fields fields' : List (String × Json)} (h : FieldsEdited o R fields fields')
    {read : Json → Option β} {json : Json} {value : β} (name : String)
    (h_written : fields.lookup name = some json)
    (h_read : ∀ json', R name json json' → read json' = some value) (default : β) :
    Json.optional read name default fields' = some (o.value name default value) := by
  unfold Json.optional Omitted.value
  rcases h.lookup h_written with ⟨h_out, h_none⟩ | ⟨h_in, json', h_some, h_value⟩
  · rw [h_none, h_out]
    rfl
  · rw [h_some, h_in]
    exact h_read json' h_value

theorem FieldsEdited.unchanged {o : Omitted} {fields fields' : List (String × Json)}
    (h : FieldsEdited o (fun _ => Eq) fields fields') {read : Json → Option β} {json : Json}
    {value : β} (name : String) (h_written : fields.lookup name = some json)
    (h_read : read json = some value) (default : β) :
    Json.optional read name default fields' = some (o.value name default value) := by
  refine h.optional name h_written ?_ default
  rintro _ rfl
  exact h_read

theorem FieldsEdited.required {o : Omitted} {R : String → Json → Json → Prop}
    {fields fields' : List (String × Json)} (h : FieldsEdited o R fields fields')
    {read : Json → Option β} {json : Json} {value : β} (name : String)
    (h_written : fields.lookup name = some json) (h_in : o name = false)
    (h_read : ∀ json', R name json json' → read json' = some value) :
    Json.required read name fields' = some value := by
  unfold Json.required
  rcases h.lookup h_written with ⟨h_out, -⟩ | ⟨-, json', h_some, h_value⟩
  · rw [h_in] at h_out
    cases h_out
  · rw [h_some]
    exact h_read json' h_value

/-! ## Lists -/

theorem mapM_eq_some {read : Json → Option β} {items : List Json} {values : List β}
    (h : ∀ i : ℕ, Option.Rel (fun item value => read item = some value) items[i]? values[i]?) :
    items.mapM read = some values := by
  induction items generalizing values with
  | nil =>
      cases values with
      | nil => rfl
      | cons value values => cases h 0
  | cons item items ih =>
      cases values with
      | nil => cases h 0
      | cons value values =>
          cases h 0 with
          | some h_item =>
              rw [List.mapM_cons, h_item, ih fun i => h (i + 1)]
              rfl

theorem list?_map {write : α → Json} {read : Json → Option α} {values : List α}
    (h : ∀ value ∈ values, read (write value) = some value) :
    list? read (.arr (values.map write)) = some values := by
  refine mapM_eq_some fun i => ?_
  rw [List.getElem?_map]
  cases h_value : values[i]? with
  | none => exact .none
  | some value => exact .some (h value (List.mem_of_getElem? h_value))

/-- An edited list is read back item by item. -/
theorem ListEdited.list?_eq {R : ℕ → Json → Json → Prop} {write : α → Json} {values : List α}
    {json' : Json} (h : ListEdited R (.arr (values.map write)) json') {read : Json → Option β}
    {result : ℕ → α → β}
    (h_read : ∀ i, ∀ value ∈ values, ∀ item', R i (write value) item' →
      read item' = some (result i value)) :
    list? read json' = some (values.mapIdx result) := by
  cases h with
  | @arr _ items' edited =>
      refine mapM_eq_some fun i => ?_
      have h_item := edited i
      rw [List.getElem?_map] at h_item
      rw [List.getElem?_mapIdx]
      -- An edit has no item at a place exactly if there is no value for it.
      generalize items'[i]? = item at h_item ⊢
      cases h_value : values[i]? with
      | none =>
          rw [h_value] at h_item
          cases h_item
          exact .none
      | some value =>
          rw [h_value] at h_item
          cases h_item with
          | some h_edited => exact .some (h_read i value (List.mem_of_getElem? h_value) _ h_edited)

/-! ## Single values -/

theorem pair?_eq {first : Json → Option β} {second : Json → Option γ} {json json' : Json} {a : β}
    {b : γ} (h : first json = some a) (h' : second json' = some b) :
    pair? first second (.arr [json, json']) = some (a, b) := by
  rw [pair?, h, h']
  rfl

theorem nat?_ofNat {bound n : ℕ} (h : n < bound) : nat? bound (ofNat n) = some n := by
  have h_range : 0 ≤ (n : ℤ) ∧ (n : ℤ) < bound := ⟨Int.natCast_nonneg n, by exact_mod_cast h⟩
  rw [ofNat, nat?, if_pos h_range, Int.toNat_natCast]

theorem char?_ofChar (c : Char) : char? (ofChar c) = some c := by
  have h_chars : c.toString.toList = [c] := by simp
  rw [ofChar, char?, h_chars]

theorem word?_ofWord (word : Word) : word? (ofWord word) = some word := by
  have h_chars : (String.ofList word).toList = word := by simp
  show some (String.ofList word).toList = some word
  rw [h_chars]

/-- Every finite number is read back from what `num` writes for it. -/
def ReadsBack (num : Float32 → Json) : Prop :=
  ∀ x : Float32, x.isFinite = true → float32? (num x) = some x

theorem readsBack_ofFloat32 : ReadsBack ofFloat32 := by
  intro x h_x
  rw [ofFloat32, ofFinite, if_pos h_x, float32?, Binary32.narrow_widen h_x]

/-- No number is written as null. -/
theorem ReadsBack.nullable? {num : Float32 → Json} (h : ReadsBack num) {x : Option Float32}
    (h_finite : ∀ y ∈ x, y.isFinite = true) :
    Json.nullable? float32? (x.elim .null num) = some x := by
  cases x with
  | none => rfl
  | some y =>
      have h_y := h y (h_finite y rfl)
      show Json.nullable? float32? (num y) = some (some y)
      unfold Json.nullable?
      split
      next h_null =>
        rw [h_null] at h_y
        cases h_y
      next => rw [h_y, Option.map_some]

end Json

end Verdure
