import Mathlib.Algebra.Group.Int.Defs
import Mathlib.Data.List.Basic
import Mathlib.Data.String.Basic

/-!
# JSON values

A JSON value with the fields of its objects in the order in which they stand in the text, and the
canonical form that it has as a value in memory, whose objects are maps sorted by key.

## Key results

- `Json.valuesOf_canonFields`: a key has the same value in the canonical form
- `Json.canon_canon`: the canonical form is its own canonical form
-/

namespace Semnav.ForStd

/-- A JSON value. -/
inductive Json where
  | null
  | bool (b : Bool)
  | int (n : Int)
  /-- A number that is no integer, by the bits of its `f64`. -/
  | float (bits : UInt64)
  | str (s : String)
  | arr (items : List Json)
  | obj (fields : List (String × Json))

namespace Json

/-- A field of an object. -/
def field (fields : List (String × Json)) (key : String) : Option Json := fields.lookup key

/-- As an `i64`. -/
def asI64 : Json → Option Int64
  | .int n => if -2 ^ 63 ≤ n ∧ n < 2 ^ 63 then some (Int64.ofInt n) else none
  | _ => none

/-- As a `String`. -/
def asString : Json → Option String
  | .str s => some s
  | _ => none

/-- As an `Option<Value>`, `None` by default: `null` is read as `None`. -/
def optional : Option Json → Option Json
  | some .null => none
  | v => v

/-! ## Fields -/

/-- The values that a key has, in their order. -/
def valuesOf (key : String) (fields : List (String × Json)) : List Json :=
  fields.filterMap fun f => if f.1 = key then some f.2 else none

/-- An empty object has no value for a key. -/
@[simp] theorem valuesOf_nil (key : String) : valuesOf key [] = [] := rfl

/-- A field of that key is a value. -/
@[simp] theorem valuesOf_cons_self (key : String) (v : Json) (fields : List (String × Json)) :
    valuesOf key ((key, v) :: fields) = v :: valuesOf key fields := by
  simp [valuesOf]

/-- A field of another key is no value of this one. -/
theorem valuesOf_cons_of_ne {key : String} {f : String × Json} (h : f.1 ≠ key)
    (fields : List (String × Json)) : valuesOf key (f :: fields) = valuesOf key fields := by
  simp [valuesOf, h]

/-- The fields of two parts give the values of both. -/
@[simp] theorem valuesOf_append (key : String) (fields fields' : List (String × Json)) :
    valuesOf key (fields ++ fields') = valuesOf key fields ++ valuesOf key fields' := by
  simp [valuesOf]

/-- A key that does not occur has no value. -/
theorem valuesOf_of_not_mem {key : String} {fields : List (String × Json)}
    (h : key ∉ fields.map Prod.fst) : valuesOf key fields = [] := by
  induction fields with
  | nil => rfl
  | cons f fields ih =>
    simp only [List.map_cons, List.mem_cons, not_or] at h
    rw [valuesOf_cons_of_ne (Ne.symm h.1)]
    exact ih h.2

/-! ## The canonical form -/

/-- A new field of a map that is sorted by key; a field that is there stays. -/
def insertField (key : String) (v : Json) : List (String × Json) → List (String × Json)
  | [] => [(key, v)]
  | f :: fields =>
    if key < f.1 then (key, v) :: f :: fields
    else if key = f.1 then f :: fields
    else f :: insertField key v fields

mutual

/-- As a value in memory: objects are maps, in which the last of several equal keys counts. -/
def canon : Json → Json
  | .arr items => .arr (canonItems items)
  | .obj fields => .obj (canonFields fields)
  | v => v

/-- The items of an array in canonical form. -/
def canonItems : List Json → List Json
  | [] => []
  | v :: items => canon v :: canonItems items

/-- The fields of an object in canonical form: sorted, the last of a key kept. -/
def canonFields : List (String × Json) → List (String × Json)
  | [] => []
  | (key, v) :: fields => insertField key (canon v) (canonFields fields)

end

/-- Each item is made canonical. -/
theorem canonItems_eq_map (items : List Json) : canonItems items = items.map canon := by
  induction items with
  | nil => rfl
  | cons v items ih => rw [canonItems, ih, List.map_cons]

/-- What is inserted is the field or was there. -/
theorem mem_insertField {key : String} {v : Json} {f : String × Json}
    {fields : List (String × Json)} (h : f ∈ insertField key v fields) :
    f = (key, v) ∨ f ∈ fields := by
  induction fields with
  | nil => exact .inl (List.mem_singleton.mp h)
  | cons g fields ih =>
    simp only [insertField] at h
    split at h
    -- The key sorts before the head of the list: the new field is put in front.
    next => exact List.mem_cons.mp h
    next =>
      split at h
      next => exact .inr h
      -- The key sorts behind it: the insertion goes on in the tail.
      next =>
        cases List.mem_cons.mp h with
        | inl hfg => exact .inr (List.mem_cons.mpr (.inl hfg))
        | inr hf =>
          cases ih hf with
          | inl hnew => exact .inl hnew
          | inr hold => exact .inr (List.mem_cons_of_mem g hold)

/-- A new key gets the value. -/
theorem valuesOf_insertField_self {key : String} {v : Json} {fields : List (String × Json)}
    (h : valuesOf key fields = []) : valuesOf key (insertField key v fields) = [v] := by
  induction fields with
  | nil => exact valuesOf_cons_self key v []
  | cons f fields ih =>
    have hne : f.1 ≠ key := by
      intro heq
      subst heq
      exact nomatch (valuesOf_cons_self f.1 f.2 fields).symm.trans h
    simp only [insertField]
    split
    next => rw [valuesOf_cons_self, h]
    next =>
      rw [if_neg (Ne.symm hne), valuesOf_cons_of_ne hne]
      exact ih ((valuesOf_cons_of_ne hne fields).symm.trans h)

/-- The other keys keep their values. -/
theorem valuesOf_insertField_of_ne {key key' : String} (v : Json) (h : key' ≠ key)
    (fields : List (String × Json)) :
    valuesOf key (insertField key' v fields) = valuesOf key fields := by
  induction fields with
  | nil => exact valuesOf_cons_of_ne h []
  | cons f fields ih =>
    simp only [insertField]
    split
    next => exact valuesOf_cons_of_ne h (f :: fields)
    next =>
      split
      next => rfl
      next =>
        by_cases hf : f.1 = key
        · subst hf
          rw [valuesOf_cons_self f.1 f.2, valuesOf_cons_self f.1 f.2, ih]
        · rw [valuesOf_cons_of_ne hf, valuesOf_cons_of_ne hf, ih]

/-- A key has one value in the canonical form, and that is its value's canonical form. -/
theorem valuesOf_canonFields {fields : List (String × Json)} (h : (fields.map Prod.fst).Nodup)
    (key : String) : valuesOf key (canonFields fields) = (valuesOf key fields).map canon := by
  induction fields with
  | nil => rfl
  | cons f fields ih =>
    obtain ⟨k, v⟩ := f
    rw [List.map_cons, List.nodup_cons] at h
    have hrest := ih h.2
    rw [canonFields]
    by_cases hk : k = key
    · subst hk
      have hnone : valuesOf k fields = [] := valuesOf_of_not_mem h.1
      rw [hnone, List.map_nil] at hrest
      rw [valuesOf_insertField_self hrest, valuesOf_cons_self, hnone, List.map_singleton]
    · rw [valuesOf_insertField_of_ne _ hk, valuesOf_cons_of_ne hk, hrest]

/-- The keys go up. -/
def Sorted (fields : List (String × Json)) : Prop := fields.Pairwise fun f g => f.1 < g.1

/-- Insertion keeps the order of the keys. -/
theorem Sorted.insertField {fields : List (String × Json)} (h : Sorted fields) (key : String)
    (v : Json) : Sorted (insertField key v fields) := by
  induction fields with
  | nil => exact List.pairwise_singleton _ _
  | cons f fields ih =>
    obtain ⟨hf, hfields⟩ := List.pairwise_cons.mp h
    simp only [Json.insertField]
    split
    -- A smaller key goes before the head, an equal one replaces it, a greater one goes on.
    next hlt =>
      apply List.pairwise_cons.mpr ⟨?_, h⟩
      intro g hg
      cases List.mem_cons.mp hg with
      | inl heq => exact heq ▸ hlt
      | inr hmem => exact lt_trans hlt (hf g hmem)
    next hnlt =>
      split
      next => exact h
      next hne =>
        apply List.pairwise_cons.mpr ⟨?_, ih hfields⟩
        intro g hg
        -- The field comes behind the head: it is the new one or was there before.
        cases mem_insertField hg with
        | inl heq =>
          show f.1 < g.1
          rw [heq]
          exact lt_of_le_of_ne (not_lt.mp hnlt) (Ne.symm hne)
        | inr hmem => exact hf g hmem

/-- Canonical fields are sorted. -/
theorem canonFields_sorted (fields : List (String × Json)) : Sorted (canonFields fields) := by
  induction fields with
  | nil => exact List.Pairwise.nil
  | cons f fields ih => exact ih.insertField f.1 (canon f.2)

/-- What is sorted and holds canonical values is left as it is. -/
theorem canonFields_of_sorted {fields : List (String × Json)} (h : Sorted fields)
    (hvalues : ∀ f ∈ fields, canon f.2 = f.2) : canonFields fields = fields := by
  induction fields with
  | nil => rfl
  | cons f fields ih =>
    obtain ⟨k, v⟩ := f
    obtain ⟨hf, hfields⟩ := List.pairwise_cons.mp h
    rw [canonFields, hvalues (k, v) List.mem_cons_self,
      ih hfields fun g hg => hvalues g (List.mem_cons_of_mem _ hg)]
    cases fields with
    | nil => rfl
    | cons g fields =>
      have hlt : k < g.1 := hf g List.mem_cons_self
      rw [insertField, if_pos hlt]

mutual

/-- A canonical value is its own canonical form. -/
theorem canon_canon : ∀ v : Json, canon (canon v) = canon v
  | .arr items => by rw [canon, canon, canonItems_canonItems items]
  | .obj fields => by
    rw [canon, canon, canonFields_of_sorted (canonFields_sorted fields) (canon_values fields)]
  | .null | .bool _ | .int _ | .float _ | .str _ => rfl

/-- The canonical items of an array are their own canonical form. -/
theorem canonItems_canonItems : ∀ items : List Json,
    canonItems (canonItems items) = canonItems items
  | [] => rfl
  | v :: items => by rw [canonItems, canonItems, canon_canon v, canonItems_canonItems items]

/-- The values of canonical fields are canonical. -/
theorem canon_values : ∀ (fields : List (String × Json)), ∀ f ∈ canonFields fields,
    canon f.2 = f.2
  | [] => fun _ hf => absurd hf List.not_mem_nil
  | (key, v) :: fields => fun f hf => by
    have hv := canon_canon v
    have hfields := canon_values fields
    cases mem_insertField hf with
    | inl hnew =>
      rw [hnew]
      exact hv
    | inr hold => exact hfields f hold

end

end Json

end Semnav.ForStd
