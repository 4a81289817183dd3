import Mathlib.Data.List.Nodup
import Semnav.ForStd.Json

/-!
# Codecs of JSON values

The shapes that a derived serializer gives to a type, each with the proof that what it writes is
read as the same value: from the text, or by way of a value in memory, whose maps are sorted.
`Fields` are a part of an object, which several structures may share: each is found by its key,
and of two parts side by side none has a key of the other.

## Key results

- `Codec.reads`, `Fields.reads`: carried by each codec and each part of an object
- `Fields.and`: two parts of one object
- `Fields.optional`: a part that may be absent
- `Codec.adjacent`: an enumeration with its tag and its content side by side
-/

namespace Semnav.ForStd

open Json

/-- How a serialized value is read: from its text, or as a value in memory. -/
inductive View where
  | text
  | value

namespace View

/-- What a value is when it is read: its maps are built when it is one in memory. -/
def apply : View → Json → Json
  | .text, v => v
  | .value, v => v.canon

/-- The fields of an object as a view has them: as they are written, or in canonical form. -/
def fields : View → List (String × Json) → List (String × Json)
  | .text, es => es
  | .value, es => canonFields es

variable (view : View)

/-- The view of a boolean is the boolean. -/
@[simp] theorem apply_bool (b : Bool) : view.apply (.bool b) = .bool b := by cases view <;> rfl

/-- The view of a number is the number. -/
@[simp] theorem apply_int (n : Int) : view.apply (.int n) = .int n := by cases view <;> rfl

/-- The view of a string is the string. -/
@[simp] theorem apply_str (s : String) : view.apply (.str s) = .str s := by cases view <;> rfl

/-- The view of `null` is `null`. -/
@[simp] theorem apply_null : view.apply .null = .null := by cases view <;> rfl

/-- An array is viewed item by item. -/
@[simp] theorem apply_arr (items : List Json) :
    view.apply (.arr items) = .arr (items.map view.apply) := by
  cases view with
  | text =>
    show Json.arr items = .arr (items.map fun v => v)
    rw [List.map_id']
  | value =>
    show Json.arr (canonItems items) = .arr (items.map canon)
    rw [canonItems_eq_map]

/-- An object is viewed by its fields. -/
@[simp] theorem apply_obj (es : List (String × Json)) :
    view.apply (.obj es) = .obj (view.fields es) := by cases view <;> rfl

/-- A single field stays the only one. -/
@[simp] theorem fields_singleton (key : String) (v : Json) :
    view.fields [(key, v)] = [(key, view.apply v)] := by cases view <;> rfl

/-- Nothing else becomes `null`. -/
theorem apply_ne_null {v : Json} (h : v ≠ .null) : view.apply v ≠ .null := by
  cases view with
  | text => exact h
  | value =>
    cases v with
    | null => exact absurd rfl h
    | _ => exact nofun

/-- The values of a key are viewed one by one. -/
theorem valuesOf_fields {es : List (String × Json)} (h : (es.map Prod.fst).Nodup) (key : String) :
    valuesOf key (view.fields es) = (valuesOf key es).map view.apply := by
  cases view with
  | text =>
    show valuesOf key es = (valuesOf key es).map fun v => v
    rw [List.map_id']
  | value => exact valuesOf_canonFields h key

end View

/-- How a type is serialized and deserialized. -/
structure Codec (α : Type) where
  encode : α → Json
  decode : Json → Option α
  reads : ∀ (view : View) (a : α), decode (view.apply (encode a)) = some a

namespace Codec

variable {α β : Type}

/-- `bool` -/
def bool : Codec Bool where
  encode := .bool
  decode
    | .bool b => some b
    | _ => none
  reads view b := by rw [View.apply_bool]

/-- `String` -/
def string : Codec String where
  encode := .str
  decode
    | .str s => some s
    | _ => none
  reads view s := by rw [View.apply_str]

/-- An integer type of the machine, by its value; `ofInt` is the checked conversion. -/
def uint (toNat : α → Nat) (ofNat : Nat → α) (bound : Nat)
    (hlt : ∀ a, toNat a < bound) (hof : ∀ a, ofNat (toNat a) = a) : Codec α where
  encode a := .int (toNat a)
  decode
    | .int n => if 0 ≤ n ∧ n < bound then some (ofNat n.toNat) else none
    | _ => none
  reads view a := by
    have hrange : 0 ≤ (toNat a : Int) ∧ (toNat a : Int) < bound :=
      ⟨Int.natCast_nonneg _, Int.ofNat_lt.mpr (hlt a)⟩
    rw [View.apply_int]
    show (if 0 ≤ (toNat a : Int) ∧ (toNat a : Int) < bound then _ else none) = _
    rw [if_pos hrange, Int.toNat_natCast, hof]

/-- `u32` -/
def u32 : Codec UInt32 :=
  uint UInt32.toNat UInt32.ofNat (2 ^ 32) UInt32.toNat_lt fun _ => UInt32.ofNat_toNat

/-- `u64` -/
def u64 : Codec UInt64 :=
  uint UInt64.toNat UInt64.ofNat (2 ^ 64) UInt64.toNat_lt fun _ => UInt64.ofNat_toNat

/-- A list is read item by item. -/
theorem mapM_reads (c : Codec α) (view : View) (as : List α) :
    ((as.map c.encode).map view.apply).mapM c.decode = some as := by
  induction as with
  | nil => rfl
  | cons a as ih =>
    rw [List.map_cons, List.map_cons, List.mapM_cons, c.reads, ih]
    rfl

/-- `Vec` -/
def list (c : Codec α) : Codec (List α) where
  encode as := .arr (as.map c.encode)
  decode
    | .arr items => items.mapM c.decode
    | _ => none
  reads view as := by
    rw [View.apply_arr]
    exact c.mapM_reads view as

/-- An enumeration of names. -/
def names (name : α → String) (ofName : String → Option α)
    (h : ∀ a, ofName (name a) = some a) : Codec α where
  encode a := .str (name a)
  decode
    | .str s => ofName s
    | _ => none
  reads view a := by
    rw [View.apply_str]
    exact h a

/-- An enumeration with its tag in one field and its content, if it has any, in another. -/
def adjacent (tag content : String) (hne : tag ≠ content) (split : α → String × Option Json)
    (join : String → Option Json → Option α)
    (hjoin : ∀ (view : View) a, join (split a).1 ((split a).2.map view.apply) = some a) :
    Codec α where
  encode a := .obj ((tag, .str (split a).1) :: (split a).2.toList.map fun v => (content, v))
  decode
    | .obj es =>
      match valuesOf tag es, valuesOf content es with
      | [.str t], [] => join t none
      | [.str t], [v] => join t (some v)
      | _, _ => none
    | _ => none
  reads view a := by
    have hread := hjoin view a
    rw [View.apply_obj]
    cases hsplit : (split a).2 with
    | none =>
      rw [hsplit] at hread
      show (match valuesOf tag (view.fields [(tag, .str (split a).1)]),
        valuesOf content (view.fields [(tag, .str (split a).1)]) with
        | [.str t], [] => join t none
        | [.str t], [v] => join t (some v)
        | _, _ => none) = some a
      rw [View.fields_singleton, valuesOf_cons_self, valuesOf_cons_of_ne hne, View.apply_str]
      exact hread
    | some v =>
      rw [hsplit] at hread
      have hnodup : (([(tag, .str (split a).1), (content, v)] : List (String × Json)).map
          Prod.fst).Nodup := by
        simp [hne]
      show (match valuesOf tag (view.fields [(tag, .str (split a).1), (content, v)]),
        valuesOf content (view.fields [(tag, .str (split a).1), (content, v)]) with
        | [.str t], [] => join t none
        | [.str t], [v] => join t (some v)
        | _, _ => none) = some a
      rw [View.valuesOf_fields view hnodup, View.valuesOf_fields view hnodup, valuesOf_cons_self,
        valuesOf_cons_of_ne (Ne.symm hne), valuesOf_cons_of_ne hne, valuesOf_cons_self]
      simp only [valuesOf_nil, List.map_cons, List.map_nil, View.apply_str]
      exact hread

/-- `Result`, by the name of its variant. -/
def result (c : Codec α) (d : Codec β) : Codec (Except β α) where
  encode
    | .ok a => .obj [("Ok", c.encode a)]
    | .error b => .obj [("Err", d.encode b)]
  decode
    | .obj [(key, v)] =>
      if key = "Ok" then (c.decode v).map .ok
      else if key = "Err" then (d.decode v).map .error
      else none
    | _ => none
  reads view res := by
    cases res with
    | ok a => simp [c.reads]
    | error b => simp [d.reads]

end Codec

/-- A value in memory. -/
structure Value where
  json : Json
  canonical : json.canon = json

/-- Reading a value: its maps are built. -/
def Value.ofJson (v : Json) : Value := ⟨v.canon, canon_canon v⟩

/-- Either view of a value is the value. -/
theorem Value.ofJson_apply (view : View) (v : Value) : ofJson (view.apply v.json) = v := by
  have hcanon : (view.apply v.json).canon = v.json := by
    cases view with
    | text => exact v.canonical
    | value => exact (canon_canon v.json).trans v.canonical
  obtain ⟨json, canonical⟩ := v
  simp only [ofJson, hcanon]

namespace Codec

variable {α : Type}

/-- `serde_json::Value` -/
def value : Codec Value where
  encode v := v.json
  decode v := some (.ofJson v)
  reads view v := congrArg some (Value.ofJson_apply view v)

/-- `to_value` -/
def toValue (c : Codec α) (a : α) : Value := .ofJson (c.encode a)

/-- `from_value` -/
def fromValue (c : Codec α) (v : Value) : Option α := c.decode v.json

/-- `from_value` undoes `to_value`. -/
theorem fromValue_toValue (c : Codec α) (a : α) : c.fromValue (c.toValue a) = some a :=
  c.reads .value a

end Codec

/-- A part of an object. -/
structure Fields (α : Type) where
  keys : List String
  entries : α → List (String × Json)
  parse : List (String × Json) → Option α
  own : ∀ a, ∀ f ∈ entries a, f.1 ∈ keys
  nodup : ∀ a, ((entries a).map Prod.fst).Nodup
  /-- It reads what it wrote wherever its keys have the values that it wrote. -/
  reads : ∀ (view : View) a es,
    (∀ key ∈ keys, valuesOf key es = (valuesOf key (entries a)).map view.apply) → parse es = some a

namespace Fields

variable {α β : Type}

/-- A field that is written is one of the structure's. -/
theorem own_of_mem (g : Fields α) {a : α} {key : String} (h : key ∈ (g.entries a).map Prod.fst) :
    key ∈ g.keys := by
  obtain ⟨f, hf, rfl⟩ := List.mem_map.mp h
  exact g.own a f hf

/-- One field, with what is read where the key is absent and how its value is read. -/
def ofField (key : String) (encode : α → Json) (absent : Option α) (decode : Json → Option α)
    (hreads : ∀ (view : View) a, decode (view.apply (encode a)) = some a) : Fields α where
  keys := [key]
  entries a := [(key, encode a)]
  parse es :=
    match valuesOf key es with
    | [] => absent
    | [v] => decode v
    | _ => none
  own a f hf := by
    rw [List.mem_singleton.mp hf]
    exact List.mem_singleton.mpr rfl
  nodup _ := List.nodup_singleton _
  reads view a es h := by
    have hkey := h key (List.mem_singleton.mpr rfl)
    rw [valuesOf_cons_self] at hkey
    rw [hkey]
    exact hreads view a

/-- A field that must be there. -/
def field (key : String) (c : Codec α) : Fields α :=
  ofField key c.encode none c.decode c.reads

/-- `#[serde(default)]`: a field that has a value if it is absent. -/
def defaultField (key : String) (c : Codec α) (default : α) : Fields α :=
  ofField key c.encode (some default) c.decode c.reads

/-- A field of type `Option`: it is written as `null` if there is nothing, and read as nothing where
    it is `null` or absent. -/
def optionField (key : String) (c : Codec α) (hnull : ∀ a, c.encode a ≠ .null) :
    Fields (Option α) :=
  ofField key (fun a => (a.map c.encode).getD .null) (some none)
    (fun
      | .null => some none
      | v => (c.decode v).map some)
    (by
      intro view a
      cases a with
      | none =>
        simp only [Option.map_none, Option.getD_none, View.apply_null]
      | some a =>
        have hne := view.apply_ne_null (hnull a)
        have hreads := c.reads view a
        simp only [Option.map_some, Option.getD_some]
        rw [hreads, Option.map_some])

/-- A key of another structure has no value here. -/
theorem valuesOf_other (g : Fields α) (a : α) {key : String} (h : key ∉ g.keys) :
    valuesOf key (g.entries a) = [] :=
  valuesOf_of_not_mem fun hmem => h (g.own_of_mem hmem)

/-- Two parts of one object, with no key in common. -/
def and (g : Fields α) (h : Fields β) (hkeys : ∀ key ∈ g.keys, key ∉ h.keys) : Fields (α × β) where
  keys := g.keys ++ h.keys
  entries ab := g.entries ab.1 ++ h.entries ab.2
  parse es := (g.parse es).bind fun a => (h.parse es).map fun b => (a, b)
  own ab f hf := by
    cases List.mem_append.mp hf with
    | inl hg => exact List.mem_append_left h.keys (g.own ab.1 f hg)
    | inr hh => exact List.mem_append_right g.keys (h.own ab.2 f hh)
  nodup ab := by
    rw [List.map_append]
    apply List.Nodup.append (g.nodup ab.1) (h.nodup ab.2)
    intro key hg hh
    exact hkeys key (g.own_of_mem hg) (h.own_of_mem hh)
  reads view ab es hes := by
    have hg : g.parse es = some ab.1 := by
      apply g.reads view ab.1 es
      intro key hkey
      rw [hes key (List.mem_append_left h.keys hkey), valuesOf_append,
        h.valuesOf_other ab.2 (hkeys key hkey), List.append_nil]
    have hh : h.parse es = some ab.2 := by
      apply h.reads view ab.2 es
      intro key hkey
      have hnot : key ∉ g.keys := fun hmem => hkeys key hmem hkey
      rw [hes key (List.mem_append_right g.keys hkey), valuesOf_append,
        g.valuesOf_other ab.1 hnot, List.nil_append]
    rw [hg, hh]
    rfl

/-- Where none of its keys is there, the part is not read. -/
def Needed (g : Fields α) : Prop :=
  ∀ es, (∀ key ∈ g.keys, valuesOf key es = []) → g.parse es = none

/-- A field without a default is needed. -/
theorem needed_field (key : String) (c : Codec α) : (field key c).Needed := by
  intro es hes
  have hkey : valuesOf key es = [] := hes key (List.mem_singleton.mpr rfl)
  show (match valuesOf key es with
    | [] => none
    | [v] => c.decode v
    | _ => none) = none
  rw [hkey]

/-- With a needed part the whole is needed. -/
theorem Needed.and {g : Fields α} (hg : g.Needed) (h : Fields β)
    (hkeys : ∀ key ∈ g.keys, key ∉ h.keys) : (g.and h hkeys).Needed := by
  intro es hes
  have hnone : g.parse es = none := hg es fun key hkey => hes key (List.mem_append_left h.keys hkey)
  show (g.parse es).bind _ = none
  rw [hnone]
  rfl

/-- A flattened `Option`: nothing is written if there is nothing, and it is read if it can be. -/
def optional (g : Fields α) (hg : g.Needed) : Fields (Option α) where
  keys := g.keys
  entries a := (a.map g.entries).getD []
  parse es := some (g.parse es)
  own a f hf := by
    cases a with
    | none => exact absurd hf List.not_mem_nil
    | some a => exact g.own a f hf
  nodup a := by
    cases a with
    | none => exact List.nodup_nil
    | some a => exact g.nodup a
  reads view a es hes := by
    cases a with
    | none => rw [hg es hes]
    | some a => rw [g.reads view a es hes]

/-- The fields of a type, used for another one that is made of it. -/
def map (g : Fields α) (make : α → β) (of : β → α) (h : ∀ b, make (of b) = b) : Fields β where
  keys := g.keys
  entries b := g.entries (of b)
  parse es := (g.parse es).map make
  own b := g.own (of b)
  nodup b := g.nodup (of b)
  reads view b es hes := by
    rw [g.reads view (of b) es hes, Option.map_some, h]

/-- What is needed is so whatever is made of it. -/
theorem Needed.map {g : Fields α} (hg : g.Needed) (make : α → β) (of : β → α)
    (h : ∀ b, make (of b) = b) : (g.map make of h).Needed := by
  intro es hes
  show (g.parse es).map make = none
  rw [hg es hes]
  rfl

/-- The part as an object of its own. -/
def codec (g : Fields α) : Codec α where
  encode a := .obj (g.entries a)
  decode
    | .obj es => g.parse es
    | _ => none
  reads view a := by
    rw [View.apply_obj]
    exact g.reads view a _ fun key _ => view.valuesOf_fields (g.nodup a) key

/-- A structure is an object. -/
theorem codec_ne_null (g : Fields α) (a : α) : g.codec.encode a ≠ .null := nofun

end Fields

end Semnav.ForStd
