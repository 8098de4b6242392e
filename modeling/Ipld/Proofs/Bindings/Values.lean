import Mathlib
import Ipld.Typed.Placeholder
import Ipld.Typed.Convert

/-!
# Full values and their placeholders

Generated bindings hold a `TypedValue` of a type's shape; minimal bindings hold a placeholder,
which a generic serializer sees as a `NativeValue`. `Fits ts s v` says `v` is a value of the
generated type of shape `s`; `native ts s v` is the placeholder holding the same values;
`JsonOf ts s v j` says `j` is a JSON value the placeholder of `v` is read from, where a float
may stand as an integer that reads as it and a non-finite float as null.

Both kinds of value compare structurally, so `==` on them is equality (`LawfulBEq`).
-/

namespace Ipld

/-! ## Structural equality of placeholders -/

mutual

theorem NativeValue.eq_of_beq : (a b : NativeValue) → NativeValue.beq a b = true → a = b
  | .unit, b, h | .bool _, b, h | .int _, b, h | .float _, b, h | .text _, b, h | .bytes _, b, h
  | .bareVariant _, b, h => by cases b <;> simp_all [NativeValue.beq]
  | .seq a, b, h => by
    cases b with
    | seq b => simp only [NativeValue.beq] at h; rw [NativeValue.eq_of_beqList a b h]
    | _ => simp [NativeValue.beq] at h
  | .map a, b, h => by
    cases b with
    | map b => simp only [NativeValue.beq] at h; rw [NativeValue.eq_of_beqEntries a b h]
    | _ => simp [NativeValue.beq] at h
  | .record a, b, h => by
    cases b with
    | record b => simp only [NativeValue.beq] at h; rw [NativeValue.eq_of_beqFields a b h]
    | _ => simp [NativeValue.beq] at h
  | .variant a x, b, h => by
    cases b with
    | variant b y =>
      simp only [NativeValue.beq, Bool.and_eq_true, beq_iff_eq] at h
      rw [h.1, NativeValue.eq_of_beq x y h.2]
    | _ => simp [NativeValue.beq] at h

theorem NativeValue.eq_of_beqList : (a b : List NativeValue) → NativeValue.beqList a b = true → a = b
  | [], [], _ => rfl
  | x :: xs, y :: ys, h => by
    simp only [NativeValue.beqList, Bool.and_eq_true] at h
    rw [NativeValue.eq_of_beq x y h.1, NativeValue.eq_of_beqList xs ys h.2]
  | [], _ :: _, h | _ :: _, [], h => by simp [NativeValue.beqList] at h

theorem NativeValue.eq_of_beqEntries :
    (a b : List (NativeValue × NativeValue)) → NativeValue.beqEntries a b = true → a = b
  | [], [], _ => rfl
  | (x, x') :: xs, (y, y') :: ys, h => by
    simp only [NativeValue.beqEntries, Bool.and_eq_true] at h
    rw [NativeValue.eq_of_beq x y h.1.1, NativeValue.eq_of_beq x' y' h.1.2,
      NativeValue.eq_of_beqEntries xs ys h.2]
  | [], _ :: _, h | _ :: _, [], h => by simp [NativeValue.beqEntries] at h

theorem NativeValue.eq_of_beqFields :
    (a b : List (String × NativeValue)) → NativeValue.beqFields a b = true → a = b
  | [], [], _ => rfl
  | (x, x') :: xs, (y, y') :: ys, h => by
    simp only [NativeValue.beqFields, Bool.and_eq_true, beq_iff_eq] at h
    rw [h.1.1, NativeValue.eq_of_beq x' y' h.1.2, NativeValue.eq_of_beqFields xs ys h.2]
  | [], _ :: _, h | _ :: _, [], h => by simp [NativeValue.beqFields] at h

end

mutual

theorem NativeValue.beq_self : (a : NativeValue) → NativeValue.beq a a = true
  | .seq a => by simp only [NativeValue.beq]; exact NativeValue.beqList_self a
  | .map a => by simp only [NativeValue.beq]; exact NativeValue.beqEntries_self a
  | .record a => by simp only [NativeValue.beq]; exact NativeValue.beqFields_self a
  | .variant a x => by
    simp only [NativeValue.beq, beq_self_eq_true, Bool.true_and]
    exact NativeValue.beq_self x
  | .unit | .bool _ | .int _ | .float _ | .text _ | .bytes _ | .bareVariant _ => by
    simp [NativeValue.beq]

theorem NativeValue.beqList_self : (a : List NativeValue) → NativeValue.beqList a a = true
  | [] => by simp [NativeValue.beqList]
  | x :: xs => by
    simp only [NativeValue.beqList, NativeValue.beq_self x, NativeValue.beqList_self xs,
      Bool.and_self]

theorem NativeValue.beqEntries_self :
    (a : List (NativeValue × NativeValue)) → NativeValue.beqEntries a a = true
  | [] => by simp [NativeValue.beqEntries]
  | (x, y) :: xs => by
    simp only [NativeValue.beqEntries, NativeValue.beq_self x, NativeValue.beq_self y,
      NativeValue.beqEntries_self xs, Bool.and_self]

theorem NativeValue.beqFields_self :
    (a : List (String × NativeValue)) → NativeValue.beqFields a a = true
  | [] => by simp [NativeValue.beqFields]
  | (k, x) :: xs => by
    simp only [NativeValue.beqFields, beq_self_eq_true, NativeValue.beq_self x,
      NativeValue.beqFields_self xs, Bool.and_self]

end

instance : LawfulBEq NativeValue where
  eq_of_beq {a b} h := NativeValue.eq_of_beq a b h
  rfl {a} := NativeValue.beq_self a

instance : DecidableEq NativeValue := fun _ _ => decidable_of_iff _ beq_iff_eq

end Ipld

namespace Ipld.Typed

open Schema

/-! ## Structural equality of full values -/

mutual

theorem TypedValue.eq_of_beq : (a b : TypedValue) → TypedValue.beq a b = true → a = b
  | .bool _, b, h | .int _, b, h | .float _, b, h | .string _, b, h | .bytes _, b, h
  | .link _, b, h | .none, b, h | .member _, b, h => by cases b <;> simp_all [TypedValue.beq]
  | .some a, b, h => by
    cases b with
    | some b => simp only [TypedValue.beq] at h; rw [TypedValue.eq_of_beq a b h]
    | _ => simp [TypedValue.beq] at h
  | .wrapped a, b, h => by
    cases b with
    | wrapped b => simp only [TypedValue.beq] at h; rw [TypedValue.eq_of_beq a b h]
    | _ => simp [TypedValue.beq] at h
  | .vec a, b, h => by
    cases b with
    | vec b => simp only [TypedValue.beq] at h; rw [TypedValue.eq_of_beqList a b h]
    | _ => simp [TypedValue.beq] at h
  | .record a, b, h => by
    cases b with
    | record b => simp only [TypedValue.beq] at h; rw [TypedValue.eq_of_beqList a b h]
    | _ => simp [TypedValue.beq] at h
  | .indexMap a, b, h => by
    cases b with
    | indexMap b => simp only [TypedValue.beq] at h; rw [TypedValue.eq_of_beqEntries a b h]
    | _ => simp [TypedValue.beq] at h
  | .variant i x, b, h => by
    cases b with
    | variant j y =>
      simp only [TypedValue.beq, Bool.and_eq_true, beq_iff_eq] at h
      rw [h.1, TypedValue.eq_of_beq x y h.2]
    | _ => simp [TypedValue.beq] at h

theorem TypedValue.eq_of_beqList : (a b : List TypedValue) → TypedValue.beqList a b = true → a = b
  | [], [], _ => rfl
  | x :: xs, y :: ys, h => by
    simp only [TypedValue.beqList, Bool.and_eq_true] at h
    rw [TypedValue.eq_of_beq x y h.1, TypedValue.eq_of_beqList xs ys h.2]
  | [], _ :: _, h | _ :: _, [], h => by simp [TypedValue.beqList] at h

theorem TypedValue.eq_of_beqEntries :
    (a b : List (TypedValue × TypedValue)) → TypedValue.beqEntries a b = true → a = b
  | [], [], _ => rfl
  | (x, x') :: xs, (y, y') :: ys, h => by
    simp only [TypedValue.beqEntries, Bool.and_eq_true] at h
    rw [TypedValue.eq_of_beq x y h.1.1, TypedValue.eq_of_beq x' y' h.1.2,
      TypedValue.eq_of_beqEntries xs ys h.2]
  | [], _ :: _, h | _ :: _, [], h => by simp [TypedValue.beqEntries] at h

end

mutual

theorem TypedValue.beq_self : (a : TypedValue) → TypedValue.beq a a = true
  | .some a | .wrapped a => by simp only [TypedValue.beq]; exact TypedValue.beq_self a
  | .vec a | .record a => by simp only [TypedValue.beq]; exact TypedValue.beqList_self a
  | .indexMap a => by simp only [TypedValue.beq]; exact TypedValue.beqEntries_self a
  | .variant i x => by
    simp only [TypedValue.beq, beq_self_eq_true, Bool.true_and]
    exact TypedValue.beq_self x
  | .bool _ | .int _ | .float _ | .string _ | .bytes _ | .link _ | .none | .member _ => by
    simp [TypedValue.beq]

theorem TypedValue.beqList_self : (a : List TypedValue) → TypedValue.beqList a a = true
  | [] => by simp [TypedValue.beqList]
  | x :: xs => by
    simp only [TypedValue.beqList, TypedValue.beq_self x, TypedValue.beqList_self xs,
      Bool.and_self]

theorem TypedValue.beqEntries_self :
    (a : List (TypedValue × TypedValue)) → TypedValue.beqEntries a a = true
  | [] => by simp [TypedValue.beqEntries]
  | (x, y) :: xs => by
    simp only [TypedValue.beqEntries, TypedValue.beq_self x, TypedValue.beq_self y,
      TypedValue.beqEntries_self xs, Bool.and_self]

end

instance : LawfulBEq TypedValue where
  eq_of_beq {a b} h := TypedValue.eq_of_beq a b h
  rfl {a} := TypedValue.beq_self a

instance : DecidableEq TypedValue := fun _ _ => decidable_of_iff _ beq_iff_eq

/-! ## Full values and placeholders -/

/-- The shape that the one-field wrapper of a declared scalar, list or map type holds. -/
def wrapperShape : SchemaType → Option Shape
  | .bool => some .bool
  | .int => some .int
  | .float => some .float
  | .string => some .string
  | .bytes => some .bytes
  | .link _ => some .link
  | .list v n => some (.vec (Shape.optionIf n (Shape.ofRef v)))
  | .map k v n _ => some (.indexMap (Shape.ofName k) (Shape.optionIf n (Shape.ofRef v)))
  | _ => none

mutual

/-- The placeholder of a full value of shape `s`, as a serializer sees it. -/
def native (ts : TypeSystem) : Shape → TypedValue → NativeValue
  | .bool, v => match v with
    | .bool b => .bool b
    | _ => .unit
  | .int, v => match v with
    | .int i => .int i
    | _ => .unit
  | .float, v => match v with
    | .float x => .float x
    | _ => .unit
  | .string, v => match v with
    | .string s => .text s
    | _ => .unit
  | .bytes, v => match v with
    | .bytes bs => .seq (bs.map fun b => .int b.toNat)
    | _ => .unit
  | .link, v => match v with
    | .link c => .text c
    | _ => .unit
  | .option s, v => match v with
    | .some x => native ts s x
    | _ => .unit
  | .vec item, v => match v with
    | .vec items => .seq (nativeList ts item items)
    | _ => .unit
  | .indexMap k w, v => match v with
    | .indexMap entries => .map (nativeEntries ts k w entries)
    | _ => .unit
  | .declared name, v => match v with
    | .wrapped x =>
      match (ts.get? name).bind wrapperShape with
      | some s => native ts s x
      | none => .unit
    | .record values =>
      match ts.get? name with
      | some (.struct fields _) => .record (nativeFields ts fields values)
      | _ => .unit
    | .variant i x =>
      match ts.get? name with
      | some (.union members _) =>
        .variant (nth members i).type (native ts (Shape.ofName (nth members i).type) x)
      | _ => .unit
    | .member i =>
      match ts.get? name with
      | some (.enum members _) => .bareVariant (nth members i).name
      | _ => .unit
    | _ => .unit

/-- `native` of each item. -/
def nativeList (ts : TypeSystem) (item : Shape) : List TypedValue → List NativeValue
  | [] => []
  | v :: rest => native ts item v :: nativeList ts item rest

/-- `native` of each key and value. -/
def nativeEntries (ts : TypeSystem) (k w : Shape) :
    List (TypedValue × TypedValue) → List (NativeValue × NativeValue)
  | [] => []
  | (a, b) :: rest => (native ts k a, native ts w b) :: nativeEntries ts k w rest

/-- The record fields of a struct's field values: an optional field that is `None` is
left out. -/
def nativeFields (ts : TypeSystem) : List StructField → List TypedValue → List (String × NativeValue)
  | f :: fields, v :: values =>
    match v with
    | .none =>
      if f.optional then nativeFields ts fields values
      else (f.name, .unit) :: nativeFields ts fields values
    | v => (f.name, native ts (Shape.ofField f) v) :: nativeFields ts fields values
  | _, _ => []

end

mutual

/-- `v` is a value of the generated type of shape `s`. -/
def Fits (ts : TypeSystem) : Shape → TypedValue → Prop
  | .bool, v => match v with
    | .bool _ => True
    | _ => False
  | .int, v => match v with
    | .int i => Decimal.inInt64 i = true
    | _ => False
  | .float, v => match v with
    | .float _ => True
    | _ => False
  | .string, v => match v with
    | .string _ => True
    | _ => False
  | .bytes, v => match v with
    | .bytes _ => True
    | _ => False
  | .link, v => match v with
    | .link _ => True
    | _ => False
  | .option s, v => match v with
    | .none => True
    | .some x => Fits ts s x
    | _ => False
  | .vec item, v => match v with
    | .vec items => ItemsFit ts item items
    | _ => False
  | .indexMap k w, v => match v with
    | .indexMap entries => EntriesFit ts k w entries ∧ (entries.map (·.1)).Nodup
    | _ => False
  | .declared name, v => match v with
    | .wrapped x => ∃ t s, ts.get? name = some t ∧ wrapperShape t = some s ∧ Fits ts s x
    | .record values =>
      ∃ fields strategy, ts.get? name = some (.struct fields strategy) ∧ FieldsFit ts fields values
    | .variant i x =>
      ∃ members strategy, ts.get? name = some (.union members strategy) ∧ i < members.length ∧
        Fits ts (Shape.ofName (nth members i).type) x
    | .member i =>
      ∃ members strategy, ts.get? name = some (.enum members strategy) ∧ i < members.length
    | _ => False

/-- `Fits` item by item. -/
def ItemsFit (ts : TypeSystem) (item : Shape) : List TypedValue → Prop
  | [] => True
  | v :: rest => Fits ts item v ∧ ItemsFit ts item rest

/-- `Fits` entry by entry. -/
def EntriesFit (ts : TypeSystem) (k w : Shape) : List (TypedValue × TypedValue) → Prop
  | [] => True
  | (a, b) :: rest => Fits ts k a ∧ Fits ts w b ∧ EntriesFit ts k w rest

/-- One value per field, each of the field's shape. -/
def FieldsFit (ts : TypeSystem) : List StructField → List TypedValue → Prop
  | [], [] => True
  | f :: fields, v :: values => Fits ts (Shape.ofField f) v ∧ FieldsFit ts fields values
  | _, _ => False

end

mutual

/-- `j` is a JSON value that the placeholder of the full value `v` of shape `s` is read
from. -/
def JsonOf (ts : TypeSystem) : Shape → TypedValue → Json → Prop
  | .bool, v, j => match v with
    | .bool b => j = .bool b
    | _ => False
  | .int, v, j => match v with
    | .int i => Decimal.inInt64 i = true ∧ j = .int i
    | _ => False
  | .float, v, j => match v with
    | .float x =>
      (x.isFinite = true ∧ j = .float x) ∨ (x.isFinite = false ∧ j = .null) ∨
        ∃ i, x = Binary64.ofInt i ∧ j = .int i
    | _ => False
  | .string, v, j => match v with
    | .string s => j = .string s
    | _ => False
  | .bytes, v, j => match v with
    | .bytes bs => j = .array (bs.map fun b => .int b.toNat)
    | _ => False
  | .link, v, j => match v with
    | .link c => j = .string c
    | _ => False
  | .option s, v, j => match v with
    | .none => j = .null
    | .some x => JsonOf ts s x j
    | _ => False
  | .vec item, v, j => match v, j with
    | .vec items, .array js => ItemsJson ts item items js
    | _, _ => False
  | .indexMap k w, v, j => match v, j with
    | .indexMap entries, .object js => EntriesJson ts k w entries js ∧ (js.map (·.1)).Nodup
    | _, _ => False
  | .declared name, v, j => match v, j with
    | .wrapped x, j => ∃ t s, ts.get? name = some t ∧ wrapperShape t = some s ∧ JsonOf ts s x j
    | .record values, .object js =>
      ∃ fields strategy, ts.get? name = some (.struct fields strategy) ∧ FieldsJson ts fields values js
    | .variant i x, .object [(key, j)] =>
      ∃ members strategy, ts.get? name = some (.union members strategy) ∧ i < members.length ∧
        key = (nth members i).type ∧ JsonOf ts (Shape.ofName key) x j
    | .member i, .string s =>
      ∃ members strategy, ts.get? name = some (.enum members strategy) ∧ i < members.length ∧
        s = (nth members i).name
    | _, _ => False

/-- `JsonOf` item by item. -/
def ItemsJson (ts : TypeSystem) (item : Shape) : List TypedValue → List Json → Prop
  | [], js => js = []
  | v :: rest, js => match js with
    | j :: js => JsonOf ts item v j ∧ ItemsJson ts item rest js
    | [] => False

/-- `JsonOf` entry by entry; a key stands as its JSON string. -/
def EntriesJson (ts : TypeSystem) (k w : Shape) :
    List (TypedValue × TypedValue) → List (String × Json) → Prop
  | [], js => js = []
  | (a, b) :: rest, js => match js with
    | (key, j) :: js => JsonOf ts k a (.string key) ∧ JsonOf ts w b j ∧ EntriesJson ts k w rest js
    | [] => False

/-- `JsonOf` field by field: the JSON object has an entry for every field but the optional
ones that are `None`, in field order. -/
def FieldsJson (ts : TypeSystem) : List StructField → List TypedValue → List (String × Json) → Prop
  | [], [], js => js = []
  | f :: fields, v :: values, js =>
    (f.optional = true ∧ v = .none ∧ FieldsJson ts fields values js) ∨
      (¬(f.optional = true ∧ v = .none) ∧
        ∃ j rest, js = (f.name, j) :: rest ∧ JsonOf ts (Shape.ofField f) v j ∧
          FieldsJson ts fields values rest)
  | _, _, _ => False

end

mutual

/-- The floats a full value holds. -/
def TypedValue.floats : TypedValue → List Binary64
  | .float x => [x]
  | .some v => v.floats
  | .vec items => TypedValue.floatsList items
  | .indexMap entries => TypedValue.floatsEntries entries
  | .record values => TypedValue.floatsList values
  | .variant _ v => v.floats
  | .wrapped v => v.floats
  | _ => []

/-- The floats of each item. -/
def TypedValue.floatsList : List TypedValue → List Binary64
  | [] => []
  | v :: rest => v.floats ++ TypedValue.floatsList rest

/-- The floats of each key and value. -/
def TypedValue.floatsEntries : List (TypedValue × TypedValue) → List Binary64
  | [] => []
  | (a, b) :: rest => a.floats ++ b.floats ++ TypedValue.floatsEntries rest

end

/-- Every float the value holds is finite: the JSON bridge of minimal bindings writes a
float that is not finite as null. -/
def TypedValue.Finite (v : TypedValue) : Prop := ∀ x ∈ v.floats, x.isFinite = true

end Ipld.Typed
