import Mathlib.Data.List.Nodup
import Niphas.Lib.Json

/-!
# Structs in JSON

How a struct is read from a JSON value: by the names of its fields from an object, where other
fields are passed over, or by their order from an array.  The rules are those of derived
deserializers.

A field that is there twice is an error, also where both have the same value, and a field that may
be missing is read the same when it is `null`.  With these in one place a deserializer is a line for
each field, and can be compared with the struct it belongs to.

The text of a value is the matter of a library, which may read and write as it likes.  What is
relied on is said of single values: what has been written of this one can be read (`JsonLib.Reads`).

* `JsonLib` — the text of JSON values, as a library writes and reads it.
* `Json.members` — the fields of a struct; `Json.required` and `Json.optional` read one of them.
-/

/-- A JSON library. -/
structure JsonLib where
  write : Json → String
  read : String → Except String Json
  /-- What it says of a value that is not of the type asked for. -/
  typeError : Json → String

namespace Json

variable {α : Type}

/-- The fields of a struct with these names.  None of them may be there twice. -/
def members (names : List String) : Json → Option (List (String × Json))
  | .obj fields =>
      if ((fields.map Prod.fst).filter (· ∈ names)).Nodup then some fields else none
  | .arr items => if items.length ≤ names.length then some (names.zip items) else none
  | _ => none

/-- A field that has to be there. -/
def required (read : Json → Option α) (key : String) (fields : List (String × Json)) : Option α :=
  (find key fields).bind read

/-- A field that may be missing, or `null`. -/
def optional (read : Json → Option α) (key : String) (fields : List (String × Json)) :
    Option (Option α) :=
  match find key fields with
  | none | some .null => some none
  | some v => (read v).map some

/-- A list of strings. -/
def asStrs : Json → Option (List String)
  | .arr items => items.mapM asStr
  | _ => none

lemma asStrs_strs (l : List String) : asStrs (strs l) = some l := by
  rw [strs, asStrs]
  induction l with
  | nil => rfl
  | cons s l ih =>
      rw [List.map_cons, List.mapM_cons, ih]
      rfl

end Json

/-- A text read as a value of some type. -/
def JsonLib.decode {α : Type} (lib : JsonLib) (fromJson : Json → Option α) (text : String) :
    Except String α := do
  let j ← lib.read text
  match fromJson j with
  | some a => .ok a
  | none => .error (lib.typeError j)

/-- What is written of this value can be read. -/
def JsonLib.Reads (lib : JsonLib) (j : Json) : Prop := lib.read (lib.write j) = .ok j

lemma JsonLib.decode_write {α : Type} {lib : JsonLib} {fromJson : Json → Option α} {j : Json}
    {a : α} (hread : lib.Reads j) (ha : fromJson j = some a) :
    lib.decode fromJson (lib.write j) = .ok a := by
  have hread : lib.read (lib.write j) = .ok j := hread
  rw [decode, hread]
  change (match fromJson j with | some a => _ | none => _) = _
  rw [ha]
