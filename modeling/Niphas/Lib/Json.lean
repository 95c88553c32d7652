import Mathlib.Data.List.Basic

/-!
# JSON values

The values manifests and patches are made of, with the operations of a JSON library that building
and reading them takes.  An object is a list of fields; `insert` keeps its keys distinct, and
nothing here depends on their order.

Numbers are integers, because no other numbers are ever written or read.  Reading a field of
something that is no object, or that has no such field, gives `null`, as indexing does in a JSON
library, so a path into a value needs no case distinction for what may be missing on the way.

A map that is merged into an object changes it entry by entry.  What counts then is the last entry
of a key, and this is the one lemma here that is more than the unfolding of a definition.

* `get_insert_of_ne` — a field that is set leaves the others alone.
* `find_foldl_setField` — a map merged entry by entry has the last entry of each key.
-/

/-- A JSON value; numbers are integers. -/
inductive Json where
  | null
  | bool (b : Bool)
  | num (n : Int)
  | str (s : String)
  | arr (items : List Json)
  | obj (fields : List (String × Json))

namespace Json

/-- The value of a key in a list of fields. -/
def find (key : String) : List (String × Json) → Option Json
  | [] => none
  | (k, v) :: rest => if k = key then some v else find key rest

/-- The fields with `key` set to `v`. -/
def setField (key : String) (v : Json) : List (String × Json) → List (String × Json)
  | [] => [(key, v)]
  | (k, v') :: rest => if k = key then (k, v) :: rest else (k, v') :: setField key v rest

/-- `v[key]`: `null` where there is no such field. -/
def get (j : Json) (key : String) : Json :=
  match j with
  | .obj fields => (find key fields).getD .null
  | _ => .null

/-- `insert` on an object. -/
def insert (j : Json) (key : String) (v : Json) : Json :=
  match j with
  | .obj fields => .obj (setField key v fields)
  | j => j

/-- `insert` of a value that may be absent. -/
def insertSome (j : Json) (key : String) : Option Json → Json
  | some v => j.insert key v
  | none => j

/-- `as_array`. -/
def items : Json → List Json
  | .arr items => items
  | _ => []

/-- `as_str`. -/
def asStr : Json → Option String
  | .str s => some s
  | _ => none

/-- A list of strings. -/
def strs (l : List String) : Json := .arr (l.map .str)

/-- The string fields of an object: how a map of strings is read. -/
def strFields : Json → List (String × String)
  | .obj fields => fields.filterMap fun f => f.2.asStr.map fun s => (f.1, s)
  | _ => []

lemma find_setField_of_ne {key key' : String} (h : key' ≠ key) (v : Json)
    (fields : List (String × Json)) : find key' (setField key v fields) = find key' fields := by
  induction fields with
  | nil => simp [setField, find, Ne.symm h]
  | cons f fields ih =>
      obtain ⟨k, v'⟩ := f
      by_cases hk : k = key
      · simp [setField, find, hk, Ne.symm h]
      · by_cases hk' : k = key'
        · simp [setField, find, hk', h]
        · simp [setField, find, hk, hk', ih]

/-- Setting one field leaves the others. -/
lemma get_insert_of_ne {key key' : String} (h : key' ≠ key) (v j : Json) :
    (j.insert key v).get key' = j.get key' := by
  cases j with
  | obj fields => simp only [insert, get, find_setField_of_ne h]
  | _ => rfl

lemma get_insertSome_of_ne {key key' : String} (h : key' ≠ key) (v : Option Json) (j : Json) :
    (j.insertSome key v).get key' = j.get key' := by
  cases v with
  | none => rfl
  | some v => exact get_insert_of_ne h v j

lemma find_setField_self (key : String) (v : Json) (fields : List (String × Json)) :
    find key (setField key v fields) = some v := by
  induction fields with
  | nil => simp [setField, find]
  | cons f fields ih =>
      obtain ⟨k, v'⟩ := f
      by_cases hk : k = key
      · simp [setField, find, hk]
      · simp [setField, find, hk, ih]

/-- A map of fields is merged entry by entry: a key has the value of its last entry, and keeps the
one it had where there is none. -/
lemma find_foldl_setField (key : String) (entries fields : List (String × Json)) :
    find key (entries.foldl (fun fs kv => setField kv.1 kv.2 fs) fields)
      = (entries.reverse.lookup key).or (find key fields) := by
  induction entries generalizing fields with
  | nil => rfl
  | cons e entries ih =>
      obtain ⟨k, v⟩ := e
      rw [List.foldl_cons, ih, List.reverse_cons, List.lookup_append]
      by_cases hk : key = k
      · subst hk
        simp [find_setField_self]
      · have hlookup : List.lookup key [(k, v)] = none := by
          simpa using hk
        simp only [find_setField_of_ne hk, hlookup, Option.or_none]

lemma foldl_insert_obj (entries fields : List (String × Json)) :
    entries.foldl (fun (j : Json) kv => j.insert kv.1 kv.2) (.obj fields)
      = .obj (entries.foldl (fun fs kv => setField kv.1 kv.2 fs) fields) := by
  induction entries generalizing fields with
  | nil => rfl
  | cons e entries ih => rw [List.foldl_cons, List.foldl_cons, ← ih]; rfl

end Json
