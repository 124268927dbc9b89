import Authlib.Controller

/-!
# The gob encoding of a permission set

`cacheController` stores a `controller` as `gob.NewEncoder(&buf).Encode(*ctrl)`
and `getCachedController` reads it back with `gob.NewDecoder(...).Decode(&ctrl)`.
This file models the value part of that gob stream for the controller's
struct type and proves that decoding undoes encoding exactly
(`decodeController_encodeController`).

The model follows gob's wire rules for the three fields: a struct is
its non-zero fields, each as the delta from the previous field number
followed by the value, then a `0`; a bool is `1` (a false field is not
sent); a map is its length and then each key and value, with `false`
values sent as `0`; a string is its length and its characters. The
model sends no empty map. gob leaves out a nil map only: an empty map
that is not nil, which `newController` builds when `Found`, goes out as
its field delta and a length `0`. The model does not tell nil from empty
(`GoValues`), so for a found controller with no scopes or no wildcards
its stream is shorter than gob's; both decode to the same controller.

Two layers of gob are left out. Each element of `GobBytes` is one gob
unsigned integer (gob writes it as one to nine bytes) or one character
of a string (gob writes UTF-8 bytes), and the type-definition messages
a fresh encoder sends before the value are a fixed prefix for this
struct type.
-/

namespace Authlib

/-- The data of a gob stream: one gob unsigned integer, or one character
of a string, per element. -/
abbrev GobBytes := List Nat

namespace Gob

/-! ## Encoding -/

def encodeString (s : String) : GobBytes := s.length :: s.toList.map Char.toNat

def encodeBool (b : Bool) : Nat := if b then 1 else 0

def encodeEntries : List (String × Bool) → GobBytes
  | [] => []
  | (k, v) :: es => encodeString k ++ encodeBool v :: encodeEntries es

def encodeMap (m : GoMap) : GobBytes := m.len :: encodeEntries m.entries

/-- Field `i` of a controller as gob sends it; `none` for a zero value,
which gob leaves out. -/
def fieldValue (c : Controller) : Nat → Option GobBytes
  | 0 => if c.found then some [1] else none
  | 1 => if c.scopes.len = 0 then none else some (encodeMap c.scopes)
  | 2 => if c.wildcard.len = 0 then none else some (encodeMap c.wildcard)
  | _ => none

/-- gob's encoder loop over the struct's fields from `i`, `n` fields
left, `base` being one past the number of the last field sent. -/
def encodeFields (c : Controller) : (n i base : Nat) → GobBytes
  | 0, _, _ => [0]
  | n + 1, i, base =>
      match fieldValue c i with
      | some v => (i + 1 - base) :: v ++ encodeFields c n (i + 1) (i + 1)
      | none => encodeFields c n (i + 1) base

/-- `gob.NewEncoder(&buf).Encode(*ctrl)`. -/
def encodeController (c : Controller) : GobBytes := encodeFields c 3 0 0

/-! ## Decoding -/

def decodeChars : Nat → GobBytes → Option (List Char × GobBytes)
  | 0, s => some ([], s)
  | n + 1, c :: s => (decodeChars n s).map fun (cs, r) => (Char.ofNat c :: cs, r)
  | _ + 1, [] => none

def decodeString : GobBytes → Option (String × GobBytes)
  | n :: s => (decodeChars n s).map fun (cs, r) => (String.mk cs, r)
  | [] => none

def decodeBool : GobBytes → Option (Bool × GobBytes)
  | n :: s => some (n != 0, s)
  | [] => none

def decodeEntries : Nat → GoMap → GobBytes → Option (GoMap × GobBytes)
  | 0, m, s => some (m, s)
  | n + 1, m, s =>
      match decodeString s with
      | some (k, s) =>
          match decodeBool s with
          | some (v, s) => decodeEntries n (m.set k v) s
          | none => none
      | none => none

def decodeMap : GobBytes → Option (GoMap × GobBytes)
  | n :: s => decodeEntries n .empty s
  | [] => none

def decodeField (c : Controller) : Nat → GobBytes → Option (Controller × GobBytes)
  | 0, s => (decodeBool s).map fun (b, r) => ({ c with found := b }, r)
  | 1, s => (decodeMap s).map fun (m, r) => ({ c with scopes := m }, r)
  | 2, s => (decodeMap s).map fun (m, r) => ({ c with wildcard := m }, r)
  | _, _ => none

/-- gob's decoder loop: a delta, then the field it names, until a `0`.
Field numbers rise and the struct has three, so four turns decide every
stream (`decodeController`). -/
def decodeFields : (fuel base : Nat) → Controller → GobBytes → Option (Controller × GobBytes)
  | _, _, _, [] => none
  | _, _, c, 0 :: s => some (c, s)
  | 0, _, _, _ :: _ => none
  | fuel + 1, base, c, (d + 1) :: s =>
      match decodeField c (base + d) s with
      | some (c', r) => decodeFields fuel (base + d + 1) c' r
      | none => none

/-- `gob.NewDecoder(bytes.NewReader(data)).Decode(&ctrl)`; what follows
the value is not read. -/
def decodeController (data : GobBytes) : Except Error Controller :=
  match decodeFields 4 0 Controller.notFound data with
  | some (c, _) => .ok c
  | none => .error (.other "gob: decoding error")

/-- A decoding failure is gob's own error, never a cache miss. -/
theorem decodeController_error {data : GobBytes} {e : Error}
    (h : decodeController data = .error e) : e.is .notFound = false := by
  unfold decodeController at h
  split at h <;> cases h
  rfl

/-! ## Round trip -/

theorem decodeChars_map (cs : List Char) (rest : GobBytes) :
    decodeChars cs.length (cs.map Char.toNat ++ rest) = some (cs, rest) := by
  induction cs with
  | nil => rfl
  | cons c cs ih => simp [decodeChars, ih]

theorem decodeString_encodeString (s : String) (rest : GobBytes) :
    decodeString (encodeString s ++ rest) = some (s, rest) := by
  obtain ⟨cs⟩ := s
  simp [encodeString, decodeString, decodeChars_map]

theorem decodeBool_encodeBool (b : Bool) (rest : GobBytes) :
    decodeBool (encodeBool b :: rest) = some (b, rest) := by
  cases b <;> rfl

theorem decodeEntries_encodeEntries (es : List (String × Bool)) (m : GoMap) (rest : GobBytes) :
    decodeEntries es.length m (encodeEntries es ++ rest) =
      some (es.foldl (fun m e => m.set e.1 e.2) m, rest) := by
  induction es generalizing m with
  | nil => rfl
  | cons e es ih =>
      obtain ⟨k, v⟩ := e
      simp [decodeEntries, encodeEntries, decodeString_encodeString, decodeBool_encodeBool, ih]

theorem decodeMap_encodeMap (m : GoMap) (rest : GobBytes) :
    decodeMap (encodeMap m ++ rest) = some (m, rest) := by
  have hfold : m.entries.foldl (fun m e => m.set e.1 e.2) GoMap.empty = m :=
    GoMap.ext (GoMap.foldl_set_entries _ _ m.nodup)
  simp [encodeMap, decodeMap, GoMap.len, decodeEntries_encodeEntries, hfold]

/-- `c` with the fields numbered `i` and above reset to their zero
values: what the decoder holds before reading field `i`. -/
def prefixOf (c : Controller) (i : Nat) : Controller :=
  ⟨if 0 < i then c.found else false, if 1 < i then c.scopes else .empty,
    if 2 < i then c.wildcard else .empty⟩

theorem prefixOf_three (c : Controller) : prefixOf c 3 = c := rfl

theorem prefixOf_succ_of_none {c : Controller} {i : Nat} (hi : i < 3)
    (h : fieldValue c i = none) : prefixOf c (i + 1) = prefixOf c i := by
  match i, hi with
  | 0, _ => simp_all [fieldValue, prefixOf]
  | 1, _ => simp_all [fieldValue, prefixOf, GoMap.len, GoMap.ext_iff, GoMap.empty]
  | 2, _ => simp_all [fieldValue, prefixOf, GoMap.len, GoMap.ext_iff, GoMap.empty]

theorem decodeField_fieldValue {c : Controller} {i : Nat} {v : GobBytes}
    (h : fieldValue c i = some v) (rest : GobBytes) :
    decodeField (prefixOf c i) i (v ++ rest) = some (prefixOf c (i + 1), rest) := by
  match i with
  | 0 =>
      simp only [fieldValue, Option.ite_none_right_eq_some, Option.some.injEq] at h
      obtain ⟨hf, rfl⟩ := h
      simp [decodeField, decodeBool, prefixOf, hf]
  | 1 =>
      simp only [fieldValue, Option.ite_none_left_eq_some, Option.some.injEq] at h
      obtain ⟨-, rfl⟩ := h
      simp [decodeField, decodeMap_encodeMap, prefixOf]
  | 2 =>
      simp only [fieldValue, Option.ite_none_left_eq_some, Option.some.injEq] at h
      obtain ⟨-, rfl⟩ := h
      simp [decodeField, decodeMap_encodeMap, prefixOf]
  | _ + 3 => simp [fieldValue] at h

theorem decodeFields_encodeFields (c : Controller) (rest : GobBytes) :
    ∀ (n i base fuel : Nat), i + n = 3 → base ≤ i → n < fuel →
      decodeFields fuel base (prefixOf c i) (encodeFields c n i base ++ rest) = some (c, rest)
  | 0, i, base, fuel + 1, hn, _, _ => by
      obtain rfl : i = 3 := by omega
      simp [encodeFields, decodeFields, prefixOf_three]
  | n + 1, i, base, fuel + 1, hn, hb, hf => by
      rw [encodeFields]
      split
      · rename_i v hv
        obtain ⟨d, hd⟩ : ∃ d, i + 1 - base = d + 1 := ⟨i - base, by omega⟩
        have hi : base + d = i := by omega
        simp only [List.cons_append, hd, decodeFields, hi, List.append_assoc,
          decodeField_fieldValue hv]
        exact decodeFields_encodeFields c rest n (i + 1) (i + 1) fuel (by omega) le_rfl (by omega)
      · rename_i hv
        rw [← prefixOf_succ_of_none (by omega) hv]
        exact decodeFields_encodeFields c rest n (i + 1) base (fuel + 1) (by omega) (by omega)
          (by omega)

/-- Decoding what was encoded gives the controller back, for every
controller: the found flag and both maps, entry for entry. -/
theorem decodeController_encodeController (c : Controller) :
    decodeController (encodeController c) = .ok c := by
  have h := decodeFields_encodeFields c [] 3 0 0 4 rfl le_rfl (by omega)
  simp only [List.append_nil] at h
  simp [decodeController, encodeController, prefixOf] at h ⊢
  simp [Controller.notFound, h]

end Gob

end Authlib
