import Mathlib.Data.List.Nodup

/-!
# Go values the library computes with

Two kinds of Go value run through both packages and are modelled once
here: the `error` interface and `map[string]bool`.

Errors are a closed enumeration of the sentinels the code returns or
compares against (`ErrMissingStackID`, `cache.ErrNotFound`,
`ErrFetchingSigningKey`, `jwt.ErrExpired`, ...) plus the two ways the
code builds other errors: `fmt.Errorf` with a `%w` verb (`wrap`) and
errors handed up from elsewhere (`other`). `Error.is` is `errors.Is`
against a sentinel target: equality, then down the `%w` chain.

A map is its entries in insertion order with pairwise-distinct keys;
the distinctness is a field, so no map with a duplicated key can be
built. The nil map and an empty map are one value here: `len`,
indexing and `range`, all the code does with them, agree on the two.
-/

namespace Authlib

/-! ## `error` -/

/-- A Go `error` value: the sentinels of both packages, `cache.ErrNotFound`
(`notFound`), go-jose's `jwt.ErrExpired` and `jwt.ErrInvalidAudience`,
`fmt.Errorf` with a `%w` verb (`wrap`, `msg` the rest of the format),
and an error this library neither names nor wraps (`other`: transport,
decoder, RPC). -/
inductive Error where
  | missingConfig
  | missingStackID
  | missingAction
  | missingCaller
  | missingSubject
  | readPermission
  | notFound
  | parseToken
  | invalidTokenType
  | invalidSigningKey
  | fetchingSigningKey
  | expiredToken
  | invalidAudience
  | jwtExpired
  | jwtInvalidAudience
  | wrap (msg : String) (inner : Error)
  | other (msg : String)
  deriving DecidableEq, Repr

instance Except.decEq {ε α : Type} [DecidableEq ε] [DecidableEq α] : DecidableEq (Except ε α)
  | .error a, .error b =>
      if h : a = b then isTrue (h ▸ rfl) else isFalse fun e => h (Except.error.inj e)
  | .ok a, .ok b => if h : a = b then isTrue (h ▸ rfl) else isFalse fun e => h (Except.ok.inj e)
  | .error _, .ok _ => isFalse Except.noConfusion
  | .ok _, .error _ => isFalse Except.noConfusion

/-- `errors.Is(err, target)`: `err` is `target` or wraps it. -/
def Error.is (err target : Error) : Bool :=
  err == target ||
    match err with
    | .wrap _ inner => inner.is target
    | _ => false

@[simp] theorem Error.is_self (e : Error) : e.is e = true := by
  cases e <;> simp [Error.is]

@[simp] theorem Error.is_wrap (msg : String) (inner target : Error) :
    (Error.wrap msg inner).is target = (Error.wrap msg inner == target || inner.is target) := by
  simp [Error.is]

/-! ## `map[string]bool` -/

/-- A Go `map[string]bool`. -/
structure GoMap where
  entries : List (String × Bool)
  nodup : (entries.map Prod.fst).Nodup

namespace GoMap

@[ext] theorem ext {m m' : GoMap} (h : m.entries = m'.entries) : m = m' := by
  cases m; cases m'; cases h; rfl

def empty : GoMap := ⟨[], List.nodup_nil⟩

/-- `m[k]`, with the zero value `false` for an absent key. -/
def get (m : GoMap) (k : String) : Bool := (m.entries.lookup k).getD false

def len (m : GoMap) : Nat := m.entries.length

theorem nodup_erase_append (es : List (String × Bool)) (k : String) (v : Bool)
    (h : (es.map Prod.fst).Nodup) :
    ((es.filter (·.1 != k) ++ [(k, v)]).map Prod.fst).Nodup := by
  rw [List.map_append, List.nodup_append]
  refine ⟨h.sublist ((List.filter_sublist _).map _), List.nodup_singleton k, ?_⟩
  intro a ha hk
  obtain ⟨e, he, rfl⟩ := List.mem_map.mp ha
  simp only [List.map_cons, List.map_nil, List.mem_singleton] at hk
  simp only [List.mem_filter, bne_iff_ne, ne_eq] at he
  exact he.2 hk

/-- `m[k] = v`: the old entry for `k`, if any, gives way to the new one. -/
def set (m : GoMap) (k : String) (v : Bool) : GoMap :=
  ⟨m.entries.filter (·.1 != k) ++ [(k, v)], nodup_erase_append m.entries k v m.nodup⟩

theorem lookup_filter_ne (es : List (String × Bool)) {k k' : String} (h : k' ≠ k) :
    (es.filter (·.1 != k)).lookup k' = es.lookup k' := by
  induction es with
  | nil => rfl
  | cons e es ih =>
      obtain ⟨a, b⟩ := e
      by_cases hak : a = k
      · subst hak
        have : (k' == a) = false := beq_false_of_ne h
        simp [List.lookup_cons, this, ih]
      · simp [List.filter_cons, hak, List.lookup_cons, ih]

theorem lookup_filter_self (es : List (String × Bool)) (k : String) :
    (es.filter (·.1 != k)).lookup k = none := by
  simp only [List.lookup_eq_none_iff, List.mem_filter, bne_iff_ne, ne_eq]
  intro p hp
  simpa using fun h => hp.2 h.symm

@[simp] theorem get_empty (k : String) : empty.get k = false := rfl

@[simp] theorem len_empty : empty.len = 0 := rfl

@[simp] theorem get_set_self (m : GoMap) (k : String) (v : Bool) : (m.set k v).get k = v := by
  simp [get, set, List.lookup_append, lookup_filter_self]

theorem get_set_ne (m : GoMap) {k k' : String} (v : Bool) (h : k' ≠ k) :
    (m.set k v).get k' = m.get k' := by
  have : (k' == k) = false := beq_false_of_ne h
  simp [get, set, List.lookup_append, lookup_filter_ne _ h, List.lookup_cons, this]

theorem get_set (m : GoMap) (k k' : String) (v : Bool) :
    (m.set k v).get k' = if k' = k then v else m.get k' := by
  split
  · subst_vars; exact get_set_self m k' v
  · exact get_set_ne m v ‹_›

theorem set_entries_of_not_mem {m : GoMap} {k : String} (v : Bool)
    (h : k ∉ m.entries.map Prod.fst) : (m.set k v).entries = m.entries ++ [(k, v)] := by
  simp only [set, List.append_cancel_right_eq, List.filter_eq_self, bne_iff_ne, ne_eq]
  intro e he hk
  exact h (List.mem_map.mpr ⟨e, he, hk⟩)

theorem foldl_set_entries (es : List (String × Bool)) (m : GoMap)
    (h : ((m.entries ++ es).map Prod.fst).Nodup) :
    (es.foldl (fun m e => m.set e.1 e.2) m).entries = m.entries ++ es := by
  induction es generalizing m with
  | nil => simp
  | cons e es ih =>
      rw [List.map_append, List.nodup_append] at h
      have hfresh : e.1 ∉ m.entries.map Prod.fst := fun hm => h.2.2 hm (by simp)
      have hset := set_entries_of_not_mem e.2 hfresh
      rw [List.foldl_cons, ih, hset, List.append_assoc, List.singleton_append]
      rw [hset, List.append_assoc, List.singleton_append, List.map_append, List.nodup_append]
      exact h

theorem get_of_len_eq_zero {m : GoMap} (h : m.len = 0) (k : String) : m.get k = false := by
  simp [len] at h
  simp [get, h]

end GoMap

end Authlib
