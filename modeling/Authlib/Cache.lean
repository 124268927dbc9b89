import Authlib.GoValues

/-!
# The cache abstraction

Both engines keep their state in a `cache.Cache`: the key retriever in
an in-memory cache it builds itself, the authorization client in
whatever cache it is given. The package `cache` is not among the
sources; its contract is modelled from the spec.

`CacheImpl` is the interface as a store and two operations, one value
for every implementation a client can be handed: `Get` answers from the
store (absence being the sentinel `Error.notFound`) and `Set` may fail.
`LocalCache` is the reference in-memory implementation: a finite map
from keys to entries with their expiry, where `Set` never fails. Time
passing is an explicit `expire` of one entry that has an expiry, so a
run can drop a placeholder but never a key stored with
`noExpiration`.
-/

namespace Authlib

abbrev Duration := Nat

def minute : Duration := 60 * 1000000000

/-- The expiry argument of `cache.Cache.Set`: `cache.NoExpiration` (kept
until deleted), `cache.DefaultExpiration` (the expiry the cache was built
with), or a duration. -/
inductive Expiration where
  | noExpiration
  | defaultExpiration
  | after (d : Duration)
  deriving DecidableEq, Repr

/-- Modelled from the spec: the `cache.Cache` interface over values `V`,
as a store `σ` with `Get` and `Set`. -/
structure CacheImpl (σ V : Type) where
  get : σ → String → Except Error V
  set : σ → String → V → Expiration → σ × Option Error

structure Entry (V : Type) where
  data : V
  exp : Expiration
  deriving DecidableEq, Repr

/-- Modelled from the spec: the store of `cache.NewLocalCache`. -/
structure LocalCache (V : Type) where
  entries : String → Option (Entry V)

namespace LocalCache

variable {V : Type}

def empty : LocalCache V := ⟨fun _ => none⟩

def get (c : LocalCache V) (key : String) : Except Error V :=
  match c.entries key with
  | some e => .ok e.data
  | none => .error .notFound

def set (c : LocalCache V) (key : String) (data : V) (exp : Expiration) : LocalCache V :=
  ⟨fun k => if k = key then some ⟨data, exp⟩ else c.entries k⟩

/-- Time passes for `key`: an entry stored with an expiry may go. -/
def expire (c : LocalCache V) (key : String) : LocalCache V :=
  match c.entries key with
  | some ⟨_, .noExpiration⟩ => c
  | _ => ⟨fun k => if k = key then none else c.entries k⟩

def impl : CacheImpl (LocalCache V) V := ⟨get, fun c k d e => (set c k d e, none)⟩

@[simp] theorem empty_entries (k : String) : (empty : LocalCache V).entries k = none := rfl

@[simp] theorem set_entries_self (c : LocalCache V) (k : String) (d : V) (e : Expiration) :
    (c.set k d e).entries k = some ⟨d, e⟩ := by
  simp [set]

theorem set_entries_ne (c : LocalCache V) {k k' : String} (d : V) (e : Expiration)
    (h : k' ≠ k) : (c.set k d e).entries k' = c.entries k' := by
  simp [set, h]

theorem set_entries (c : LocalCache V) (k k' : String) (d : V) (e : Expiration) :
    (c.set k d e).entries k' = if k' = k then some ⟨d, e⟩ else c.entries k' := rfl

/-- `expire` only ever removes an entry, and never one without expiry. -/
theorem expire_entries (c : LocalCache V) (k k' : String) :
    (c.expire k).entries k' = c.entries k' ∨
      (k' = k ∧ (c.expire k).entries k' = none ∧ ∀ d, c.entries k' ≠ some ⟨d, .noExpiration⟩) := by
  unfold expire
  split
  · exact .inl rfl
  · rename_i hne
    by_cases h : k' = k
    · subst h
      refine .inr ⟨rfl, by simp, fun d hd => ?_⟩
      exact hne d (by simpa using hd)
    · simp [h]

end LocalCache

end Authlib
