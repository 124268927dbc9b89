import Authlib.GoValues

/-!
# The permission set and its matching

`newController` turns the authorization service's `ReadResponse` for one
`(stack, subject, action)` into the cached decision unit: whether the
subject holds the action at all, the exact scopes granted, and the
kinds granted by wildcard. `Controller.check` decides a list of
resources against it.

`check` is written with a fast path (no grant at all), a universal
wildcard test and an early-returning loop. The results here say that
none of that changes the answer: `check` is the plain disjunction
`found ∧ (no resource ∨ wildcard "*" ∨ some resource by kind or by
scope)` (`check_iff`), so it does not depend on the order of the
resources (`check_perm`), and over a fresh `newController` the
disjunction reads directly off the granted objects
(`newController_check_iff`).

`Resource`, its scope string and `splitScope` are declared in files of
the package that are not part of the sources; they are modelled from
the spec. Nothing proved here depends on their definitions.
-/

namespace Authlib

/-! ## Resources and granted objects -/

/-- Modelled from the spec: `Resource`, the `(kind, attribute,
identifier)` triple a request names. -/
structure Resource where
  kind : String
  attr : String
  id : String
  deriving DecidableEq, Repr

/-- Modelled from the spec: `Resource.Scope()`, the colon-joined
`kind:attribute:identifier`, or `kind:identifier` without an attribute. -/
def Resource.scope (r : Resource) : String :=
  if r.attr = "" then r.kind ++ ":" ++ r.id else r.kind ++ ":" ++ r.attr ++ ":" ++ r.id

/-- Modelled from the spec: `splitScope`, a granted object
`kind:attribute:identifier` or `kind:identifier` cut into kind,
attribute and identifier. -/
def splitScope (scope : String) : String × String × String :=
  match (scope.toList.splitOn ':').map String.mk with
  | [kind, id] => (kind, "", id)
  | kind :: attr :: id => (kind, attr, ":".intercalate id)
  | _ => (scope, "", "")

structure ReadResponseData where
  object : String
  deriving DecidableEq, Repr

structure ReadResponse where
  found : Bool
  data : List ReadResponseData
  deriving DecidableEq, Repr

/-! ## The controller -/

/-- `controller`: the permission set of one `(stack, subject, action)`. -/
structure Controller where
  found : Bool
  scopes : GoMap
  wildcard : GoMap

namespace Controller

def notFound : Controller := ⟨false, .empty, .empty⟩

/-- One turn of `newController`'s loop over `resp.Data`: an identifier
`*` grants the whole kind, anything else the exact object. -/
def addObject (c : Controller) (o : ReadResponseData) : Controller :=
  if (splitScope o.object).2.2 = "*" then
    { c with wildcard := c.wildcard.set (splitScope o.object).1 true }
  else { c with scopes := c.scopes.set o.object true }

/-- `controller.Check(resources...)`. -/
def check (r : Controller) (resources : List Resource) : Bool :=
  if !r.found then false
  else if resources.isEmpty then true
  else if r.scopes.len = 0 && r.wildcard.len = 0 then false
  else if r.wildcard.get "*" then true
  else resources.any fun res => r.wildcard.get res.kind || r.scopes.get res.scope

end Controller

/-- `newController(resp)`; `none` is a nil response. -/
def newController : Option ReadResponse → Controller
  | some resp =>
      if resp.found then resp.data.foldl Controller.addObject ⟨true, .empty, .empty⟩
      else Controller.notFound
  | none => Controller.notFound

/-! ## `check` is a plain disjunction -/

namespace Controller

/-- The disjunction `check` decides, with no fast path and no order. -/
def Grants (c : Controller) (rs : List Resource) : Prop :=
  c.found = true ∧
    (rs = [] ∨ c.wildcard.get "*" = true ∨
      ∃ r ∈ rs, c.wildcard.get r.kind = true ∨ c.scopes.get r.scope = true)

theorem check_iff (c : Controller) (rs : List Resource) : c.check rs = true ↔ c.Grants rs := by
  unfold check Grants
  by_cases hf : c.found = true
  · by_cases hrs : rs = []
    · simp [hf, hrs]
    · have hne : rs.isEmpty = false := by simpa using hrs
      by_cases hlen : c.scopes.len = 0 ∧ c.wildcard.len = 0
      · simp [hf, hrs, hlen, GoMap.get_of_len_eq_zero hlen.1, GoMap.get_of_len_eq_zero hlen.2]
      · have : (c.scopes.len = 0 && c.wildcard.len = 0) = false := by simpa using hlen
        by_cases hw : c.wildcard.get "*" = true <;> simp [hf, hne, hrs, this, hw]
  · simp [hf]

theorem check_perm (c : Controller) {rs rs' : List Resource} (h : rs.Perm rs') :
    c.check rs = c.check rs' := by
  have hnil : rs = [] ↔ rs' = [] :=
    ⟨fun e => by subst e; exact h.nil_eq.symm, fun e => by subst e; exact h.eq_nil⟩
  have hgr : c.Grants rs ↔ c.Grants rs' := by simp only [Grants, h.mem_iff, hnil]
  exact Bool.eq_iff_iff.mpr ((check_iff c rs).trans (hgr.trans (check_iff c rs').symm))

/-! ## What `newController` puts in the maps -/

def WildcardOf (o : ReadResponseData) (k : String) : Prop :=
  (splitScope o.object).2.2 = "*" ∧ (splitScope o.object).1 = k

def ScopeOf (o : ReadResponseData) (s : String) : Prop :=
  (splitScope o.object).2.2 ≠ "*" ∧ o.object = s

@[simp] theorem addObject_found (c : Controller) (o : ReadResponseData) :
    (c.addObject o).found = c.found := by
  unfold addObject; split <;> rfl

theorem addObject_wildcard (c : Controller) (o : ReadResponseData) (k : String) :
    (c.addObject o).wildcard.get k = true ↔ c.wildcard.get k = true ∨ WildcardOf o k := by
  unfold addObject WildcardOf
  split
  · rename_i hid
    rw [GoMap.get_set]
    by_cases hk : k = (splitScope o.object).1
    · simp [hk, hid]
    · simp [hk, hid, Ne.symm hk]
  · simp [*]

theorem addObject_scopes (c : Controller) (o : ReadResponseData) (s : String) :
    (c.addObject o).scopes.get s = true ↔ c.scopes.get s = true ∨ ScopeOf o s := by
  unfold addObject ScopeOf
  split
  · simp [*]
  · rename_i hid
    rw [GoMap.get_set]
    by_cases hs : s = o.object
    · simp [hs, hid]
    · simp [hs, hid, Ne.symm hs]

theorem foldl_addObject_found (os : List ReadResponseData) (c : Controller) :
    (os.foldl addObject c).found = c.found := by
  induction os generalizing c with
  | nil => rfl
  | cons o os ih => simp [ih]

theorem foldl_addObject_wildcard (os : List ReadResponseData) (c : Controller) (k : String) :
    (os.foldl addObject c).wildcard.get k = true ↔
      c.wildcard.get k = true ∨ ∃ o ∈ os, WildcardOf o k := by
  induction os generalizing c with
  | nil => simp
  | cons o os ih => simp only [List.foldl_cons, ih, addObject_wildcard, List.exists_mem_cons_iff, or_assoc]

theorem foldl_addObject_scopes (os : List ReadResponseData) (c : Controller) (s : String) :
    (os.foldl addObject c).scopes.get s = true ↔
      c.scopes.get s = true ∨ ∃ o ∈ os, ScopeOf o s := by
  induction os generalizing c with
  | nil => simp
  | cons o os ih => simp only [List.foldl_cons, ih, addObject_scopes, List.exists_mem_cons_iff, or_assoc]

end Controller

open Controller in
/-- Over a fresh permission set, a resource list is granted exactly when
the response was found and some granted object covers some resource:
by a wildcard identifier for its kind (or for every kind), or as the
exact scope. -/
theorem newController_grants_iff (resp : ReadResponse) (rs : List Resource) :
    (newController (some resp)).Grants rs ↔
      resp.found = true ∧ (rs = [] ∨ ∃ r ∈ rs, ∃ o ∈ resp.data,
        WildcardOf o "*" ∨ WildcardOf o r.kind ∨ ScopeOf o r.scope) := by
  by_cases hf : resp.found = true
  · simp only [newController, hf, if_true, Grants, foldl_addObject_found, foldl_addObject_wildcard,
      foldl_addObject_scopes, GoMap.get_empty, Bool.false_eq_true, false_or, hf, true_and]
    constructor
    · rintro (h | ⟨o, ho, hw⟩ | ⟨r, hr, ⟨o, ho, hw⟩ | ⟨o, ho, hs⟩⟩)
      · exact .inl h
      · cases rs with
        | nil => exact .inl rfl
        | cons r rs => exact .inr ⟨r, List.mem_cons_self r rs, o, ho, .inl hw⟩
      · exact .inr ⟨r, hr, o, ho, .inr (.inl hw)⟩
      · exact .inr ⟨r, hr, o, ho, .inr (.inr hs)⟩
    · rintro (h | ⟨r, hr, o, ho, hw | hw | hs⟩)
      · exact .inl h
      · exact .inr (.inl ⟨o, ho, hw⟩)
      · exact .inr (.inr ⟨r, hr, .inl ⟨o, ho, hw⟩⟩)
      · exact .inr (.inr ⟨r, hr, .inr ⟨o, ho, hs⟩⟩)
  · simp [newController, hf, Grants, notFound]

open Controller in
/-- `Check` over a fresh permission set reads off the granted objects;
over every permission set it is the plain disjunction, so neither the
fast path nor the order of the resources changes the answer. -/
theorem check_is_disjunction :
    (∀ (resp : ReadResponse) (rs : List Resource),
      (newController (some resp)).check rs = true ↔
        resp.found = true ∧ (rs = [] ∨ ∃ r ∈ rs, ∃ o ∈ resp.data,
          WildcardOf o "*" ∨ WildcardOf o r.kind ∨ ScopeOf o r.scope)) ∧
    (∀ (c : Controller) (rs : List Resource), c.check rs = true ↔
      c.found = true ∧ (rs = [] ∨ c.wildcard.get "*" = true ∨
        ∃ r ∈ rs, c.wildcard.get r.kind = true ∨ c.scopes.get r.scope = true)) ∧
    (∀ (c : Controller) (rs rs' : List Resource), rs.Perm rs' → c.check rs = c.check rs') :=
  ⟨fun resp rs => (check_iff _ rs).trans (newController_grants_iff resp rs), check_iff,
    fun c _ _ h => c.check_perm h⟩

/-- A kind wildcard grants that kind and no other. -/
example : (newController (some ⟨true, [⟨"teams:*"⟩]⟩)).check [⟨"teams", "id", "1"⟩] = true ∧
    (newController (some ⟨true, [⟨"teams:*"⟩]⟩)).check [⟨"users", "id", "1"⟩] = false := by
  decide

end Authlib
