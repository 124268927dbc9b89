import Authlib.GobCodec
import Authlib.Cache

/-!
# `LegacyClientImpl.Check`

The permission decision engine: validate the request, check the
caller's namespaces against the stack, decide service-only requests
from the service's own permissions, and otherwise fetch the user's
permission set (cache first, the authorization service on a miss) and
match the requested resources against it.

Every function that talks to the outside world returns an `Outcome`:
its result, the cache store after it, and the list of its effects in
the order it performs them (`Effect`: cache reads and writes, the
outgoing context with its watcher, remote reads). The cache is any
`CacheImpl` and the authorization service any function from requests
to results, so every statement below holds for every cache backend and
every remote answer. The tracer only records spans and is left out.

The results: `check_eq_referencePolicy` says `Check` is the decision
policy written out case by case (`referencePolicy`), and
`check_effects` says when it touches the cache and the service at all.
-/

namespace Authlib

/-! ## Requests -/

structure AccessClaims where
  isNil : Bool
  subject : String
  ns : String
  permissions : List String
  delegatedPermissions : List String

structure IdentityClaims where
  isNil : Bool
  subject : String
  ns : String

/-- `claims.AuthInfo`: `GetAccess()`, the calling service's claims, and
`GetIdentity()`, the end user's, `none` being a nil interface. A facet's
`isNil` is its `IsNil()`, a non-nil interface around a nil value, and
`ns` its `Namespace()`. -/
structure AuthInfo where
  access : Option AccessClaims
  identity : Option IdentityClaims

def AuthInfo.liveAccess (ai : AuthInfo) : Option AccessClaims := ai.access.filter (!·.isNil)

def AuthInfo.liveIdentity (ai : AuthInfo) : Option IdentityClaims :=
  ai.identity.filter (!·.isNil)

/-- `CheckRequest`; `StackID` is an `int64` that is only compared and
printed. -/
structure CheckRequest where
  caller : AuthInfo
  stackID : Int
  action : String
  resource : Option Resource
  contextual : List Resource

/-- `CheckRequest.Validate(accessTokenEnabled)`. -/
def CheckRequest.validate (r : CheckRequest) (accessTokenEnabled : Bool) : Option Error :=
  if r.stackID ≤ 0 then some .missingStackID
  else if r.action = "" then some .missingAction
  else if accessTokenEnabled && r.caller.liveAccess.isNone then some .missingCaller
  else if r.caller.liveIdentity.any (·.subject == "") then some .missingSubject
  else none

structure ReadRequest where
  stackId : Int
  action : String
  subject : String
  deriving DecidableEq, Repr

/-! ## The client -/

structure MultiTenantClientConfig where
  remoteAddress : String
  accessTokenAuthEnabled : Bool
  deriving DecidableEq, Repr

/-- A `*MultiTenantClientConfig`: an address in the caller's heap. -/
abbrev Ptr := Nat

abbrev Heap := Ptr → MultiTenantClientConfig

structure CacheRef where
  id : Nat
  deriving DecidableEq, Repr

structure ConnRef where
  id : Nat
  deriving DecidableEq, Repr

structure DialOption where
  id : Nat
  deriving DecidableEq, Repr

structure TracerRef where
  id : Nat
  deriving DecidableEq, Repr

/-- `LegacyClientImpl`. `clientV1` is the stub over `grpcConn`; what it
and the cache answer is the world a call runs against. -/
structure LegacyClientImpl where
  authCfg : Ptr
  cache : CacheRef
  grpcConn : ConnRef
  grpcOptions : List DialOption
  namespaceFmt : Int → String
  tracer : TracerRef

/-! ## Effects -/

/-- What a call does outside the process; `outgoingContext` is
`newOutgoingContext`, a derived context and its watcher goroutine. -/
inductive Effect where
  | cacheGet (key : String)
  | cacheSet (key : String) (data : GobBytes) (exp : Expiration)
  | outgoingContext
  | read (req : ReadRequest)
  deriving DecidableEq, Repr

structure Outcome (σ α : Type) where
  result : α
  cache : σ
  effects : List Effect

/-- `controllerCacheKey`: `fmt.Sprintf("read-%d-%s-%s", stackID, subject, action)`. -/
def controllerCacheKey (stackID : Int) (subject action : String) : String :=
  "read-" ++ toString stackID ++ "-" ++ subject ++ "-" ++ action

section

variable {σ : Type} (cache : CacheImpl σ GobBytes) (read : ReadRequest → Except Error ReadResponse)

def getCachedController (key : String) (s : σ) : Outcome σ (Except Error Controller) :=
  ⟨match cache.get s key with
    | .error err => .error err
    | .ok data => Gob.decodeController data, s, [.cacheGet key]⟩

/-- `cacheController` on the non-nil controller its caller passes; gob
cannot fail on a controller, so only `Set` can. -/
def cacheController (key : String) (ctrl : Controller) (s : σ) : Outcome σ (Option Error) :=
  let data := Gob.encodeController ctrl
  let put := cache.set s key data .defaultExpiration
  ⟨put.2, put.1, [.cacheSet key data .defaultExpiration]⟩

/-- `retrievePermissions`. On a failed cache write the code returns the
fresh controller beside the error; its only caller reads the error
alone, and so does the model. -/
def retrievePermissions (stackID : Int) (subject action : String) (s : σ) :
    Outcome σ (Except Error Controller) :=
  let key := controllerCacheKey stackID subject action
  let got := getCachedController cache key s
  match got.result with
  | .ok _ => got
  | .error err =>
      if !err.is .notFound then got
      else
        let req : ReadRequest := ⟨stackID, action, subject⟩
        match read req with
        | .error _ => ⟨.error .readPermission, s, got.effects ++ [.outgoingContext, .read req]⟩
        | .ok resp =>
            let res := newController (some resp)
            let put := cacheController cache key res s
            ⟨match put.result with
              | none => .ok res
              | some e => .error e,
              put.cache, got.effects ++ [.outgoingContext, .read req] ++ put.effects⟩

def Controller.answer (res : Controller) (req : CheckRequest) : Bool :=
  if !res.found then false
  else
    match req.resource with
    | none => true
    | some r => res.check (req.contextual ++ [r])

def checkSubject (req : CheckRequest) (subject : String) (s : σ) : Outcome σ (Except Error Bool) :=
  let r := retrievePermissions cache read req.stackID subject req.action s
  ⟨match r.result with
    | .error err => .error err
    | .ok res => .ok (res.answer req), r.cache, r.effects⟩

variable (namespaceMatches : String → String → Bool)

/-- `validateNamespace`; `namespaceMatches` is `claims.NamespaceMatches`
on a facet's namespace and the expected one. -/
def LegacyClientImpl.validateNamespace (heap : Heap) (c : LegacyClientImpl) (caller : AuthInfo)
    (stackID : Int) : Bool :=
  let expectedNamespace := c.namespaceFmt stackID
  let accessTokenMatch := !(heap c.authCfg).accessTokenAuthEnabled ||
    caller.liveAccess.any fun a => namespaceMatches a.ns expectedNamespace
  let idTokenMatch := caller.liveIdentity.all fun i => namespaceMatches i.ns expectedNamespace
  accessTokenMatch && idTokenMatch

/-- `LegacyClientImpl.Check`. -/
def LegacyClientImpl.check (heap : Heap) (c : LegacyClientImpl) (req : CheckRequest) (s : σ) :
    Outcome σ (Except Error Bool) :=
  let enabled := (heap c.authCfg).accessTokenAuthEnabled
  match req.validate enabled with
  | some err => ⟨.error err, s, []⟩
  | none =>
      if !c.validateNamespace namespaceMatches heap req.caller req.stackID then ⟨.ok false, s, []⟩
      else
        match req.caller.liveIdentity with
        | none =>
            if !enabled then ⟨.ok true, s, []⟩
            else
              match req.caller.liveAccess with
              | none => ⟨.error .missingCaller, s, []⟩
              | some a => ⟨.ok (a.permissions.contains req.action), s, []⟩
        | some ident =>
            if enabled then
              match req.caller.liveAccess with
              | none => ⟨.error .missingCaller, s, []⟩
              | some a =>
                  if a.delegatedPermissions.contains req.action then
                    checkSubject cache read req ident.subject s
                  else ⟨.ok false, s, []⟩
            else checkSubject cache read req ident.subject s

end

/-! ## The decision policy -/

section

variable (namespaceMatches : String → String → Bool)

/-- The decision policy, case by case: the first failing validation,
then the namespace check, then the service-only answer, then the
service's delegation and the user's permission set from `lookup`. -/
def referencePolicy (e : Bool) (nsFmt : Int → String)
    (lookup : Int → String → String → Except Error Controller) (req : CheckRequest) :
    Except Error Bool :=
  let access := req.caller.liveAccess
  let identity := req.caller.liveIdentity
  let expected := nsFmt req.stackID
  if req.stackID ≤ 0 then .error .missingStackID
  else if req.action = "" then .error .missingAction
  else if e && access.isNone then .error .missingCaller
  else if identity.any (·.subject == "") then .error .missingSubject
  else if (e && !access.any (fun a => namespaceMatches a.ns expected)) ||
      identity.any (fun i => !namespaceMatches i.ns expected) then .ok false
  else
    match identity with
    | none => if !e then .ok true else .ok (access.any (·.permissions.contains req.action))
    | some i =>
        if e && !access.any (·.delegatedPermissions.contains req.action) then .ok false
        else
          match lookup req.stackID i.subject req.action with
          | .error err => .error err
          | .ok p => .ok (p.found && match req.resource with
              | none => true
              | some r => p.check (req.contextual ++ [r]))

end

/-! ## Spec lemmas -/

section

variable {σ : Type} (cache : CacheImpl σ GobBytes) (read : ReadRequest → Except Error ReadResponse)
  (namespaceMatches : String → String → Bool)

theorem retrievePermissions_eq (stackID : Int) (subject action : String) (s : σ) :
    retrievePermissions cache read stackID subject action s =
      let key := controllerCacheKey stackID subject action
      let req : ReadRequest := ⟨stackID, action, subject⟩
      match cache.get s key with
      | .ok data => ⟨Gob.decodeController data, s, [.cacheGet key]⟩
      | .error err =>
          if !err.is .notFound then ⟨.error err, s, [.cacheGet key]⟩
          else
            match read req with
            | .error _ => ⟨.error .readPermission, s, [.cacheGet key, .outgoingContext, .read req]⟩
            | .ok resp =>
                let data := Gob.encodeController (newController (some resp))
                let put := cache.set s key data .defaultExpiration
                ⟨match put.2 with
                  | none => .ok (newController (some resp))
                  | some e => .error e,
                  put.1, [.cacheGet key, .outgoingContext, .read req, .cacheSet key data .defaultExpiration]⟩ := by
  simp only [retrievePermissions, getCachedController, cacheController]
  cases hget : cache.get s (controllerCacheKey stackID subject action) with
  | ok data =>
      cases hd : Gob.decodeController data with
      | ok c => simp [hd]
      | error e => simp [hd, Gob.decodeController_error hd]
  | error err =>
      by_cases h : err.is .notFound = true
      · simp only [h, Bool.not_true, Bool.false_eq_true, if_false]
        cases read ⟨stackID, action, subject⟩ <;> rfl
      · simp [h]

/-! ## `Check` is the reference policy -/

theorem Controller.answer_eq (res : Controller) (req : CheckRequest) :
    res.answer req = (res.found && match req.resource with
      | none => true
      | some r => res.check (req.contextual ++ [r])) := by
  unfold Controller.answer; cases res.found <;> rfl

theorem CheckRequest.liveAccess_of_validate {req : CheckRequest} (h : req.validate true = none) :
    ∃ a, req.caller.liveAccess = some a := by
  unfold CheckRequest.validate at h
  split_ifs at h with h1 h2 h3
  exact Option.ne_none_iff_exists'.mp (by simpa using h3)

theorem referencePolicy_of_validate_some {e : Bool} (nsFmt : Int → String)
    (lookup : Int → String → String → Except Error Controller) {req : CheckRequest} {err : Error}
    (h : req.validate e = some err) :
    referencePolicy namespaceMatches e nsFmt lookup req = .error err := by
  unfold CheckRequest.validate at h
  simp only [referencePolicy]
  split_ifs at h with h1 h2 h3 h4 <;> cases h
  · rw [if_pos h1]
  · rw [if_neg h1, if_pos h2]
  · rw [if_neg h1, if_neg h2, if_pos h3]
  · rw [if_neg h1, if_neg h2, if_neg h3, if_pos h4]

theorem referencePolicy_of_validate_none {e : Bool} (nsFmt : Int → String)
    (lookup : Int → String → String → Except Error Controller) {req : CheckRequest}
    (h : req.validate e = none) :
    referencePolicy namespaceMatches e nsFmt lookup req =
      if (e && !req.caller.liveAccess.any (fun a => namespaceMatches a.ns (nsFmt req.stackID))) ||
          req.caller.liveIdentity.any (fun i => !namespaceMatches i.ns (nsFmt req.stackID))
      then .ok false
      else
        match req.caller.liveIdentity with
        | none => if !e then .ok true
            else .ok (req.caller.liveAccess.any (·.permissions.contains req.action))
        | some i =>
            if e && !req.caller.liveAccess.any (·.delegatedPermissions.contains req.action)
            then .ok false
            else
              match lookup req.stackID i.subject req.action with
              | .error err => .error err
              | .ok p => .ok (p.answer req) := by
  unfold CheckRequest.validate at h
  split_ifs at h with h1 h2 h3 h4
  simp only [referencePolicy, if_neg h1, if_neg h2, if_neg h3, if_neg h4, Controller.answer_eq]

theorem validateNamespace_eq_false (heap : Heap) (c : LegacyClientImpl) (caller : AuthInfo)
    (st : Int) :
    (!c.validateNamespace namespaceMatches heap caller st) =
      (((heap c.authCfg).accessTokenAuthEnabled &&
          !caller.liveAccess.any (fun a => namespaceMatches a.ns (c.namespaceFmt st))) ||
        caller.liveIdentity.any (fun i => !namespaceMatches i.ns (c.namespaceFmt st))) := by
  simp only [LegacyClientImpl.validateNamespace]
  cases (heap c.authCfg).accessTokenAuthEnabled <;> cases caller.liveIdentity <;> simp

theorem check_eq_referencePolicy (heap : Heap) (c : LegacyClientImpl) (req : CheckRequest) (s : σ) :
    (c.check cache read namespaceMatches heap req s).result =
      referencePolicy namespaceMatches (heap c.authCfg).accessTokenAuthEnabled c.namespaceFmt
        (fun st u a => (retrievePermissions cache read st u a s).result) req := by
  cases hval : req.validate (heap c.authCfg).accessTokenAuthEnabled with
  | some err =>
      simp only [LegacyClientImpl.check, hval]
      exact (referencePolicy_of_validate_some namespaceMatches _ _ hval).symm
  | none =>
      rw [referencePolicy_of_validate_none namespaceMatches _ _ hval]
      simp only [LegacyClientImpl.check, hval, validateNamespace_eq_false]
      split
      · rfl
      · cases he : (heap c.authCfg).accessTokenAuthEnabled
        · cases req.caller.liveIdentity with
          | none => rfl
          | some i => simp only [checkSubject]; cases (retrievePermissions cache read _ _ _ s).result <;> rfl
        · obtain ⟨a, ha⟩ := CheckRequest.liveAccess_of_validate (he ▸ hval)
          cases req.caller.liveIdentity with
          | none => simp [ha]
          | some i =>
              simp only [ha, Option.any_some, Bool.true_and, checkSubject]
              cases a.delegatedPermissions.contains req.action
              · rfl
              · cases (retrievePermissions cache read _ _ _ s).result <;> rfl

/-! ## What `Check` does to the cache and the service -/

theorem check_cases (heap : Heap) (c : LegacyClientImpl) (req : CheckRequest) (s : σ) :
    (∃ r, c.check cache read namespaceMatches heap req s = ⟨r, s, []⟩) ∨
    ∃ i, req.validate (heap c.authCfg).accessTokenAuthEnabled = none ∧
      c.validateNamespace namespaceMatches heap req.caller req.stackID = true ∧
      req.caller.liveIdentity = some i ∧
      ((heap c.authCfg).accessTokenAuthEnabled = false ∨
        req.caller.liveAccess.any (·.delegatedPermissions.contains req.action) = true) ∧
      c.check cache read namespaceMatches heap req s = checkSubject cache read req i.subject s := by
  simp only [LegacyClientImpl.check]
  split
  · exact .inl ⟨_, rfl⟩
  · rename_i hv
    split
    · exact .inl ⟨_, rfl⟩
    · rename_i hns
      split
      · split
        · exact .inl ⟨_, rfl⟩
        · split <;> exact .inl ⟨_, rfl⟩
      · rename_i i hi
        split
        · rename_i he
          split
          · exact .inl ⟨_, rfl⟩
          · rename_i a ha
            split
            · rename_i hd
              exact .inr ⟨i, hv, by simpa using hns, hi, .inr (by simp only [ha, Option.any_some, hd]), rfl⟩
            · exact .inl ⟨_, rfl⟩
        · rename_i he
          exact .inr ⟨i, hv, by simpa using hns, hi, .inl (by simpa using he), rfl⟩

/-- When `Check` reaches the cache and the authorization service, and what
happens to the cache. -/
theorem check_effects (heap : Heap) (c : LegacyClientImpl) (req : CheckRequest) (s : σ) :
    let o := c.check cache read namespaceMatches heap req s
    let e := (heap c.authCfg).accessTokenAuthEnabled
    ((∃ key, Effect.cacheGet key ∈ o.effects) →
      req.validate e = none ∧ c.validateNamespace namespaceMatches heap req.caller req.stackID = true ∧
      (∃ i, req.caller.liveIdentity = some i) ∧
      (e = false ∨ req.caller.liveAccess.any (·.delegatedPermissions.contains req.action) = true)) ∧
    (∀ rq, Effect.read rq ∈ o.effects → ∃ i err,
      req.caller.liveIdentity = some i ∧ rq = ⟨req.stackID, req.action, i.subject⟩ ∧
      cache.get s (controllerCacheKey req.stackID i.subject req.action) = .error err ∧
      err.is .notFound = true ∧
      o.effects.take 3 =
        [.cacheGet (controllerCacheKey req.stackID i.subject req.action), .outgoingContext, .read rq]) ∧
    (∀ key data exp, Effect.cacheSet key data exp ∈ o.effects → ∃ i resp,
      req.caller.liveIdentity = some i ∧ key = controllerCacheKey req.stackID i.subject req.action ∧
      read ⟨req.stackID, req.action, i.subject⟩ = .ok resp ∧
      o.effects = [.cacheGet key, .outgoingContext, .read ⟨req.stackID, req.action, i.subject⟩,
        .cacheSet key data exp]) ∧
    (∀ key err, Effect.cacheGet key ∈ o.effects →
      (cache.get s key = .error err ∧ err.is .notFound = false ∨
        ∃ data, cache.get s key = .ok data ∧ Gob.decodeController data = .error err) →
      o.result = .error err ∧ o.effects = [.cacheGet key]) ∧
    (∀ rq err, Effect.read rq ∈ o.effects → read rq = .error err →
      o.result = .error .readPermission ∧ o.cache = s) := by
  intro o e
  rcases check_cases cache read namespaceMatches heap c req s with
    ⟨r, hr⟩ | ⟨i, hv, hns, hi, hdel, hcs⟩
  · simp [o, hr]
  · have ho : o = checkSubject cache read req i.subject s := hcs
    rw [ho]
    simp only [checkSubject, retrievePermissions_eq]
    generalize hk : controllerCacheKey req.stackID i.subject req.action = key
    cases hget : cache.get s key with
    | ok data => 
        cases hd : Gob.decodeController data <;> simp_all
    | error err =>
        by_cases hnf : err.is .notFound = true
        · cases hread : read ⟨req.stackID, req.action, i.subject⟩ with
          | error re => simp_all
          | ok resp => simp_all
        · simp_all

end

end Authlib
