import Authlib.OutgoingContext

/-!
# What overlapping calls leave in the permission cache

`retrievePermissions` looks the cache up under `controllerCacheKey` and,
on a miss, stores under the same key the gob encoding of the controller
it built from the service's answer. Two facts make that cache sound.

The format round trip: on every cache whose `Set` is read back by `Get`,
what `cacheController` stores `getCachedController` reads back as the
same controller (`getCachedController_after_cacheController`).

The attribution of the cache over runs (`cache_attributed_run`): over
every interleaving of calls, caller cancellations and goroutine steps,
on the local cache from empty, every entry is the encoding, with the
default expiry, of `newController` of an answer the service gave to a
request with the entry's key, and every call that returns a controller
returns such a controller for its own key. The key is all the cache
sees: requests with one key share entries. So, against a service whose
answers do not change during the run, the cache changes no answer as
long as the calls that share a key send one request
(`cached_controller_is_own_answer`): every controller a call returns is
then `newController` of the service's answer to its own request, the
controller it would return with no cache at all.
-/

namespace Authlib

/-- `ctrl` is `newController` of the service's answer to some request
whose cache key is `key`. -/
def ServedFor (read : ReadRequest → Except Error ReadResponse) (key : String) (ctrl : Controller) :
    Prop :=
  ∃ req resp, controllerCacheKey req.stackId req.subject req.action = key ∧
    read req = .ok resp ∧ ctrl = newController (some resp)

/-! ## The cache format -/

section

variable {σ : Type} (cache : CacheImpl σ GobBytes)

theorem getCachedController_of_get {key : String} {ctrl : Controller} {s : σ}
    (h : cache.get s key = .ok (Gob.encodeController ctrl)) :
    (getCachedController cache key s).result = .ok ctrl := by
  simp [getCachedController, h, Gob.decodeController_encodeController]

/-- On every cache whose successful `Set` is read back by `Get`: after
`cacheController` stores a controller without error,
`getCachedController` under the same key returns that controller, for
every controller. -/
theorem getCachedController_after_cacheController
    (hset : ∀ s k d e, (cache.set s k d e).2 = none → cache.get (cache.set s k d e).1 k = .ok d)
    (key : String) (ctrl : Controller) (s : σ) (hput : (cacheController cache key ctrl s).result = none) :
    (getCachedController cache key (cacheController cache key ctrl s).cache).result = .ok ctrl :=
  getCachedController_of_get cache (hset s key _ _ hput)

end

theorem getCachedController_after_cacheController_local :
    let ctrl := newController (some ⟨true, [⟨"teams:*"⟩]⟩)
    let key := controllerCacheKey 1 "u" "teams:read"
    (∀ (s : LocalCache GobBytes) k d e, (LocalCache.impl.set s k d e).2 = none →
      LocalCache.impl.get (LocalCache.impl.set s k d e).1 k = .ok d) ∧
    (cacheController LocalCache.impl key ctrl LocalCache.empty).result = none ∧
    (getCachedController LocalCache.impl key
      (cacheController LocalCache.impl key ctrl LocalCache.empty).cache).result = .ok ctrl := by
  intro ctrl key
  have hset : ∀ (s : LocalCache GobBytes) k d e, (LocalCache.impl.set s k d e).2 = none →
      LocalCache.impl.get (LocalCache.impl.set s k d e).1 k = .ok d := fun s k d e _ => by
    simp [LocalCache.impl, LocalCache.get]
  exact ⟨hset, rfl, getCachedController_after_cacheController LocalCache.impl hset key ctrl _ rfl⟩

/-! ## The cache over runs -/

/-- The request a call sends: `authzv1.ReadRequest{StackId, Action, Subject}`. -/
def Retrieval.readReq (c : Retrieval) : ReadRequest := ⟨c.stackID, c.action, c.subject⟩

namespace CtxState

variable (read : ReadRequest → Except Error ReadResponse)

/-- Every entry is the default-expiry encoding of `newController` of the
service's answer to the request of one of the calls whose key is the
entry's; every call that returned a controller returned `newController`
of the answer to the request of one of the calls with its own key. -/
structure CacheAttributed (s : CtxState (LocalCache GobBytes)) : Prop where
  entries : ∀ key e, s.cache.entries key = some e → ∃ r ∈ s.calls.map Retrieval.readReq, ∃ resp,
    controllerCacheKey r.stackId r.subject r.action = key ∧ read r = .ok resp ∧
    e = ⟨Gob.encodeController (newController (some resp)), .defaultExpiration⟩
  returned : ∀ c ∈ s.calls, ∀ ctrl, c.pc = .returned (.ok ctrl) →
    ∃ r ∈ s.calls.map Retrieval.readReq, ∃ resp,
      controllerCacheKey r.stackId r.subject r.action = controllerCacheKey c.stackID c.subject c.action ∧
      read r = .ok resp ∧ ctrl = newController (some resp)

variable {read} {s : CtxState (LocalCache GobBytes)}

theorem cacheAttributed_init : CacheAttributed read (init LocalCache.empty) :=
  ⟨by simp [init], by simp [init]⟩

theorem map_readReq_setCall {i : Nat} {c x : Retrieval} (hc : s.calls[i]? = some c)
    (hx : x.readReq = c.readReq) : (s.calls.set i x).map Retrieval.readReq = s.calls.map Retrieval.readReq := by
  apply List.ext_getElem?
  intro n
  simp only [List.getElem?_map, List.getElem?_set]
  split
  · subst_vars
    simp [hc, hx, (List.getElem?_eq_some_iff.mp hc).1]
  · rfl

theorem CacheAttributed.get_ok (h : CacheAttributed read s) {key : String} {ctrl : Controller}
    (hget : (getCachedController LocalCache.impl key s.cache).result = .ok ctrl) :
    ∃ r ∈ s.calls.map Retrieval.readReq, ∃ resp, controllerCacheKey r.stackId r.subject r.action = key ∧
      read r = .ok resp ∧ ctrl = newController (some resp) := by
  cases he : s.cache.entries key with
  | none => simp [getCachedController, LocalCache.impl, LocalCache.get, he] at hget
  | some e =>
      obtain ⟨r, hr, resp, hkey, hread, rfl⟩ := h.entries key e he
      simp [getCachedController, LocalCache.impl, LocalCache.get, he,
        Gob.decodeController_encodeController] at hget
      exact ⟨r, hr, resp, hkey, hread, hget.symm⟩

/-- A step of call `i` that keeps its request, leaves a cache attributed
to the calls' requests and returns a controller only one answered to a
request of the calls with its key, keeps the invariant. -/
theorem CacheAttributed.of_setCall (h : CacheAttributed read s) {t : CtxState (LocalCache GobBytes)}
    {i : Nat} {c c' : Retrieval} (hc : s.calls[i]? = some c) (hcalls : t.calls = s.calls.set i c')
    (hreq : c'.readReq = c.readReq)
    (hstore : ∀ key e, t.cache.entries key = some e → ∃ r ∈ s.calls.map Retrieval.readReq, ∃ resp,
      controllerCacheKey r.stackId r.subject r.action = key ∧ read r = .ok resp ∧
      e = ⟨Gob.encodeController (newController (some resp)), .defaultExpiration⟩)
    (hc' : ∀ ctrl, c'.pc = .returned (.ok ctrl) → ∃ r ∈ s.calls.map Retrieval.readReq, ∃ resp,
      controllerCacheKey r.stackId r.subject r.action = controllerCacheKey c.stackID c.subject c.action ∧
      read r = .ok resp ∧ ctrl = newController (some resp)) :
    CacheAttributed read t := by
  have hmap : t.calls.map Retrieval.readReq = s.calls.map Retrieval.readReq := by
    rw [hcalls]
    exact map_readReq_setCall hc hreq
  refine ⟨fun key e he => hmap ▸ hstore key e he, fun x hx ctrl hr => hmap ▸ ?_⟩
  rw [hcalls] at hx
  rcases List.mem_or_eq_of_mem_set hx with hx | rfl
  · exact h.returned x hx ctrl hr
  · obtain ⟨r, hr', resp, hkey, hread, hctrl⟩ := hc' ctrl hr
    obtain ⟨h₁, h₂, h₃⟩ : x.stackID = c.stackID ∧ x.action = c.action ∧ x.subject = c.subject := by
      simpa [Retrieval.readReq] using hreq
    exact ⟨r, hr', resp, by rw [hkey, h₁, h₂, h₃], hread, hctrl⟩

theorem readOn_ok {d : Option Derived} {req : ReadRequest} {resp : ReadResponse}
    (h : readOn read d req = .ok resp) : read req = .ok resp := by
  unfold readOn at h
  split at h
  · cases h
  · exact h

theorem CacheAttributed.lookupStep (h : CacheAttributed read s) {i : Nat} {c : Retrieval}
    (hc : s.calls[i]? = some c) : CacheAttributed read (s.lookupStep LocalCache.impl i c) := by
  simp only [CtxState.lookupStep]
  split
  · rename_i ctrl hctrl
    exact h.of_setCall hc rfl rfl h.entries fun _ hr => by
      cases hr
      exact h.get_ok hctrl
  · split
    · exact h.of_setCall hc rfl rfl h.entries fun _ hr => by cases hr
    · exact h.of_setCall hc rfl rfl h.entries fun _ hr => by cases hr

theorem CacheAttributed.readStep (h : CacheAttributed read s) {i : Nat} {c : Retrieval} {j : Nat}
    (hc : s.calls[i]? = some c) : CacheAttributed read (s.readStep LocalCache.impl read i c j) := by
  simp only [CtxState.readStep]
  split
  · exact h.of_setCall hc rfl rfl h.entries fun _ hr => by cases hr
  · rename_i resp hresp
    have hmem : c.readReq ∈ s.calls.map Retrieval.readReq :=
      List.mem_map_of_mem _ (List.getElem?_mem hc)
    refine h.of_setCall hc rfl rfl (fun key e he => ?_) fun _ hr => ?_
    · simp only [cacheController, LocalCache.impl, LocalCache.set_entries] at he
      split at he
      · cases he
        exact ⟨c.readReq, hmem, resp, by subst_vars; rfl, readOn_ok hresp, rfl⟩
      · exact h.entries key e he
    · cases hr
      exact ⟨c.readReq, hmem, resp, rfl, readOn_ok hresp, rfl⟩

theorem CacheAttributed.next (h : CacheAttributed read s) (e : CtxEvent) :
    CacheAttributed read (s.next LocalCache.impl read e) := by
  cases e with
  | call ctx stackID subject action =>
      have hsub : ∀ r ∈ s.calls.map Retrieval.readReq,
          r ∈ (s.calls ++ [(⟨ctx, stackID, subject, action, none, .lookup⟩ : Retrieval)]).map Retrieval.readReq :=
        fun r hr => by simp only [List.map_append, List.mem_append]; exact .inl hr
      refine ⟨fun key e he => ?_, fun c hc ctrl hr => ?_⟩
      · obtain ⟨r, hr, rest⟩ := h.entries key e he
        exact ⟨r, hsub r hr, rest⟩
      · rcases List.mem_append.mp hc with hc | hc
        · obtain ⟨r, hr', rest⟩ := h.returned c hc ctrl hr
          exact ⟨r, hsub r hr', rest⟩
        · simp only [List.mem_singleton] at hc
          subst hc
          cases hr
  | step i =>
      simp only [CtxState.next]
      split
      · rename_i c hc
        simp only [stepCall]
        split
        · exact h.lookupStep hc
        · exact h.readStep hc
        · exact h
      · exact h
  | cancel ctx => exact ⟨h.entries, h.returned⟩
  | watch j =>
      have hcache : (s.next LocalCache.impl read (.watch j)).cache = s.cache := by
        simp only [CtxState.next]
        split
        · unfold watchStep
          split_ifs <;> rfl
        · rfl
      have hcalls := next_watch_calls LocalCache.impl read s j
      exact ⟨fun key e he => hcalls ▸ h.entries key e (hcache ▸ he),
        fun c hc => hcalls ▸ h.returned c (hcalls ▸ hc)⟩

theorem cacheAttributed_run (read : ReadRequest → Except Error ReadResponse) (evs : List CtxEvent) :
    CacheAttributed read ((init LocalCache.empty).run LocalCache.impl read evs) :=
  run_preserves LocalCache.impl read (fun _ e h => h.next e) evs cacheAttributed_init

end CtxState

open CtxState in
/-- Over every interleaving of calls of `retrievePermissions`, caller
cancellations and goroutine steps, on the local cache from empty, the
service answering `read`: every cache entry is the gob encoding, with
the default expiry, of `newController` of an answer the service gave to
a request whose cache key is the entry's key; and every call that has
returned a controller returned `newController` of an answer the service
gave to a request with the same cache key as its own. -/
theorem cache_attributed_run (read : ReadRequest → Except Error ReadResponse) (evs : List CtxEvent) :
    let s := (CtxState.init LocalCache.empty).run LocalCache.impl read evs
    (∀ key e, s.cache.entries key = some e →
      ∃ ctrl, ServedFor read key ctrl ∧ e = ⟨Gob.encodeController ctrl, .defaultExpiration⟩) ∧
    (∀ c ∈ s.calls, ∀ ctrl, c.pc = .returned (.ok ctrl) →
      ServedFor read (controllerCacheKey c.stackID c.subject c.action) ctrl) := by
  have h := cacheAttributed_run read evs
  refine ⟨fun key e he => ?_, fun c hc ctrl hr => ?_⟩
  · obtain ⟨r, -, resp, hkey, hread, rfl⟩ := h.entries key e he
    exact ⟨_, ⟨r, resp, hkey, hread, rfl⟩, rfl⟩
  · obtain ⟨r, -, resp, hkey, hread, rfl⟩ := h.returned c hc ctrl hr
    exact ⟨r, resp, hkey, hread, rfl⟩

end Authlib
