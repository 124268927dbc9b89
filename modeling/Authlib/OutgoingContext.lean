import Authlib.LegacyClient

/-!
# Outgoing contexts and their watchers

On a cache miss `retrievePermissions` issues its `Read` on a context of
its own: `newOutgoingContext(ctx)` derives one from
`context.Background()`, copies the span onto it, and starts a goroutine
that selects on the caller's `ctx.Done()` and the derived context's
`Done()`, canceling the derived context in the first case and exiting in
both. The `cancel` function never leaves that goroutine: nothing else
cancels the derived context.

Calls of `retrievePermissions` overlap over one cache, and each caller's
context may be canceled at any moment, or never. A run is a list of
events (`CtxEvent`): a call begins, a call takes its next step (the
cache lookup and, on a miss, `newOutgoingContext`; then the return of
`Read` with the cache write), a caller's context is canceled, a watcher
takes its `select`. `next` is total, so every interleaving is a list of
events and every reachable state is `run` of one. The cache steps are
the sequential model's (`getCachedController`, `cacheController`), and
a call that runs alone ends as `retrievePermissions` does
(`solo_call_eq_retrievePermissions`).

`Moves` says once what one event can do. The invariant (`WatchInv`): a
derived context is canceled only once its caller's context is, its
watcher exits only once it is canceled, and every call that reached
`newOutgoingContext` owns the context made from its own. So a call
returns on every path with its derived context live and its watcher
blocked in `select`, for as long as the caller's context lives
(`call_returns_with_live_watcher`); and a canceled caller context does
reach the `Read` in flight (`canceled_caller_fails_read`).
-/

namespace Authlib

/-- A context made by `newOutgoingContext`, with the goroutine it starts:
the caller's context whose `Done()` the goroutine selects on, whether
`outCtx.Done()` is closed (`cancel` ran), and whether the goroutine is
still in its `select`. -/
structure Derived where
  parent : Nat
  done : Bool
  watching : Bool
  deriving DecidableEq, Repr

/-- Where one call of `retrievePermissions` is: before
`getCachedController`, in `c.clientV1.Read(outCtx, readReq)`, or
returned. -/
inductive RetrievalPc where
  | lookup
  | reading
  | returned (r : Except Error Controller)

/-- One call `retrievePermissions(ctx, stackID, subject, action)`; `out`
is the context `newOutgoingContext` made for it, once it has. -/
structure Retrieval where
  ctx : Nat
  stackID : Int
  subject : String
  action : String
  out : Option Nat
  pc : RetrievalPc

/-- The cache store, the calls, the derived contexts with their
goroutines, and the callers' contexts that are done. -/
structure CtxState (σ : Type) where
  cache : σ
  calls : List Retrieval
  derived : List Derived
  canceled : List Nat

/-- One event of a run: `retrievePermissions` is called, call `i` takes
its next step, the caller's context `ctx` is canceled (by its owner or a
deadline), or the goroutine of derived context `j` takes its `select`. -/
inductive CtxEvent where
  | call (ctx : Nat) (stackID : Int) (subject action : String)
  | step (i : Nat)
  | cancel (ctx : Nat)
  | watch (j : Nat)
  deriving DecidableEq, Repr

namespace CtxState

variable {σ : Type} (cache : CacheImpl σ GobBytes) (read : ReadRequest → Except Error ReadResponse)

def init (c : σ) : CtxState σ := ⟨c, [], [], []⟩

def setCall (s : CtxState σ) (i : Nat) (c : Retrieval) : CtxState σ :=
  { s with calls := s.calls.set i c }

def setDerived (s : CtxState σ) (j : Nat) (d : Derived) : CtxState σ :=
  { s with derived := s.derived.set j d }

@[simp] theorem setCall_calls (s : CtxState σ) (i : Nat) (c : Retrieval) :
    (s.setCall i c).calls = s.calls.set i c := rfl
@[simp] theorem setCall_derived (s : CtxState σ) (i : Nat) (c : Retrieval) :
    (s.setCall i c).derived = s.derived := rfl
@[simp] theorem setCall_canceled (s : CtxState σ) (i : Nat) (c : Retrieval) :
    (s.setCall i c).canceled = s.canceled := rfl
@[simp] theorem setCall_cache (s : CtxState σ) (i : Nat) (c : Retrieval) :
    (s.setCall i c).cache = s.cache := rfl
@[simp] theorem setDerived_calls (s : CtxState σ) (j : Nat) (d : Derived) :
    (s.setDerived j d).calls = s.calls := rfl
@[simp] theorem setDerived_derived (s : CtxState σ) (j : Nat) (d : Derived) :
    (s.setDerived j d).derived = s.derived.set j d := rfl
@[simp] theorem setDerived_canceled (s : CtxState σ) (j : Nat) (d : Derived) :
    (s.setDerived j d).canceled = s.canceled := rfl

/-- `newOutgoingContext(ctx)`: a context under `context.Background()`,
not done, and its goroutine, blocked in `select`; with the new
context's number. -/
def newOutgoingContext (s : CtxState σ) (ctx : Nat) : CtxState σ × Nat :=
  ({ s with derived := s.derived ++ [⟨ctx, false, true⟩] }, s.derived.length)

@[simp] theorem newOutgoingContext_calls (s : CtxState σ) (ctx : Nat) :
    (s.newOutgoingContext ctx).1.calls = s.calls := rfl
@[simp] theorem newOutgoingContext_derived (s : CtxState σ) (ctx : Nat) :
    (s.newOutgoingContext ctx).1.derived = s.derived ++ [⟨ctx, false, true⟩] := rfl
@[simp] theorem newOutgoingContext_canceled (s : CtxState σ) (ctx : Nat) :
    (s.newOutgoingContext ctx).1.canceled = s.canceled := rfl
@[simp] theorem newOutgoingContext_cache (s : CtxState σ) (ctx : Nat) :
    (s.newOutgoingContext ctx).1.cache = s.cache := rfl

/-- `retrievePermissions` up to `Read`: the cache lookup returns a
cached controller or an error other than `cache.ErrNotFound`; on
`cache.ErrNotFound` the call makes its outgoing context and sends its
`Read` on it. -/
def lookupStep (s : CtxState σ) (i : Nat) (c : Retrieval) : CtxState σ :=
  let got := getCachedController cache (controllerCacheKey c.stackID c.subject c.action) s.cache
  match got.result with
  | .ok ctrl => s.setCall i { c with pc := .returned (.ok ctrl) }
  | .error err =>
      if !err.is .notFound then s.setCall i { c with pc := .returned (.error err) }
      else
        let o := s.newOutgoingContext c.ctx
        o.1.setCall i { c with out := some o.2, pc := .reading }

/-- `Read` on a derived context `d`: the service's answer, or the
context's error once it is canceled. -/
def readOn (d : Option Derived) (req : ReadRequest) : Except Error ReadResponse :=
  if d.map Derived.done = some true then .error (.other "context canceled") else read req

/-- `retrievePermissions` from the return of `Read` on: `ErrReadPermission`
on an error, otherwise the new controller, cached. The call returns
without canceling its outgoing context: the code has no `cancel` to
call. -/
def readStep (s : CtxState σ) (i : Nat) (c : Retrieval) (j : Nat) : CtxState σ :=
  match readOn read s.derived[j]? ⟨c.stackID, c.action, c.subject⟩ with
  | .error _ => s.setCall i { c with pc := .returned (.error .readPermission) }
  | .ok resp =>
      let res := newController (some resp)
      let put := cacheController cache (controllerCacheKey c.stackID c.subject c.action) res s.cache
      { s.setCall i { c with pc := .returned (match put.result with
          | none => .ok res
          | some e => .error e) } with cache := put.cache }

/-- The goroutine's `select`: once the caller's context is done it
cancels the derived one and exits; once the derived one is done it
exits; until then it stays blocked. -/
def watchStep (s : CtxState σ) (j : Nat) (d : Derived) : CtxState σ :=
  if !d.watching then s
  else if d.parent ∈ s.canceled then s.setDerived j { d with done := true, watching := false }
  else if d.done then s.setDerived j { d with watching := false }
  else s

def stepCall (s : CtxState σ) (i : Nat) (c : Retrieval) : CtxState σ :=
  match c.pc, c.out with
  | .lookup, _ => s.lookupStep cache i c
  | .reading, some j => s.readStep cache read i c j
  | _, _ => s

def next (s : CtxState σ) : CtxEvent → CtxState σ
  | .call ctx stackID subject action =>
      { s with calls := s.calls ++ [⟨ctx, stackID, subject, action, none, .lookup⟩] }
  | .step i =>
      match s.calls[i]? with
      | some c => s.stepCall cache read i c
      | none => s
  | .cancel ctx => { s with canceled := ctx :: s.canceled }
  | .watch j =>
      match s.derived[j]? with
      | some d => s.watchStep j d
      | none => s

def run (s : CtxState σ) (evs : List CtxEvent) : CtxState σ := evs.foldl (next cache read) s

@[simp] theorem run_nil (s : CtxState σ) : s.run cache read [] = s := rfl

@[simp] theorem run_cons (s : CtxState σ) (e : CtxEvent) (evs : List CtxEvent) :
    s.run cache read (e :: evs) = (s.next cache read e).run cache read evs := rfl

/-- What every event keeps, every run keeps. -/
theorem run_preserves {P : CtxState σ → Prop} (hstep : ∀ s e, P s → P (s.next cache read e))
    (evs : List CtxEvent) {s : CtxState σ} (hs : P s) : P (s.run cache read evs) := by
  induction evs generalizing s with
  | nil => exact hs
  | cons e evs ih => exact ih (hstep s e hs)

/-! ## What one event can do -/

/-- What one event can do: a call begins; a call returns (with the
cache as the step left it); a call makes its outgoing context and sends
its `Read`; a caller's context is canceled; a goroutine cancels its
derived context and exits, or exits; or nothing. -/
inductive Moves (s : CtxState σ) : CtxState σ → Prop where
  | stay : Moves s s
  | call {c : Retrieval} : c.out = none → c.pc = .lookup → Moves s { s with calls := s.calls ++ [c] }
  | returns {i c r} {store : σ} : s.calls[i]? = some c →
      Moves s { s.setCall i { c with pc := .returned r } with cache := store }
  | spawn {i c} : s.calls[i]? = some c →
      Moves s ((s.newOutgoingContext c.ctx).1.setCall i
        { c with out := some s.derived.length, pc := .reading })
  | cancel {ctx} : Moves s { s with canceled := ctx :: s.canceled }
  | cancelDerived {j d} : s.derived[j]? = some d → d.parent ∈ s.canceled →
      Moves s (s.setDerived j { d with done := true, watching := false })
  | exit {j d} : s.derived[j]? = some d → d.done = true →
      Moves s (s.setDerived j { d with watching := false })

theorem next_moves (s : CtxState σ) (e : CtxEvent) : Moves s (s.next cache read e) := by
  cases e with
  | call ctx stackID subject action => exact .call rfl rfl
  | step i =>
      simp only [next]
      split
      · rename_i c hc
        simp only [stepCall]
        split
        · simp only [lookupStep]
          split
          · exact .returns hc
          · split
            · exact .returns hc
            · exact .spawn hc
        · simp only [readStep]
          split
          · exact .returns hc
          · exact .returns hc
        · exact .stay
      · exact .stay
  | cancel ctx => exact .cancel
  | watch j =>
      simp only [next]
      split
      · rename_i d hd
        simp only [watchStep]
        split
        · exact .stay
        · split
          · exact .cancelDerived hd ‹_›
          · split
            · exact .exit hd ‹_›
            · exact .stay
      · exact .stay

theorem map_parent_set {l : List Derived} {j : Nat} {d d' : Derived} (hd : l[j]? = some d)
    (h : d'.parent = d.parent) : (l.set j d').map (·.parent) = l.map (·.parent) := by
  apply List.ext_getElem?
  intro n
  simp only [List.getElem?_map, List.getElem?_set]
  split
  · subst_vars
    simp [hd, h, (List.getElem?_eq_some_iff.mp hd).1]
  · rfl

theorem map_parent_append {l : List Derived} {x : Derived} {j p : Nat}
    (h : (l.map (·.parent))[j]? = some p) : ((l ++ [x]).map (·.parent))[j]? = some p := by
  rw [List.map_append, List.getElem?_append_left (List.getElem?_eq_some_iff.mp h).1, h]

theorem owned_setDerived {s : CtxState σ} {j : Nat} {d d' : Derived} (hd : s.derived[j]? = some d)
    (hp : d'.parent = d.parent)
    (h : ∀ c ∈ s.calls, ∀ n, c.out = some n → (s.derived.map (·.parent))[n]? = some c.ctx) :
    ∀ c ∈ (s.setDerived j d').calls, ∀ n, c.out = some n →
      ((s.setDerived j d').derived.map (·.parent))[n]? = some c.ctx := by
  rw [setDerived_calls, setDerived_derived, map_parent_set hd hp]
  exact h

/-! ## The derived contexts -/

/-- What holds in every reachable state: a derived context is canceled
only once its caller's context is done, and its goroutine exits only
once it is canceled; a call that made an outgoing context owns the one
made from its own context; a call in `Read` has made one. -/
structure WatchInv (s : CtxState σ) : Prop where
  doneAfter : ∀ d ∈ s.derived, d.done = true → d.parent ∈ s.canceled
  exitAfter : ∀ d ∈ s.derived, d.watching = false → d.done = true
  owned : ∀ c ∈ s.calls, ∀ j, c.out = some j → (s.derived.map (·.parent))[j]? = some c.ctx
  reading : ∀ c ∈ s.calls, c.pc = .reading → c.out ≠ none

theorem watchInv_init (c : σ) : WatchInv (init c) :=
  ⟨by simp [init], by simp [init], by simp [init], by simp [init]⟩

theorem WatchInv.moves {s t : CtxState σ} (h : WatchInv s) (hm : Moves s t) : WatchInv t := by
  cases hm with
  | stay => exact h
  | call hout hpc =>
      refine ⟨h.doneAfter, h.exitAfter, fun c hc j hj => ?_, fun c hc hr => ?_⟩ <;>
        rcases List.mem_append.mp hc with hc | hc
      · exact h.owned c hc j hj
      · simp_all
      · exact h.reading c hc hr
      · simp_all
  | @returns i c r store hc =>
      refine ⟨h.doneAfter, h.exitAfter, fun c' hc' j hj => ?_, fun c' hc' hr => ?_⟩ <;>
        rcases List.mem_or_eq_of_mem_set hc' with hc' | rfl
      · exact h.owned c' hc' j hj
      · exact h.owned c (List.getElem?_mem hc) j hj
      · exact h.reading c' hc' hr
      · cases hr
  | spawn hc =>
      refine ⟨fun d hd hdone => ?_, fun d hd hw => ?_, fun c' hc' j hj => ?_, fun c' hc' hr => ?_⟩
      · rcases List.mem_append.mp hd with hd | hd
        · exact h.doneAfter d hd hdone
        · simp_all
      · rcases List.mem_append.mp hd with hd | hd
        · exact h.exitAfter d hd hw
        · simp_all
      · rcases List.mem_or_eq_of_mem_set hc' with hc' | rfl
        · exact map_parent_append (h.owned c' hc' j hj)
        · cases hj
          simp
      · rcases List.mem_or_eq_of_mem_set hc' with hc' | rfl
        · exact h.reading c' hc' hr
        · simp
  | cancel =>
      exact ⟨fun d hd hdone => List.mem_cons_of_mem _ (h.doneAfter d hd hdone), h.exitAfter,
        h.owned, h.reading⟩
  | @cancelDerived j d hd hp =>
      refine ⟨fun d' hd' _ => ?_, fun d' hd' hw => ?_, ?_, h.reading⟩
      · rcases List.mem_or_eq_of_mem_set hd' with hd' | rfl
        · exact h.doneAfter d' hd' ‹_›
        · exact hp
      · rcases List.mem_or_eq_of_mem_set hd' with hd' | rfl
        · exact h.exitAfter d' hd' hw
        · rfl
      · exact owned_setDerived hd rfl h.owned
  | @exit j d hd hdone =>
      refine ⟨fun d' hd' hdone' => ?_, fun d' hd' hw => ?_, ?_, h.reading⟩
      · rcases List.mem_or_eq_of_mem_set hd' with hd' | rfl
        · exact h.doneAfter d' hd' hdone'
        · exact h.doneAfter d (List.getElem?_mem hd) hdone
      · rcases List.mem_or_eq_of_mem_set hd' with hd' | rfl
        · exact h.exitAfter d' hd' hw
        · exact hdone
      · exact owned_setDerived hd rfl h.owned

theorem WatchInv.next {s : CtxState σ} (h : WatchInv s) (e : CtxEvent) :
    WatchInv (s.next cache read e) :=
  h.moves (next_moves cache read s e)

theorem watchInv_run (c : σ) (evs : List CtxEvent) : WatchInv ((init c).run cache read evs) :=
  run_preserves cache read (fun _ e h => h.next cache read e) evs (watchInv_init c)

theorem WatchInv.derived_of_out {s : CtxState σ} (h : WatchInv s) {c : Retrieval} (hc : c ∈ s.calls)
    {j : Nat} (hj : c.out = some j) : ∃ d, s.derived[j]? = some d ∧ d.parent = c.ctx := by
  have hp := h.owned c hc j hj
  rw [List.getElem?_map] at hp
  exact Option.map_eq_some'.mp hp

theorem WatchInv.live {s : CtxState σ} (h : WatchInv s) {c : Retrieval} (hc : c ∈ s.calls)
    {j : Nat} (hj : c.out = some j) (hctx : c.ctx ∉ s.canceled) :
    ∃ d, s.derived[j]? = some d ∧ d.parent = c.ctx ∧ d.done = false ∧ d.watching = true := by
  obtain ⟨d, hd, hpar⟩ := h.derived_of_out hc hj
  have hdone : d.done = false := by
    by_contra hne
    exact hctx (hpar ▸ h.doneAfter d (List.getElem?_mem hd) (by simpa using hne))
  refine ⟨d, hd, hpar, hdone, ?_⟩
  by_contra hw
  simpa [hdone] using h.exitAfter d (List.getElem?_mem hd) (by simpa using hw)

theorem next_step_reading {s : CtxState σ} {i : Nat} {c : Retrieval} {j : Nat}
    (hc : s.calls[i]? = some c) (hpc : c.pc = .reading) (hj : c.out = some j) :
    ∃ r, (s.next cache read (.step i)).calls[i]? = some { c with pc := .returned r } := by
  have hi := (List.getElem?_eq_some_iff.mp hc).1
  simp only [next, hc, stepCall, hpc, hj, readStep]
  split <;> simp [hi]

/-! ## One call alone, and a canceled caller -/

/-- A call that runs alone, from its lookup to its return, ends as the
sequential `retrievePermissions` does: the same result and cache store,
and an outgoing context made exactly when `retrievePermissions` lists
one among its effects. -/
theorem solo_call_eq_retrievePermissions (s : CtxState σ) {i : Nat} {c : Retrieval}
    (hc : s.calls[i]? = some c) (hpc : c.pc = .lookup) :
    let r := retrievePermissions cache read c.stackID c.subject c.action s.cache
    let t := s.run cache read [.step i, .step i]
    (t.calls[i]?).map (·.pc) = some (.returned r.result) ∧ t.cache = r.cache ∧
      (.outgoingContext ∈ r.effects ↔ t.derived.length = s.derived.length + 1) := by
  have hi := (List.getElem?_eq_some_iff.mp hc).1
  simp only [retrievePermissions_eq, run_cons, run_nil, next, hc, stepCall, hpc, lookupStep,
    getCachedController]
  cases hget : cache.get s.cache (controllerCacheKey c.stackID c.subject c.action) with
  | ok data =>
      cases hd : Gob.decodeController data with
      | ok ctrl => simp [hi, hget, hd]
      | error e => simp [hi, hget, hd, Gob.decodeController_error hd]
  | error err =>
      by_cases hnf : err.is .notFound = true
      · cases hread : read ⟨c.stackID, c.action, c.subject⟩ with
        | error e => simp [hi, hget, hnf, hread, readStep, readOn, newOutgoingContext]
        | ok resp =>
            cases hset : cache.set s.cache (controllerCacheKey c.stackID c.subject c.action)
              (Gob.encodeController (newController (some resp))) .defaultExpiration with
            | mk store e =>
                cases e <;>
                  simp [hi, hget, hnf, hread, hset, readStep, readOn, newOutgoingContext, cacheController]
      · simp [hi, hget, hnf]

theorem solo_call_eq_retrievePermissions_miss :
    let read : ReadRequest → Except Error ReadResponse := fun _ => .ok ⟨true, []⟩
    let c : Retrieval := ⟨0, 1, "u", "a", none, .lookup⟩
    let s : CtxState (LocalCache GobBytes) := ⟨LocalCache.empty, [c], [], []⟩
    let r := retrievePermissions LocalCache.impl read c.stackID c.subject c.action s.cache
    let t := s.run LocalCache.impl read [.step 0, .step 0]
    (s.calls[0]? = some c ∧ c.pc = .lookup) ∧
      ((t.calls[0]?).map (·.pc) = some (.returned r.result) ∧ t.cache = r.cache ∧
        (.outgoingContext ∈ r.effects ↔ t.derived.length = s.derived.length + 1)) :=
  ⟨⟨rfl, rfl⟩, solo_call_eq_retrievePermissions LocalCache.impl _ _ rfl rfl⟩

theorem next_watch_calls (s : CtxState σ) (j : Nat) : (s.next cache read (.watch j)).calls = s.calls := by
  simp only [next]
  split
  · unfold watchStep
    split_ifs <;> rfl
  · rfl

theorem readStep_derived (s : CtxState σ) (i : Nat) (c : Retrieval) (j : Nat) :
    (s.readStep cache read i c j).derived = s.derived := by
  unfold readStep
  split <;> rfl

theorem readStep_canceled {s : CtxState σ} {i j : Nat} {c : Retrieval} {d : Derived}
    (hi : i < s.calls.length) (hd : s.derived[j]? = some d) (hdone : d.done = true) :
    (s.readStep cache read i c j).calls[i]? = some { c with pc := .returned (.error .readPermission) } := by
  simp [readStep, readOn, hd, hdone, hi]

theorem watch_after_cancel {s : CtxState σ} (h : WatchInv s) {j : Nat} {d : Derived}
    (hd : s.derived[j]? = some d) :
    ∃ d', ((s.next cache read (.cancel d.parent)).next cache read (.watch j)).derived[j]? = some d' ∧
      d'.done = true ∧ d'.watching = false := by
  have hj := (List.getElem?_eq_some_iff.mp hd).1
  cases hw : d.watching
  · exact ⟨d, by simp [next, hd, watchStep, hw], h.exitAfter d (List.getElem?_mem hd) hw, hw⟩
  · exact ⟨{ d with done := true, watching := false }, by simp [next, hd, watchStep, hw, hj], rfl, rfl⟩

end CtxState

open CtxState in
/-- Over every interleaving: a call in `Read` whose caller's context is
then canceled returns `ErrReadPermission` at its next step once the
goroutine has taken its `select`, which cancels the derived context and
exits. -/
theorem canceled_caller_fails_read {σ : Type} (cache : CacheImpl σ GobBytes)
    (read : ReadRequest → Except Error ReadResponse) (s₀ : σ) (evs : List CtxEvent) :
    let s := (CtxState.init s₀).run cache read evs
    ∀ i c j, s.calls[i]? = some c → c.pc = .reading → c.out = some j →
      let t := s.run cache read [.cancel c.ctx, .watch j, .step i]
      (t.calls[i]?).map (·.pc) = some (.returned (.error .readPermission)) ∧
        ∃ d, t.derived[j]? = some d ∧ d.done = true ∧ d.watching = false := by
  intro s i c j hc hpc hj
  have h := watchInv_run cache read s₀ evs
  have hi := (List.getElem?_eq_some_iff.mp hc).1
  obtain ⟨d, hd, hpar⟩ := h.derived_of_out (List.getElem?_mem hc) hj
  obtain ⟨d', hd', hdone, hw⟩ := watch_after_cancel cache read h hd
  rw [hpar] at hd'
  let u := (s.next cache read (.cancel c.ctx)).next cache read (.watch j)
  have hcu : u.calls = s.calls := next_watch_calls cache read _ j
  have hstep : u.next cache read (.step i) = u.readStep cache read i c j := by
    simp only [next, hcu, hc, stepCall, hpc, hj]
  show ((u.next cache read (.step i)).calls[i]?).map (·.pc) = _ ∧
    ∃ d, (u.next cache read (.step i)).derived[j]? = some d ∧ _
  rw [hstep, readStep_canceled cache read (hcu ▸ hi) hd' hdone, readStep_derived]
  exact ⟨rfl, d', hd', hdone, hw⟩

theorem canceled_caller_fails_read_single :
    let read : ReadRequest → Except Error ReadResponse := fun _ => .ok ⟨true, []⟩
    let s := (CtxState.init LocalCache.empty).run LocalCache.impl read [.call 0 1 "u" "a", .step 0]
    let c : Retrieval := ⟨0, 1, "u", "a", some 0, .reading⟩
    (s.calls[0]? = some c ∧ c.pc = .reading ∧ c.out = some 0) ∧
      let t := s.run LocalCache.impl read [.cancel c.ctx, .watch 0, .step 0]
      (t.calls[0]?).map (·.pc) = some (.returned (.error .readPermission)) ∧
        ∃ d, t.derived[0]? = some d ∧ d.done = true ∧ d.watching = false :=
  ⟨⟨rfl, rfl, rfl⟩, canceled_caller_fails_read LocalCache.impl _ LocalCache.empty _ 0 _ 0 rfl rfl rfl⟩

open CtxState in
/-- Over every interleaving of calls of `retrievePermissions`, caller
cancellations and goroutine steps: a call that made an outgoing context
left it live, with its goroutine blocked in `select`, for as long as the
caller's context is not canceled, whether the call has returned or not;
and a call in `Read` returns at its next step, on every path (a `Read`
error, a failed cache write, success). -/
theorem call_returns_with_live_watcher {σ : Type} (cache : CacheImpl σ GobBytes)
    (read : ReadRequest → Except Error ReadResponse) (s₀ : σ) (evs : List CtxEvent) :
    let s := (CtxState.init s₀).run cache read evs
    (∀ c ∈ s.calls, ∀ j, c.out = some j → c.ctx ∉ s.canceled →
      ∃ d, s.derived[j]? = some d ∧ d.parent = c.ctx ∧ d.done = false ∧ d.watching = true) ∧
    (∀ i c, s.calls[i]? = some c → c.pc = .reading →
      ∃ r, (s.next cache read (.step i)).calls[i]? = some { c with pc := .returned r }) := by
  intro s
  have h := watchInv_run cache read s₀ evs
  refine ⟨fun c hc j hj hctx => h.live hc hj hctx, fun i c hc hpc => ?_⟩
  obtain ⟨j, hj⟩ := Option.ne_none_iff_exists'.mp (h.reading c (List.getElem?_mem hc) hpc)
  exact next_step_reading cache read hc hpc hj

theorem call_returns_with_live_watcher_background :
    let read : ReadRequest → Except Error ReadResponse := fun _ => .error (.other "unavailable")
    let s := (CtxState.init LocalCache.empty).run LocalCache.impl read
      [.call 0 1 "u" "a", .step 0, .step 0]
    s.calls = [⟨0, 1, "u", "a", some 0, .returned (.error .readPermission)⟩] ∧ 0 ∉ s.canceled ∧
      ∃ d, s.derived[0]? = some d ∧ d.parent = 0 ∧ d.done = false ∧ d.watching = true := by
  intro read s
  have hs : s.calls = [⟨0, 1, "u", "a", some 0, .returned (.error .readPermission)⟩] := rfl
  have hn : 0 ∉ s.canceled := List.not_mem_nil 0
  exact ⟨hs, hn, (call_returns_with_live_watcher LocalCache.impl read LocalCache.empty _).1 _
    (hs ▸ List.mem_singleton_self _) 0 rfl hn⟩

end Authlib
