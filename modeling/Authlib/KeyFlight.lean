import Authlib.KeyRetriever

/-!
# Overlapping `Get` calls

`DefaultKeyRetriever.Get` runs in many goroutines at once over one cache
and one single-flight group. Each call is a small program (`Pc`): the
first lookup, the call of `Do("fetch", ...)`, the wait inside it, the
second lookup, the placeholder write. The group runs one function at a
time under the key "fetch": a call that reaches `Do` while a function
runs joins it and gets its outcome; one that arrives when none runs
starts a new one. The function itself, `fetchJWKS` and then one
`setCachedItem` per key, is its own thread of steps (`Flight`).

A run is any sequence of events (`KEvent`): a call's next step, the
endpoint's answer to the fetch in flight, the flight's next store, and
time passing for a cache entry. `next` is total: an event that does not
apply leaves the state as it is, so every interleaving is a list of
events and every reachable state is `run` of one.

Three ghost fields record what the guarantees below speak of and the
code does not keep: how many functions the group started (`flights`, one
fetch each), the outcome of each that ended (`outcomes`), and every key a
fetch returned (`served`). A call's `flight` is not ghost: it is the
group's call record its `Do` holds, numbered.

`Moves` says once what one event can do; each invariant is proved over
its cases and folded over runs by `run_preserves`. The group's invariant
(`FlightInv`) gives one shared fetch for calls that all reach `Do`
before the first fetch has returned, a condition on the run's events
(`allEvents`, `entersDo`) that never reads the group's record numbers
(`first_flight_shared`), and no more: a call that missed before a fetch
ended but reaches `Do` after it fetches again
(`late_caller_fetches_again`). The key invariant (`KeyInv`) traces every
returned key to a fetch. The placeholder write, outside the group, can
replace a key another call stored (`placeholder_overwrites_key`). A call
alone does what the sequential `get` does (`solo_run_get`).
-/

namespace Authlib

/-- Where one `Get(keyID)` call is: before its first `getCachedItem`;
missed and about to call `Do`; inside `Do` until the group's function
returns; back from `Do` with `err`; missed again and about to call
`setEmptyCacheItem`; returned `(jwk, err)`. -/
inductive Pc where
  | lookup
  | enter
  | wait
  | returned (err : Option Error)
  | markInvalid
  | done (jwk : Option JSONWebKey) (err : Option Error)
  deriving DecidableEq, Repr

/-- One call of `Get`; `flight` numbers the group's call record its `Do`
joined or started. -/
structure Call where
  keyID : String
  pc : Pc
  flight : Option Nat
  deriving DecidableEq, Repr

/-- The function the group runs under "fetch", if any: `fetchJWKS` under
way, or the fetch returned and `setCachedItem` still to run for `keys`. -/
inductive Flight where
  | idle
  | fetching
  | storing (keys : List JSONWebKey)
  deriving DecidableEq, Repr

/-- The retriever and the calls in progress, with three ghost fields: the
functions the group started (`flights`, one `fetchJWKS` each), the
outcome of each that returned, in order, and every key a fetch returned. -/
structure KState where
  cache : LocalCache Bytes
  calls : List Call
  flight : Flight
  flights : Nat
  outcomes : List (Option Error)
  served : List JSONWebKey

/-- What can happen next: call `i` takes its next step, the fetch in
flight gets the endpoint's answer, the flight stores its next key or
returns, or time passes for the cache entry of `key`. -/
inductive KEvent where
  | step (i : Nat)
  | fetched (o : FetchOutcome)
  | store
  | expire (key : String)
  deriving DecidableEq, Repr

/-- Calls of `Get` for `keyIDs` on a fresh group, none started yet. -/
def KState.init (c : LocalCache Bytes) (keyIDs : List String) : KState :=
  ⟨c, keyIDs.map (⟨·, .lookup, none⟩), .idle, 0, [], []⟩

/-- The `Pc` after a lookup: the call returns on a hit, goes to `miss`
otherwise. -/
def lookupNext (codec : KeyCodec) (c : LocalCache Bytes) (keyID : String) (miss : Pc) : Pc :=
  match getCachedItem codec c keyID with
  | some jwk => .done (keyResult jwk).1 (keyResult jwk).2
  | none => miss

/-- A caller blocked in `Do` gets the function's outcome. -/
def Call.land (r : Option Error) (c : Call) : Call :=
  match c.pc with
  | .wait => { c with pc := .returned r }
  | _ => c

namespace KState

variable (codec : KeyCodec)

def setCall (s : KState) (i : Nat) (c : Call) : KState := { s with calls := s.calls.set i c }

@[simp] theorem setCall_cache (s : KState) (i : Nat) (c : Call) : (s.setCall i c).cache = s.cache := rfl
@[simp] theorem setCall_calls (s : KState) (i : Nat) (c : Call) :
    (s.setCall i c).calls = s.calls.set i c := rfl
@[simp] theorem setCall_flight (s : KState) (i : Nat) (c : Call) : (s.setCall i c).flight = s.flight := rfl
@[simp] theorem setCall_flights (s : KState) (i : Nat) (c : Call) :
    (s.setCall i c).flights = s.flights := rfl
@[simp] theorem setCall_outcomes (s : KState) (i : Nat) (c : Call) :
    (s.setCall i c).outcomes = s.outcomes := rfl
@[simp] theorem setCall_served (s : KState) (i : Nat) (c : Call) : (s.setCall i c).served = s.served := rfl

/-- The group's function returns `r`: every caller blocked in `Do` gets
it and the key "fetch" is free again. -/
def endFlight (s : KState) (r : Option Error) : KState :=
  { s with calls := s.calls.map (Call.land r), flight := .idle, outcomes := s.outcomes ++ [r] }

@[simp] theorem endFlight_cache (s : KState) (r : Option Error) : (s.endFlight r).cache = s.cache := rfl
@[simp] theorem endFlight_calls (s : KState) (r : Option Error) :
    (s.endFlight r).calls = s.calls.map (Call.land r) := rfl
@[simp] theorem endFlight_flight (s : KState) (r : Option Error) : (s.endFlight r).flight = .idle := rfl
@[simp] theorem endFlight_flights (s : KState) (r : Option Error) :
    (s.endFlight r).flights = s.flights := rfl
@[simp] theorem endFlight_outcomes (s : KState) (r : Option Error) :
    (s.endFlight r).outcomes = s.outcomes ++ [r] := rfl
@[simp] theorem endFlight_served (s : KState) (r : Option Error) :
    (s.endFlight r).served = s.served := rfl

/-- Call `i`, at `c`, takes its next step. -/
def stepCall (s : KState) (i : Nat) (c : Call) : KState :=
  match c.pc with
  | .lookup => s.setCall i { c with pc := lookupNext codec s.cache c.keyID .enter }
  | .enter =>
      match s.flight with
      | .idle =>
          { s.setCall i { c with pc := .wait, flight := some s.flights } with
            flight := .fetching, flights := s.flights + 1 }
      | _ => s.setCall i { c with pc := .wait, flight := some (s.flights - 1) }
  | .wait => s
  | .returned (some err) => s.setCall i { c with pc := .done none (some err) }
  | .returned none => s.setCall i { c with pc := lookupNext codec s.cache c.keyID .markInvalid }
  | .markInvalid =>
      { s.setCall i { c with pc := .done none (some .invalidSigningKey) } with
        cache := setEmptyCacheItem s.cache c.keyID }
  | .done _ _ => s

def next (s : KState) : KEvent → KState
  | .step i =>
      match s.calls[i]? with
      | some c => s.stepCall codec i c
      | none => s
  | .fetched o =>
      match s.flight with
      | .fetching =>
          match fetchJWKS o with
          | .error err => s.endFlight (some err)
          | .ok keys => { s with flight := .storing keys, served := s.served ++ keys }
      | _ => s
  | .store =>
      match s.flight with
      | .storing (k :: ks) => { s with cache := setCachedItem codec s.cache k, flight := .storing ks }
      | .storing [] => s.endFlight none
      | _ => s
  | .expire key => { s with cache := s.cache.expire key }

def run (s : KState) (evs : List KEvent) : KState := evs.foldl (next codec) s

@[simp] theorem run_nil (s : KState) : run codec s [] = s := rfl

@[simp] theorem run_cons (s : KState) (e : KEvent) (evs : List KEvent) :
    run codec s (e :: evs) = run codec (next codec s e) evs := rfl

theorem run_append (s : KState) (evs evs' : List KEvent) :
    run codec s (evs ++ evs') = run codec (run codec s evs) evs' := List.foldl_append _ _ _ _

/-- What every event keeps, every run keeps. -/
theorem run_preserves {P : KState → Prop} (hstep : ∀ s e, P s → P (next codec s e))
    (evs : List KEvent) {s : KState} (hs : P s) : P (run codec s evs) := by
  induction evs generalizing s with
  | nil => exact hs
  | cons e evs ih => exact ih (hstep s e hs)

/-- Every event of `evs`, in the state the run from `s` has reached when
it happens, passes `q`. -/
def allEvents (q : KState → KEvent → Bool) : KState → List KEvent → Bool
  | _, [] => true
  | s, e :: evs => q s e && allEvents q (next codec s e) evs

/-- What every event passing `q` keeps, every run of such events keeps. -/
theorem run_preserves_of {P : KState → Prop} {q : KState → KEvent → Bool}
    (hstep : ∀ s e, q s e = true → P s → P (next codec s e)) :
    ∀ (evs : List KEvent) {s : KState}, allEvents codec q s evs = true → P s → P (run codec s evs)
  | [], _, _, hs => hs
  | e :: evs, s, hq, hs => by
      simp only [allEvents, Bool.and_eq_true] at hq
      exact run_preserves_of hstep evs hq.2 (hstep s e hq.1 hs)

/-! ## What one event can do -/

theorem lookupNext_cases (c : LocalCache Bytes) (j : String) (miss : Pc) :
    lookupNext codec c j miss = miss ∨ ∃ jwk err, lookupNext codec c j miss = .done jwk err := by
  unfold lookupNext
  split
  · exact .inr ⟨_, _, rfl⟩
  · exact .inl rfl

theorem getCachedItem_of_lookupNext {c : LocalCache Bytes} {j : String} {miss : Pc}
    {jwk : JSONWebKey} {err : Option Error} (hmiss : ∀ err, miss ≠ .done (some jwk) err)
    (h : lookupNext codec c j miss = .done (some jwk) err) :
    getCachedItem codec c j = some (some jwk) := by
  unfold lookupNext at h
  split at h
  · rename_i r hr
    cases r <;> simp_all [keyResult]
  · exact absurd h (hmiss err)

theorem lookupNext_of_miss {c : LocalCache Bytes} {j : String} (miss : Pc)
    (h : getCachedItem codec c j = none) : lookupNext codec c j miss = miss := by
  simp [lookupNext, h]

theorem mem_setCall {s : KState} {i : Nat} {c call : Call} (h : call ∈ (s.setCall i c).calls) :
    call ∈ s.calls ∨ call = c :=
  List.mem_or_eq_of_mem_set h

theorem mem_endFlight {s : KState} {r : Option Error} {call : Call}
    (h : call ∈ (s.endFlight r).calls) : ∃ c ∈ s.calls, call = c.land r := by
  obtain ⟨c, hc, rfl⟩ := List.mem_map.mp h
  exact ⟨c, hc, rfl⟩

@[simp] theorem Call.land_keyID (r : Option Error) (c : Call) : (c.land r).keyID = c.keyID := by
  unfold Call.land; split <;> rfl

@[simp] theorem Call.land_flight (r : Option Error) (c : Call) : (c.land r).flight = c.flight := by
  unfold Call.land; split <;> rfl

theorem Call.land_pc (r : Option Error) (c : Call) :
    (c.pc = .wait ∧ (c.land r).pc = .returned r) ∨ (c.pc ≠ .wait ∧ (c.land r).pc = c.pc) := by
  unfold Call.land
  split <;> simp_all

/-- What one event can do, one constructor per kind of step: a call's
lookup, its `Do` starting or joining a flight, its return on an error
from `Do`, its second lookup, its placeholder write; the flight's end,
its fetch's key set, one store; an expiry; or nothing. -/
inductive Moves (s : KState) : KState → Prop where
  | stay : Moves s s
  | lookup {i c} : s.calls[i]? = some c → c.pc = .lookup →
      Moves s (s.setCall i { c with pc := lookupNext codec s.cache c.keyID .enter })
  | start {i c} : s.calls[i]? = some c → c.pc = .enter → s.flight = .idle →
      Moves s { s.setCall i { c with pc := .wait, flight := some s.flights } with
        flight := .fetching, flights := s.flights + 1 }
  | join {i c} : s.calls[i]? = some c → c.pc = .enter → s.flight ≠ .idle →
      Moves s (s.setCall i { c with pc := .wait, flight := some (s.flights - 1) })
  | fail {i c err} : s.calls[i]? = some c → c.pc = .returned (some err) →
      Moves s (s.setCall i { c with pc := .done none (some err) })
  | recheck {i c} : s.calls[i]? = some c → c.pc = .returned none →
      Moves s (s.setCall i { c with pc := lookupNext codec s.cache c.keyID .markInvalid })
  | markInvalid {i c} : s.calls[i]? = some c → c.pc = .markInvalid →
      Moves s { s.setCall i { c with pc := .done none (some .invalidSigningKey) } with
        cache := setEmptyCacheItem s.cache c.keyID }
  | land {r} : s.flight ≠ .idle → Moves s (s.endFlight r)
  | fetched {keys} : s.flight = .fetching →
      Moves s { s with flight := .storing keys, served := s.served ++ keys }
  | store {k ks} : s.flight = .storing (k :: ks) →
      Moves s { s with cache := setCachedItem codec s.cache k, flight := .storing ks }
  | expire {key} : Moves s { s with cache := s.cache.expire key }

theorem next_moves (s : KState) (e : KEvent) : Moves codec s (s.next codec e) := by
  cases e with
  | step i =>
      simp only [next]
      split
      · rename_i c hc
        simp only [stepCall]
        split
        · exact .lookup hc ‹_›
        · split
          · exact .start hc ‹_› ‹_›
          · exact .join hc ‹_› ‹_›
        · exact .stay
        · exact .fail hc ‹_›
        · exact .recheck hc ‹_›
        · exact .markInvalid hc ‹_›
        · exact .stay
      · exact .stay
  | fetched o =>
      simp only [next]
      split
      · split
        · exact .land (by simp [*])
        · exact .fetched ‹_›
      · exact .stay
  | store =>
      simp only [next]
      split
      · exact .store ‹_›
      · exact .land (by simp [*])
      · exact .stay
  | expire key => exact .expire

theorem mem_set_of_getElem?_ne {α : Type} {l : List α} {a b : α} {i : Nat} (ha : a ∈ l)
    (hi : l[i]? ≠ some a) : a ∈ l.set i b := by
  obtain ⟨n, hn⟩ := List.mem_iff_getElem?.mp ha
  refine List.mem_iff_getElem?.mpr ⟨n, ?_⟩
  rw [List.getElem?_set_ne (by rintro rfl; exact hi hn), hn]

theorem map_flight_setCall {s : KState} {i : Nat} {c c' : Call} (hc : s.calls[i]? = some c)
    (h : c'.flight = c.flight) : (s.setCall i c').calls.map (·.flight) = s.calls.map (·.flight) := by
  apply List.ext_getElem?
  intro n
  simp only [setCall, List.getElem?_map, List.getElem?_set]
  split
  · subst_vars
    simp [hc, h, (List.getElem?_eq_some_iff.mp hc).1]
  · rfl

/-! ## The single-flight group -/

/-- What the group keeps in every reachable state: the flights are
numbered in order of start and each has the call that started it; a
call that has not reached `Do` is in no flight; the calls of the flight
under way are the calls blocked in `Do`; and a call whose `Do` returned
got the outcome of the flight it joined. -/
structure FlightInv (s : KState) : Prop where
  count : s.flights = s.outcomes.length + if s.flight = .idle then 0 else 1
  joined : ∀ c ∈ s.calls, ∀ j, c.flight = some j → j < s.flights
  started : ∀ j < s.flights, some j ∈ s.calls.map (·.flight)
  fresh : ∀ c ∈ s.calls, c.pc = .lookup ∨ c.pc = .enter → c.flight = none
  blocked : ∀ c ∈ s.calls, c.flight = some s.outcomes.length → c.pc = .wait
  waiting : ∀ c ∈ s.calls, c.pc = .wait → s.flight ≠ .idle ∧ c.flight = some s.outcomes.length
  observed : ∀ c ∈ s.calls, ∀ r, c.pc = .returned r → ∃ j, c.flight = some j ∧ s.outcomes[j]? = some r

theorem mem_calls {s : KState} {i : Nat} {c : Call} (hc : s.calls[i]? = some c) : c ∈ s.calls :=
  List.mem_iff_getElem?.mpr ⟨i, hc⟩

namespace FlightInv

variable {s : KState} (h : FlightInv s)
include h

theorem congr {t : KState} (hcalls : t.calls = s.calls) (hflight : t.flight = s.flight)
    (hflights : t.flights = s.flights) (houtcomes : t.outcomes = s.outcomes) : FlightInv t := by
  obtain ⟨_, _, _, _, _, _⟩ := t
  cases hcalls; cases hflight; cases hflights; cases houtcomes
  exact ⟨h.count, h.joined, h.started, h.fresh, h.blocked, h.waiting, h.observed⟩

theorem setCall {i : Nat} {c c' : Call} (hc : s.calls[i]? = some c) (hpc : c.pc ≠ .wait)
    (hflight : c'.flight = c.flight) (hw : c'.pc ≠ .wait) (hr : ∀ r, c'.pc ≠ .returned r)
    (hfresh : c'.pc = .lookup ∨ c'.pc = .enter → c'.flight = none) :
    FlightInv (s.setCall i c') where
  count := h.count
  joined x hx j hj := by
    rcases mem_setCall hx with hx | rfl
    · exact h.joined x hx j hj
    · exact h.joined c (mem_calls hc) j (hflight ▸ hj)
  started j hj := (map_flight_setCall hc hflight).symm ▸ h.started j hj
  fresh x hx := by
    rcases mem_setCall hx with hx | rfl
    · exact h.fresh x hx
    · exact hfresh
  blocked x hx hj := by
    rcases mem_setCall hx with hx | rfl
    · exact h.blocked x hx hj
    · exact absurd (h.blocked c (mem_calls hc) (hflight ▸ hj)) hpc
  waiting x hx hxw := by
    rcases mem_setCall hx with hx | rfl
    · exact h.waiting x hx hxw
    · exact absurd hxw hw
  observed x hx r hxr := by
    rcases mem_setCall hx with hx | rfl
    · exact h.observed x hx r hxr
    · exact absurd hxr (hr r)

theorem start {i : Nat} {c : Call} (hc : s.calls[i]? = some c) (hpc : c.pc = .enter)
    (hidle : s.flight = .idle) :
    FlightInv { s.setCall i { c with pc := .wait, flight := some s.flights } with
      flight := .fetching, flights := s.flights + 1 } := by
  have hcount : s.flights = s.outcomes.length := by simpa [hidle] using h.count
  have hnone : c.flight = none := h.fresh c (mem_calls hc) (.inr hpc)
  have hi : i < s.calls.length := (List.getElem?_eq_some_iff.mp hc).1
  refine ⟨by simp [hcount], fun x hx j hj => ?_, fun j hj => ?_, fun x hx => ?_, fun x hx hj => ?_,
    fun x hx hxw => ?_, fun x hx r hxr => ?_⟩
  · rcases mem_setCall hx with hx | rfl
    · exact Nat.lt_succ_of_lt (h.joined x hx j hj)
    · cases hj; exact Nat.lt_succ_self _
  · simp only [KState.setCall, List.map_set]
    rcases Nat.lt_succ_iff_lt_or_eq.mp hj with hj | rfl
    · exact mem_set_of_getElem?_ne (h.started j hj) (by simp [hc, hnone])
    · exact List.mem_set _ _ (by simpa using hi) _
  · rcases mem_setCall hx with hx | rfl
    · exact h.fresh x hx
    · simp
  · rcases mem_setCall hx with hx | rfl
    · exact absurd (h.joined x hx _ hj) (by simp [hcount])
    · rfl
  · rcases mem_setCall hx with hx | rfl
    · exact absurd hidle (h.waiting x hx hxw).1
    · exact ⟨by simp, by simp [hcount]⟩
  · rcases mem_setCall hx with hx | rfl
    · exact h.observed x hx r hxr
    · cases hxr

theorem join {i : Nat} {c : Call} (hc : s.calls[i]? = some c) (hpc : c.pc = .enter)
    (hbusy : s.flight ≠ .idle) :
    FlightInv (s.setCall i { c with pc := .wait, flight := some (s.flights - 1) }) := by
  have hcount : s.flights = s.outcomes.length + 1 := by simpa [hbusy] using h.count
  have hnone : c.flight = none := h.fresh c (mem_calls hc) (.inr hpc)
  refine ⟨h.count, fun x hx j hj => ?_, fun j hj => ?_, fun x hx => ?_, fun x hx hj => ?_,
    fun x hx hxw => ?_, fun x hx r hxr => ?_⟩
  · rcases mem_setCall hx with hx | rfl
    · exact h.joined x hx j hj
    · cases hj; simp only [setCall_flights]; omega
  · simp only [KState.setCall, List.map_set]
    exact mem_set_of_getElem?_ne (h.started j hj) (by simp [hc, hnone])
  · rcases mem_setCall hx with hx | rfl
    · exact h.fresh x hx
    · simp
  · rcases mem_setCall hx with hx | rfl
    · exact h.blocked x hx hj
    · rfl
  · rcases mem_setCall hx with hx | rfl
    · exact h.waiting x hx hxw
    · exact ⟨hbusy, by simp [hcount]⟩
  · rcases mem_setCall hx with hx | rfl
    · exact h.observed x hx r hxr
    · cases hxr

theorem endFlight (hbusy : s.flight ≠ .idle) (r : Option Error) : FlightInv (s.endFlight r) := by
  have hcount : s.flights = s.outcomes.length + 1 := by simpa [hbusy] using h.count
  refine ⟨by simp [KState.endFlight, hcount], fun x hx j hj => ?_, fun j hj => ?_, fun x hx => ?_,
    fun x hx hj => ?_, fun x hx hxw => ?_, fun x hx r' hxr => ?_⟩
  all_goals first
    | obtain ⟨c, hc, rfl⟩ := mem_endFlight hx
    | skip
  · exact h.joined c hc j (by simpa using hj)
  · simpa [KState.endFlight, Function.comp_def] using h.started j hj
  · rcases Call.land_pc r c with ⟨-, hl⟩ | ⟨-, hl⟩ <;> rw [hl]
    · simp
    · simpa using h.fresh c hc
  · have := h.joined c hc _ (by simpa using hj)
    simp [KState.endFlight] at this
    omega
  · rcases Call.land_pc r c with ⟨-, hl⟩ | ⟨hw, hl⟩ <;> rw [hl] at hxw
    · cases hxw
    · exact absurd hxw hw
  · rcases Call.land_pc r c with ⟨hw, hl⟩ | ⟨-, hl⟩ <;> rw [hl] at hxr
    · cases hxr
      exact ⟨_, by simpa using (h.waiting c hc hw).2, by simp [KState.endFlight]⟩
    · obtain ⟨j, hj, hr⟩ := h.observed c hc r' hxr
      have hlt : j < s.outcomes.length := (List.getElem?_eq_some_iff.mp hr).1
      exact ⟨j, by simpa using hj, by simp [KState.endFlight, List.getElem?_append_left hlt, hr]⟩

theorem busy (hbusy : s.flight ≠ .idle) {f : Flight} (hf : f ≠ .idle) (c : LocalCache Bytes)
    (served : List JSONWebKey) : FlightInv { s with flight := f, cache := c, served := served } :=
  ⟨by simpa [hbusy, hf] using h.count, h.joined, h.started, h.fresh, h.blocked,
    fun x hx hxw => ⟨hf, (h.waiting x hx hxw).2⟩, h.observed⟩

end FlightInv

theorem mem_init_calls {c : LocalCache Bytes} {keyIDs : List String} {x : Call}
    (hx : x ∈ (init c keyIDs).calls) : x.pc = .lookup ∧ x.flight = none := by
  obtain ⟨_, -, rfl⟩ := List.mem_map.mp hx
  exact ⟨rfl, rfl⟩

theorem flightInv_init (c : LocalCache Bytes) (keyIDs : List String) : FlightInv (init c keyIDs) where
  count := rfl
  joined x hx j hj := by simp [(mem_init_calls hx).2] at hj
  started j hj := absurd hj (Nat.not_lt_zero j)
  fresh x hx _ := (mem_init_calls hx).2
  blocked x hx hj := by simp [(mem_init_calls hx).2] at hj
  waiting x hx hw := by simp [(mem_init_calls hx).1] at hw
  observed x hx r hr := by simp [(mem_init_calls hx).1] at hr

theorem FlightInv.moves {s s' : KState} (h : FlightInv s) (hm : Moves codec s s') : FlightInv s' := by
  cases hm with
  | stay => exact h
  | @lookup i c hc hpc =>
      have hnone := h.fresh c (mem_calls hc) (.inl hpc)
      refine h.setCall hc (by simp [hpc]) rfl ?_ ?_ (fun _ => hnone) <;>
        rcases lookupNext_cases codec s.cache c.keyID .enter with hl | ⟨_, _, hl⟩ <;> simp [hl]
  | start hc hpc hidle => exact h.start hc hpc hidle
  | join hc hpc hbusy => exact h.join hc hpc hbusy
  | fail hc hpc => exact h.setCall hc (by simp [hpc]) rfl (by simp) (by simp) (by simp)
  | @recheck i c hc hpc =>
      refine h.setCall hc (by simp [hpc]) rfl ?_ ?_ ?_ <;>
        rcases lookupNext_cases codec s.cache c.keyID .markInvalid with hl | ⟨_, _, hl⟩ <;> simp [hl]
  | @markInvalid i c hc hpc =>
      have : FlightInv (s.setCall i { c with pc := .done none (some .invalidSigningKey) }) :=
        h.setCall hc (by simp [hpc]) rfl (by simp) (by simp) (by simp)
      exact this.congr rfl rfl rfl rfl
  | land hbusy => exact h.endFlight hbusy _
  | fetched hf => exact h.busy (by simp [hf]) (by simp) _ _
  | store hf => exact h.busy (by simp [hf]) (by simp) _ _
  | expire => exact h.congr rfl rfl rfl rfl

theorem FlightInv.next {s : KState} (h : FlightInv s) (e : KEvent) : FlightInv (s.next codec e) :=
  h.moves codec (next_moves codec s e)

theorem flightInv_run (c : LocalCache Bytes) (keyIDs : List String) (evs : List KEvent) :
    FlightInv ((init c keyIDs).run codec evs) :=
  run_preserves codec (fun _ e h => h.next codec e) evs (flightInv_init c keyIDs)

/-! ## How many fetches -/

/-- Calls for `k` on a cache that misses `k`: until a flight starts they
are all before `Do` and the cache still misses `k`. -/
structure Unfetched (k : String) (s : KState) : Prop where
  keyIDs : ∀ c ∈ s.calls, c.keyID = k
  before : s.flights = 0 →
    getCachedItem codec s.cache k = none ∧ ∀ c ∈ s.calls, c.pc = .lookup ∨ c.pc = .enter

theorem Unfetched.moves {k : String} {s s' : KState} (hf : FlightInv s) (h : Unfetched codec k s)
    (hm : Moves codec s s') : Unfetched codec k s' := by
  have busy (hbusy : s.flight ≠ .idle) : s.flights ≠ 0 := by
    have := hf.count; simp [hbusy] at this; omega
  have quiet {i : Nat} {c c' : Call} (hc : s.calls[i]? = some c) (hkey : c'.keyID = c.keyID)
      (hp : s.flights = 0 → c'.pc = .lookup ∨ c'.pc = .enter) : Unfetched codec k (s.setCall i c') := by
    refine ⟨fun x hx => ?_, fun h0 => ⟨(h.before h0).1, fun x hx => ?_⟩⟩ <;>
      rcases mem_setCall hx with hx | rfl
    · exact h.keyIDs x hx
    · exact hkey ▸ h.keyIDs c (mem_calls hc)
    · exact (h.before h0).2 x hx
    · exact hp h0
  have stuck {c : Call} (hc : c ∈ s.calls) (hpc : c.pc ≠ .lookup ∧ c.pc ≠ .enter) (h0 : s.flights = 0) :
      False := by
    rcases (h.before h0).2 c hc with h' | h' <;> simp_all
  cases hm with
  | stay => exact h
  | @lookup i c hc hpc =>
      refine quiet hc rfl fun h0 => .inr ?_
      rw [h.keyIDs c (mem_calls hc), lookupNext_of_miss codec _ (h.before h0).1]
  | @start i c hc hpc hidle =>
      exact ⟨fun x hx => (mem_setCall hx).elim (h.keyIDs x) (· ▸ h.keyIDs c (mem_calls hc)),
        fun h0 => absurd h0 (by simp)⟩
  | join hc hpc hbusy => exact quiet hc rfl fun h0 => absurd h0 (busy hbusy)
  | fail hc hpc => exact quiet hc rfl fun h0 => (stuck (mem_calls hc) (by simp [hpc]) h0).elim
  | recheck hc hpc => exact quiet hc rfl fun h0 => (stuck (mem_calls hc) (by simp [hpc]) h0).elim
  | @markInvalid i c hc hpc =>
      have : Unfetched codec k (s.setCall i { c with pc := .done none (some .invalidSigningKey) }) :=
        quiet hc rfl fun h0 => (stuck (mem_calls hc) (by simp [hpc]) h0).elim
      exact ⟨this.keyIDs, fun h0 => (stuck (mem_calls hc) (by simp [hpc]) h0).elim⟩
  | land hbusy =>
      exact ⟨fun x hx => by obtain ⟨c, hc, rfl⟩ := mem_endFlight hx; simpa using h.keyIDs c hc,
        fun h0 => absurd h0 (busy hbusy)⟩
  | fetched hf' => exact ⟨h.keyIDs, fun h0 => absurd h0 (busy (by simp [hf']))⟩
  | store hf' => exact ⟨h.keyIDs, fun h0 => absurd h0 (busy (by simp [hf']))⟩
  | @expire key =>
      exact ⟨h.keyIDs, fun h0 => ⟨getCachedItem_expire codec key (h.before h0).1, (h.before h0).2⟩⟩

theorem Unfetched.next {k : String} {s : KState} (hf : FlightInv s) (h : Unfetched codec k s)
    (e : KEvent) : Unfetched codec k (s.next codec e) :=
  h.moves codec hf (next_moves codec s e)

/-- Event `e` is a call's entry into `Do`: the step of a call at `enter`. -/
def entersDo (s : KState) : KEvent → Bool
  | .step i => s.calls[i]?.any (·.pc == .enter)
  | _ => false

theorem entersDo_eq_true {s : KState} {e : KEvent} (h : s.entersDo e = true) :
    ∃ i c, e = .step i ∧ s.calls[i]? = some c ∧ c.pc = .enter := by
  cases e with
  | step i =>
      cases hc : s.calls[i]? with
      | none => simp [entersDo, hc] at h
      | some c => exact ⟨i, c, rfl, hc, by simpa [entersDo, hc] using h⟩
  | _ => simp [entersDo] at h

theorem flights_next_of_not_entersDo (s : KState) {e : KEvent} (he : s.entersDo e = false) :
    (s.next codec e).flights = s.flights := by
  cases e with
  | step i =>
      simp only [next]
      split
      · rename_i c hc
        simp only [stepCall]
        split <;> (try split) <;> first | rfl | simp_all [entersDo]
      · rfl
  | fetched o =>
      simp only [next]
      split
      · split <;> rfl
      · rfl
  | store =>
      simp only [next]
      split <;> rfl
  | expire key => rfl

theorem next_step_outcomes (s : KState) (i : Nat) : (s.next codec (.step i)).outcomes = s.outcomes := by
  simp only [next]
  split
  · simp only [stepCall]
    split <;> (try split) <;> rfl
  · rfl

/-- An entry into `Do` before any flight has ended leaves at most one
flight started: it starts the first or joins it. -/
theorem FlightInv.flights_le_one {s : KState} (h : FlightInv s) {e : KEvent}
    (hq : (!s.entersDo e || s.outcomes.isEmpty) = true) (hle : s.flights ≤ 1) :
    (s.next codec e).flights ≤ 1 := by
  cases he : s.entersDo e
  · rw [flights_next_of_not_entersDo codec s he]
    exact hle
  · obtain ⟨i, -, rfl, -, -⟩ := entersDo_eq_true he
    have hout : s.outcomes = [] := by simpa [he] using hq
    have hcount := (h.next codec (.step i)).count
    rw [next_step_outcomes, hout, List.length_nil] at hcount
    split at hcount <;> omega

/-- Calls for one key id that is not in the cache, every one of which
that reaches `Do` reaches it before the group's first function has
returned: at most one fetch happens, exactly one once a call has
returned, and every call whose `Do` returned got that fetch's outcome. -/
theorem first_flight_shared (c : LocalCache Bytes) (k : String) (n : Nat) (evs : List KEvent)
    (hk : getCachedItem codec c k = none)
    (hearly : allEvents codec (fun t e => !t.entersDo e || t.outcomes.isEmpty)
      (init c (List.replicate n k)) evs = true) :
    let s := (init c (List.replicate n k)).run codec evs
    s.flights ≤ 1 ∧
    ((∃ call ∈ s.calls, ∃ jwk err, call.pc = .done jwk err) → s.flights = 1) ∧
    ∀ call ∈ s.calls, ∀ r, call.pc = .returned r → s.outcomes = [r] := by
  intro s
  have hinit : Unfetched codec k (init c (List.replicate n k)) :=
    ⟨by simp [init], fun _ => ⟨hk, by simp [init]⟩⟩
  obtain ⟨hf, hu, hle⟩ : FlightInv s ∧ Unfetched codec k s ∧ s.flights ≤ 1 :=
    @run_preserves_of codec (fun s => FlightInv s ∧ Unfetched codec k s ∧ s.flights ≤ 1) _
      (fun _ e hq h => ⟨h.1.next codec e, h.2.1.next codec h.1 e, h.1.flights_le_one codec hq h.2.2⟩)
      evs _ hearly ⟨flightInv_init c _, hinit, Nat.zero_le _⟩
  refine ⟨hle, fun ⟨call, hcall, jwk, err, hdone⟩ => ?_, fun call hcall r hr => ?_⟩
  · by_contra hne
    rcases (hu.before (by omega)).2 call hcall with h | h <;> simp_all
  · obtain ⟨j, hj, hout⟩ := hf.observed call hcall r hr
    obtain rfl : j = 0 := by have := hf.joined call hcall j hj; omega
    have hlen : s.outcomes.length ≤ 1 := by have := hf.count; omega
    rcases hs : s.outcomes with _ | ⟨r', _ | ⟨r'', rest⟩⟩ <;> simp_all

/-! ## Where returned keys come from -/

/-- Every stored key, every key the flight is storing, and every key a
call returned, is a key some fetch returned; a stored key sits under its
own id, a returned key has the id asked for, and no call returns
`(nil, nil)`. -/
structure KeyInv (s : KState) : Prop where
  stored : ∀ j b e, s.cache.entries j = some ⟨b, e⟩ → b ≠ [] →
    ∃ key ∈ s.served, key.keyID = j ∧ codec.encode key = some b
  storing : ∀ keys, s.flight = .storing keys → ∀ key ∈ keys, key ∈ s.served
  returned : ∀ c ∈ s.calls, ∀ jwk err, c.pc = .done (some jwk) err →
    jwk.keyID = c.keyID ∧ jwk ∈ s.served
  answered : ∀ c ∈ s.calls, c.pc ≠ .done none none

namespace KeyInv

variable {codec} {s : KState} (h : KeyInv codec s)
include h

theorem hit {j : String} {jwk : JSONWebKey} (hhit : getCachedItem codec s.cache j = some (some jwk)) :
    jwk.keyID = j ∧ jwk ∈ s.served := by
  obtain ⟨b, e, he, hb, hd⟩ := getCachedItem_eq_some_some codec hhit
  obtain ⟨key, hkey, hid, henc⟩ := h.stored j b e he hb
  obtain rfl : key = jwk := Option.some.inj ((codec.decode_encode key b henc).symm.trans hd)
  exact ⟨hid, hkey⟩

theorem setCall {i : Nat} {c c' : Call} (hkey : c'.keyID = c.keyID)
    (hc' : ∀ jwk err, c'.pc = .done (some jwk) err → jwk.keyID = c.keyID ∧ jwk ∈ s.served)
    (hnil : c'.pc ≠ .done none none) : KeyInv codec (s.setCall i c') :=
  ⟨h.stored, h.storing, fun x hx jwk err hx' => by
    rcases mem_setCall hx with hx | rfl
    · exact h.returned x hx jwk err hx'
    · exact hkey ▸ hc' jwk err hx',
   fun x hx => by
    rcases mem_setCall hx with hx | rfl
    · exact h.answered x hx
    · exact hnil⟩

theorem lookup {i : Nat} {c : Call} {miss : Pc} (hmiss : ∀ jwk err, miss ≠ .done (some jwk) err)
    (hnil : miss ≠ .done none none) :
    KeyInv codec (s.setCall i { c with pc := lookupNext codec s.cache c.keyID miss }) := by
  refine h.setCall rfl (fun jwk _ hd => h.hit (getCachedItem_of_lookupNext codec (hmiss jwk) hd)) ?_
  unfold lookupNext
  split
  · rename_i jwk _
    cases jwk <;> simp [keyResult]
  · exact hnil

end KeyInv

theorem KeyInv.moves {s s' : KState} (h : KeyInv codec s) (hm : Moves codec s s') : KeyInv codec s' := by
  cases hm with
  | stay => exact h
  | lookup => exact h.lookup (by simp) (by simp)
  | @start i c =>
      have : KeyInv codec (s.setCall i { c with pc := .wait, flight := some s.flights }) :=
        h.setCall rfl (by simp) (by simp)
      exact ⟨this.stored, by simp, this.returned, this.answered⟩
  | join => exact h.setCall rfl (by simp) (by simp)
  | fail => exact h.setCall rfl (by simp) (by simp)
  | recheck => exact h.lookup (by simp) (by simp)
  | @markInvalid i c =>
      have : KeyInv codec (s.setCall i { c with pc := .done none (some .invalidSigningKey) }) :=
        h.setCall rfl (by simp) (by simp)
      refine ⟨fun j b e he hb => ?_, h.storing, this.returned, this.answered⟩
      by_cases hj : j = c.keyID
      · simp [setEmptyCacheItem, LocalCache.set_entries, hj] at he
        exact (hb he.1).elim
      · exact h.stored j b e (by simpa [setEmptyCacheItem, LocalCache.set_entries, hj] using he) hb
  | @land r =>
      refine ⟨h.stored, by simp, fun x hx jwk err hx' => ?_, fun x hx hx' => ?_⟩ <;>
        obtain ⟨c, hc, rfl⟩ := mem_endFlight hx <;>
        rcases Call.land_pc r c with ⟨-, hl⟩ | ⟨-, hl⟩ <;> rw [hl] at hx'
      · cases hx'
      · simpa using h.returned c hc jwk err hx'
      · cases hx'
      · exact h.answered c hc hx'
  | fetched =>
      refine ⟨fun j b e he hb => ?_, fun ks hks key hkey => ?_, fun x hx jwk err hx' => ?_, h.answered⟩
      · obtain ⟨key, hkey, hid⟩ := h.stored j b e he hb
        exact ⟨key, List.mem_append_left _ hkey, hid⟩
      · cases hks
        exact List.mem_append_right _ hkey
      · obtain ⟨hid, hs⟩ := h.returned x hx jwk err hx'
        exact ⟨hid, List.mem_append_left _ hs⟩
  | @store k ks hf =>
      refine ⟨fun j b e he hb => ?_, fun ks' hks key hkey => ?_, h.returned, h.answered⟩
      · rcases setCachedItem_entries_eq_some codec he with ⟨hj, hk⟩ | he
        · exact ⟨k, h.storing _ hf k (List.mem_cons_self _ _), hj, hk⟩
        · exact h.stored j b e he hb
      · cases hks
        exact h.storing _ hf key (List.mem_cons_of_mem _ hkey)
  | @expire key =>
      refine ⟨fun j b e he hb => ?_, h.storing, h.returned, h.answered⟩
      rcases LocalCache.expire_entries s.cache key j with he' | ⟨-, he', -⟩ <;> rw [he'] at he
      · exact h.stored j b e he hb
      · cases he

theorem KeyInv.next {s : KState} (h : KeyInv codec s) (e : KEvent) : KeyInv codec (s.next codec e) :=
  h.moves codec (next_moves codec s e)

theorem keyInv_init (keyIDs : List String) : KeyInv codec (init LocalCache.empty keyIDs) := by
  refine ⟨fun _ _ _ he => (by simp [init] at he), fun _ h => (by cases h), fun c hc _ _ hd => ?_,
    fun c hc hd => ?_⟩ <;> simp [(mem_init_calls hc).1] at hd

theorem keyInv_run (keyIDs : List String) (evs : List KEvent) :
    KeyInv codec ((init LocalCache.empty keyIDs).run codec evs) :=
  run_preserves codec (fun _ e h => h.next codec e) evs (keyInv_init codec keyIDs)

/-! ## One call alone -/

theorem run_stores (keys : List JSONWebKey) (s : KState) (hf : s.flight = .storing keys) :
    s.run codec (List.replicate keys.length .store) =
      { s with cache := keys.foldl (setCachedItem codec) s.cache, flight := .storing [] } := by
  induction keys generalizing s with
  | nil => cases s; cases hf; rfl
  | cons k ks ih =>
      rw [List.length_cons, List.replicate_succ, run_cons, ih _ (by simp [next, hf])]
      simp [next, hf]

/-- A call with no other call beside it does what the sequential `get`
does: for every cache and every answer of the endpoint, some schedule of
its steps, the answer and the stores ends with the call returned as
`get` returns, the cache `get` leaves, and as many fetches. -/
theorem solo_run_get (c : LocalCache Bytes) (k : String) (fetch : FetchOutcome) :
    ∃ evs, let s := (init c [k]).run codec evs
      let o := get codec fetch c k
      s.calls.map (·.pc) = [.done o.result.1 o.result.2] ∧ s.cache = o.cache ∧ s.flights = o.fetches := by
  cases hc : getCachedItem codec c k with
  | some jwk => exact ⟨[.step 0], by simp [get, hc, next, init, stepCall, setCall, lookupNext]⟩
  | none =>
      have hmiss : (init c [k]).run codec [.step 0, .step 0] =
          ⟨c, [⟨k, .wait, some 0⟩], .fetching, 1, [], []⟩ := by
        simp [next, init, stepCall, setCall, lookupNext, hc]
      cases hf : fetchJWKS fetch with
      | error err =>
          refine ⟨[.step 0, .step 0] ++ [.fetched fetch, .step 0], ?_⟩
          rw [run_append, hmiss]
          simp [get, hc, hf, next, stepCall, setCall, endFlight, Call.land]
      | ok keys =>
          let pre : List KEvent := [.step 0, .step 0] ++ [.fetched fetch] ++ List.replicate keys.length .store
          have hstored : (init c [k]).run codec pre =
              ⟨keys.foldl (setCachedItem codec) c, [⟨k, .wait, some 0⟩], .storing [], 1, [], [] ++ keys⟩ := by
            rw [run_append, run_append, hmiss]
            simp only [run_cons, run_nil, next, hf]
            exact run_stores codec keys ⟨c, _, .storing keys, 1, [], [] ++ keys⟩ rfl
          cases hc' : getCachedItem codec (keys.foldl (setCachedItem codec) c) k with
          | some jwk =>
              refine ⟨pre ++ [.store, .step 0], ?_⟩
              rw [run_append, hstored]
              simp [get, hc, hf, hc', next, stepCall, setCall, endFlight, Call.land, lookupNext]
          | none =>
              refine ⟨pre ++ [.store, .step 0, .step 0], ?_⟩
              rw [run_append, hstored]
              simp [get, hc, hf, hc', next, stepCall, setCall, endFlight, Call.land, lookupNext, keyResult]

end KState

/-- Two calls for a key id the cache lacks, one fetch each: both have
started and neither has returned when the second fetch begins, and the
two calls end with different outcomes. -/
theorem late_caller_fetches_again :
    let codec := KeyCodec.single ⟨"k", "m"⟩
    let s₁ := (KState.init LocalCache.empty ["k", "k"]).run codec
      [.step 0, .step 1, .step 0, .fetched (.response 200 (some [])), .store, .step 1]
    let s₂ := s₁.run codec [.fetched (.response 500 none), .step 0, .step 0, .step 1]
    s₁.calls.map (·.pc) = [.returned none, .wait] ∧ s₁.flights = 2 ∧
    s₂.flights = 2 ∧ s₂.outcomes = [none, some .fetchingSigningKey] ∧
    s₂.calls.map (·.pc) = [.done none (some .invalidSigningKey), .done none (some .fetchingSigningKey)] := by
  decide

theorem first_flight_shared_two :
    let codec := KeyCodec.single ⟨"k", "m"⟩
    let evs : List KEvent := [.step 0, .step 1, .step 0, .step 1,
      .fetched (.response 200 (some [⟨"k", "m"⟩])), .store, .store, .step 0, .step 1]
    let s := (KState.init LocalCache.empty (List.replicate 2 "k")).run codec evs
    getCachedItem codec LocalCache.empty "k" = none ∧
    KState.allEvents codec (fun t e => !t.entersDo e || t.outcomes.isEmpty)
      (KState.init LocalCache.empty (List.replicate 2 "k")) evs = true ∧
    s.flights ≤ 1 ∧
    ((∃ call ∈ s.calls, ∃ jwk err, call.pc = .done jwk err) → s.flights = 1) ∧
    ∀ call ∈ s.calls, ∀ r, call.pc = .returned r → s.outcomes = [r] :=
  ⟨rfl, by decide, KState.first_flight_shared _ _ "k" 2 _ rfl (by decide)⟩

/-! ## The placeholder race -/

/-- Three calls for the id of `key`. The first call's fetch returns a
key set without `key`; before the first call writes its placeholder,
the second call misses, fetches a key set that now has `key`, stores it
and returns it. The first call's placeholder then replaces the stored
key, and the third call, which starts after that, is refused. -/
theorem placeholder_overwrites_key (codec : KeyCodec) (key : JSONWebKey) (b : Bytes)
    (hb : codec.encode key = some b) :
    let k := key.keyID
    let s₁ := (KState.init LocalCache.empty [k, k, k]).run codec
      [.step 0, .step 0, .fetched (.response 200 (some [])), .store, .step 0,
       .step 1, .step 1, .fetched (.response 200 (some [key])), .store, .store, .step 1]
    let s₂ := s₁.run codec [.step 0]
    let s₃ := s₂.run codec [.step 2]
    s₁.cache.entries k = some ⟨b, .noExpiration⟩ ∧ key ∈ s₁.served ∧
    s₁.calls.map (·.pc) = [.markInvalid, .done (some key) none, .lookup] ∧
    s₂.cache.entries k = some ⟨[], cacheTTL⟩ ∧
    s₃.calls.map (·.pc) =
      [.done none (some .invalidSigningKey), .done (some key) none, .done none (some .invalidSigningKey)] := by
  have hne : b.isEmpty = false := by simpa [List.isEmpty_iff] using codec.encode_ne_nil key b hb
  simp [KState.run, KState.next, KState.stepCall, KState.init, KState.setCall, KState.endFlight,
    lookupNext, getCachedItem, LocalCache.get, setCachedItem, hb, hne, codec.decode_encode key b hb,
    keyResult, fetchJWKS, Call.land, setEmptyCacheItem, LocalCache.set_entries]

theorem placeholder_overwrites_key_single :
    (KeyCodec.single ⟨"k", "m"⟩).encode ⟨"k", "m"⟩ = some [1] ∧
    let s₁ := (KState.init LocalCache.empty ["k", "k", "k"]).run (KeyCodec.single ⟨"k", "m"⟩)
      [.step 0, .step 0, .fetched (.response 200 (some [])), .store, .step 0,
       .step 1, .step 1, .fetched (.response 200 (some [⟨"k", "m"⟩])), .store, .store, .step 1]
    let s₂ := s₁.run (KeyCodec.single ⟨"k", "m"⟩) [.step 0]
    let s₃ := s₂.run (KeyCodec.single ⟨"k", "m"⟩) [.step 2]
    s₁.cache.entries "k" = some ⟨[1], .noExpiration⟩ ∧ ⟨"k", "m"⟩ ∈ s₁.served ∧
    s₁.calls.map (·.pc) = [.markInvalid, .done (some ⟨"k", "m"⟩) none, .lookup] ∧
    s₂.cache.entries "k" = some ⟨[], cacheTTL⟩ ∧
    s₃.calls.map (·.pc) = [.done none (some .invalidSigningKey), .done (some ⟨"k", "m"⟩) none,
      .done none (some .invalidSigningKey)] :=
  ⟨rfl, placeholder_overwrites_key _ ⟨"k", "m"⟩ [1] rfl⟩

end Authlib
