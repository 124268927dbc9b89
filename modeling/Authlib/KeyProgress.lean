import Authlib.KeyFlight

/-!
# Runs of the key retriever: every `Get` returns, how often it fetches, and what time removes

A call of `Get` can block in two places: in `Do` while the group's
function runs, and that function in the endpoint's answer. Neither is a
deadlock. A call blocked in `Do` always has a function under way to wait
for (`FlightInv.waiting`), and the function ends after the endpoint's
answer and one store per key. So from every reachable state, whatever
the endpoint answers, a schedule of the calls' own steps and the
flight's, with no time passing, returns every call, in at most
`progress` events (`every_get_returns`).

The measure (`progress`) is each call's distance to its return
(`Pc.rank`), weighted above the flight's remaining work (`Flight.work`).
In a state with a call still running one event lowers it
(`exists_progress`): a call that is not blocked in `Do` takes its step,
and once every running call is blocked, the flight they wait for moves
on. Starting a flight adds the flight's work but takes one rank off the
call that starts it, which the weight makes up for.

The group bounds the fetches: the flights are numbered apart and each
has a call that started it (`FlightInv.started`), so the endpoint is
fetched at most once for each call that reached `Do`, and a call that
reaches `Do` while a fetch is under way joins it (`fetches_le_missed_gets`).

Time passing (the local cache's janitor) removes only what was stored
with an expiry. `setCachedItem` stores keys with `cache.NoExpiration` and
`setEmptyCacheItem` the placeholder with `cacheTTL`, so in every run from
an empty cache a stored key never expires, and the known-invalid answer
always does (`stored_keys_never_expire`).
-/

namespace Authlib

/-- At most how many of its own steps a call is from returning. -/
def Pc.rank : Pc → Nat
  | .lookup => 5
  | .enter => 4
  | .wait => 3
  | .returned none => 2
  | .returned (some _) => 1
  | .markInvalid => 1
  | .done _ _ => 0

theorem Pc.rank_eq_zero {p : Pc} : p.rank = 0 ↔ ∃ jwk err, p = .done jwk err := by
  cases p <;> simp [Pc.rank]
  rename_i r
  cases r <;> simp

theorem rank_lookupNext_le (codec : KeyCodec) (c : LocalCache Bytes) (k : String) (miss : Pc) :
    (lookupNext codec c k miss).rank ≤ miss.rank := by
  rcases KState.lookupNext_cases codec c k miss with h | ⟨_, _, h⟩ <;> simp [h, Pc.rank]

theorem rank_land_le (r : Option Error) (c : Call) : (c.land r).pc.rank ≤ c.pc.rank := by
  rcases KState.Call.land_pc r c with ⟨hw, h⟩ | ⟨-, h⟩
  · rw [h, hw]
    cases r <;> simp [Pc.rank]
  · rw [h]

/-- The flight's events still to come when the endpoint answers `o`:
the answer, one store per key and the return. -/
def Flight.work (o : FetchOutcome) : Flight → Nat
  | .idle => 0
  | .fetching =>
      (match fetchJWKS o with
        | .ok keys => keys.length
        | .error _ => 0) + 2
  | .storing keys => keys.length + 1

def rankSum : List Call → Nat
  | [] => 0
  | c :: cs => c.pc.rank + rankSum cs

theorem rankSum_set_lt {l : List Call} {i : Nat} {c c' : Call} (hc : l[i]? = some c)
    (h : c'.pc.rank < c.pc.rank) : rankSum (l.set i c') < rankSum l := by
  induction l generalizing i with
  | nil => simp at hc
  | cons a l ih =>
      cases i with
      | zero =>
          obtain rfl : a = c := by simpa using hc
          simp only [List.set_cons_zero, rankSum]
          omega
      | succ i =>
          simp only [List.set_cons_succ, rankSum]
          have := ih (by simpa using hc)
          omega

theorem rankSum_map_land_le (r : Option Error) (l : List Call) :
    rankSum (l.map (Call.land r)) ≤ rankSum l := by
  induction l with
  | nil => exact le_rfl
  | cons c l ih =>
      simp only [List.map_cons, rankSum]
      have := rank_land_le r c
      omega

namespace KState

variable (codec : KeyCodec) (o : FetchOutcome)

/-- The events of the retriever itself, the endpoint answering `o`: a
call's step, the answer, a store; no time passing. -/
def RetrieverEvent : KEvent → Prop
  | .step _ => True
  | .fetched o' => o' = o
  | .store => True
  | .expire _ => False

/-- The calls' ranks, each worth more than a whole flight, and the
flight's work. -/
def progress (s : KState) : Nat :=
  (Flight.work o .fetching + 1) * rankSum s.calls + s.flight.work o

theorem progress_setCall_lt {s : KState} {i : Nat} {c c' : Call} (hc : s.calls[i]? = some c)
    (h : c'.pc.rank < c.pc.rank) : progress o (s.setCall i c') < progress o s := by
  have := rankSum_set_lt hc h
  simp only [progress, setCall_calls, setCall_flight]
  have := Nat.mul_lt_mul_of_pos_left this (by omega : 0 < Flight.work o .fetching + 1)
  omega

theorem progress_step_lt {s : KState} {i : Nat} {c : Call}
    (hc : s.calls[i]? = some c) (hw : c.pc ≠ .wait) (hr : c.pc.rank ≠ 0) :
    progress o (s.next codec (.step i)) < progress o s := by
  simp only [next, hc, stepCall]
  split
  · exact progress_setCall_lt o hc ((rank_lookupNext_le codec _ _ _).trans_lt (by simp [*, Pc.rank]))
  · rename_i hpc
    split
    · -- `Do` starts the flight: one rank less, one flight's work more
      rename_i hidle
      have hlt := @rankSum_set_lt s.calls i c { c with pc := .wait, flight := some s.flights } hc
        (by simp [hpc, Pc.rank])
      have := Nat.mul_le_mul_left (Flight.work o .fetching + 1) (Nat.succ_le_of_lt hlt)
      simp only [progress, setCall_calls, hidle, Flight.work] at this ⊢
      rw [Nat.mul_succ] at this
      omega
    · exact progress_setCall_lt o hc (by simp [hpc, Pc.rank])
  · exact absurd ‹_› hw
  · exact progress_setCall_lt o hc (by simp [*, Pc.rank])
  · exact progress_setCall_lt o hc ((rank_lookupNext_le codec _ _ _).trans_lt (by simp [*, Pc.rank]))
  · rename_i hpc
    have : progress o (s.setCall i { c with pc := .done none (some .invalidSigningKey) }) <
        progress o s := progress_setCall_lt o hc (by simp [hpc, Pc.rank])
    simpa only [progress] using this
  · simp_all [Pc.rank]

/-- With a call still running, one of the retriever's events lowers the
measure: a step of a call outside `Do`, or else the move of the flight
every running call waits for. -/
theorem exists_progress {s : KState} (h : FlightInv s) (hrun : ∃ c ∈ s.calls, c.pc.rank ≠ 0) :
    ∃ e, RetrieverEvent o e ∧ progress o (s.next codec e) < progress o s := by
  by_cases hact : ∃ (i : Nat) (c : Call), s.calls[i]? = some c ∧ c.pc ≠ .wait ∧ c.pc.rank ≠ 0
  · obtain ⟨i, c, hc, hw, hr⟩ := hact
    exact ⟨.step i, trivial, progress_step_lt codec o hc hw hr⟩
  · obtain ⟨c, hc, hr⟩ := hrun
    obtain ⟨i, hi⟩ := List.mem_iff_getElem?.mp hc
    have hwait : c.pc = .wait := by
      by_contra hw
      exact hact ⟨i, c, hi, hw, hr⟩
    have hbusy := (h.waiting c hc hwait).1
    have hend := fun r => rankSum_map_land_le r s.calls
    cases hf : s.flight with
    | idle => exact absurd hf hbusy
    | fetching =>
        refine ⟨.fetched o, rfl, ?_⟩
        simp only [next, hf]
        split
        · have := Nat.mul_le_mul_left (Flight.work o .fetching + 1) (hend (some ‹_›))
          simp only [progress, endFlight_calls, endFlight_flight, hf, Flight.work] at this ⊢
          omega
        · rename_i keys hkeys
          simp [progress, hf, Flight.work, hkeys]
    | storing keys =>
        refine ⟨.store, trivial, ?_⟩
        cases keys with
        | nil =>
            have := Nat.mul_le_mul_left (Flight.work o .fetching + 1) (hend none)
            simp only [next, hf, progress, endFlight_calls, endFlight_flight, Flight.work] at this ⊢
            omega
        | cons k ks => simp [next, hf, progress, Flight.work]

/-- From every state the group's invariant holds in, a schedule of at
most `progress` of the retriever's events returns every call: by strong
induction on the measure, one event at a time (`exists_progress`). -/
theorem FlightInv.exists_schedule {t : KState} (ht : FlightInv t) :
    ∃ evs', (∀ e ∈ evs', RetrieverEvent o e) ∧ evs'.length ≤ progress o t ∧
      ∀ call ∈ (t.run codec evs').calls, ∃ jwk err, call.pc = .done jwk err := by
  generalize hn : progress o t = n
  induction n using Nat.strong_induction_on generalizing t with
  | _ n ih =>
      by_cases hrun : ∃ call ∈ t.calls, call.pc.rank ≠ 0
      · obtain ⟨e, he, hlt⟩ := exists_progress codec o ht hrun
        obtain ⟨evs', hevs', hlen, hdone⟩ := ih _ (hn ▸ hlt) (ht.next codec e) rfl
        refine ⟨e :: evs', ?_, ?_, hdone⟩
        · simpa [he] using hevs'
        · simp only [List.length_cons]
          omega
      · push_neg at hrun
        exact ⟨[], by simp, by simp, fun call hcall => Pc.rank_eq_zero.mp (hrun call hcall)⟩

end KState

open KState in
/-- From every reachable state of overlapping `Get` calls, whatever the
endpoint answers, there is a schedule of the retriever's own events (the
calls' steps, the answer, the stores; no time passing) after which every
call has returned, and it takes at most `progress` events. No call waits
in `Do` for a function that is not running, and no state is stuck. -/
theorem every_get_returns (codec : KeyCodec) (c : LocalCache Bytes) (keyIDs : List String)
    (evs : List KEvent) (o : FetchOutcome) :
    let s := (KState.init c keyIDs).run codec evs
    ∃ evs', (∀ e ∈ evs', RetrieverEvent o e) ∧ evs'.length ≤ progress o s ∧
      ∀ call ∈ (s.run codec evs').calls, ∃ jwk err, call.pc = .done jwk err :=
  (run_preserves codec (fun _ e h => h.next codec e) evs (flightInv_init c keyIDs)).exists_schedule codec o

/-! ## How often the endpoint is fetched -/

namespace KState

variable (codec : KeyCodec)

theorem next_calls_length (s : KState) (e : KEvent) : (s.next codec e).calls.length = s.calls.length := by
  have hm := next_moves codec s e
  generalize s.next codec e = t at hm
  cases hm <;> simp [endFlight]

theorem FlightInv.flights_le_entered {s : KState} (h : FlightInv s) :
    s.flights ≤ (s.calls.filter fun c => c.flight.isSome).length := by
  have hsub : (List.range s.flights).map some ⊆ (s.calls.filter fun c => c.flight.isSome).map (·.flight) := by
    intro x hx
    obtain ⟨j, hj, rfl⟩ := List.mem_map.mp hx
    obtain ⟨c, hc, hf⟩ := List.mem_map.mp (h.started j (List.mem_range.mp hj))
    exact List.mem_map.mpr ⟨c, List.mem_filter.mpr ⟨hc, by simp [hf]⟩, hf⟩
  have hnodup := (List.nodup_range s.flights).map (Option.some_injective Nat)
  simpa using (List.subperm_of_subset hnodup hsub).length_le

end KState

open KState in
/-- However the calls of `Get` overlap and whatever the endpoint answers,
the endpoint is fetched at most once for each call that missed the cache
and reached `Do`, and so at most once for each call. A call that reaches
`Do` while a fetch is under way starts none: it joins the one under way,
whose outcome is the next one the group records. -/
theorem fetches_le_missed_gets (codec : KeyCodec) (c : LocalCache Bytes) (keyIDs : List String)
    (evs : List KEvent) :
    let s := (KState.init c keyIDs).run codec evs
    s.flights ≤ (s.calls.filter fun call => call.flight.isSome).length ∧
    (s.calls.filter fun call => call.flight.isSome).length ≤ keyIDs.length ∧
    ∀ i call, s.calls[i]? = some call → call.pc = .enter → s.flight ≠ .idle →
      (s.next codec (.step i)).flights = s.flights ∧
      (s.next codec (.step i)).calls[i]? = some { call with pc := .wait, flight := some s.outcomes.length } := by
  intro s
  have hf : FlightInv s := run_preserves codec (fun _ e h => h.next codec e) evs (flightInv_init c keyIDs)
  have hlen : s.calls.length = keyIDs.length :=
    @run_preserves codec (fun t => t.calls.length = keyIDs.length)
      (fun t e ht => (next_calls_length codec t e).trans ht) evs _ (by simp [init])
  refine ⟨hf.flights_le_entered, hlen ▸ List.length_filter_le _ _, fun i call hc hpc hbusy => ?_⟩
  have hcount : s.flights = s.outcomes.length + 1 := by simpa [hbusy] using hf.count
  simp only [next, hc, stepCall, hpc]
  exact ⟨rfl, by simp [List.getElem?_set, (List.getElem?_eq_some_iff.mp hc).1, hcount]⟩

/-! ## What time removes -/

/-- Every non-empty entry is a key stored with no expiry, and every empty
entry is the placeholder, stored for `cacheTTL`. -/
def TimedEntries (c : LocalCache Bytes) : Prop :=
  ∀ k b e, c.entries k = some ⟨b, e⟩ → (b = [] ∧ e = cacheTTL) ∨ (b ≠ [] ∧ e = .noExpiration)

theorem TimedEntries.store (codec : KeyCodec) {c : LocalCache Bytes} (h : TimedEntries c)
    (key : JSONWebKey) : TimedEntries (setCachedItem codec c key) := by
  intro k b e he
  rcases setCachedItem_entries_eq_some codec he with ⟨rfl, hb⟩ | he
  · refine .inr ⟨codec.encode_ne_nil key b hb, ?_⟩
    simpa [Authlib.setCachedItem, hb, eq_comm] using he
  · exact h k b e he

theorem TimedEntries.placeholder {c : LocalCache Bytes} (h : TimedEntries c) (keyID : String) :
    TimedEntries (setEmptyCacheItem c keyID) := by
  intro k b e he
  rw [setEmptyCacheItem, LocalCache.set_entries] at he
  split at he
  · cases he
    exact .inl ⟨rfl, rfl⟩
  · exact h k b e he

theorem TimedEntries.expire {c : LocalCache Bytes} (h : TimedEntries c) (key : String) :
    TimedEntries (c.expire key) := by
  intro k b e he
  rcases LocalCache.expire_entries c key k with hk | ⟨-, hk, -⟩
  · exact h k b e (hk ▸ he)
  · simp [hk] at he

theorem expire_keeps_noExpiration {c : LocalCache Bytes} {k : String} {b : Bytes} (key : String)
    (he : c.entries k = some ⟨b, .noExpiration⟩) : (c.expire key).entries k = some ⟨b, .noExpiration⟩ := by
  rcases LocalCache.expire_entries c key k with hk | ⟨-, -, hne⟩
  · rw [hk, he]
  · exact absurd he (hne b)

theorem KState.timedEntries_moves (codec : KeyCodec) {s s' : KState} (h : TimedEntries s.cache)
    (hm : KState.Moves codec s s') : TimedEntries s'.cache := by
  cases hm with
  | markInvalid => exact h.placeholder _
  | store => exact h.store codec _
  | expire => exact h.expire _
  | _ => exact h

open KState in
/-- Over every interleaving of `Get` calls, fetches and time passing from
an empty cache: every non-empty entry is a key stored with no expiry and
every empty entry is the known-invalid placeholder with the expiry
`cacheTTL`; so time passing never removes a stored key. -/
theorem stored_keys_never_expire (codec : KeyCodec) (keyIDs : List String) (evs : List KEvent) :
    let s := (KState.init LocalCache.empty keyIDs).run codec evs
    (∀ k b e, s.cache.entries k = some ⟨b, e⟩ → (b = [] ∧ e = cacheTTL) ∨ (b ≠ [] ∧ e = .noExpiration)) ∧
    ∀ k key b e, s.cache.entries k = some ⟨b, e⟩ → b ≠ [] →
      (s.next codec (.expire key)).cache.entries k = some ⟨b, e⟩ := by
  intro s
  have h : TimedEntries s.cache :=
    @run_preserves codec (fun t => TimedEntries t.cache)
      (fun t e ht => timedEntries_moves codec ht (next_moves codec t e)) evs _ (by simp [TimedEntries, init])
  refine ⟨h, fun k key b e he hb => ?_⟩
  obtain ⟨-, rfl⟩ := (h k b e he).resolve_left fun h' => hb h'.1
  exact expire_keeps_noExpiration key he

end Authlib
