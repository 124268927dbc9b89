import Authlib.Cache

/-!
# `DefaultKeyRetriever.Get`, one call at a time

The key provider of the token verifier: look the key id up in the local
cache, and on a miss fetch the whole key set, store every key of it
with no expiry, look again, and remember a key id the set lacked as an
empty placeholder for `cacheTTL`.

The cache holds JSON: `setCachedItem` stores `json.Encoder.Encode` of a
key and `getCachedItem` decodes. `encoding/json` is not modelled; a
`KeyCodec` is any encoder and decoder with the two laws the code relies
on: an encoded key is never empty (`Encode` ends it with a newline),
which keeps stored keys apart from the placeholder, and decoding gives
the encoded key back.

`get` is one call running alone, with the key-set endpoint's answer as
an argument: the single-flight group then runs the fetch in the caller.
`get_spec` says everything such a call does, for every cache state and
every answer. Calls that overlap are in `KeyFlight`.
-/

namespace Authlib

/-- `jose.JSONWebKey`: its `KeyID`, and the rest of the key, which this
package only hands on. -/
structure JSONWebKey where
  keyID : String
  material : String
  deriving DecidableEq, Repr

abbrev Bytes := List UInt8

/-- `encoding/json` on a `jose.JSONWebKey`: `encode` is
`json.NewEncoder(&buf).Encode(&key)` (`none` when it fails) and `decode`
is `json.NewDecoder(bytes.NewReader(data)).Decode(&jwk)`, with the two
laws the cache relies on: `Encode` ends every value with a newline, and
`Decode` reads back what `Encode` wrote. -/
structure KeyCodec where
  encode : JSONWebKey → Option Bytes
  decode : Bytes → Option JSONWebKey
  encode_ne_nil : ∀ k b, encode k = some b → b ≠ []
  decode_encode : ∀ k b, encode k = some b → decode b = some k

/-- A codec that encodes one key only, as the single byte `1`; every
other key fails to encode. -/
def KeyCodec.single (key : JSONWebKey) : KeyCodec where
  encode k := if k = key then some [1] else none
  decode b := if b = [1] then some key else none
  encode_ne_nil k b h := by
    by_cases hk : k = key <;> simp [hk] at h
    simp [← h]
  decode_encode k b h := by
    by_cases hk : k = key <;> simp [hk] at h
    simp [← h, hk]

/-- What the HTTP exchange of `fetchJWKS` comes to:
`http.NewRequestWithContext` failed with `err`, `http.DefaultClient.Do`
failed, or a response with its body decoded as a key set (`none` when it
is not one). -/
inductive FetchOutcome where
  | badRequest (err : Error)
  | transportError
  | response (status : Nat) (keys : Option (List JSONWebKey))
  deriving DecidableEq, Repr

def fetchJWKS : FetchOutcome → Except Error (List JSONWebKey)
  | .badRequest err => .error err
  | .transportError => .error (.wrap ": request error" .fetchingSigningKey)
  | .response status keys =>
      if status ≠ 200 then .error .fetchingSigningKey
      else
        match keys with
        | none => .error (.wrap ": unable to decode response" .fetchingSigningKey)
        | some ks => .ok ks

/-- `cacheTTL`, the life of a placeholder. -/
def cacheTTL : Expiration := .after (10 * minute)

section

variable (codec : KeyCodec)

/-- `getCachedItem`: `none` for a miss (`ok == false`), `some none` for
the placeholder, `some (some jwk)` for a stored key. A cache error and
an undecodable entry are both misses. -/
def getCachedItem (c : LocalCache Bytes) (keyID : String) : Option (Option JSONWebKey) :=
  match c.get keyID with
  | .error _ => none
  | .ok data => if data.isEmpty then some none else (codec.decode data).map some

/-- `setCachedItem`: a key that does not encode is skipped. -/
def setCachedItem (c : LocalCache Bytes) (key : JSONWebKey) : LocalCache Bytes :=
  match codec.encode key with
  | none => c
  | some buf => c.set key.keyID buf .noExpiration

def setEmptyCacheItem (c : LocalCache Bytes) (keyID : String) : LocalCache Bytes :=
  c.set keyID [] cacheTTL

/-- Go's `(jwk, err)` once the lookups are over: a nil key is
`ErrInvalidSigningKey`. -/
def keyResult : Option JSONWebKey → Option JSONWebKey × Option Error
  | none => (none, some .invalidSigningKey)
  | some jwk => (some jwk, none)

theorem keyResult_ne_nil (jwk : Option JSONWebKey) : keyResult jwk ≠ (none, none) := by
  cases jwk <;> simp [keyResult]

structure GetOutcome where
  result : Option JSONWebKey × Option Error
  cache : LocalCache Bytes
  fetches : Nat

/-- `DefaultKeyRetriever.Get(keyID)` with no other call in flight; the
endpoint answers `fetch` if asked. -/
def get (fetch : FetchOutcome) (c : LocalCache Bytes) (keyID : String) : GetOutcome :=
  match getCachedItem codec c keyID with
  | some jwk => ⟨keyResult jwk, c, 0⟩
  | none =>
      match fetchJWKS fetch with
      | .error err => ⟨(none, some err), c, 1⟩
      | .ok keys =>
          let c := keys.foldl (setCachedItem codec) c
          match getCachedItem codec c keyID with
          | some jwk => ⟨keyResult jwk, c, 1⟩
          | none => ⟨keyResult none, setEmptyCacheItem c keyID, 1⟩

/-! ## What storing a key set leaves -/

/-- The last key of `keys` with id `j` that encodes, and its encoding. -/
def lastEncoded (j : String) : List JSONWebKey → Option (JSONWebKey × Bytes)
  | [] => none
  | k :: ks =>
      match lastEncoded j ks with
      | some r => some r
      | none => if k.keyID = j then (codec.encode k).map (k, ·) else none

theorem lastEncoded_spec {j : String} {keys : List JSONWebKey} {k : JSONWebKey} {b : Bytes}
    (h : lastEncoded codec j keys = some (k, b)) : k ∈ keys ∧ k.keyID = j ∧ codec.encode k = some b := by
  induction keys with
  | nil => cases h
  | cons k' ks ih =>
      simp only [lastEncoded] at h
      split at h
      · rename_i hr
        cases h
        obtain ⟨hk, hj, he⟩ := ih hr
        exact ⟨List.mem_cons_of_mem _ hk, hj, he⟩
      · split at h
        · rename_i hj
          obtain ⟨b', hb', hkb⟩ := Option.map_eq_some'.mp h
          cases hkb
          exact ⟨List.mem_cons_self _ _, hj, hb'⟩
        · cases h

theorem setCachedItem_entries (c : LocalCache Bytes) (key : JSONWebKey) (j : String) :
    (setCachedItem codec c key).entries j =
      match (if key.keyID = j then (codec.encode key).map (key, ·) else none) with
      | some (_, b) => some ⟨b, .noExpiration⟩
      | none => c.entries j := by
  unfold setCachedItem
  by_cases hj : key.keyID = j
  · subst hj
    split <;> simp [*]
  · split <;> simp [hj, LocalCache.set_entries_ne _ _ _ (Ne.symm hj)]

theorem setCachedItem_entries_eq_some {c : LocalCache Bytes} {key : JSONWebKey} {j : String}
    {ent : Entry Bytes} (h : (setCachedItem codec c key).entries j = some ent) :
    (key.keyID = j ∧ codec.encode key = some ent.data) ∨ c.entries j = some ent := by
  unfold setCachedItem at h
  split at h
  · exact .inr h
  · rename_i buf hbuf
    rw [LocalCache.set_entries] at h
    split at h
    · cases h
      exact .inl ⟨(‹j = key.keyID›).symm, hbuf⟩
    · exact .inr h

theorem foldl_setCachedItem_entries (keys : List JSONWebKey) (c : LocalCache Bytes) (j : String) :
    (keys.foldl (setCachedItem codec) c).entries j =
      match lastEncoded codec j keys with
      | some (_, b) => some ⟨b, .noExpiration⟩
      | none => c.entries j := by
  induction keys generalizing c with
  | nil => rfl
  | cons k ks ih =>
      rw [List.foldl_cons, ih, lastEncoded]
      split <;> rename_i h
      · simp only [h]
      · simp only [h, setCachedItem_entries]

theorem getCachedItem_of_stored {c : LocalCache Bytes} {j : String} {b : Bytes} {e : Expiration}
    (hc : c.entries j = some ⟨b, e⟩) (hb : b ≠ []) :
    getCachedItem codec c j = (codec.decode b).map some := by
  have hne : b.isEmpty = false := by simpa [List.isEmpty_iff] using hb
  simp [getCachedItem, LocalCache.get, hc, hne]

theorem getCachedItem_of_entries {c : LocalCache Bytes} {j : String} {k : JSONWebKey} {b : Bytes}
    {e : Expiration} (hc : c.entries j = some ⟨b, e⟩) (hb : codec.encode k = some b) :
    getCachedItem codec c j = some (some k) := by
  rw [getCachedItem_of_stored codec hc (codec.encode_ne_nil k b hb), codec.decode_encode k b hb]
  rfl

theorem getCachedItem_congr {c c' : LocalCache Bytes} {j : String} (h : c.entries j = c'.entries j) :
    getCachedItem codec c j = getCachedItem codec c' j := by
  simp only [getCachedItem, LocalCache.get, h]

theorem getCachedItem_eq_some_some {c : LocalCache Bytes} {j : String} {jwk : JSONWebKey}
    (h : getCachedItem codec c j = some (some jwk)) :
    ∃ b e, c.entries j = some ⟨b, e⟩ ∧ b ≠ [] ∧ codec.decode b = some jwk := by
  cases he : c.entries j with
  | none => simp [getCachedItem, LocalCache.get, he] at h
  | some ent =>
      obtain ⟨b, e⟩ := ent
      by_cases hb : b = []
      · simp [getCachedItem, LocalCache.get, he, hb] at h
      · refine ⟨b, e, rfl, hb, ?_⟩
        simpa [getCachedItem, LocalCache.get, he, hb, List.isEmpty_iff] using h

theorem getCachedItem_expire {c : LocalCache Bytes} {j : String} (key : String)
    (h : getCachedItem codec c j = none) : getCachedItem codec (c.expire key) j = none := by
  rcases LocalCache.expire_entries c key j with he | ⟨-, he, -⟩
  · rw [getCachedItem_congr codec he, h]
  · simp [getCachedItem, LocalCache.get, he]

end

theorem fetchJWKS_error_is {fetch : FetchOutcome} {err : Error} (h : fetchJWKS fetch = .error err)
    (hreq : ∀ e, fetch ≠ .badRequest e) : err.is .fetchingSigningKey = true := by
  cases fetch with
  | badRequest e => exact absurd rfl (hreq e)
  | transportError => cases h; simp
  | response status keys =>
      simp only [fetchJWKS] at h
      split at h
      · cases h; simp
      · split at h <;> cases h; simp

theorem fetchJWKS_failed {fetch : FetchOutcome}
    (h : fetch = .transportError ∨ (∃ status keys, fetch = .response status keys ∧ status ≠ 200) ∨
      fetch = .response 200 none) :
    ∃ err, fetchJWKS fetch = .error err ∧ ∀ e, fetch ≠ .badRequest e := by
  rcases h with rfl | ⟨status, keys, rfl, hs⟩ | rfl
  · exact ⟨_, rfl, fun _ => by simp⟩
  · exact ⟨.fetchingSigningKey, by simp [fetchJWKS, hs], fun _ => by simp⟩
  · exact ⟨_, rfl, fun _ => by simp⟩

/-! ## One call -/

section

variable (codec : KeyCodec)

/-- `Get(k)` run alone, for every cache state and every answer of the
endpoint: a stored key or the placeholder answers with no fetch;
anything else fetches once, and then a failure changes nothing, while a
key set is stored whole and the key id looked up again, the placeholder
written only when the set had no key for it. No outcome is
`(nil, nil)`. -/
theorem get_spec (fetch : FetchOutcome) (c : LocalCache Bytes) (k : String) :
    let o := get codec fetch c k
    (∀ b e jwk, c.entries k = some ⟨b, e⟩ → b ≠ [] → codec.decode b = some jwk →
      o = ⟨(some jwk, none), c, 0⟩) ∧
    (∀ e, c.entries k = some ⟨[], e⟩ → o = ⟨(none, some .invalidSigningKey), c, 0⟩) ∧
    ((c.entries k = none ∨ ∃ b e, c.entries k = some ⟨b, e⟩ ∧ b ≠ [] ∧ codec.decode b = none) →
      o.fetches = 1 ∧
      (∀ err, fetchJWKS fetch = .error err →
        o.result = (none, some err) ∧ o.cache = c ∧
        ((∀ e, fetch ≠ .badRequest e) → err.is .fetchingSigningKey = true)) ∧
      ((fetch = .transportError ∨ (∃ status keys, fetch = .response status keys ∧ status ≠ 200) ∨
          fetch = .response 200 none) →
        ∃ err, o.result = (none, some err) ∧ err.is .fetchingSigningKey = true ∧ o.cache = c) ∧
      (∀ keys, fetchJWKS fetch = .ok keys →
        (∀ j, j ≠ k → o.cache.entries j =
          match lastEncoded codec j keys with
          | some (_, b) => some ⟨b, .noExpiration⟩
          | none => c.entries j) ∧
        match lastEncoded codec k keys with
        | some (key, b) =>
            o.result = (some key, none) ∧ o.cache.entries k = some ⟨b, .noExpiration⟩
        | none =>
            o.result = (none, some .invalidSigningKey) ∧ o.cache.entries k = some ⟨[], cacheTTL⟩)) ∧
    o.result ≠ (none, none) := by
  intro o
  refine ⟨fun b e jwk hc hb hd => ?_, fun e hc => ?_, fun hmiss => ?_, ?_⟩
  · -- a stored key
    simp [o, get, getCachedItem_of_stored codec hc hb, hd, keyResult]
  · -- the placeholder
    simp [o, get, getCachedItem, LocalCache.get, hc, keyResult]
  · -- a miss: one fetch
    have hg : getCachedItem codec c k = none := by
      rcases hmiss with h | ⟨b, e, h, hb, hd⟩
      · simp [getCachedItem, LocalCache.get, h]
      · simp [getCachedItem_of_stored codec h hb, hd]
    have herror : ∀ err, fetchJWKS fetch = .error err →
        o.result = (none, some err) ∧ o.cache = c ∧
        ((∀ e, fetch ≠ .badRequest e) → err.is .fetchingSigningKey = true) := fun err herr =>
      ⟨by simp [o, get, hg, herr], by simp [o, get, hg, herr], fetchJWKS_error_is herr⟩
    refine ⟨?_, herror, fun hfail => ?_, fun keys hkeys => ?_⟩
    · simp only [o, get, hg]
      split <;> (try split) <;> rfl
    · obtain ⟨err, herr, hreq⟩ := fetchJWKS_failed hfail
      obtain ⟨hres, hcache, his⟩ := herror err herr
      exact ⟨err, hres, his hreq, hcache⟩
    · have hstored := foldl_setCachedItem_entries codec keys c
      cases hk : lastEncoded codec k keys with
      | some r =>
          obtain ⟨key, b⟩ := r
          obtain ⟨-, -, hb⟩ := lastEncoded_spec codec hk
          have hc' : (keys.foldl (setCachedItem codec) c).entries k = some ⟨b, .noExpiration⟩ := by
            rw [hstored, hk]
          simp [o, get, hg, hkeys, getCachedItem_of_entries codec hc' hb, keyResult, hstored, hk]
      | none =>
          have hg' : getCachedItem codec (keys.foldl (setCachedItem codec) c) k = none := by
            rw [getCachedItem_congr codec
              (show (keys.foldl (setCachedItem codec) c).entries k = c.entries k by rw [hstored, hk]), hg]
          refine ⟨fun j hj => ?_, ?_⟩
          · simp [o, get, hg, hkeys, hg', setEmptyCacheItem, LocalCache.set_entries_ne _ _ _ hj, hstored]
          · simp [o, get, hg, hkeys, hg', keyResult, setEmptyCacheItem]
  · -- never `(nil, nil)`
    simp only [o, get]
    split
    · simp only [keyResult_ne_nil, ne_eq, not_false_eq_true]
    · split
      · simp
      · split <;> simp only [keyResult_ne_nil, ne_eq, not_false_eq_true]

/-! ## Calls one after the other -/

def HoldsKey (c : LocalCache Bytes) (k : String) : Prop :=
  ∃ b e jwk, c.entries k = some ⟨b, e⟩ ∧ b ≠ [] ∧ codec.decode b = some jwk

theorem getCachedItem_of_holdsKey {c : LocalCache Bytes} {k : String} (h : HoldsKey codec c k) :
    ∃ jwk, getCachedItem codec c k = some (some jwk) := by
  obtain ⟨b, e, jwk, hc, hb, hd⟩ := h
  exact ⟨jwk, by rw [getCachedItem_of_stored codec hc hb, hd]; rfl⟩

theorem holdsKey_foldl_setCachedItem {c : LocalCache Bytes} {k : String} (keys : List JSONWebKey)
    (h : HoldsKey codec c k) : HoldsKey codec (keys.foldl (setCachedItem codec) c) k := by
  rw [HoldsKey, foldl_setCachedItem_entries]
  cases hk : lastEncoded codec k keys with
  | none => exact h
  | some r =>
      obtain ⟨key, b⟩ := r
      obtain ⟨-, -, hb⟩ := lastEncoded_spec codec hk
      exact ⟨b, _, key, rfl, codec.encode_ne_nil key b hb, codec.decode_encode key b hb⟩

theorem get_holdsKey (fetch : FetchOutcome) {c : LocalCache Bytes} {k : String} (j : String)
    (h : HoldsKey codec c k) : HoldsKey codec (get codec fetch c j).cache k := by
  unfold get
  split
  · exact h
  · rename_i hmiss
    have hjk : j ≠ k := by
      rintro rfl
      obtain ⟨_, hhit⟩ := getCachedItem_of_holdsKey codec h
      simp [hhit] at hmiss
    split
    · exact h
    · rename_i keys _
      have h' := holdsKey_foldl_setCachedItem codec keys h
      dsimp only
      split
      · exact h'
      · obtain ⟨b, e, jwk, hc, hb, hd⟩ := h'
        exact ⟨b, e, jwk, by rw [setEmptyCacheItem, LocalCache.set_entries_ne _ _ _ hjk.symm, hc], hb, hd⟩

/-- Without overlapping calls the placeholder never displaces a key: once
the cache holds a key that decodes under `k`, it holds one after any
sequence of `Get` calls, for any key ids and any answers of the
endpoint, and a `Get(k)` then returns a key with no fetch. -/
theorem sequential_gets_keep_key (c : LocalCache Bytes) (k : String)
    (calls : List (String × FetchOutcome)) (h : HoldsKey codec c k) :
    let c' := calls.foldl (fun c q => (get codec q.2 c q.1).cache) c
    HoldsKey codec c' k ∧ ∀ fetch, ∃ jwk, get codec fetch c' k = ⟨(some jwk, none), c', 0⟩ := by
  intro c'
  have hc' : HoldsKey codec c' k := by
    induction calls generalizing c with
    | nil => exact h
    | cons q calls ih => exact ih _ (get_holdsKey codec q.2 q.1 h)
  refine ⟨hc', fun fetch => ?_⟩
  obtain ⟨jwk, hhit⟩ := getCachedItem_of_holdsKey codec hc'
  exact ⟨jwk, by simp [get, hhit, keyResult]⟩

end

theorem sequential_gets_keep_key_single :
    HoldsKey (KeyCodec.single ⟨"k", "m"⟩) (LocalCache.empty.set "k" [1] .noExpiration) "k" ∧
    let c' := [("j", FetchOutcome.response 200 (some []))].foldl
      (fun c q => (get (KeyCodec.single ⟨"k", "m"⟩) q.2 c q.1).cache)
      (LocalCache.empty.set "k" [1] .noExpiration)
    HoldsKey (KeyCodec.single ⟨"k", "m"⟩) c' "k" ∧
      ∀ fetch, ∃ jwk, get (KeyCodec.single ⟨"k", "m"⟩) fetch c' "k" = ⟨(some jwk, none), c', 0⟩ := by
  have h : HoldsKey (KeyCodec.single ⟨"k", "m"⟩) (LocalCache.empty.set "k" [1] .noExpiration) "k" :=
    ⟨[1], .noExpiration, ⟨"k", "m"⟩, rfl, by decide, rfl⟩
  exact ⟨h, sequential_gets_keep_key _ _ "k" _ h⟩

end Authlib
