import Authlib.KeyFlight

/-!
# `VerifierBase.Verify`

`Verify(token)` parses the token, checks its type, picks the key id from
its headers, asks the key retriever for that key, checks the signature
under it and validates the claims. Parsing, signatures and claim
validation are go-jose's (`Jose`, a parameter); the package's own code is
the order of the checks, `validType`, `getKeyID` and `mapErr`.

The call of `keys.Get` splits `Verify` in two (`prelude`, `finish`): the
retriever's calls overlap with every other call's, and are the calls of
`KeyFlight`, so a `Verify` is a prelude, one call of the concurrent model
and a finish. `verify_key_served` puts the two together: whatever the
interleaving, `Verify` returns claims only when the signature verified
under a key that a fetch served for the token's first non-empty key id.
-/

namespace Authlib

/-- A JSON value under a header parameter, as `validType` tells them
apart: a string, or any other JSON value (a number, a boolean, null, an
array or an object). -/
inductive JsonValue where
  | string (s : String)
  | nonString
  deriving DecidableEq, Repr

/-- `jose.Header`: the `KeyID`, and `ExtraHeaders["typ"]` if present. -/
structure Header where
  keyID : String
  typ : Option JsonValue
  deriving DecidableEq, Repr

/-- `jwt.JSONWebToken`: one header per signature, and the rest, which
only go-jose reads. -/
structure JSONWebToken where
  headers : List Header
  payload : String
  deriving DecidableEq, Repr

/-- What `Verify` asks of go-jose: `jwt.ParseSigned`;
`parsed.Claims(jwk, ...)`, the signature checked under `jwk` (a nil key
included) and the claims decoded; and `claims.Validate(jwt.Expected{...})`
against the audiences, at the time of the call. -/
structure Jose (C : Type) where
  parseSigned : String → Option JSONWebToken
  claims : JSONWebToken → Option JSONWebKey → Except Error C
  validate : C → List String → Except Error Unit

/-- `VerifierBase`: `cfg.AllowedAudiences` and the token type. -/
structure VerifierBase where
  allowedAudiences : List String
  tokenType : String
  deriving DecidableEq, Repr

structure Claims (C : Type) where
  token : String
  claims : C

def validType (token : JSONWebToken) (typ : String) : Bool :=
  typ == "" ||
    token.headers.any fun h =>
      match h.typ with
      | some (.string t) => t == typ
      | _ => true

/-- `getKeyID`: the first non-empty `KeyID`. -/
def getKeyID : List Header → Except Error String
  | [] => .error .invalidSigningKey
  | h :: hs => if h.keyID ≠ "" then .ok h.keyID else getKeyID hs

def mapErr (err : Error) : Error :=
  if err.is .jwtExpired then .expiredToken
  else if err.is .jwtInvalidAudience then .invalidAudience
  else err

namespace VerifierBase

variable {C : Type} (jose : Jose C) (v : VerifierBase)

/-- `Verify` up to the call of `keys.Get`: the parsed token and the key id. -/
def prelude (token : String) : Except Error (JSONWebToken × String) :=
  match jose.parseSigned token with
  | none => .error .parseToken
  | some parsed =>
      if !validType parsed v.tokenType then .error .invalidTokenType
      else
        match getKeyID parsed.headers with
        | .error err => .error err
        | .ok keyID => .ok (parsed, keyID)

/-- `Verify` from the answer `(jwk, err)` of `keys.Get` on. -/
def finish (token : String) (parsed : JSONWebToken) :
    Option JSONWebKey × Option Error → Except Error (Claims C)
  | (_, some err) => .error err
  | (jwk, none) =>
      match jose.claims parsed jwk with
      | .error err => .error err
      | .ok c =>
          match jose.validate c v.allowedAudiences with
          | .error err => .error (mapErr err)
          | .ok () => .ok ⟨token, c⟩

/-- `Verify(token)` with a key retriever that answers `get`. -/
def verify (get : String → Option JSONWebKey × Option Error) (token : String) :
    Except Error (Claims C) :=
  match v.prelude jose token with
  | .error err => .error err
  | .ok (parsed, keyID) => v.finish jose token parsed (get keyID)

end VerifierBase

/-! ## What `Verify` returns claims for -/

def FirstKeyID (hs : List Header) (k : String) : Prop :=
  k ≠ "" ∧ ∃ pre h post, hs = pre ++ h :: post ∧ (∀ x ∈ pre, x.keyID = "") ∧ h.keyID = k

theorem getKeyID_ok {hs : List Header} {k : String} (h : getKeyID hs = .ok k) : FirstKeyID hs k := by
  induction hs with
  | nil => cases h
  | cons x hs ih =>
      simp only [getKeyID] at h
      split at h
      · cases h
        exact ⟨‹_›, [], x, hs, rfl, by simp, rfl⟩
      · rename_i hx
        obtain ⟨hk, pre, y, post, rfl, hpre, hy⟩ := ih h
        exact ⟨hk, x :: pre, y, post, rfl, List.forall_mem_cons.mpr ⟨not_not.mp hx, hpre⟩, hy⟩

namespace VerifierBase

variable {C : Type} (jose : Jose C) (v : VerifierBase)

theorem prelude_ok {token : String} {parsed : JSONWebToken} {k : String}
    (h : v.prelude jose token = .ok (parsed, k)) :
    jose.parseSigned token = some parsed ∧ validType parsed v.tokenType = true ∧
      FirstKeyID parsed.headers k := by
  unfold prelude at h
  split at h
  · cases h
  · rename_i parsed' hp
    split at h
    · cases h
    · split at h
      · cases h
      · rename_i hk
        cases h
        exact ⟨hp, by simpa using ‹¬(!validType parsed v.tokenType) = true›, getKeyID_ok hk⟩

theorem finish_ok {token : String} {parsed : JSONWebToken} {jwk : Option JSONWebKey}
    {err : Option Error} {cl : Claims C} (h : v.finish jose token parsed (jwk, err) = .ok cl) :
    err = none ∧ jose.claims parsed jwk = .ok cl.claims := by
  cases err with
  | some e => cases h
  | none =>
      simp only [finish] at h
      split at h
      · cases h
      · rename_i c hc
        split at h
        · cases h
        · cases h
          exact ⟨rfl, hc⟩

end VerifierBase

/-- Over every interleaving of key lookups and fetches from a fresh
retriever: a call of `Get(k)` that returns `(jwk, nil)` returns a key
with id `k` that some fetch returned earlier in the run, and a `Verify`
whose `Get` was such a call returns claims only for a token whose first
non-empty key id is `k` and whose signature go-jose accepted under that
key. Underneath: every non-empty cache entry under an id is the encoding
of a fetched key with that id, and an empty entry is read as the
known-invalid answer only. -/
theorem verify_key_served {C : Type} (codec : KeyCodec) (jose : Jose C) (v : VerifierBase)
    (keyIDs : List String) (evs : List KEvent) :
    let s := (KState.init LocalCache.empty keyIDs).run codec evs
    (∀ k b e, s.cache.entries k = some ⟨b, e⟩ → b ≠ [] →
      ∃ key ∈ s.served, key.keyID = k ∧ codec.encode key = some b) ∧
    (∀ k e, s.cache.entries k = some ⟨[], e⟩ → getCachedItem codec s.cache k = some none) ∧
    (∀ call ∈ s.calls, ∀ jwk, call.pc = .done jwk none →
      ∃ key, jwk = some key ∧ key.keyID = call.keyID ∧ key ∈ s.served) ∧
    ∀ (token : String) (parsed : JSONWebToken) (call : Call) (cl : Claims C),
      v.prelude jose token = .ok (parsed, call.keyID) → call ∈ s.calls →
      ∀ jwk err, call.pc = .done jwk err → v.finish jose token parsed (jwk, err) = .ok cl →
      ∃ key, jwk = some key ∧ key.keyID = call.keyID ∧ key ∈ s.served ∧
        FirstKeyID parsed.headers call.keyID ∧ jose.claims parsed (some key) = .ok cl.claims := by
  intro s
  have h := KState.keyInv_run codec keyIDs evs
  have hget : ∀ call ∈ s.calls, ∀ jwk, call.pc = .done jwk none →
      ∃ key, jwk = some key ∧ key.keyID = call.keyID ∧ key ∈ s.served := by
    intro call hcall jwk hdone
    cases jwk with
    | none => exact absurd hdone (h.answered call hcall)
    | some key => exact ⟨key, rfl, h.returned call hcall key none hdone⟩
  refine ⟨h.stored, fun k e he => by simp [getCachedItem, LocalCache.get, he], hget,
    fun token parsed call cl hpre hcall jwk err hdone hfin => ?_⟩
  obtain ⟨rfl, hclaims⟩ := v.finish_ok jose hfin
  obtain ⟨key, rfl, hid, hserved⟩ := hget call hcall jwk hdone
  exact ⟨key, rfl, hid, hserved, (v.prelude_ok jose hpre).2.2, hclaims⟩

/-! ## The token-type check

`validType` rejects a token only when a type is configured and every
header carries a `typ` that is a string other than it. A header without
`typ` passes, and so does one whose `typ` is not a JSON string: the
assertion `h.ExtraHeaders["typ"].(string)` fails, and `!ok` returns
true. -/

theorem typ_match_eq_false {o : Option JsonValue} {typ : String} :
    (match o with
      | some (.string t) => t == typ
      | _ => true) = false ↔ ∃ s, o = some (.string s) ∧ s ≠ typ := by
  rcases o with _ | (_ | _) <;> simp

theorem validType_eq_false_iff {token : JSONWebToken} {typ : String} :
    validType token typ = false ↔
      typ ≠ "" ∧ ∀ h ∈ token.headers, ∃ s, h.typ = some (.string s) ∧ s ≠ typ := by
  simp only [validType, Bool.or_eq_false_iff, beq_eq_false_iff_ne, List.any_eq_false,
    Bool.not_eq_true, typ_match_eq_false]

theorem getKeyID_error {hs : List Header} {e : Error} (h : getKeyID hs = .error e) :
    e = .invalidSigningKey := by
  induction hs with
  | nil => cases h; rfl
  | cons x hs ih =>
      simp only [getKeyID] at h
      split at h
      · cases h
      · exact ih h

namespace VerifierBase

variable {C : Type} (jose : Jose C) (v : VerifierBase)

theorem verify_rejects_iff {token : String} {e : Error} :
    (∀ get, v.verify jose get token = .error e) ↔ v.prelude jose token = .error e := by
  refine ⟨fun h => ?_, fun h get => by simp only [verify, h]⟩
  cases hpre : v.prelude jose token with
  | error e' => simpa [verify, hpre] using h fun _ => (none, none)
  | ok pk =>
      have h₁ := h fun _ => (none, some .parseToken)
      have h₂ := h fun _ => (none, some .notFound)
      simp only [verify, hpre, finish] at h₁ h₂
      cases h₁.trans h₂.symm

theorem prelude_eq_invalidTokenType_iff {token : String} :
    v.prelude jose token = .error .invalidTokenType ↔
      ∃ parsed, jose.parseSigned token = some parsed ∧ validType parsed v.tokenType = false := by
  unfold prelude
  cases jose.parseSigned token with
  | none => simp
  | some parsed =>
      cases hv : validType parsed v.tokenType
      · simp [hv]
      · cases hk : getKeyID parsed.headers with
        | error e => simp [hv, hk, getKeyID_error hk]
        | ok k => simp [hv, hk]

end VerifierBase

/-- A token with one signature header, under a configured token type:
`Verify` fails with `ErrInvalidTokenType`, whatever the key retriever
would answer, exactly when the header's `typ` is a string other than
the configured type. A `typ` that is a number, a boolean, an array or
an object passes the check, and `Verify` goes on to ask the key
retriever for the header's key and decide from its answer. -/
theorem typ_check_single_header {C : Type} (jose : Jose C) (v : VerifierBase) {token : String}
    {parsed : JSONWebToken} {h : Header} (hp : jose.parseSigned token = some parsed)
    (hh : parsed.headers = [h]) (ht : v.tokenType ≠ "") :
    ((∀ get, v.verify jose get token = .error .invalidTokenType) ↔
      ∃ s, h.typ = some (.string s) ∧ s ≠ v.tokenType) ∧
    (h.typ = some .nonString → h.keyID ≠ "" →
      ∀ get, v.verify jose get token = v.finish jose token parsed (get h.keyID)) := by
  refine ⟨?_, fun hn hk get => ?_⟩
  · rw [v.verify_rejects_iff jose, v.prelude_eq_invalidTokenType_iff jose]
    simp [hp, validType_eq_false_iff, hh, ht]
  · simp [VerifierBase.verify, VerifierBase.prelude, hp, validType, hh, hn, getKeyID, hk]

theorem typ_check_single_header_number :
    let jose : Jose Unit :=
      ⟨fun _ => some ⟨[⟨"k", some .nonString⟩], ""⟩, fun _ _ => .ok (), fun _ _ => .ok ()⟩
    ∃ cl, (VerifierBase.mk [] "jwt").verify jose (fun _ => (some ⟨"k", "pem"⟩, none)) "t" = .ok cl := by
  intro jose
  rw [(typ_check_single_header jose _ rfl rfl (by decide)).2 rfl (by decide)]
  exact ⟨_, rfl⟩

end Authlib
