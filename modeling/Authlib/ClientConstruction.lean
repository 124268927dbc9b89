import Authlib.LegacyClient

/-!
# Building a client

`NewLegacyClient(cfg, opts...)` takes the caller's `*MultiTenantClientConfig`
and keeps the pointer: the client's `Check` reads
`accessTokenAuthEnabled` through it on every call. The constructor
first sets that field to `true` in the caller's config, and the option
`WithDisableAccessTokenLCOption` sets it to `false` there, where every
other option writes only the client being built.

The heap of configs is explicit (`Heap`), so the effect of a
construction on the configs is a statement: it rewrites exactly the
flag of the config it was given, to "enabled unless the option list
disables it", whatever else happens, failures included
(`newLegacyClient_heap`). A client built earlier on the same config
therefore decides with whatever flag the latest construction left
(`construction_flips_earlier_client`).
-/

namespace Authlib

/-- `LegacyClientOption`: the closures `WithCacheLCOption`,
`WithGrpcDialOptionsLCOption`, `WithGrpcConnectionLCOption`,
`WithTracerLCOption`, `WithNamespaceFormatterLCOption` and
`WithDisableAccessTokenLCOption` return, in that order. -/
inductive LegacyClientOption where
  | withCache (c : CacheRef)
  | withGrpcDialOptions (opts : List DialOption)
  | withGrpcConnection (conn : ConnRef)
  | withTracer (t : TracerRef)
  | withNamespaceFormatter (fmt : Int → String)
  | withDisableAccessToken

structure ClientDraft where
  authCfg : Ptr
  cache : Option CacheRef
  grpcConn : Option ConnRef
  grpcOptions : List DialOption
  namespaceFmt : Option (Int → String)
  tracer : Option TracerRef

def LegacyClientOption.apply : LegacyClientOption → ClientDraft × Heap → ClientDraft × Heap
  | .withCache c, (d, h) => ({ d with cache := some c }, h)
  | .withGrpcDialOptions opts, (d, h) => ({ d with grpcOptions := opts }, h)
  | .withGrpcConnection conn, (d, h) => ({ d with grpcConn := some conn }, h)
  | .withTracer t, (d, h) => ({ d with tracer := some t }, h)
  | .withNamespaceFormatter fmt, (d, h) => ({ d with namespaceFmt := some fmt }, h)
  | .withDisableAccessToken, (d, h) =>
      (d, Function.update h d.authCfg { h d.authCfg with accessTokenAuthEnabled := false })

/-- What `NewLegacyClient` takes from outside: the local cache it would
build, the no-op tracer, `claims.CloudNamespaceFormatter`, and
`grpc.NewClient`. -/
structure ClientDefaults where
  localCache : CacheRef
  noopTracer : TracerRef
  cloudNamespaceFormatter : Int → String
  dial : String → List DialOption → Except Error ConnRef

/-- `NewLegacyClient(cfg, opts...)`, with `none` a nil `cfg`. The
client's stats handler, a tracing dial option, is left out. -/
def newLegacyClient (env : ClientDefaults) (heap : Heap) (cfg : Option Ptr)
    (opts : List LegacyClientOption) : Except Error LegacyClientImpl × Heap :=
  match cfg with
  | none => (.error .missingConfig, heap)
  | some p =>
      let heap := Function.update heap p { heap p with accessTokenAuthEnabled := true }
      let (d, heap) := opts.foldl (fun dh o => o.apply dh) (⟨p, none, none, [], none, none⟩, heap)
      let build (conn : ConnRef) : LegacyClientImpl :=
        ⟨p, d.cache.getD env.localCache, conn, d.grpcOptions,
          d.namespaceFmt.getD env.cloudNamespaceFormatter, d.tracer.getD env.noopTracer⟩
      match d.grpcConn with
      | some conn => (.ok (build conn), heap)
      | none =>
          if (heap p).remoteAddress = "" then
            (.error (.wrap "missing remote address: " .missingConfig), heap)
          else
            match env.dial (heap p).remoteAddress d.grpcOptions with
            | .error e => (.error e, heap)
            | .ok conn => (.ok (build conn), heap)

/-! ## What a construction does to the configs -/

theorem LegacyClientOption.apply_authCfg (o : LegacyClientOption) (dh : ClientDraft × Heap) :
    (o.apply dh).1.authCfg = dh.1.authCfg := by
  cases o <;> rfl

theorem LegacyClientOption.apply_heap (o : LegacyClientOption) (dh : ClientDraft × Heap) :
    (o.apply dh).2 = match o with
      | .withDisableAccessToken =>
          Function.update dh.2 dh.1.authCfg { dh.2 dh.1.authCfg with accessTokenAuthEnabled := false }
      | _ => dh.2 := by
  cases o <;> rfl

theorem foldl_apply_heap (opts : List LegacyClientOption) (d : ClientDraft) (h : Heap) :
    (opts.foldl (fun dh o => o.apply dh) (d, h)).1.authCfg = d.authCfg ∧
    (opts.foldl (fun dh o => o.apply dh) (d, h)).2 =
      if opts.any (· matches .withDisableAccessToken) then
        Function.update h d.authCfg { h d.authCfg with accessTokenAuthEnabled := false }
      else h := by
  induction opts generalizing d h with
  | nil => simp
  | cons o opts ih =>
      simp only [List.foldl_cons]
      obtain ⟨ih₁, ih₂⟩ := ih (o.apply (d, h)).1 (o.apply (d, h)).2
      rw [LegacyClientOption.apply_authCfg] at ih₁ ih₂
      refine ⟨ih₁, ?_⟩
      rw [ih₂, LegacyClientOption.apply_heap]
      cases o <;> simp only [List.any_cons, Bool.true_or, Bool.false_or, if_true]
      all_goals split <;> simp [Function.update_idem]

theorem newLegacyClient_heap_eq_foldl (env : ClientDefaults) (heap : Heap) (p : Ptr)
    (opts : List LegacyClientOption) :
    (newLegacyClient env heap (some p) opts).2 =
      (opts.foldl (fun dh o => o.apply dh) (⟨p, none, none, [], none, none⟩,
        Function.update heap p { heap p with accessTokenAuthEnabled := true })).2 := by
  unfold newLegacyClient
  dsimp only
  split
  · rfl
  · split
    · rfl
    · split <;> rfl

/-- A construction on `cfg` writes the flag of `cfg` and nothing else:
`true`, or `false` when an option disables it. This holds whatever the
construction returns, an error included. -/
theorem newLegacyClient_heap (env : ClientDefaults) (heap : Heap) (p : Ptr)
    (opts : List LegacyClientOption) :
    (newLegacyClient env heap (some p) opts).2 =
      Function.update heap p
        { heap p with accessTokenAuthEnabled := !opts.any (· matches .withDisableAccessToken) } := by
  rw [newLegacyClient_heap_eq_foldl, (foldl_apply_heap _ _ _).2]
  cases opts.any (· matches .withDisableAccessToken) <;> simp

/-- Two clients on one config, each given a connection so that neither
dials, and a dial that would refuse every target: the second, built with
the disable option, turns access-token checking off for the first one
too. A request whose caller has neither claims facet, refused by the
first client before, is allowed after. -/
theorem construction_flips_earlier_client :
    let env : ClientDefaults :=
      ⟨⟨0⟩, ⟨0⟩, fun _ => "stacks-1", fun _ _ => .error (.other "grpc: no transport security set")⟩
    let heap₀ : Heap := fun _ => ⟨"localhost:10000", false⟩
    let conn : ConnRef := ⟨0⟩
    let r₁ := newLegacyClient env heap₀ (some 0) [.withGrpcConnection conn]
    let r₂ := newLegacyClient env r₁.2 (some 0) [.withGrpcConnection conn, .withDisableAccessToken]
    let req : CheckRequest := ⟨⟨none, none⟩, 1, "dashboards:read", none, []⟩
    let read : ReadRequest → Except Error ReadResponse := fun _ => .ok ⟨false, []⟩
    ∃ c₁, r₁.1 = .ok c₁ ∧ r₂.1.isOk = true ∧
      (r₁.2 c₁.authCfg).accessTokenAuthEnabled = true ∧
      (r₂.2 c₁.authCfg).accessTokenAuthEnabled = false ∧
      (c₁.check LocalCache.impl read (· == ·) r₁.2 req LocalCache.empty).result =
        .error .missingCaller ∧
      (c₁.check LocalCache.impl read (· == ·) r₂.2 req LocalCache.empty).result = .ok true :=
  ⟨_, rfl, by decide⟩

end Authlib
