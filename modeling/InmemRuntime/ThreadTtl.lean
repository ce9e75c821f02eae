import InmemRuntime.OrderedDict

namespace InmemRuntime.ThreadTtl
open OrderedDict

structure HttpException where
  statusCode : Nat
  detail : String
deriving DecidableEq,Repr

-- What ends a call early: an `HTTPException` of this code or of an auth
-- handler, or any other exception that external code raises.
inductive Fault where
  | http (exception : HttpException)
  | external
deriving DecidableEq,Repr

inductive Strategy where
  | delete
  | keepLatest
deriving DecidableEq,Repr

-- A value that `float()` may be asked to read.
inductive TtlNumber where
  | finite (minutes : Rat)
  | notFinite
  | notNumber
deriving DecidableEq,Repr

-- A TTL configuration as it is given. Each field is a key of the dictionary;
-- a number may be present and `None`. `strategy` is lower-case text already.
structure TtlConfig where
  strategy : Option String
  ttl : Option (Option TtlNumber)
  ttlMinutes : Option (Option TtlNumber)
  defaultTtl : Option (Option TtlNumber)

structure TtlPolicy where
  strategy : Strategy
  ttlMinutes : Rat
deriving DecidableEq,Repr

-- An entry of the `thread_ttls` sidecar.
structure TtlState where
  strategy : Option String
  ttlMinutes : Option (Option TtlNumber)
  lastSweptUpdatedAt : Option Int
deriving DecidableEq,Repr

def unprocessable (detail : String) : Fault := .http ⟨422,detail⟩

def notFound (detail : String) : Fault := .http ⟨404,detail⟩

def conflict (detail : String) : Fault := .http ⟨409,detail⟩

-- `timedelta(minutes=...)` in microseconds: the exact product, rounded half to
-- even. CPython multiplies the fraction of a minute as a float first.
def timedelta (minutes : Rat) : Int :=
  let exact_ := minutes * 60000000
  let low := exact_.floor
  if exact_ - low < 1/2 then low
  else if 1/2 < exact_ - low then low + 1
  else if low % 2 = 0 then low else low + 1

-- 9999-12-31T23:59:59.999999 in microseconds since the epoch.
def datetimeMax : Int := 253402300799999999

def strategyOf (name : String) : Option Strategy :=
  if name = "delete" then some .delete else if name = "keep_latest" then some .keepLatest else none

def chosenTtl (config : TtlConfig) : Option TtlNumber :=
  match config.ttl with
  | some value => value
  | none =>
    match config.ttlMinutes with
    | some value => value
    | none => config.defaultTtl.join

def normalizeTtlConfig (now : Int) (config : Option TtlConfig) : Except Fault (Option TtlPolicy) :=
  match config with
  | none => .ok none
  | some config =>
    let name := config.strategy.getD "delete"
    match strategyOf name with
    | none => .error (unprocessable ("Invalid thread TTL strategy: " ++ name ++ ". Expected 'delete' or 'keep_latest'."))
    | some strategy =>
      match chosenTtl config with
      | none => .ok none
      | some .notNumber => .error (unprocessable "Thread TTL must be a number of minutes.")
      | some .notFinite => .error (unprocessable "Thread TTL must be finite.")
      | some (.finite minutes) =>
        if minutes < 0 then .error (unprocessable "Thread TTL must be greater than or equal to 0.")
        else if datetimeMax < now + timedelta minutes then
          .error (unprocessable "Thread TTL is outside the supported datetime range.")
        else .ok (some ⟨strategy,minutes⟩)

def effectiveThreadTtl (now : Int) (globalTtl : Option TtlConfig) (ttls : Dict String TtlState) (threadId : String) :
    Except Fault (Option TtlPolicy × TtlState) :=
  let state := (ttls.get? threadId).getD ⟨none,none,none⟩
  let config := match state.ttlMinutes with
    | some minutes => some ⟨some (state.strategy.getD "delete"),none,some minutes,none⟩
    | none => globalTtl
  match normalizeTtlConfig now config with
  | .error fault => .error fault
  | .ok policy => .ok (policy,state)

def Strategy.name : Strategy → String
  | .delete => "delete"
  | .keepLatest => "keep_latest"

-- `_set_thread_ttl_override`: a rejected override leaves the sidecar alone.
def setThreadTtlOverride (now : Int) (ttls : Dict String TtlState) (threadId : String) (ttl : TtlConfig) :
    Except Fault (Dict String TtlState) :=
  match normalizeTtlConfig now (some ttl) with
  | .error fault => .error fault
  | .ok none => .ok (ttls.erase threadId)
  | .ok (some policy) =>
    .ok (ttls.insert threadId ⟨some policy.strategy.name,some (some (.finite policy.ttlMinutes)),none⟩)

theorem strategyOf_name (strategy : Strategy) : strategyOf strategy.name = some strategy := by
  cases strategy <;> rfl

-- An accepted override is what `_effective_thread_ttl` reads back, as long as
-- its expiry stays inside the datetime range.
theorem effective_override {now later : Int} {ttls ttls' : Dict String TtlState} {threadId : String} {ttl : TtlConfig}
    {policy : TtlPolicy} {globalTtl : Option TtlConfig} (accepted : normalizeTtlConfig now (some ttl) = .ok (some policy))
    (stored : setThreadTtlOverride now ttls threadId ttl = .ok ttls')
    (range : later + timedelta policy.ttlMinutes ≤ datetimeMax) :
    (effectiveThreadTtl later globalTtl ttls' threadId).map Prod.fst = .ok (some policy) := by
  have nonneg : ¬ policy.ttlMinutes < 0 := by
    unfold normalizeTtlConfig at accepted
    dsimp only at accepted
    split at accepted
    · cases accepted
    · split at accepted
      · cases accepted
      · cases accepted
      · cases accepted
      · split at accepted
        · cases accepted
        · split at accepted
          · cases accepted
          · rename_i bound _
            cases accepted
            exact bound
  simp only [setThreadTtlOverride,accepted,Except.ok.injEq] at stored
  subst stored
  have inside : ¬ datetimeMax < later + timedelta policy.ttlMinutes := by omega
  simp [effectiveThreadTtl,normalizeTtlConfig,chosenTtl,strategyOf_name,nonneg,inside,Except.map]

end InmemRuntime.ThreadTtl
