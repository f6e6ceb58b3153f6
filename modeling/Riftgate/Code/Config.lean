import Riftgate.Code.Broker

/-!
# The configuration: `riftgate-config/src/loader.rs`, `validate.rs`, `schema.rs`, `secret.rs` and `error.rs`

Socket addresses, `f32`, the file system and the TOML reader are parameters. `to_lowercase` is that of ASCII: no other
letter becomes one of the words that the loader compares with. A `usize` has 64 bits.
-/

open Lib

namespace Riftgate.Loader

open Tenant Broker

/-! ## The schema -/

structure ServerConfig (Addr : Type) where
  listenAddr : Addr
  workerThreads : Option UInt64 := none

/-- `authHeader` is the inner value of the `Secret`. -/
structure BackendConfig where
  url : String := ""
  authHeader : String := ""
  timeoutMs : UInt32 := 30000
  tlsVerify : Bool := true
  deriving DecidableEq, Repr

structure TimerConfig where
  tickResolutionMs : UInt32 := 10
  deriving DecidableEq, Repr

structure ObsConfig (F32 : Type) where
  otelEndpoint : String := "http://127.0.0.1:4317"
  sampleRate : F32
  busCapacity : UInt64 := 4096

inductive LogFormat where
  | json
  | pretty
  deriving DecidableEq, Repr

structure LogConfig where
  level : String := "info"
  format : LogFormat := .json
  deriving DecidableEq, Repr

/-- The last two sections are derived defaults: they do not enforce, and have no mode. -/
structure Config (Addr F32 : Type) where
  server : ServerConfig Addr
  backend : BackendConfig := {}
  timer : TimerConfig := {}
  obs : ObsConfig F32
  log : LogConfig := {}
  mcp : McpConfig := { enforce := false }
  multitenancy : MultitenancyConfig := { mode := "" }

/-- What `Debug`, `Display` and `Serialize` show of a `Secret`. -/
def redacted : String := "***"

/-- The configuration as it is printed, in logs or by a dump. -/
def Config.shown {Addr F32 : Type} (config : Config Addr F32) : Config Addr F32 :=
  { config with backend := { config.backend with authHeader := redacted } }

/-! ## Errors -/

inductive SourceLayer where
  | defaults
  | file
  | env
  deriving DecidableEq, Repr

def SourceLayer.text : SourceLayer → String
  | .defaults => "defaults"
  | .file => "file"
  | .env => "env"

inductive ConfigError where
  | fileRead (path message : String)
  | tomlParse (path message : String)
  | envParse (key expected got : String)
  | validation (path expected got : String) (layer : SourceLayer)
  deriving DecidableEq, Repr

def ConfigError.text : ConfigError → String
  | .fileRead path message => "could not read config file `" ++ path ++ "`: " ++ message
  | .tomlParse path message => "invalid TOML in `" ++ path ++ "`: " ++ message
  | .envParse key expected got => "env var `" ++ key ++ "` is not a valid " ++ expected ++ ": got `" ++ got ++ "`"
  | .validation path expected got layer =>
    "config validation: `" ++ path ++ "` must be " ++ expected ++ ", got `" ++ got ++ "` (from " ++ layer.text ++ ")"

/-! ## The libraries -/

/-- `sampleInRange` is `(0.0..=1.0).contains`. -/
structure Libs (Addr F32 : Type) where
  parseAddr : String → Except String Addr
  parseF32 : String → Except String F32
  displayF32 : F32 → String
  sampleInRange : F32 → Bool
  defaultListenAddr : Addr
  defaultSampleRate : F32
  readToString : String → Except String String
  fromToml : String → Except String (Config Addr F32)

def parseDigits (bound value : Nat) : List Char → Except String Nat
  | [] => .ok value
  | c :: l =>
    if c.isDigit = false then .error "invalid digit found in string"
    else if bound ≤ 10 * value + (c.toNat - 48) then .error "number too large to fit in target type"
    else parseDigits bound (10 * value + (c.toNat - 48)) l

/-- `parse` of an unsigned type with the values below `bound`. -/
def parseInt (bound : Nat) (s : String) : Except String Nat :=
  match s.toList with
  | [] => .error "cannot parse integer from empty string"
  | ['+'] => .error "invalid digit found in string"
  | '+' :: digits => parseDigits bound 0 digits
  | digits => parseDigits bound 0 digits

def parseU32 (s : String) : Except String UInt32 := (parseInt (2 ^ 32) s).map UInt32.ofNat

def parseUsize (s : String) : Except String UInt64 := (parseInt (2 ^ 64) s).map UInt64.ofNat

def parseBool (s : String) : Option Bool :=
  if s.toLower ∈ ["true", "1", "yes", "on"] then some true
  else if s.toLower ∈ ["false", "0", "no", "off"] then some false
  else none

section

variable {Addr F32 : Type} (libs : Libs Addr F32)

/-! ## The environment -/

/-- An arm of the match that parses its value: what it does to the configuration, or its error. -/
def parsed {β : Type} (key expected value : String) (parse : String → Except String β)
    (set : β → Config Addr F32 → Config Addr F32) : Except ConfigError (Config Addr F32 → Config Addr F32) :=
  match parse value with
  | .ok b => .ok (set b)
  | .error e => .error (.envParse key expected (value ++ " (" ++ e ++ ")"))

/-- An arm that looks its value up in a fixed list of words. -/
def chosen {β : Type} (key expected value : String) (choice : Option β)
    (set : β → Config Addr F32 → Config Addr F32) : Except ConfigError (Config Addr F32 → Config Addr F32) :=
  match choice with
  | some b => .ok (set b)
  | none => .error (.envParse key expected value)

/-- The match of `apply_env_overrides`. A key that it does not know is passed over, with a warning at most. -/
def envOverride (k v : String) : Except ConfigError (Config Addr F32 → Config Addr F32) :=
  if k = "RIFTGATE_SERVER_LISTEN_ADDR" then
    parsed k "socket address (e.g. 127.0.0.1:8080)" v libs.parseAddr fun addr config =>
      { config with server := { config.server with listenAddr := addr } }
  else if k = "RIFTGATE_SERVER_WORKER_THREADS" then
    parsed k "positive integer" v parseUsize fun n config =>
      { config with server := { config.server with workerThreads := some n } }
  else if k = "RIFTGATE_BACKEND_URL" then
    .ok fun config => { config with backend := { config.backend with url := v } }
  else if k = "RIFTGATE_BACKEND_AUTH_HEADER" then
    .ok fun config => { config with backend := { config.backend with authHeader := v } }
  else if k = "RIFTGATE_BACKEND_TIMEOUT_MS" then
    parsed k "positive integer (ms)" v parseU32 fun n config =>
      { config with backend := { config.backend with timeoutMs := n } }
  else if k = "RIFTGATE_BACKEND_TLS_VERIFY" then
    chosen k "boolean (true/false/1/0)" v (parseBool v) fun b config =>
      { config with backend := { config.backend with tlsVerify := b } }
  else if k = "RIFTGATE_TIMER_TICK_RESOLUTION_MS" then
    parsed k "positive integer (ms)" v parseU32 fun n config => { config with timer := ⟨n⟩ }
  else if k = "RIFTGATE_OBS_OTEL_ENDPOINT" then
    .ok fun config => { config with obs := { config.obs with otelEndpoint := v } }
  else if k = "RIFTGATE_OBS_SAMPLE_RATE" then
    parsed k "f32 in [0.0, 1.0]" v libs.parseF32 fun n config =>
      { config with obs := { config.obs with sampleRate := n } }
  else if k = "RIFTGATE_OBS_BUS_CAPACITY" then
    parsed k "positive integer" v parseUsize fun n config =>
      { config with obs := { config.obs with busCapacity := n } }
  else if k = "RIFTGATE_LOG_LEVEL" then .ok fun config => { config with log := { config.log with level := v } }
  else if k = "RIFTGATE_LOG_FORMAT" then
    chosen k "log format: \"json\" or \"pretty\"" v
      (if v.toLower = "json" then some .json else if v.toLower = "pretty" then some .pretty else none)
      fun format config => { config with log := { config.log with format := format } }
  else .ok id

/-- One turn of `apply_env_overrides`. -/
def applyEnvOverride (acc : Config Addr F32 × List ConfigError) (entry : String × String) :
    Config Addr F32 × List ConfigError :=
  match envOverride libs entry.1 entry.2 with
  | .ok set => (set acc.1, acc.2)
  | .error e => (acc.1, acc.2 ++ [e])

def applyEnvOverrides (config : Config Addr F32) (env : Table String String) : Config Addr F32 × List ConfigError :=
  env.pairs.foldl (applyEnvOverride libs) (config, [])

/-! ## Validation -/

def check (violated : Prop) [Decidable violated] (path expected got : String) (layer : SourceLayer) :
    List ConfigError :=
  if violated then [.validation path expected got layer] else []

def validateUrl (url : String) : List ConfigError :=
  if url = "" then [.validation "backend.url" "a non-empty URL" "(empty)" .defaults]
  else
    check (¬ ("http://".isPrefixOf url ∨ "https://".isPrefixOf url)) "backend.url"
      "a URL starting with http:// or https://" url .file

def validate (cfg : Config Addr F32) : List ConfigError :=
  validateUrl cfg.backend.url ++
  check (cfg.backend.timeoutMs = 0) "backend.timeout_ms" "a positive integer (ms)" "0" .file ++
  check (cfg.server.workerThreads = some 0) "server.worker_threads" "a positive integer or omitted (autodetect)" "0"
    .file ++
  check (cfg.timer.tickResolutionMs = 0) "timer.tick_resolution_ms" "a positive integer (ms)" "0" .file ++
  check (libs.sampleInRange cfg.obs.sampleRate = false) "obs.sample_rate" "a real number in [0.0, 1.0]"
    (libs.displayF32 cfg.obs.sampleRate) .file ++
  check (cfg.obs.busCapacity = 0) "obs.bus_capacity" "a positive integer" "0" .file ++
  check (cfg.log.level.toLower ∉ ["trace", "debug", "info", "warn", "error", "off"]) "log.level"
    "one of: trace, debug, info, warn, error, off" cfg.log.level .file

/-! ## Loading -/

def Libs.defaults : Config Addr F32 where
  server := { listenAddr := libs.defaultListenAddr }
  obs := { sampleRate := libs.defaultSampleRate }

/-- The first two layers: the defaults, or the file, whose reader fills them in. -/
def readConfig (path : Option String) : Except (List ConfigError) (Config Addr F32) :=
  match path with
  | none => .ok libs.defaults
  | some path =>
    match libs.readToString path with
    | .error e => .error [.fileRead path e]
    | .ok text =>
      match libs.fromToml text with
      | .error e => .error [.tomlParse path e]
      | .ok parsed => .ok parsed

/-- `load`. All errors of the environment and of the validation come together. -/
def load (path : Option String) (env : Table String String) : Except (List ConfigError) (Config Addr F32) :=
  match readConfig libs path with
  | .error errors => .error errors
  | .ok config =>
    let (config, errors) := applyEnvOverrides libs config env
    match errors ++ validate libs config with
    | [] => .ok config
    | errors => .error errors

end

end Riftgate.Loader
