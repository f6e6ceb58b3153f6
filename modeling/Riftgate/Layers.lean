import Riftgate.Lib.Settings
import Riftgate.Code.Config

/-!
# What the layers of the configuration make of each other

The environment is a hash map, so its overrides come in any order. Each of them sets one field, and the fields are
different, so the order does not matter.
-/

open Lib

namespace Riftgate.Loader

variable {Addr F32 : Type} {libs : Libs Addr F32}

/-! ## One override -/

/-- A value for the field of one key. -/
inductive Setting (Addr F32 : Type) where
  | listenAddr (addr : Addr)
  | workerThreads (n : Option UInt64)
  | url (s : String)
  | authHeader (s : String)
  | timeoutMs (n : UInt32)
  | tlsVerify (b : Bool)
  | tickResolutionMs (n : UInt32)
  | otelEndpoint (s : String)
  | sampleRate (x : F32)
  | busCapacity (n : UInt64)
  | level (s : String)
  | format (f : LogFormat)

namespace Setting

def key : Setting Addr F32 → String
  | listenAddr _ => "RIFTGATE_SERVER_LISTEN_ADDR"
  | workerThreads _ => "RIFTGATE_SERVER_WORKER_THREADS"
  | url _ => "RIFTGATE_BACKEND_URL"
  | authHeader _ => "RIFTGATE_BACKEND_AUTH_HEADER"
  | timeoutMs _ => "RIFTGATE_BACKEND_TIMEOUT_MS"
  | tlsVerify _ => "RIFTGATE_BACKEND_TLS_VERIFY"
  | tickResolutionMs _ => "RIFTGATE_TIMER_TICK_RESOLUTION_MS"
  | otelEndpoint _ => "RIFTGATE_OBS_OTEL_ENDPOINT"
  | sampleRate _ => "RIFTGATE_OBS_SAMPLE_RATE"
  | busCapacity _ => "RIFTGATE_OBS_BUS_CAPACITY"
  | level _ => "RIFTGATE_LOG_LEVEL"
  | format _ => "RIFTGATE_LOG_FORMAT"

def set (config : Config Addr F32) : Setting Addr F32 → Config Addr F32
  | listenAddr addr => { config with server := { config.server with listenAddr := addr } }
  | workerThreads n => { config with server := { config.server with workerThreads := n } }
  | url s => { config with backend := { config.backend with url := s } }
  | authHeader s => { config with backend := { config.backend with authHeader := s } }
  | timeoutMs n => { config with backend := { config.backend with timeoutMs := n } }
  | tlsVerify b => { config with backend := { config.backend with tlsVerify := b } }
  | tickResolutionMs n => { config with timer := ⟨n⟩ }
  | otelEndpoint s => { config with obs := { config.obs with otelEndpoint := s } }
  | sampleRate x => { config with obs := { config.obs with sampleRate := x } }
  | busCapacity n => { config with obs := { config.obs with busCapacity := n } }
  | level s => { config with log := { config.log with level := s } }
  | format f => { config with log := { config.log with format := f } }

theorem set_comm {s s' : Setting Addr F32} (h : s.key ≠ s'.key) (config : Config Addr F32) :
    s.set (s'.set config) = s'.set (s.set config) := by
  cases s <;> cases s' <;> first | rfl | exact absurd rfl h

/-- The setting with the value that a configuration has for it. -/
def current (config : Config Addr F32) : Setting Addr F32 → Setting Addr F32
  | listenAddr _ => .listenAddr config.server.listenAddr
  | workerThreads _ => .workerThreads config.server.workerThreads
  | url _ => .url config.backend.url
  | authHeader _ => .authHeader config.backend.authHeader
  | timeoutMs _ => .timeoutMs config.backend.timeoutMs
  | tlsVerify _ => .tlsVerify config.backend.tlsVerify
  | tickResolutionMs _ => .tickResolutionMs config.timer.tickResolutionMs
  | otelEndpoint _ => .otelEndpoint config.obs.otelEndpoint
  | sampleRate _ => .sampleRate config.obs.sampleRate
  | busCapacity _ => .busCapacity config.obs.busCapacity
  | level _ => .level config.log.level
  | format _ => .format config.log.format

theorem exists_current (s : Setting Addr F32) (config : Config Addr F32) :
    ∃ t : Setting Addr F32, t.key = s.key ∧ t.set config = config := by
  refine ⟨s.current config, ?_, ?_⟩
  · cases s <;> rfl
  · cases s <;> rfl

theorem current_set {s t : Setting Addr F32} (h : t.key = s.key) (config : Config Addr F32) :
    s.current (t.set config) = t := by
  cases s <;> cases t <;> first | rfl | exact absurd h (by simp [key])

theorem eq_of_same {c c' : Config Addr F32}
    (h : ∀ s : Setting Addr F32, ∃ t : Setting Addr F32, t.key = s.key ∧ t.set c = c ∧ t.set c' = c')
    (hmcp : c.mcp = c'.mcp) (htenancy : c.multitenancy = c'.multitenancy) : c = c' := by
  have same : ∀ s : Setting Addr F32, s.current c = s.current c' := by
    intro s
    obtain ⟨t, ht, hc, hc'⟩ := h s
    rw [← hc, ← hc', current_set ht, current_set ht]
  have hlisten := same (.listenAddr c.server.listenAddr)
  have hworkers := same (.workerThreads none)
  have hurl := same (.url "")
  have hauth := same (.authHeader "")
  have htimeout := same (.timeoutMs 0)
  have htls := same (.tlsVerify true)
  have htick := same (.tickResolutionMs 0)
  have hotel := same (.otelEndpoint "")
  have hsample := same (.sampleRate c.obs.sampleRate)
  have hbus := same (.busCapacity 0)
  have hlevel := same (.level "")
  have hformat := same (.format .json)
  obtain ⟨⟨_, _⟩, ⟨_, _, _, _⟩, ⟨_⟩, ⟨_, _, _⟩, ⟨_, _⟩, _, _⟩ := c
  obtain ⟨⟨_, _⟩, ⟨_, _, _, _⟩, ⟨_⟩, ⟨_, _, _⟩, ⟨_, _⟩, _, _⟩ := c'
  cases hlisten
  cases hworkers
  cases hurl
  cases hauth
  cases htimeout
  cases htls
  cases htick
  cases hotel
  cases hsample
  cases hbus
  cases hlevel
  cases hformat
  cases hmcp
  cases htenancy
  rfl

theorem set_set (s : Setting Addr F32) (config : Config Addr F32) : s.set (s.set config) = s.set config := by
  cases s <;> rfl

end Setting

theorem parsed_ok {β : Type} {key expected value : String} {parse : String → Except String β}
    {set : β → Config Addr F32 → Config Addr F32} {f : Config Addr F32 → Config Addr F32}
    (h : parsed key expected value parse set = .ok f) : ∃ b, f = set b := by
  unfold parsed at h
  split at h
  · rename_i b _
    cases h
    exact ⟨b, rfl⟩
  · cases h

theorem chosen_ok {β : Type} {key expected value : String} {choice : Option β}
    {set : β → Config Addr F32 → Config Addr F32} {f : Config Addr F32 → Config Addr F32}
    (h : chosen key expected value choice set = .ok f) : ∃ b, f = set b := by
  cases choice with
  | none => cases h
  | some b =>
    cases h
    exact ⟨b, rfl⟩

theorem ite_ok {p : Prop} [Decidable p] {x y : Except ConfigError (Config Addr F32 → Config Addr F32)}
    {f : Config Addr F32 → Config Addr F32} (h : (if p then x else y) = .ok f) :
    p ∧ x = .ok f ∨ ¬ p ∧ y = .ok f := by
  by_cases hp : p
  · rw [if_pos hp] at h
    exact Or.inl ⟨hp, h⟩
  · rw [if_neg hp] at h
    exact Or.inr ⟨hp, h⟩

theorem envOverride_ok {k v : String} {f : Config Addr F32 → Config Addr F32} (h : envOverride libs k v = .ok f) :
    (f = id ∧ ∀ s : Setting Addr F32, s.key ≠ k) ∨ ∃ s : Setting Addr F32, s.key = k ∧ f = fun config => s.set config := by
  unfold envOverride at h
  rcases ite_ok h with ⟨hk, h⟩ | ⟨h1, h⟩
  · obtain ⟨addr, rfl⟩ := parsed_ok h
    exact Or.inr ⟨.listenAddr addr, hk.symm, rfl⟩
  rcases ite_ok h with ⟨hk, h⟩ | ⟨h2, h⟩
  · obtain ⟨n, rfl⟩ := parsed_ok h
    exact Or.inr ⟨.workerThreads (some n), hk.symm, rfl⟩
  rcases ite_ok h with ⟨hk, h⟩ | ⟨h3, h⟩
  · cases h
    exact Or.inr ⟨.url v, hk.symm, rfl⟩
  rcases ite_ok h with ⟨hk, h⟩ | ⟨h4, h⟩
  · cases h
    exact Or.inr ⟨.authHeader v, hk.symm, rfl⟩
  rcases ite_ok h with ⟨hk, h⟩ | ⟨h5, h⟩
  · obtain ⟨n, rfl⟩ := parsed_ok h
    exact Or.inr ⟨.timeoutMs n, hk.symm, rfl⟩
  rcases ite_ok h with ⟨hk, h⟩ | ⟨h6, h⟩
  · obtain ⟨b, rfl⟩ := chosen_ok h
    exact Or.inr ⟨.tlsVerify b, hk.symm, rfl⟩
  rcases ite_ok h with ⟨hk, h⟩ | ⟨h7, h⟩
  · obtain ⟨n, rfl⟩ := parsed_ok h
    exact Or.inr ⟨.tickResolutionMs n, hk.symm, rfl⟩
  rcases ite_ok h with ⟨hk, h⟩ | ⟨h8, h⟩
  · cases h
    exact Or.inr ⟨.otelEndpoint v, hk.symm, rfl⟩
  rcases ite_ok h with ⟨hk, h⟩ | ⟨h9, h⟩
  · obtain ⟨x, rfl⟩ := parsed_ok h
    exact Or.inr ⟨.sampleRate x, hk.symm, rfl⟩
  rcases ite_ok h with ⟨hk, h⟩ | ⟨h10, h⟩
  · obtain ⟨n, rfl⟩ := parsed_ok h
    exact Or.inr ⟨.busCapacity n, hk.symm, rfl⟩
  rcases ite_ok h with ⟨hk, h⟩ | ⟨h11, h⟩
  · cases h
    exact Or.inr ⟨.level v, hk.symm, rfl⟩
  rcases ite_ok h with ⟨hk, h⟩ | ⟨h12, h⟩
  · obtain ⟨f, rfl⟩ := chosen_ok h
    exact Or.inr ⟨.format f, hk.symm, rfl⟩
  · cases h
    refine Or.inl ⟨rfl, fun s => ?_⟩
    cases s with
    | listenAddr _ => exact Ne.symm h1
    | workerThreads _ => exact Ne.symm h2
    | url _ => exact Ne.symm h3
    | authHeader _ => exact Ne.symm h4
    | timeoutMs _ => exact Ne.symm h5
    | tlsVerify _ => exact Ne.symm h6
    | tickResolutionMs _ => exact Ne.symm h7
    | otelEndpoint _ => exact Ne.symm h8
    | sampleRate _ => exact Ne.symm h9
    | busCapacity _ => exact Ne.symm h10
    | level _ => exact Ne.symm h11
    | format _ => exact Ne.symm h12

/-! ## All overrides -/

/-- What the override of an entry leaves of a configuration. -/
def applied (libs : Libs Addr F32) (entry : String × String) (config : Config Addr F32) : Config Addr F32 :=
  match envOverride libs entry.1 entry.2 with
  | .ok set => set config
  | .error _ => config

def failed (libs : Libs Addr F32) (entry : String × String) : Option ConfigError :=
  match envOverride libs entry.1 entry.2 with
  | .ok _ => none
  | .error e => some e

theorem applied_cases (libs : Libs Addr F32) (entry : String × String) :
    applied libs entry = id ∨ ∃ s : Setting Addr F32, s.key = entry.1 ∧ applied libs entry = fun c => s.set c := by
  cases h : envOverride libs entry.1 entry.2 with
  | error e =>
    left
    funext config
    simp [applied, h]
  | ok set =>
    have happ : applied libs entry = set := by
      funext config
      simp [applied, h]
    rw [happ]
    rcases envOverride_ok h with ⟨hid, -⟩ | hset
    · exact Or.inl hid
    · exact Or.inr hset

theorem applied_independent (libs : Libs Addr F32) : Independent (applied libs) Prod.fst where
  comm a b config hab := by
    rcases applied_cases libs a with ha | ⟨s, hs, ha⟩
    · rw [ha]
      rfl
    · rcases applied_cases libs b with hb | ⟨t, ht, hb⟩
      · rw [hb]
        rfl
      · rw [ha, hb]
        exact Setting.set_comm (by rwa [hs, ht]) config
  idem a config := by
    rcases applied_cases libs a with ha | ⟨s, -, ha⟩
    · rw [ha]
      rfl
    · rw [ha]
      exact s.set_set config

theorem foldl_applyEnvOverride (libs : Libs Addr F32) (l : List (String × String))
    (acc : Config Addr F32 × List ConfigError) :
    l.foldl (applyEnvOverride libs) acc =
      (writeAll (applied libs) l acc.1, acc.2 ++ l.filterMap (failed libs)) := by
  induction l generalizing acc with
  | nil => exact Prod.ext rfl (List.append_nil _).symm
  | cons entry l ih =>
    rw [List.foldl_cons, ih]
    cases h : envOverride libs entry.1 entry.2 with
    | ok set => simp [applyEnvOverride, writeAll, applied, failed, h]
    | error e => simp [applyEnvOverride, writeAll, applied, failed, h]

theorem applyEnvOverrides_eq (libs : Libs Addr F32) (config : Config Addr F32) (env : Table String String) :
    applyEnvOverrides libs config env =
      (writeAll (applied libs) env.pairs config, env.pairs.filterMap (failed libs)) := by
  rw [applyEnvOverrides, foldl_applyEnvOverride, List.nil_append]

/-- What `load` returns at its end. -/
def outcome (config : Config Addr F32) : List ConfigError → Except (List ConfigError) (Config Addr F32)
  | [] => .ok config
  | errors => .error errors

theorem load_eq {path : Option String} {config : Config Addr F32} (h : readConfig libs path = .ok config)
    (env : Table String String) :
    load libs path env =
      outcome (writeAll (applied libs) env.pairs config)
        (env.pairs.filterMap (failed libs) ++ validate libs (writeAll (applied libs) env.pairs config)) := by
  simp only [load, h, applyEnvOverrides_eq]
  rfl

theorem load_error {path : Option String} {errors : List ConfigError} (h : readConfig libs path = .error errors)
    (env : Table String String) : load libs path env = .error errors := by
  simp only [load, h]

theorem outcome_eq_ok {config c : Config Addr F32} {errors : List ConfigError} :
    outcome config errors = .ok c ↔ errors = [] ∧ config = c := by
  cases errors with
  | nil => simp [outcome]
  | cons e errors => simp [outcome]

/-! ## Two loads -/

/-- The two loads are the same to someone who sees `view` of a configuration, and the errors in some order. -/
def Alike {τ : Type} (view : Config Addr F32 → τ) :
    Except (List ConfigError) (Config Addr F32) → Except (List ConfigError) (Config Addr F32) → Prop
  | .ok c, .ok c' => view c = view c'
  | .error errors, .error errors' => errors.Perm errors'
  | _, _ => False

theorem alike_outcome {τ : Type} {view : Config Addr F32 → τ} {c c' : Config Addr F32}
    {errors errors' : List ConfigError} (hc : view c = view c') (herrors : errors.Perm errors') :
    Alike view (outcome c errors) (outcome c' errors') := by
  cases errors with
  | nil =>
    rw [List.nil_perm.mp herrors]
    exact hc
  | cons e errors =>
    cases errors' with
    | nil => exact absurd (List.perm_nil.mp herrors) (List.cons_ne_nil e errors)
    | cons e' errors' => exact herrors

/-- A process hands its environment to the loader as a hash map, in whatever order that iterates: the configuration
does not depend on the order, and when the load fails, it is for the same reasons. -/
theorem load_order (libs : Libs Addr F32) (path : Option String) {env env' : Table String String}
    (henv : ∀ k, env.lookup k = env'.lookup k) : Alike id (load libs path env) (load libs path env') := by
  have hperm : env.pairs.Perm env'.pairs := Table.pairs_perm henv
  cases hread : readConfig libs path with
  | error errors =>
    rw [load_error hread, load_error hread]
    exact List.Perm.refl errors
  | ok config =>
    have hconfig : writeAll (applied libs) env.pairs config = writeAll (applied libs) env'.pairs config :=
      (applied_independent libs).writeAll_perm hperm (by rw [Table.pairs_keys]; exact env.keys_nodup) config
    rw [load_eq hread, load_eq hread, hconfig]
    exact alike_outcome rfl ((hperm.filterMap (failed libs)).append_right _)

/-- A gateway with two files, and sample rates in thousandths. -/
def twoFiles : Libs String Nat where
  parseAddr s := if s = "0.0.0.0:80" then .ok s else .error "invalid socket address syntax"
  parseF32 s := if s = "0.5" then .ok 500 else .error "invalid float literal"
  displayF32 _ := "0.5"
  sampleInRange x := x ≤ 1000
  defaultListenAddr := "127.0.0.1:8080"
  defaultSampleRate := 1000
  readToString path :=
    if path = "a.toml" then .ok "[backend]\nauth_header = \"a\""
    else if path = "b.toml" then .ok "[backend]\nauth_header = \"b\""
    else if path = "open.toml" then .ok "[backend]\nauth_header = \"a"
    else .error "No such file or directory (os error 2)"
  fromToml text :=
    if text = "[backend]\nauth_header = \"a" then
      .error "TOML parse error at line 2, column 17\n2 | auth_header = \"a\ninvalid basic string"
    else
      .ok {
        server := { listenAddr := "127.0.0.1:8080" }
        backend := { authHeader := if text = "[backend]\nauth_header = \"a\"" then "a" else "b" }
        obs := { sampleRate := 1000 } }

theorem load_either_order :
    Alike id
      (load twoFiles none (Table.collect [("RIFTGATE_BACKEND_URL", "http://b"), ("RIFTGATE_OBS_SAMPLE_RATE", "x")]))
      (load twoFiles none (Table.collect [("RIFTGATE_OBS_SAMPLE_RATE", "x"), ("RIFTGATE_BACKEND_URL", "http://b")])) :=
  load_order twoFiles none fun _ => AList.perm_lookup (by decide)

/-! ## The secret -/

/-- The variable whose value is a secret. -/
def secretKey : String := "RIFTGATE_BACKEND_AUTH_HEADER"

theorem shown_set (s : Setting Addr F32) {c c' : Config Addr F32} (h : c.shown = c'.shown) :
    (s.set c).shown = (s.set c').shown := by
  have hset : ∀ c : Config Addr F32, (s.set c).shown = (s.set c.shown).shown := by
    intro c
    cases s <;> rfl
  rw [hset c, hset c', h]

theorem shown_set_secret {s : Setting Addr F32} (h : s.key = secretKey) (c : Config Addr F32) :
    (s.set c).shown = c.shown := by
  cases s with
  | authHeader _ => rfl
  | _ => exact absurd h (by simp [Setting.key, secretKey])

theorem applied_seen (libs : Libs Addr F32) :
    Seen (applied libs) Config.shown fun entry => decide (entry.1 ≠ secretKey) where
  congr entry c c' h := by
    rcases applied_cases libs entry with happ | ⟨s, -, happ⟩
    · rw [happ]
      exact h
    · rw [happ]
      exact shown_set s h
  hidden entry c h := by
    rcases applied_cases libs entry with happ | ⟨s, hs, happ⟩
    · rw [happ]
      rfl
    · rw [happ]
      exact shown_set_secret (by simpa [hs] using h) c

theorem failed_secret (libs : Libs Addr F32) {entry : String × String} (h : entry.1 = secretKey) :
    failed libs entry = none := by
  simp [failed, envOverride, h, secretKey]

theorem validate_shown (libs : Libs Addr F32) {c c' : Config Addr F32} (h : c.shown = c'.shown) :
    validate libs c = validate libs c' := by
  have hshown : ∀ c : Config Addr F32, validate libs c = validate libs c.shown := fun _ => rfl
  rw [hshown c, hshown c', h]

/-- Entries other than that of the secret. -/
def apart (entry : String × String) : Bool := decide (entry.1 ≠ secretKey)

theorem apart_perm {env env' : Table String String} (h : ∀ k, k ≠ secretKey → env.lookup k = env'.lookup k) :
    (env.pairs.filter apart).Perm (env'.pairs.filter apart) := by
  rw [List.perm_ext_iff_of_nodup (env.pairs_nodup.filter _) (env'.pairs_nodup.filter _)]
  rintro ⟨k, v⟩
  simp only [List.mem_filter, apart, decide_eq_true_eq, ← Table.lookup_eq_some_iff]
  exact and_congr_left fun hk => by rw [h k hk]

theorem failed_apart (libs : Libs Addr F32) (l : List (String × String)) :
    l.filterMap (failed libs) = (l.filter apart).filterMap (failed libs) := by
  rw [List.filterMap_filter]
  refine List.filterMap_congr fun entry _ => ?_
  by_cases hk : entry.1 = secretKey
  · simp [apart, hk, failed_secret libs hk]
  · simp [apart, hk]

/-- The same file, or two that are read and parsed, and differ in the secret alone. Nothing is said of two files one of
which is not parsed: its error is the text of the TOML parser, which quotes the line. -/
def SameButSecret (libs : Libs Addr F32) (path path' : Option String) : Prop :=
  path = path' ∨
    ∃ c c', readConfig libs path = .ok c ∧ readConfig libs path' = .ok c' ∧ c.shown = c'.shown

/-- Two starts of the gateway that differ in the secret alone, in a file that is parsed or in the environment, print the
same configuration or the same errors. -/
theorem load_hides_secret (libs : Libs Addr F32) {path path' : Option String} {env env' : Table String String}
    (hfile : SameButSecret libs path path')
    (henv : ∀ k, k ≠ "RIFTGATE_BACKEND_AUTH_HEADER" → env.lookup k = env'.lookup k) :
    Alike Config.shown (load libs path env) (load libs path' env') := by
  have hread : (readConfig libs path).map Config.shown = (readConfig libs path').map Config.shown := by
    rcases hfile with rfl | ⟨c, c', hc, hc', hshown⟩
    · rfl
    · rw [hc, hc', Except.map, Except.map, hshown]
  have hperm := apart_perm henv
  have hkeys : ((env.pairs.filter apart).map Prod.fst).Nodup := by
    refine List.Nodup.sublist (List.filter_sublist.map Prod.fst) ?_
    rw [Table.pairs_keys]
    exact env.keys_nodup
  cases hr : readConfig libs path with
  | error errors =>
    cases hr' : readConfig libs path' with
    | error errors' =>
      rw [hr, hr'] at hread
      cases hread
      rw [load_error hr, load_error hr']
      exact List.Perm.refl errors
    | ok config' =>
      rw [hr, hr'] at hread
      cases hread
  | ok config =>
    cases hr' : readConfig libs path' with
    | error errors' =>
      rw [hr, hr'] at hread
      cases hread
    | ok config' =>
      rw [hr, hr'] at hread
      have hc : config.shown = config'.shown := Except.ok.inj hread
      have hshown : (writeAll (applied libs) env.pairs config).shown =
          (writeAll (applied libs) env'.pairs config').shown := calc
        (writeAll (applied libs) env.pairs config).shown
            = (writeAll (applied libs) (env.pairs.filter apart) config).shown :=
          (applied_seen libs).writeAll_filter env.pairs config
        _ = (writeAll (applied libs) (env'.pairs.filter apart) config).shown := by
          rw [(applied_independent libs).writeAll_perm hperm hkeys config]
        _ = (writeAll (applied libs) (env'.pairs.filter apart) config').shown :=
          (applied_seen libs).writeAll_congr _ hc
        _ = (writeAll (applied libs) env'.pairs config').shown :=
          ((applied_seen libs).writeAll_filter env'.pairs config').symm
      rw [load_eq hr, load_eq hr']
      refine alike_outcome hshown ?_
      rw [validate_shown libs hshown, failed_apart libs env.pairs, failed_apart libs env'.pairs]
      exact (hperm.filterMap (failed libs)).append_right _

/-- The secrets of two files and of the environment. And that of the environment, where the file is not parsed. -/
theorem load_hides_secret_of_either :
    let env := Table.collect [("RIFTGATE_BACKEND_URL", "http://b"), ("RIFTGATE_OBS_SAMPLE_RATE", "x")]
    let env' := env.insert "RIFTGATE_BACKEND_AUTH_HEADER" "c"
    Alike Config.shown (load twoFiles (some "a.toml") env) (load twoFiles (some "b.toml") env') ∧
    Alike Config.shown (load twoFiles (some "open.toml") env) (load twoFiles (some "open.toml") env') := by
  intro env env'
  have henv : ∀ k, k ≠ "RIFTGATE_BACKEND_AUTH_HEADER" → env.lookup k = env'.lookup k :=
    fun _ hk => (AList.lookup_insert_ne hk).symm
  exact ⟨load_hides_secret twoFiles (.inr ⟨_, _, rfl, rfl, rfl⟩) henv, load_hides_secret twoFiles (.inl rfl) henv⟩

/-- A secret whose quote is not closed is printed. -/
example : load twoFiles (some "open.toml") ∅ = .error [.tomlParse "open.toml"
    "TOML parse error at line 2, column 17\n2 | auth_header = \"a\ninvalid basic string"] :=
  rfl

/-! ## What is loaded -/

/-- What `validate` asks for. -/
structure Valid (libs : Libs Addr F32) (config : Config Addr F32) : Prop where
  url : "http://".isPrefixOf config.backend.url ∨ "https://".isPrefixOf config.backend.url
  timeoutMs : config.backend.timeoutMs ≠ 0
  workerThreads : config.server.workerThreads ≠ some 0
  tickResolutionMs : config.timer.tickResolutionMs ≠ 0
  sampleRate : libs.sampleInRange config.obs.sampleRate
  busCapacity : config.obs.busCapacity ≠ 0
  level : config.log.level.toLower ∈ ["trace", "debug", "info", "warn", "error", "off"]

theorem check_eq_nil {violated : Prop} [Decidable violated] {path expected got : String} {layer : SourceLayer} :
    check violated path expected got layer = [] ↔ ¬ violated := by
  unfold check
  split
  · simp [*]
  · simp [*]

theorem validateUrl_eq_nil {url : String} :
    validateUrl url = [] ↔ "http://".isPrefixOf url ∨ "https://".isPrefixOf url := by
  unfold validateUrl
  by_cases h : url = ""
  · subst h
    rw [if_pos rfl]
    refine iff_of_false (List.cons_ne_nil _ _) ?_
    decide
  · rw [if_neg h, check_eq_nil, not_not]

theorem validate_eq_nil {config : Config Addr F32} : validate libs config = [] ↔ Valid libs config := by
  simp only [validate, List.append_eq_nil_iff, check_eq_nil, validateUrl_eq_nil, not_not, Bool.not_eq_false]
  constructor
  · rintro ⟨⟨⟨⟨⟨⟨hurl, htimeout⟩, hworkers⟩, htick⟩, hsample⟩, hbus⟩, hlevel⟩
    exact ⟨hurl, htimeout, hworkers, htick, hsample, hbus, hlevel⟩
  · rintro ⟨hurl, htimeout, hworkers, htick, hsample, hbus, hlevel⟩
    exact ⟨⟨⟨⟨⟨⟨hurl, htimeout⟩, hworkers⟩, htick⟩, hsample⟩, hbus⟩, hlevel⟩

theorem applied_of_ok {k v : String} {set : Config Addr F32 → Config Addr F32}
    (h : envOverride libs k v = .ok set) : applied libs (k, v) = set := by
  funext config
  simp [applied, h]

theorem failed_eq_none {k v : String} :
    failed libs (k, v) = none ↔ ∃ set, envOverride libs k v = .ok set := by
  cases h : envOverride libs k v with
  | ok set => simp [failed, h]
  | error e => simp [failed, h]

theorem filterMap_failed_eq_nil {env : Table String String} :
    env.pairs.filterMap (failed libs) = [] ↔
      ∀ k v, env.lookup k = some v → ∃ set, envOverride libs k v = .ok set := by
  rw [List.filterMap_eq_nil_iff]
  constructor
  · intro h k v hkv
    exact failed_eq_none.mp (h (k, v) (Table.lookup_eq_some_iff.mp hkv))
  · rintro h ⟨k, v⟩ hkv
    exact failed_eq_none.mpr (h k v (Table.lookup_eq_some_iff.mpr hkv))

/-- The configuration `c` is `file` with the environment over it. -/
structure Over (libs : Libs Addr F32) (env : Table String String) (file c : Config Addr F32) : Prop where
  overridden : ∀ k v, env.lookup k = some v → ∃ set, envOverride libs k v = .ok set ∧ set c = c
  kept : ∀ s : Setting Addr F32, env.lookup s.key = none → s.set file = file → s.set c = c
  mcp : c.mcp = file.mcp
  multitenancy : c.multitenancy = file.multitenancy

theorem over_writeAll {env : Table String String} (file : Config Addr F32)
    (hparse : ∀ k v, env.lookup k = some v → ∃ set, envOverride libs k v = .ok set) :
    Over libs env file (writeAll (applied libs) env.pairs file) where
  overridden k v hkv := by
    obtain ⟨set, hset⟩ := hparse k v hkv
    refine ⟨set, hset, ?_⟩
    rw [← applied_of_ok hset]
    exact (applied_independent libs).write_of_mem (by rw [Table.pairs_keys]; exact env.keys_nodup)
      (Table.lookup_eq_some_iff.mp hkv) file
  kept s hs hfile := by
    have hcomm : ∀ entry ∈ env.pairs, ∀ config : Config Addr F32,
        s.set (applied libs entry config) = applied libs entry (s.set config) := ?_
    · show s.set (writeAll (applied libs) env.pairs file) = _
      rw [apply_writeAll (f := fun c => s.set c) hcomm file, hfile]
    rintro ⟨k, v⟩ hkv config
    rcases applied_cases libs (k, v) with happ | ⟨t, ht, happ⟩
    · rw [happ]
      rfl
    · rw [happ]
      refine Setting.set_comm ?_ config
      intro hkey
      have hkv' : env.lookup k = some v := Table.lookup_eq_some_iff.mpr hkv
      rw [hkey, ht, hkv'] at hs
      cases hs
  mcp := by
    refine writeAll_keeps ?_ env.pairs file
    intro entry config
    rcases applied_cases libs entry with happ | ⟨s, -, happ⟩
    · rw [happ]
      rfl
    · rw [happ]
      cases s <;> rfl
  multitenancy := by
    refine writeAll_keeps ?_ env.pairs file
    intro entry config
    rcases applied_cases libs entry with happ | ⟨s, -, happ⟩
    · rw [happ]
      rfl
    · rw [happ]
      cases s <;> rfl

theorem Over.unique {env : Table String String} {file c c' : Config Addr F32} (h : Over libs env file c)
    (h' : Over libs env file c') : c = c' := by
  refine Setting.eq_of_same (fun s => ?_) (h.mcp.trans h'.mcp.symm) (h.multitenancy.trans h'.multitenancy.symm)
  cases hs : env.lookup s.key with
  | none =>
    obtain ⟨t, ht, hfile⟩ := s.exists_current file
    exact ⟨t, ht, h.kept t (by rwa [ht]) hfile, h'.kept t (by rwa [ht]) hfile⟩
  | some v =>
    obtain ⟨set, hset, hc⟩ := h.overridden s.key v hs
    obtain ⟨set', hset', hc'⟩ := h'.overridden s.key v hs
    rw [hset] at hset'
    cases hset'
    rcases envOverride_ok hset with ⟨-, hkey⟩ | ⟨t, ht, rfl⟩
    · exact absurd rfl (hkey s)
    · exact ⟨t, ht, hc, hc'⟩

/-- A configuration is loaded when it is the file with the environment over it, each variable parses, and the checks
pass on the result: a file that does not pass them may be mended by the environment, and the other way around. -/
theorem load_ok_iff (libs : Libs Addr F32) (path : Option String) (env : Table String String)
    (c : Config Addr F32) :
    load libs path env = .ok c ↔
      ∃ file, readConfig libs path = .ok file ∧ Over libs env file c ∧ Valid libs c := by
  cases hread : readConfig libs path with
  | error errors =>
    rw [load_error hread]
    simp
  | ok file =>
    rw [load_eq hread, outcome_eq_ok, List.append_eq_nil_iff, filterMap_failed_eq_nil, validate_eq_nil]
    constructor
    · rintro ⟨⟨hparse, hvalid⟩, rfl⟩
      exact ⟨file, rfl, over_writeAll file hparse, hvalid⟩
    · rintro ⟨_, hfile, hover, hvalid⟩
      cases hfile
      have hparse : ∀ k v, env.lookup k = some v → ∃ set, envOverride libs k v = .ok set := by
        intro k v hkv
        obtain ⟨set, hset, -⟩ := hover.overridden k v hkv
        exact ⟨set, hset⟩
      have hc : writeAll (applied libs) env.pairs file = c := (over_writeAll file hparse).unique hover
      rw [hc]
      exact ⟨⟨hparse, hvalid⟩, rfl⟩

end Riftgate.Loader
