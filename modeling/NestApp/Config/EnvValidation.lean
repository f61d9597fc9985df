import NestApp.Config.JwtConfig

/-!
# `Config.EnvValidation` — the numbers of the configuration

Every numeric variable is read twice: `envValidationSchema` converts its whole text, with fraction and
exponent, and checks the bounds; the configuration reads it from `process.env` with `parseInt` or
`parseFloat`. A variable that was in `process.env` keeps its text there; one from the `.env` file, or
with the default of the schema, is stored as the text of the validated number. Joi accepts no text
whose conversion loses digits, so that the checks can be made on the exact value.

`parseInt` stops at the point and at the exponent. `validated_numbers`: of an accepted environment, the
configuration has the validated numbers iff no text in `process.env` has its digits behind the point
only, or an exponent that counts (`ReadWhole`).

The schema is a table of bounds and defaults, one line for a variable, and so is the reading:
`configured` is the number of the configuration, `reader` the function that reads it.
-/

namespace NestApp

open Js

namespace Config

/-! ## The configuration

The configuration objects that read numbers, with their defaults. A variable that is not set, and one
that is empty, is replaced by the default of the configuration. -/

/-- `text.toLowerCase() === 'true'`, for the switches of the configuration. -/
def isTrue (text : String) : Bool := decide (text.toLower = "true")

def readInt (env : ProcessEnv) (name default : String) : Number :=
  parseInt ((env name).getD default).toList

def readFloat (env : ProcessEnv) (name default : String) : Number :=
  parseFloat ((env name).getD default).toList

structure MetricsConfig where
  enabled            : Bool
  errorRateThreshold : Number
  windowMs           : Number
  minSamples         : Number
  alertCooldownMs    : Number

def metricsConfig (env : ProcessEnv) : MetricsConfig where
  enabled            := isTrue ((env "METRICS_ENABLED").getD "true")
  errorRateThreshold := readFloat env "METRICS_ERROR_RATE_THRESHOLD" "0.1"
  windowMs           := readInt env "METRICS_WINDOW_MS" "300000"
  minSamples         := readInt env "METRICS_MIN_SAMPLES" "20"
  alertCooldownMs    := readInt env "METRICS_ALERT_COOLDOWN_MS" "300000"

structure AppConfig where
  nodeEnv        : Option String
  port           : Number
  apiPrefix      : String
  corsOrigin     : String
  frontendUrl    : String
  logLevel       : String
  swaggerEnabled : Bool
  trustProxy     : Option String

def appConfig (env : ProcessEnv) : AppConfig where
  nodeEnv        := env "NODE_ENV"
  port           := readInt env "PORT" "3000"
  apiPrefix      := (env "API_PREFIX").getD "api"
  corsOrigin     := (env "CORS_ORIGIN").getD "http://localhost:5173"
  frontendUrl    := (env "FRONTEND_URL").getD "http://localhost:5173"
  logLevel       := (env "LOG_LEVEL").getD "info"
  swaggerEnabled :=
    match env "SWAGGER_ENABLED" with
    | none | some ""       => decide (env "NODE_ENV" ≠ some "production")
    | some swaggerOverride => isTrue swaggerOverride
  trustProxy     := env "TRUST_PROXY"

structure DatabaseConfig where
  host        : String
  port        : Number
  username    : String
  password    : String
  database    : String
  synchronize : Bool
  logging     : Bool

def databaseConfig (env : ProcessEnv) : DatabaseConfig where
  host        := (env "DB_HOST").getD "localhost"
  port        := readInt env "DB_PORT" "5432"
  username    := (env "DB_USERNAME").getD "postgres"
  password    := (env "DB_PASSWORD").getD "postgres"
  database    := (env "DB_NAME").getD "my_app"
  synchronize := isTrue ((env "DB_SYNCHRONIZE").getD "false")
  logging     := isTrue ((env "DB_LOGGING").getD "true")

structure RedisConfig where
  host     : String
  port     : Number
  password : String

def redisConfig (env : ProcessEnv) : RedisConfig where
  host     := (env "REDIS_HOST").getD "localhost"
  port     := readInt env "REDIS_PORT" "6379"
  password := (env "REDIS_PASSWORD").getD ""

structure MailConfig where
  driver : String
  host   : Option String
  port   : Number
  secure : Bool
  user   : Option String
  pass   : Option String
  from_  : Option String

def mailConfig (env : ProcessEnv) : MailConfig where
  driver := (env "MAIL_DRIVER").getD "console"
  host   := env "MAIL_HOST"
  port   := readInt env "MAIL_PORT" "587"
  secure := isTrue ((env "MAIL_SECURE").getD "false")
  user   := env "MAIL_USER"
  pass   := env "MAIL_PASS"
  from_  := env "MAIL_FROM"

/-! ## The schema

The numeric part of `envValidationSchema`: which variables there are, their bounds and their defaults.
The other variables do not bear on these. -/

/-- `Joi.number().port()`, `Joi.number().integer().positive()` and `Joi.number().min(0).max(1)`. -/
inductive Bounds where
  | port
  | positiveInteger
  | unitInterval

def Bounds.Admits : Bounds → ℚ → Prop
  | .port, x            => x.den = 1 ∧ 0 ≤ x ∧ x ≤ 65535
  | .positiveInteger, x => x.den = 1 ∧ 0 < x
  | .unitInterval, x    => 0 ≤ x ∧ x ≤ 1

instance (bounds : Bounds) (x : ℚ) : Decidable (bounds.Admits x) :=
  match bounds with
  | .port            => inferInstanceAs (Decidable (x.den = 1 ∧ 0 ≤ x ∧ x ≤ 65535))
  | .positiveInteger => inferInstanceAs (Decidable (x.den = 1 ∧ 0 < x))
  | .unitInterval    => inferInstanceAs (Decidable (0 ≤ x ∧ x ≤ 1))

structure NumberSchema where
  bounds  : Bounds
  default : ℚ

/-- The variables that the configuration reads as numbers. -/
inductive NumericVariable where
  | PORT
  | DB_PORT
  | MAIL_PORT
  | REDIS_PORT
  | METRICS_ERROR_RATE_THRESHOLD
  | METRICS_WINDOW_MS
  | METRICS_MIN_SAMPLES
  | METRICS_ALERT_COOLDOWN_MS
deriving DecidableEq

namespace NumericVariable

def all : List NumericVariable :=
  [PORT, DB_PORT, MAIL_PORT, REDIS_PORT, METRICS_ERROR_RATE_THRESHOLD, METRICS_WINDOW_MS,
    METRICS_MIN_SAMPLES,
    METRICS_ALERT_COOLDOWN_MS]

def name : NumericVariable → String
  | PORT                         => "PORT"
  | DB_PORT                      => "DB_PORT"
  | MAIL_PORT                    => "MAIL_PORT"
  | REDIS_PORT                   => "REDIS_PORT"
  | METRICS_ERROR_RATE_THRESHOLD => "METRICS_ERROR_RATE_THRESHOLD"
  | METRICS_WINDOW_MS            => "METRICS_WINDOW_MS"
  | METRICS_MIN_SAMPLES          => "METRICS_MIN_SAMPLES"
  | METRICS_ALERT_COOLDOWN_MS    => "METRICS_ALERT_COOLDOWN_MS"

/-- The number in the configuration, once the environment is assigned. This is what the program goes
    by. -/
def configured : NumericVariable → ProcessEnv → Number
  | PORT, env                         => (appConfig env).port
  | DB_PORT, env                      => (databaseConfig env).port
  | MAIL_PORT, env                    => (mailConfig env).port
  | REDIS_PORT, env                   => (redisConfig env).port
  | METRICS_ERROR_RATE_THRESHOLD, env => (metricsConfig env).errorRateThreshold
  | METRICS_WINDOW_MS, env            => (metricsConfig env).windowMs
  | METRICS_MIN_SAMPLES, env          => (metricsConfig env).minSamples
  | METRICS_ALERT_COOLDOWN_MS, env    => (metricsConfig env).alertCooldownMs

end NumericVariable

def envValidationSchema : NumericVariable → NumberSchema
  | .PORT                         => ⟨.port, 3000⟩
  | .DB_PORT                      => ⟨.port, 5432⟩
  | .MAIL_PORT                    => ⟨.port, 587⟩
  | .REDIS_PORT                   => ⟨.port, 6379⟩
  | .METRICS_ERROR_RATE_THRESHOLD => ⟨.unitInterval, 1 / 10⟩
  | .METRICS_WINDOW_MS            => ⟨.positiveInteger, 300000⟩
  | .METRICS_MIN_SAMPLES          => ⟨.positiveInteger, 20⟩
  | .METRICS_ALERT_COOLDOWN_MS    => ⟨.positiveInteger, 300000⟩

/-- `Number.MAX_SAFE_INTEGER` -/
def MAX_SAFE_INTEGER : ℚ := 2 ^ 53 - 1

/-- `Joi.number()` of a text: a decimal literal between blanks, in the safe range. A text whose
    conversion loses digits is refused. -/
def joiNumber (text : List Char) : Option Decimal :=
  match decimal (text.dropWhile isBlank) with
  | some (d, rest) => if rest.all isBlank ∧ |d.value| ≤ MAX_SAFE_INTEGER then some d else none
  | none           => none

/-- The validated value of a variable (`none`: it is refused). -/
def NumberSchema.validate (schema : NumberSchema) : Option String → Option ℚ
  | none      => some schema.default
  | some text =>
      match joiNumber text.toList with
      | some d => if schema.bounds.Admits d.value then some d.value else none
      | none   => none

/-! ## `ConfigModule.forRoot`

The `.env` file and `process.env` are merged and validated; then the variables that `process.env` does
not have are assigned. So the configuration reads texts of two kinds. -/

/-- `process.env` before the start, and the variables of the `.env` file. -/
structure Environment where
  processEnv : ProcessEnv
  envFile    : ProcessEnv

/-- What is validated. -/
def Environment.raw (e : Environment) (name : String) : Option String :=
  match e.processEnv name with
  | some text => some text
  | none      => e.envFile name

/-- The schema accepts the environment, with these values: every numeric variable is valid, or is
    missing and has a default. -/
def Accepted (e : Environment) (values : NumericVariable → ℚ) : Prop :=
  ∀ v, (envValidationSchema v).validate (e.raw v.name) = some (values v)

/-- `process.env` afterwards: a variable that was there keeps its text, any other one gets the text of
    its value. That is how a value is normalized for one variable and not for another. -/
def Assigned (texts : NumberText) (e : Environment) (values : NumericVariable → ℚ)
    (env : ProcessEnv) : Prop :=
  ∀ v : NumericVariable,
    env v.name = some ((e.processEnv v.name).getD (String.ofList (texts.text (nearest (values v)))))

/-! ## The condition

What is lost by reading a text with `parseInt`: everything from the point or the exponent on. -/

inductive Reader where
  | int
  | float
deriving DecidableEq

def Reader.read : Reader → List Char → Number
  | .int   => parseInt
  | .float => parseFloat

def NumericVariable.reader : NumericVariable → Reader
  | .METRICS_ERROR_RATE_THRESHOLD => .float
  | _                             => .int

/-- What `parseInt` reads of the variable is all of it: a text in `process.env` has a digit before the
    point, and no exponent other than zero, but for the value zero. -/
def ReadWhole (e : Environment) (values : NumericVariable → ℚ) (v : NumericVariable) : Prop :=
  v.reader = .int → ∀ text, e.processEnv v.name = some text →
    ∀ d rest, decimal (text.toList.dropWhile isBlank) = some (d, rest) →
    d.whole ≠ [] ∧ (d.exponent = 0 ∨ values v = 0)

/-- The number is in the bounds of the schema. -/
def InBounds (v : NumericVariable) (number : Number) : Prop :=
  ∃ x, number = .finite x ∧ (envValidationSchema v).bounds.Admits x

/-! ## Reading back

A literal is split into sign, digits, fraction and exponent (`Lib.Numeral`), and both readers are
functions of the parts. -/

section Reading

variable {texts : NumberText} {e : Environment} {values : NumericVariable → ℚ} {env : ProcessEnv}
  {v : NumericVariable}
  {text : String} {x : ℚ}

/-- The configuration reads a variable that is set. -/
theorem configured_eq (h : env v.name = some text) : v.configured env = v.reader.read text.toList := by
  cases v <;>
    simp only [NumericVariable.name] at h <;>
    simp only [NumericVariable.configured, appConfig, databaseConfig, mailConfig, redisConfig,
      metricsConfig, readInt, readFloat,
      NumericVariable.reader, Reader.read, h, Option.getD_some]

/-- A valid text is a literal in the bounds. -/
theorem validate_some {schema : NumberSchema} (h : schema.validate (some text) = some x) :
    ∃ d rest, decimal (text.toList.dropWhile isBlank) = some (d, rest) ∧ d.value = x ∧
      |x| ≤ MAX_SAFE_INTEGER ∧
      schema.bounds.Admits x := by
  rw [NumberSchema.validate, joiNumber] at h
  cases hdecimal : decimal (text.toList.dropWhile isBlank) with
  | none =>
      rw [hdecimal] at h
      cases h
  | some literal =>
      obtain ⟨d, rest⟩ := literal
      rw [hdecimal] at h
      simp only at h
      by_cases hsafe : rest.all isBlank = true ∧ |d.value| ≤ MAX_SAFE_INTEGER
      · rw [if_pos hsafe] at h
        simp only at h
        split_ifs at h with hbounds
        obtain rfl := Option.some.inj h
        exact ⟨d, rest, rfl, rfl, hsafe.2, hbounds⟩
      · rw [if_neg hsafe] at h
        cases h

/-- The defaults are valid. -/
theorem default_admitted (v : NumericVariable) :
    (envValidationSchema v).bounds.Admits (envValidationSchema v).default ∧
      |(envValidationSchema v).default| ≤ MAX_SAFE_INTEGER := by
  cases v <;> decide +kernel

/-- **A validated value** is in the bounds, and in the safe range. -/
theorem Accepted.admits (h : Accepted e values) (v : NumericVariable) :
    (envValidationSchema v).bounds.Admits (values v) ∧ |values v| ≤ MAX_SAFE_INTEGER := by
  have hv := h v
  cases hraw : e.raw v.name with
  | none =>
      rw [hraw] at hv
      have hdefault : (envValidationSchema v).default = values v := Option.some.inj hv
      rw [← hdefault]
      exact default_admitted v
  | some text =>
      rw [hraw] at hv
      obtain ⟨d, rest, -, -, hsafe, hbounds⟩ := validate_some hv
      exact ⟨hbounds, hsafe⟩

/-- The variables for `parseInt` are natural numbers. -/
theorem Accepted.exists_natCast (h : Accepted e values) (hv : v.reader = .int) : ∃ m :
    ℕ, values v = m ∧ m < 2 ^ 53 := by
  obtain ⟨hbounds, hsafe⟩ := h.admits v
  have hnatural : (values v).den = 1 ∧ 0 ≤ values v := by
    cases v <;> first
      | exact ⟨hbounds.1, hbounds.2.1⟩
      | exact ⟨hbounds.1, hbounds.2.le⟩
      | cases hv
  obtain ⟨m, hm⟩ := Int.eq_ofNat_of_zero_le (Rat.num_nonneg.mpr hnatural.2)
  have hvalue : values v = m := by
    calc values v = ((values v).num : ℚ) := (Rat.coe_int_num_of_den_eq_one hnatural.1).symm
      _ = (((m : ℕ) : ℤ) : ℚ) := by rw [hm]
      _ = m := Int.cast_natCast m
  refine ⟨m, hvalue, ?_⟩
  rw [hvalue, Nat.abs_cast, MAX_SAFE_INTEGER] at hsafe
  have hlt : (m : ℚ) < 2 ^ 53 := by linarith
  exact_mod_cast hlt

/-- The text of a value is read as the value. -/
theorem read_text (texts : NumberText) (h : Accepted e values) (v : NumericVariable) :
    v.reader.read (texts.text (nearest (values v))) = .ofRat (values v) := by
  cases hv : v.reader with
  | int =>
      obtain ⟨m, hm, hsafe⟩ := h.exists_natCast hv
      have hdouble : nearest (m : ℚ) = m := by
        exact_mod_cast nearest_intCast (n := m) (by rw [Nat.abs_cast]; exact_mod_cast hsafe.le)
      rw [hm, hdouble, texts.natural m hsafe, Reader.read]
      exact (parse_toDigits m).1
  | float =>
      have hsafe : |values v| ≤ 2 ^ 53 := (h.admits v).2.trans (by rw [MAX_SAFE_INTEGER]; norm_num)
      have hsize : |nearest (values v)| < 2 ^ 1024 :=
        (Number.abs_nearest_le hsafe).trans_lt (pow_lt_pow_right₀ (by norm_num) (by norm_num))
      rw [Reader.read, texts.reads (values v) hsize, Number.ofRat, if_pos hsize]

/-- **The number that is read** is the validated one iff the whole text is read. -/
theorem configured_iff (h : Accepted e values) (hassigned : Assigned texts e values env)
    (v : NumericVariable) :
    v.configured env = .ofRat (values v) ↔ ReadWhole e values v := by
  rw [configured_eq (hassigned v)]
  cases htext : e.processEnv v.name with
  | none =>
      rw [Option.getD_none, String.toList_ofList]
      refine iff_of_true (read_text texts h v) fun _ text hsome => ?_
      rw [htext] at hsome
      cases hsome
  | some text =>
      have hraw : e.raw v.name = some text := by rw [Environment.raw, htext]
      have hvalid := h v
      rw [hraw] at hvalid
      obtain ⟨d, rest, hdecimal, hvalue, -, -⟩ := validate_some hvalid
      rw [Option.getD_some]
      cases hv : v.reader with
      | float =>
          rw [Reader.read, parseFloat_of_decimal hdecimal, hvalue]
          refine iff_of_true rfl fun hint => ?_
          rw [hv] at hint
          cases hint
      | int =>
          obtain ⟨m, hm, hsafe⟩ := h.exists_natCast hv
          have hzero : values v = 0 ↔ m = 0 := by rw [hm, Nat.cast_eq_zero]
          rw [hm] at hvalue
          rw [Reader.read, hm, parseInt_eq_iff hdecimal hvalue hsafe, ← hzero]
          constructor
          · rintro hwhole - text' htext' d' rest' hdecimal'
            obtain rfl : text = text' := Option.some.inj (htext.symm.trans htext')
            obtain ⟨rfl, -⟩ := Prod.mk.inj (Option.some.inj (hdecimal.symm.trans hdecimal'))
            exact hwhole
          · exact fun hwhole => hwhole hv text htext d rest hdecimal

/-- The validated number is in the bounds. -/
theorem inBounds_ofRat (h : Accepted e values) (v : NumericVariable) :
    InBounds v (.ofRat (values v)) := by
  have hbounds := (h.admits v).1
  cases hv : v.reader with
  | int =>
      obtain ⟨m, hm, hsafe⟩ := h.exists_natCast hv
      refine ⟨values v, ?_, hbounds⟩
      rw [hm]
      exact_mod_cast Number.ofRat_intCast (n := m) (by rw [Nat.abs_cast]; exact_mod_cast hsafe.le)
  | float =>
      obtain rfl : v = .METRICS_ERROR_RATE_THRESHOLD := by cases v <;> first | rfl | cases hv
      obtain ⟨hlo, hhi⟩ := hbounds
      have hnonneg := le_nearest (n := 0) (x := values .METRICS_ERROR_RATE_THRESHOLD)
        (by norm_num) (by exact_mod_cast hlo)
      have hone := nearest_le (n := 1) (x := values .METRICS_ERROR_RATE_THRESHOLD)
        (by norm_num) (by exact_mod_cast hhi)
      push_cast at hnonneg hone
      refine ⟨nearest (values .METRICS_ERROR_RATE_THRESHOLD), ?_, hnonneg, hone⟩
      have hsize : |nearest (values .METRICS_ERROR_RATE_THRESHOLD)| < 2 ^ 1024 := by
        rw [abs_of_nonneg hnonneg]
        exact hone.trans_lt (one_lt_pow₀ (by norm_num) (by norm_num))
      rw [Number.ofRat, if_pos hsize]

end Reading

end Config

open Config

/-- **Configuration means what validation checked**, iff the whole texts are read: for every accepted
    environment and every numeric variable, the number in the configuration is the validated one, and in
    the bounds, iff `ReadWhole`. -/
theorem validated_numbers (texts : NumberText) {e : Environment} {values : NumericVariable → ℚ}
    {env : ProcessEnv}
    (haccepted : Accepted e values) (hassigned : Assigned texts e values env) (v : NumericVariable) :
    (v.configured env = .ofRat (values v) ∧ InBounds v (v.configured env)) ↔ ReadWhole e values v := by
  rw [← configured_iff haccepted hassigned v]
  constructor
  · exact fun h => h.1
  · intro h
    refine ⟨h, ?_⟩
    rw [h]
    exact inBounds_ofRat haccepted v

/-! ## Environments

An accepted environment with one variable set, for a value that is read as validated and one that is
not. -/

namespace Config

/-- An environment with one variable in `process.env`. -/
def environmentWith (name value : String) : Environment where
  processEnv other := if other = name then some value else none
  envFile _        := none

/-- The values, where only the window is set. -/
def valuesWith (windowMs : ℚ) : NumericVariable → ℚ
  | .METRICS_WINDOW_MS => windowMs
  | v                  => (envValidationSchema v).default

/-- `assignVarsToProcess` -/
def assigned (texts : NumberText) (e : Environment) (values : NumericVariable → ℚ) : ProcessEnv :=
  fun name =>
  match e.processEnv name with
  | some text => some text
  | none      =>
      match NumericVariable.all.find? fun v => v.name = name with
      | some v => some (String.ofList (texts.text (nearest (values v))))
      | none   => e.envFile name

theorem assigned_spec (texts : NumberText) (e : Environment) (values : NumericVariable → ℚ) :
    Assigned texts e values (assigned texts e values) := by
  intro v
  unfold assigned
  cases e.processEnv v.name with
  | some text => rfl
  | none =>
      have hfind : NumericVariable.all.find? (fun v' => v'.name = v.name) = some v := by
        cases v <;> decide +kernel
      rw [hfind]
      rfl

end Config

/-- A window of a minute. -/
theorem validated_numbers_one_minute :
    (NumericVariable.METRICS_WINDOW_MS.configured
        (assigned exactNumberText (environmentWith "METRICS_WINDOW_MS" "60000") (valuesWith 60000)) =
          .ofRat 60000 ∧
      InBounds .METRICS_WINDOW_MS (NumericVariable.METRICS_WINDOW_MS.configured
        (assigned exactNumberText (environmentWith "METRICS_WINDOW_MS" "60000") (valuesWith 60000)))) ↔
      ReadWhole (environmentWith "METRICS_WINDOW_MS" "60000") (valuesWith 60000) .METRICS_WINDOW_MS := by
  have haccepted : Accepted (environmentWith "METRICS_WINDOW_MS" "60000") (valuesWith 60000) := by
    intro v
    cases v <;> decide +kernel
  exact validated_numbers exactNumberText haccepted (assigned_spec _ _ _) .METRICS_WINDOW_MS

/-- A window with an exponent is validated as five minutes, and read as three milliseconds. -/
theorem window_with_exponent : Accepted (environmentWith "METRICS_WINDOW_MS" "3e5") (valuesWith 300000) ∧
    ∀ texts env, Assigned texts (environmentWith "METRICS_WINDOW_MS" "3e5") (valuesWith 300000) env →
      (metricsConfig env).windowMs = .finite 3 ∧ (metricsConfig env).windowMs ≠ .ofRat 300000 := by
  refine ⟨?_, fun texts env hassigned => ?_⟩
  · intro v
    cases v <;> decide +kernel
  · have hset : env "METRICS_WINDOW_MS" = some "3e5" := hassigned .METRICS_WINDOW_MS
    have hread : (metricsConfig env).windowMs = .finite 3 := by
      simp only [metricsConfig, readInt, hset, Option.getD_some]
      decide +kernel
    rw [hread]
    refine ⟨rfl, ?_⟩
    decide +kernel

end NestApp
