import NestApp.Lib.Numeral
import NestApp.Schema

/-!
# `Config.JwtConfig` — the durations of the configuration

`parseDurationToMs` reads the three durations at boot. The access lifetime is read a second time, by
the JWT library, from the text as it stands: the library takes no surrounding blanks and at most 100
characters, where `parseDurationToMs` trims and takes any number of digits. The milliseconds go to `SET
… PX` and, added to the clock, into dates.

`durations_work`: which of the durations accepted at boot work where they are used.

Zero is accepted at boot as well. A lifetime of zero seconds is no expiry for the cache, as `PX 0` is
an error; added to the clock it gives a date all the same.
-/

namespace NestApp

open Js

/-- `process.env`: the text of a variable, if it is set. -/
abbrev ProcessEnv := String → Option String

inductive DurationUnit where
  | s | m | h | d | w
deriving DecidableEq

namespace DurationUnit

def letter : DurationUnit → Char
  | s => 's'
  | m => 'm'
  | h => 'h'
  | d => 'd'
  | w => 'w'

def all : List DurationUnit := [s, m, h, d, w]

end DurationUnit

def UNIT_TO_MS : DurationUnit → Nat
  | .s => 1000
  | .m => 60000
  | .h => 3600000
  | .d => 86400000
  | .w => 604800000

/-- `/^(\d+)(s|m|h|d|w)$/.exec(text)` -/
def matchDuration (text : List Char) : Option (List Char × DurationUnit) :=
  let digits := text.takeWhile Char.isDigit
  match text.dropWhile Char.isDigit with
  | [c] =>
      if digits = [] then none else (DurationUnit.all.find? fun unit => unit.letter = c).map (digits, ·)
  | _   => none

def parseDurationToMs (duration : String) : Except String Number :=
  match matchDuration (trim duration).toList with
  | some (digits, unit) => .ok ((parseInt digits).mul (.finite (UNIT_TO_MS unit)))
  | none                => .error ("Invalid duration format: \"" ++ duration ++ "\"")

structure JwtConfig where
  accessSecret       : String
  accessExpiresIn    : String
  accessExpiresInMs  : Number
  refreshExpiresIn   : String
  refreshExpiresInMs : Number
  cookieName         : String
  cookiePath         : String
  cookieSecure       : Bool
  cookieSameSite     : String
  resetTokenTtl      : String
  resetTokenTtlMs    : Number

/-- `a || b` -/
def orElse (a : Option String) (b : String) : String :=
  match a with
  | some "" | none => b
  | some a         => a

def jwtConfig (env : ProcessEnv) : Except String JwtConfig := do
  let apiPrefix := (env "API_PREFIX").getD "api"
  let nodeEnv   := (env "NODE_ENV").getD "development"
  let accessExpiresIn  := (env "JWT_ACCESS_EXPIRES_IN").getD "15m"
  let refreshExpiresIn := (env "JWT_REFRESH_EXPIRES_IN").getD "7d"
  let resetTokenTtl    := (env "PASSWORD_RESET_TOKEN_TTL").getD "30m"
  let accessSecret     := orElse (env "JWT_ACCESS_SECRET") ""
  if accessSecret = "" then throw "JWT_ACCESS_SECRET is not configured"
  let cookieSecure :=
    match env "JWT_COOKIE_SECURE" with
    | none        => decide (nodeEnv = "production")
    | some secure => decide (secure.toLower = "true")
  let accessExpiresInMs  ← parseDurationToMs accessExpiresIn
  let refreshExpiresInMs ← parseDurationToMs refreshExpiresIn
  let resetTokenTtlMs    ← parseDurationToMs resetTokenTtl
  return {
    accessSecret       := accessSecret
    accessExpiresIn    := accessExpiresIn
    accessExpiresInMs  := accessExpiresInMs
    refreshExpiresIn   := refreshExpiresIn
    refreshExpiresInMs := refreshExpiresInMs
    cookieName         := (env "JWT_COOKIE_NAME").getD "refresh_token"
    cookiePath         := orElse (env "JWT_COOKIE_PATH") ("/" ++ apiPrefix ++ "/auth")
    cookieSecure       := cookieSecure
    cookieSameSite     := (env "JWT_COOKIE_SAME_SITE").getD "lax"
    resetTokenTtl      := resetTokenTtl
    resetTokenTtlMs    := resetTokenTtlMs }

/-! ## Where the durations are used

The library that signs tokens is a parameter: it has its own reader of durations. The two other
durations are added to the clock, and a date has a largest time. -/

/-- What signing does with a text for `expiresIn`: the lifetime of the token in milliseconds, or it
    refuses to sign. The number is the library's own reading of the text. -/
structure JwtLibrary where
  lifetime       : String → Option Number
  reads          : ∀ (digits : List Char) (unit : DurationUnit), digits ≠ [] →
    (∀ c ∈ digits, c.isDigit = true) →
    digits.length + 1 ≤ 100 →
    lifetime (String.ofList (digits ++ [unit.letter])) =
      some ((parseFloat digits).mul (.finite (UNIT_TO_MS unit)))
  refuses_blanks : ∀ text, trim text ≠ text → lifetime text = none
  refuses_long   : ∀ text : String, 100 < text.length → lifetime text = none

/-- `JwtModule.registerAsync`: signing an access token. -/
def JwtLibrary.signAccessToken (lib : JwtLibrary) (config : JwtConfig) : Option Number :=
  lib.lifetime config.accessExpiresIn

/-- What `SET … PX` asks for: a positive number of milliseconds, and the time at which the entry ends is
    a signed 64-bit integer. -/
def isExpiry (now : Int) : Number → Bool
  | .finite x => 0 < x ∧ now + x < 2 ^ 63
  | _         => false

/-- The largest time of a date, before and after the epoch: a hundred million days in milliseconds. -/
def MAX_TIME : Nat := 8640000000000000

/-- `new Date(time)` is a date. -/
def isValidDate (time : Number) : Bool := time.within MAX_TIME

def refreshExpiry (config : JwtConfig) (now : Int) : Number :=
  (Number.finite now).add config.refreshExpiresInMs

def resetExpiry (config : JwtConfig) (now : Int) : Number :=
  (Number.finite now).add config.resetTokenTtlMs

/-! ## The conditions

For each duration two statements: that it works where it is used, and the condition on its text under
which it does. The conditions mention neither the library nor the milliseconds the code has computed. -/

/-- The number of the duration times its unit, as a natural number. The code computes it with doubles. -/
def wholeMs (duration : String) : Nat :=
  match matchDuration (trim duration).toList with
  | some (digits, unit) => ofDigits digits * UNIT_TO_MS unit
  | none                => 0

/-- The natural number is a double: it has at most 53 binary digits up to trailing zeros, and it is not
    too large. -/
def IsDouble (k : Nat) : Prop := nearest k = k ∧ (k : ℚ) < 2 ^ 1024

/-- The access lifetime works: the milliseconds are exact, tokens are signed with them, and they are an
    expiry. -/
def AccessWorks (lib : JwtLibrary) (now : Int) (config : JwtConfig) : Prop :=
  config.accessExpiresInMs = .finite (wholeMs config.accessExpiresIn) ∧
    lib.signAccessToken config = some config.accessExpiresInMs ∧
      isExpiry now config.accessExpiresInMs = true

def AccessFits (now : Int) (duration : String) : Prop :=
  IsDouble (wholeMs duration) ∧ trim duration = duration ∧ duration.length ≤ 100 ∧
    0 < wholeMs duration ∧ now + wholeMs duration < 2 ^ 63

/-- A lifetime that is added to the clock works: the milliseconds are exact, and the sum is a date. -/
def ExpiryWorks (duration : String) (ms expiry : Number) : Prop :=
  ms = .finite (wholeMs duration) ∧ isValidDate expiry = true

def ExpiryFits (now : Int) (duration : String) : Prop :=
  IsDouble (wholeMs duration) ∧ now + wholeMs duration ≤ MAX_TIME

/-! ## Reading a duration

What the regular expression has matched, and what becomes of the digits: the product with the unit is
rounded to a double, so that it is exact iff it is one. -/

section Reading

variable {text digits : List Char} {unit : DurationUnit} {duration : String} {ms : Number} {now : Int}

theorem UNIT_TO_MS_pos (unit : DurationUnit) : 0 < UNIT_TO_MS unit := by
  cases unit <;> decide

theorem matchDuration_spec (h : matchDuration text = some (digits, unit)) :
    text = digits ++ [unit.letter] ∧ digits ≠ [] ∧ ∀ c ∈ digits, c.isDigit = true := by
  unfold matchDuration at h
  simp only at h
  split at h
  · next c hrest =>
      split_ifs at h with hempty
      obtain ⟨unit', hunit, heq⟩ := Option.map_eq_some_iff.mp h
      obtain ⟨rfl, rfl⟩ := Prod.mk.inj heq
      have hletter : unit'.letter = c := by simpa using List.find?_some hunit
      refine ⟨?_, hempty, fun c hc => List.mem_takeWhile_imp hc⟩
      rw [hletter, ← hrest, List.takeWhile_append_dropWhile]
  · cases h

/-- An accepted duration, and the milliseconds that are read. -/
theorem parseDurationToMs_ok (h : parseDurationToMs duration = .ok ms) :
    ∃ digits unit, (trim duration).toList = digits ++ [unit.letter] ∧ digits ≠ [] ∧
      (∀ c ∈ digits, c.isDigit = true) ∧
      wholeMs duration = ofDigits digits * UNIT_TO_MS unit ∧
      ms = (Number.ofRat (ofDigits digits)).mul (.finite (UNIT_TO_MS unit)) := by
  unfold parseDurationToMs at h
  unfold wholeMs
  cases hmatch : matchDuration (trim duration).toList with
  | none =>
      rw [hmatch] at h
      cases h
  | some parts =>
      obtain ⟨digits, unit⟩ := parts
      rw [hmatch] at h
      obtain ⟨htext, hne, hdigits⟩ := matchDuration_spec hmatch
      refine ⟨digits, unit, htext, hne, hdigits, rfl, ?_⟩
      rw [← parseInt_digits hne hdigits]
      exact (Except.ok.inj h).symm

/-- **The milliseconds are exact** iff they are a double. -/
theorem exact_iff (h : parseDurationToMs duration = .ok ms) :
    ms = .finite (wholeMs duration) ↔ IsDouble (wholeMs duration) := by
  obtain ⟨digits, unit, -, -, -, hwhole, rfl⟩ := parseDurationToMs_ok h
  rw [hwhole]
  exact Number.mul_eq_iff (UNIT_TO_MS_pos unit)

/-- The library reads the same number, where it reads the text. -/
theorem JwtLibrary.lifetime_eq (lib : JwtLibrary) (h : parseDurationToMs duration = .ok ms) :
    lib.lifetime duration = some ms ↔ trim duration = duration ∧ duration.length ≤ 100 := by
  obtain ⟨digits, unit, htext, hne, hdigits, -, rfl⟩ := parseDurationToMs_ok h
  constructor
  · intro hlifetime
    refine ⟨?_, ?_⟩
    · by_contra hblanks
      rw [lib.refuses_blanks duration hblanks] at hlifetime
      cases hlifetime
    · by_contra hlong
      rw [lib.refuses_long duration (by omega)] at hlifetime
      cases hlifetime
  · rintro ⟨htrim, hlength⟩
    rw [htrim] at htext
    have heq : duration = String.ofList (digits ++ [unit.letter]) := by
      rw [← htext, String.ofList_toList]
    have hlen : digits.length + 1 ≤ 100 := by
      rw [← String.length_toList, htext, List.length_append] at hlength
      exact hlength
    rw [heq, lib.reads digits unit hne hdigits hlen, parseFloat_digits hne hdigits]

theorem isExpiry_natCast (k : Nat) : isExpiry now (.finite k) = true ↔ 0 < k ∧ now + k < 2 ^ 63 := by
  rw [isExpiry, decide_eq_true_eq, Nat.cast_pos]
  refine and_congr_right fun _ => ?_
  exact_mod_cast Iff.rfl

/-- Exact milliseconds added to the clock. -/
theorem expiryWorks_iff (h : parseDurationToMs duration = .ok ms) (hnow : |now| ≤ MAX_TIME) :
    ExpiryWorks duration ms ((Number.finite now).add ms) ↔ ExpiryFits now duration := by
  unfold ExpiryWorks ExpiryFits
  rw [exact_iff h]
  refine and_congr_right fun hdouble => ?_
  rw [(exact_iff h).mpr hdouble]
  have hsum : (Number.finite (now : ℚ)).add (.finite (wholeMs duration)) =
    .ofRat ((now + wholeMs duration : ℤ) : ℚ) := by
    push_cast
    rfl
  rw [isValidDate, hsum, Number.within_ofRat_iff (by decide), abs_le]
  rw [abs_le] at hnow
  constructor
  · exact fun h => h.2
  · exact fun h => ⟨by omega, h⟩

end Reading

/-- The three durations of a configuration are the texts that were read. -/
theorem jwtConfig_ok {env : ProcessEnv} {config : JwtConfig} (h : jwtConfig env = .ok config) :
    parseDurationToMs config.accessExpiresIn = .ok config.accessExpiresInMs ∧
      parseDurationToMs config.refreshExpiresIn = .ok config.refreshExpiresInMs ∧
      parseDurationToMs config.resetTokenTtl = .ok config.resetTokenTtlMs := by
  unfold jwtConfig at h
  simp only at h
  split_ifs at h
  · cases h
  · cases haccess : parseDurationToMs ((env "JWT_ACCESS_EXPIRES_IN").getD "15m") with
    | error message => rw [haccess] at h; cases h
    | ok access =>
        cases hrefresh : parseDurationToMs ((env "JWT_REFRESH_EXPIRES_IN").getD "7d") with
        | error message => rw [haccess, hrefresh] at h; cases h
        | ok refresh =>
            cases hreset : parseDurationToMs ((env "PASSWORD_RESET_TOKEN_TTL").getD "30m") with
            | error message => rw [haccess, hrefresh, hreset] at h; cases h
            | ok reset =>
                rw [haccess, hrefresh, hreset] at h
                obtain rfl := Except.ok.inj h
                exact ⟨haccess, hrefresh, hreset⟩

/-- **Which durations accepted at boot work** where they are used. For every environment that boots, at
    any time that is a date: each of the three lifetimes works iff its text meets the condition. -/
theorem durations_work (lib : JwtLibrary) {env : ProcessEnv} {config : JwtConfig} {now : Int}
    (h : jwtConfig env = .ok config)
    (hnow : |now| ≤ MAX_TIME) :
    (AccessWorks lib now config ↔ AccessFits now config.accessExpiresIn) ∧
      (ExpiryWorks config.refreshExpiresIn config.refreshExpiresInMs (refreshExpiry config now) ↔
        ExpiryFits now config.refreshExpiresIn) ∧
      (ExpiryWorks config.resetTokenTtl config.resetTokenTtlMs (resetExpiry config now) ↔
        ExpiryFits now config.resetTokenTtl) := by
  obtain ⟨haccess, hrefresh, hreset⟩ := jwtConfig_ok h
  refine ⟨?_, expiryWorks_iff hrefresh hnow, expiryWorks_iff hreset hnow⟩
  unfold AccessWorks AccessFits JwtLibrary.signAccessToken
  rw [exact_iff haccess, lib.lifetime_eq haccess]
  refine and_congr_right fun hdouble => ?_
  rw [(exact_iff haccess).mpr hdouble, isExpiry_natCast, and_assoc]

/-! ## Environments

A configuration that works, and two that are accepted at boot and do not work. -/

/-- The match of a run of digits and a unit. -/
theorem matchDuration_digits {digits : List Char} (hne : digits ≠ [])
    (h : ∀ c ∈ digits, c.isDigit = true) (unit : DurationUnit) :
    matchDuration (digits ++ [unit.letter]) = some (digits, unit) := by
  have hletter : unit.letter.isDigit = false := by cases unit <;> decide
  have hunit : DurationUnit.all.find? (fun unit' => unit'.letter = unit.letter) = some unit := by
    cases unit <;> decide
  have hstop : ¬ unit.letter.isDigit = true := by rw [hletter]; exact Bool.false_ne_true
  unfold matchDuration
  rw [List.takeWhile_append_of_pos h, List.dropWhile_append_of_pos h, List.takeWhile_cons_of_neg hstop,
    List.dropWhile_cons_of_neg hstop, List.append_nil]
  simp only [if_neg hne, hunit, Option.map_some]

/-- The library, on texts without a fraction. -/
def plainLibrary : JwtLibrary where
  lifetime text :=
    if trim text = text ∧ text.length ≤ 100 then
      (matchDuration text.toList).map fun parts =>
        (parseFloat parts.1).mul (.finite (UNIT_TO_MS parts.2))
    else none
  reads digits unit hne hdigits hlength := by
    have hplain : trim (String.ofList (digits ++ [unit.letter])) = String.ofList
      (digits ++ [unit.letter]) := by
      apply trim_of_no_blanks
      intro c hc
      rw [String.toList_ofList, List.mem_append, List.mem_singleton] at hc
      rcases hc with hc | rfl
      · exact (digit_cases (hdigits c hc)).1
      · cases unit <;> decide
    have hlen : (String.ofList (digits ++ [unit.letter])).length ≤ 100 := by
      rw [← String.length_toList, String.toList_ofList, List.length_append]
      exact hlength
    rw [if_pos ⟨hplain, hlen⟩, String.toList_ofList, matchDuration_digits hne hdigits]
    rfl
  refuses_blanks text h := if_neg fun hplain => h hplain.1
  refuses_long text h := if_neg fun hplain => by omega

/-- An environment with the secret and another variable. -/
def envWith (name value : String) : ProcessEnv := fun other =>
  if other = "JWT_ACCESS_SECRET" then some "replace-with-a-random-32+char-secret-000000"
  else if other = name then some value
  else none

/-- A configuration, from something that is read of it. -/
theorem exists_config {β : Type} {env : ProcessEnv} {f : JwtConfig → β} {b : β}
    (h : (jwtConfig env).toOption.map f = some b) : ∃ config, jwtConfig env = .ok config ∧
      f config = b := by
  cases hconfig : jwtConfig env with
  | error message =>
      rw [hconfig] at h
      cases h
  | ok config =>
      rw [hconfig] at h
      exact ⟨config, rfl, Option.some.inj h⟩

/-- A lifetime of 15 minutes. -/
theorem durations_work_15m : ∃ config, jwtConfig (envWith "JWT_ACCESS_EXPIRES_IN" "15m") = .ok config ∧
    config.accessExpiresIn = "15m" ∧
      (AccessWorks plainLibrary 1700000000000 config ↔
        AccessFits 1700000000000 config.accessExpiresIn) := by
  obtain ⟨config, hconfig, htext⟩ := exists_config (f := JwtConfig.accessExpiresIn)
    (show (jwtConfig (envWith "JWT_ACCESS_EXPIRES_IN" "15m")).toOption.map JwtConfig.accessExpiresIn =
      some "15m" by decide +kernel)
  have hnow : |(1700000000000 : Int)| ≤ MAX_TIME := by decide
  exact ⟨config, hconfig, htext, (durations_work plainLibrary hconfig hnow).1⟩

/-- Blanks around the access lifetime: the configuration is read, and no token can be signed. Zero
    seconds: the milliseconds are no expiry. -/
theorem durations_at_first_login :
    (∃ config, jwtConfig (envWith "JWT_ACCESS_EXPIRES_IN" " 15m ") = .ok config ∧
      ∀ (lib : JwtLibrary) (now : Int), lib.signAccessToken config = none ∧
        ¬ AccessWorks lib now config) ∧
      ∃ config, jwtConfig (envWith "JWT_ACCESS_EXPIRES_IN" "0s") = .ok config ∧
        ∀ (lib : JwtLibrary) (now : Int), isExpiry now config.accessExpiresInMs = false ∧
          ¬ AccessWorks lib now config := by
  constructor
  · obtain ⟨config, hconfig, htext⟩ := exists_config (f := JwtConfig.accessExpiresIn)
      (show (jwtConfig (envWith "JWT_ACCESS_EXPIRES_IN" " 15m ")).toOption.map
        JwtConfig.accessExpiresIn = some " 15m " by
        decide +kernel)
    refine ⟨config, hconfig, fun lib now => ?_⟩
    have hrefused : lib.signAccessToken config = none := by
      rw [JwtLibrary.signAccessToken, htext]
      exact lib.refuses_blanks _ (by decide +kernel)
    refine ⟨hrefused, fun hworks => ?_⟩
    obtain ⟨-, hsigned, -⟩ := hworks
    rw [hrefused] at hsigned
    cases hsigned
  · obtain ⟨config, hconfig, hzero⟩ :=
      exists_config (f := fun config => decide (config.accessExpiresInMs = .finite 0))
      (show (jwtConfig (envWith "JWT_ACCESS_EXPIRES_IN" "0s")).toOption.map
        (fun config => decide (config.accessExpiresInMs = .finite 0)) = some true by decide +kernel)
    replace hzero : config.accessExpiresInMs = .finite 0 := of_decide_eq_true hzero
    refine ⟨config, hconfig, fun lib now => ?_⟩
    have hexpiry : isExpiry now config.accessExpiresInMs = false := by
      rw [hzero]
      simp [isExpiry]
    refine ⟨hexpiry, fun hworks => ?_⟩
    rw [hworks.2.2] at hexpiry
    cases hexpiry

end NestApp
