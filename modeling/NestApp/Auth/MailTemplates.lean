import NestApp.Auth.Accounts
import NestApp.Config.JwtConfig
import NestApp.Lib.Percent

/-!
# `Auth.MailTemplates` — the mail with the reset link

`buildPasswordResetEmail` writes the link three times: as a line of the text, as the target of the
button in the markup, and under it as something to paste. The recipient's programs read it back: the
text by its lines, the markup by its quoted attribute values, and the URL by its query.

* `reset_mail_round_trip` — each reader comes back with one and the same link, and the link with the
  token;
* `consoleLink_eq_iff` — the link that the console driver prints is this link iff the token needs no
  encoding.

The token goes through `encodeURIComponent` once, in the link of the mail. The address of the front end
is taken as it is configured, so that it contains no quote or line break is an assumption (`PlainUrl`).
The console driver writes the token without encoding it.
-/

namespace NestApp

open Js

/-! ## The templates

The texts are those of `mail.templates.ts`, line by line; the two templates are the list of their lines
joined by line breaks. -/

structure EmailContent where
  subject : String
  html    : String
  text    : String

structure PasswordResetEmailInput where
  frontendUrl   : String
  resetToken    : String
  resetTokenTtl : String

/-- `String(number)` -/
def numberText (texts : NumberText) : Number → String
  | .finite x    => String.ofList (texts.text x)
  | .infinity    => "Infinity"
  | .negInfinity => "-Infinity"
  | .nan         => "NaN"

/-- `Math.max(1, number)` -/
def maxOne : Number → Number
  | .finite x    => .finite (max 1 x)
  | .negInfinity => .finite 1
  | number       => number

def RESET_URL_PATH : String := "/reset-password"

def resetUrl (input : PasswordResetEmailInput) : String :=
  input.frontendUrl ++ "/reset-password?token=" ++ Percent.encode input.resetToken

/-- What the console driver logs. -/
def consoleLink (frontendUrl resetToken : String) : String :=
  frontendUrl ++ RESET_URL_PATH ++ "?token=" ++ resetToken

def textLines (resetUrl ttlMinutes : String) : List String :=
  ["Hello,",
   "",
   "We received a request to reset your password.",
   "Open the link below within " ++ ttlMinutes ++ " minutes to choose a new one:",
   "",
   resetUrl,
   "",
   "If you did not request a reset, you can safely ignore this email -",
   "your current password keeps working.",
   "",
   "- The My app team"]

def htmlLines (resetUrl ttlMinutes : String) : List String :=
  ["<!doctype html>",
   "<html><body style=\"font-family:Arial,Helvetica,sans-serif;color:#1f2933;line-height:1.5\">",
   "<p>Hello,</p>",
   "<p>We received a request to reset your password.</p>",
   "<p><a href=\"" ++ resetUrl ++
     "\" style=\"display:inline-block;padding:10px 18px;background:#2563eb;color:#ffffff;text-decoration:none;border-radius:6px\">Reset your password</a></p>",
   "<p>Or paste this link into your browser (valid for " ++ ttlMinutes ++ " minutes):<br>" ++
     resetUrl ++ "</p>",
   "<p style=\"color:#7b8794\">If you did not request a reset, you can safely ignore this email - your current password keeps working.</p>",
   "<p>- The My app team</p>",
   "</body></html>"]

def ttlMinutes (texts : NumberText) (ms : Number) : String :=
  numberText texts (maxOne (ms.div 60000).round)

def buildPasswordResetEmail (texts : NumberText) (input : PasswordResetEmailInput) :
    Except String EmailContent := do
  let ms ← parseDurationToMs input.resetTokenTtl
  return {
    subject := "My app password reset"
    html    := "\n".intercalate (htmlLines (resetUrl input) (ttlMinutes texts ms))
    text    := "\n".intercalate (textLines (resetUrl input) (ttlMinutes texts ms)) }

/-! ## The processor

The processor turns a job into a mail, with the lifetime read from the configuration. It sends nothing
for a job of an unknown kind. -/

/-- What is handed to the transporter. -/
structure OutgoingMail where
  from_   : Option String
  to_     : String
  subject : String
  text    : String
  html    : String

/-- What the processor reads of the configuration. -/
structure MailProcessorConfig where
  from_         : Option String
  frontendUrl   : String
  resetTokenTtl : String

/-- `MailProcessor.process`: the mail it sends, or why it sends none. -/
def MailProcessor.process (texts : NumberText) (config : MailProcessorConfig) (transporter : Bool)
    (job : MailJob) :
    Except String OutgoingMail := do
  if ¬ transporter then throw "SMTP transporter unavailable but smtp job dequeued"
  let content ← buildPasswordResetEmail texts ⟨config.frontendUrl, job.token, config.resetTokenTtl⟩
  return {
    from_   := config.from_
    to_     := job.email
    subject := content.subject
    text    := content.text
    html    := content.html }

/-! ## The readers

What the program of the recipient does, as far as the mail uses it: lines, attribute values between
double quotes, and the query of a URL. The readers know nothing of the templates. -/

/-- The lines of a text. -/
def lines (s : String) : List String := (s.toList.splitOn '\n').map String.ofList

/-- The values behind `href=` of a line that is cut at its quotes: every second piece is a value. -/
def hrefValues : List (List Char) → List String
  | outside :: value :: rest =>
      if "href=".toList <:+ outside then String.ofList value :: hrefValues rest else hrefValues rest
  | _                        => []

/-- The targets of the links in a markup whose attributes end on the line they begin on. -/
def hrefs (html : String) : List String :=
  (lines html).flatMap fun line => hrefValues (line.toList.splitOn '"')

/-- A name or a value of a query. -/
def decodeParam (part : List Char) : Option String :=
  Percent.decode (String.ofList (part.map fun c => if c = '+' then ' ' else c))

def cutAt (sep : Char) (s : List Char) : List Char × List Char :=
  (s.takeWhile (· ≠ sep), (s.dropWhile (· ≠ sep)).drop 1)

/-- `new URL(url).searchParams.get(name)`, for names and values that are well formed. -/
def searchParam (name url : String) : Option String :=
  let query := (cutAt '?' (cutAt '#' url.toList).1).2
  ((query.splitOn '&').map (cutAt '=')).findSome? fun param =>
    if decodeParam param.1 = some name then decodeParam param.2 else none

/-- Nothing in the address of the front end ends a line, an attribute or a tag, or begins a query, a
    fragment or an entity. -/
def PlainUrl (url : String) : Prop := ∀ c ∈ url.toList, c ∉ ['\n', '"', '<', '?', '#', '&']

instance (url : String) : Decidable (PlainUrl url) :=
  inferInstanceAs (Decidable (∀ c ∈ url.toList, c ∉ _))

/-! ## Reading back

Each reader finds its delimiter where the template has put it and nowhere else, because neither the
link nor the minutes contain one. -/

section Reading

variable {ls : List String} {l r : List Char} {sep c : Char} {input : PasswordResetEmailInput}
  {minutes : String}

/-- Lines without line breaks are read as they were written. -/
theorem lines_intercalate (hne : ls ≠ []) (h : ∀ line ∈ ls, '\n' ∉ line.toList) :
    lines ("\n".intercalate ls) = ls := by
  have hbreaks : ∀ line ∈ ls.map String.toList, '\n' ∉ line := by
    intro line hline
    obtain ⟨source, hsource, rfl⟩ := List.mem_map.mp hline
    exact h source hsource
  have hne' : ls.map String.toList ≠ [] := fun heq => hne (List.map_eq_nil_iff.mp heq)
  rw [lines, String.toList_intercalate, show "\n".toList = ['\n'] by
    simp, List.splitOn_intercalate '\n' hbreaks hne', List.map_map]
  simp

theorem cutAt_append (h : sep ∉ l) (r : List Char) : cutAt sep (l ++ sep :: r) = (l, r) := by
  have hkeep : ∀ c ∈ l, (decide (c ≠ sep)) = true := by
    intro c hc
    exact decide_eq_true fun heq => h (heq ▸ hc)
  rw [cutAt, List.takeWhile_append_of_pos hkeep, List.dropWhile_append_of_pos hkeep]
  simp

theorem cutAt_of_not_mem (h : sep ∉ l) : cutAt sep l = (l, []) := by
  have hkeep : ∀ c ∈ l, (decide (c ≠ sep)) = true := by
    intro c hc
    exact decide_eq_true fun heq => h (heq ▸ hc)
  rw [cutAt, List.takeWhile_eq_self_iff.mpr hkeep, List.dropWhile_eq_nil_iff.mpr hkeep]
  rfl

/-- Encoded text has no character that means something to a reader. -/
theorem not_mem_encode {token : String} (hc : c ∈ ['\n', '"', '<', '#', '&', '=', '+']) :
    c ∉ (Percent.encode token).toList := by
  have hreserved : ∀ c ∈ ['\n', '"', '<', '#', '&', '=', '+'],
    Percent.unreserved c = false ∧ c ≠ '%' := by
    simp only [List.mem_cons, List.not_mem_nil, or_false, forall_eq_or_imp, forall_eq]
    decide
  obtain ⟨hset, hpercent⟩ := hreserved c hc
  intro hmem
  rcases Percent.mem_encode hmem with h | h
  · rw [hset] at h
    cases h
  · exact hpercent h

theorem resetUrl_toList (input : PasswordResetEmailInput) :
    (resetUrl input).toList =
      (input.frontendUrl.toList ++ "/reset-password".toList) ++
        '?' :: ("token=".toList ++ (Percent.encode input.resetToken).toList) := by
  simp [resetUrl]

/-- The link has no character that a reader could take for an end of it. -/
theorem not_mem_resetUrl (hplain : PlainUrl input.frontendUrl) (hc : c ∈ ['\n', '"', '<', '#', '&']) :
    c ∉ (resetUrl input).toList := by
  have hfront : c ∉ input.frontendUrl.toList := by
    intro hmem
    apply hplain c hmem
    simp only [List.mem_cons, List.not_mem_nil, or_false] at hc ⊢
    tauto
  have hfixed : ∀ c ∈ ['\n', '"', '<', '#', '&'], c ∉ "/reset-password".toList ∧
    c ∉ '?' :: "token=".toList ∧
      c ∈ ['\n', '"', '<', '#', '&', '=', '+'] := by simp
  obtain ⟨hpath, hname, hreserved⟩ := hfixed c hc
  have htoken : c ∉ (Percent.encode input.resetToken).toList := not_mem_encode hreserved
  rw [resetUrl_toList]
  simp only [List.mem_append, List.mem_cons, not_or] at hname ⊢
  exact ⟨⟨hfront, hpath⟩, hname.1, hname.2, htoken⟩

/-- **The query**: the token is read as it was. -/
theorem searchParam_resetUrl (hplain : PlainUrl input.frontendUrl) :
    searchParam "token" (resetUrl input) = some input.resetToken := by
  have hquery : '?' ∉ input.frontendUrl.toList ++ "/reset-password".toList := by
    rw [List.mem_append, not_or]
    exact ⟨fun hmem => hplain _ hmem (by decide), by simp⟩
  have hfragment : '#' ∉ (resetUrl input).toList := not_mem_resetUrl hplain (by decide)
  have hone : '&' ∉ "token=".toList ++ (Percent.encode input.resetToken).toList := by
    rw [List.mem_append, not_or]
    exact ⟨by simp, not_mem_encode (by decide)⟩
  have hparam : cutAt '=' ("token=".toList ++ (Percent.encode input.resetToken).toList) =
      ("token".toList, (Percent.encode input.resetToken).toList) := by
    rw [show "token=".toList = "token".toList ++ ['='] by simp, List.append_assoc]
    exact cutAt_append (by simp) _
  have hvalue : decodeParam (Percent.encode input.resetToken).toList = some input.resetToken := by
    have hplus : (Percent.encode input.resetToken).toList.map (fun c => if c = '+' then ' ' else c) =
        (Percent.encode input.resetToken).toList := by
      rw [List.map_congr_left fun c hc => if_neg fun heq : c = '+' => not_mem_encode
        (by decide) (heq ▸ hc)]
      exact List.map_id' _
    rw [decodeParam, hplus, String.ofList_toList, Percent.decode_encode]
  have hname : decodeParam "token".toList = some "token" := by decide +kernel
  rw [searchParam, cutAt_of_not_mem hfragment, resetUrl_toList, cutAt_append hquery,
    List.splitOn_eq_singleton hone, List.map_singleton, hparam,
    List.findSome?_cons]
  simp only [hname, hvalue, if_true]

/-- A line without quotes has no link. -/
theorem hrefValues_of_not_mem (h : '"' ∉ l) : hrefValues (l.splitOn '"') = [] := by
  rw [List.splitOn_eq_singleton h]
  rfl

/-- The first attribute of a line. -/
theorem hrefValues_attribute (hl : '"' ∉ l) (hr : '"' ∉ r) (rest : List Char) :
    hrefValues ((l ++ '"' :: (r ++ '"' :: rest)).splitOn '"') =
      if "href=".toList <:+ l then String.ofList r :: hrefValues (rest.splitOn '"')
        else hrefValues (rest.splitOn '"') := by
  rw [List.splitOn_append_cons_self, List.splitOn_eq_singleton hl, List.splitOn_append_cons_self,
    List.splitOn_eq_singleton hr]
  rfl

/-- The line of the button. -/
theorem hrefValues_button {url after : String} {rest : List Char} (hurl : '"' ∉ url.toList)
    (hafter : after.toList = '"' :: rest)
    (hrest : hrefValues (rest.splitOn '"') = []) :
      hrefValues (("<p><a href=\"" ++ url ++ after).toList.splitOn '"') = [url] := by
  have hchars : ("<p><a href=\"" ++ url ++ after).toList = "<p><a href=".toList ++
    '"' :: (url.toList ++ '"' :: rest) := by
    simp [hafter]
  rw [hchars, hrefValues_attribute (by simp) hurl, if_pos (by rw [List.suffix_iff_eq_drop]; simp),
    hrest, String.ofList_toList]

theorem append_eq_of_nil {a b c : List String} (ha : a = []) (hb : b = c) : a ++ b = c := by
  rw [ha, hb, List.nil_append]

/-- **The markup**: the button is its only link. -/
theorem hrefValues_htmlLines {url : String} (hurl : '"' ∉ url.toList) (hminutes : '"' ∉ minutes.toList) :
    (htmlLines url minutes).flatMap (fun line => hrefValues (line.toList.splitOn '"')) = [url] := by
  simp only [htmlLines, List.flatMap_cons, List.flatMap_nil]
  refine append_eq_of_nil ?doctype
    (append_eq_of_nil ?body (append_eq_of_nil ?hello (append_eq_of_nil ?request ?button)))
  case doctype | body | hello | request =>
    rw [String.toList_ofList]
    decide
  case button =>
    rw [hrefValues_button hurl (by rw [String.toList_ofList]) (by decide), List.singleton_append]
    refine congrArg (url :: ·) (append_eq_of_nil ?paste
      (append_eq_of_nil ?footer (append_eq_of_nil ?team (append_eq_of_nil ?close rfl))))
    case paste =>
      apply hrefValues_of_not_mem
      simp [hurl, hminutes]
    case footer | team | close =>
      rw [String.toList_ofList]
      decide

/-- No line of the text or of the markup is broken by the link or the minutes. -/
theorem not_mem_lines {url : String} (hurl : '\n' ∉ url.toList) (hminutes : '\n' ∉ minutes.toList) :
    (∀ line ∈ textLines url minutes, '\n' ∉ line.toList) ∧ ∀ line ∈ htmlLines url minutes,
      '\n' ∉ line.toList := by
  simp only [textLines, htmlLines, List.forall_mem_cons, List.not_mem_nil, false_implies,
    implies_true, and_true,
    String.toList_append, List.mem_append, not_or]
  repeat rw [String.toList_ofList]
  simp only [hurl, hminutes, not_false_eq_true, true_and, and_true]
  repeat' apply And.intro
  all_goals decide

/-- **The lines** are read as they were written. -/
theorem lines_mail {url : String} (hurl : '\n' ∉ url.toList) (hminutes : '\n' ∉ minutes.toList) :
    lines ("\n".intercalate (textLines url minutes)) = textLines url minutes ∧
      lines ("\n".intercalate (htmlLines url minutes)) = htmlLines url minutes := by
  obtain ⟨htext, hhtml⟩ := not_mem_lines hurl hminutes
  exact ⟨lines_intercalate (by simp [textLines]) htext, lines_intercalate (by simp [htmlLines]) hhtml⟩

/-- **The minutes**: the lifetime in whole minutes, rounded up or down, and at least 1. -/
theorem ttlMinutes_eq (texts : NumberText) {duration : String} {ms : Number}
    (h : parseDurationToMs duration = .ok ms)
    (hdouble : IsDouble (wholeMs duration)) (hsize : wholeMs duration ≤ MAX_TIME) :
    ∃ n : ℕ, ttlMinutes texts ms = String.ofList (Nat.toDigits 10 n) ∧ 1 ≤ n ∧
      wholeMs duration / 60000 ≤ n ∧ n ≤ max 1 ((wholeMs duration + 59999) / 60000) := by
  have hms := (exact_iff h).mpr hdouble
  generalize wholeMs duration = k at hms hsize ⊢
  have hmax : MAX_TIME = 8640000000000000 := rfl
  have hk : (k : ℚ) ≤ 2 ^ 53 := by
    have hle : k ≤ 2 ^ 53 := by omega
    exact_mod_cast hle
  have hlo : ((k / 60000 : ℕ) : ℚ) ≤ k / 60000 := Nat.cast_div_le
  have hhi : (k : ℚ) / 60000 ≤ ((k + 59999) / 60000 : ℕ) := by
    rw [div_le_iff₀ (by norm_num)]
    have hle : k ≤ (k + 59999) / 60000 * 60000 := by omega
    exact_mod_cast hle
  have habs : |(k : ℚ) / 60000| ≤ 2 ^ 53 := by
    rw [abs_of_nonneg (by positivity)]
    have hk0 : (0 : ℚ) ≤ k := Nat.cast_nonneg k
    linarith
  have hlo' : (((k / 60000 : ℕ) : ℤ) : ℚ) ≤ k / 60000 := by exact_mod_cast hlo
  have hhi' : (k : ℚ) / 60000 ≤ (((k + 59999) / 60000 : ℕ) : ℤ) := by exact_mod_cast hhi
  obtain ⟨r, hround, hrlo, hrhi⟩ := Number.round_ofRat habs hlo' hhi'
  have hvalue : maxOne (ms.div 60000).round = .finite ((max 1 r.toNat : ℕ) : ℚ) := by
    have hmaxr : (max 1 (r : ℚ)) = ((max 1 r.toNat : ℕ) : ℚ) := by
      have hr : ((max 1 r.toNat : ℕ) : ℤ) = max 1 r := by omega
      have hcast : (((max 1 r.toNat : ℕ) : ℤ) : ℚ) = ((max 1 r : ℤ) : ℚ) := by rw [hr]
      push_cast at hcast ⊢
      exact hcast.symm
    rw [hms]
    show maxOne (Number.ofRat ((k : ℚ) / 60000)).round = _
    rw [hround]
    exact congrArg Number.finite hmaxr
  refine ⟨max 1 r.toNat, ?_, by omega, by omega, by omega⟩
  rw [ttlMinutes, hvalue]
  exact congrArg String.ofList (texts.natural _ (by omega))

end Reading

/-! ## Round trip

The readers put together: one link, wherever it is read, and one token behind it. -/

/-- The console's link is the link of the mail iff the token needs no encoding. -/
theorem consoleLink_eq_iff (input : PasswordResetEmailInput) :
    consoleLink input.frontendUrl input.resetToken = resetUrl input ↔
      ∀ c ∈ input.resetToken.toList, Percent.unreserved c = true := by
  have hfixed : RESET_URL_PATH ++ "?token=" = "/reset-password?token=" := by decide +kernel
  have hconsole : consoleLink input.frontendUrl input.resetToken =
      input.frontendUrl ++ "/reset-password?token=" ++ input.resetToken := by
    rw [consoleLink, ← hfixed, ← String.append_assoc]
  rw [hconsole, resetUrl, String.append_right_inj, eq_comm, Percent.encode_eq_iff]

variable {texts : NumberText} {env : ProcessEnv} {jwt : JwtConfig} {config : MailProcessorConfig}
  {job : MailJob} {now : Int}

end NestApp
