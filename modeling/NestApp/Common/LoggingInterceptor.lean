import Mathlib.Data.List.TakeWhile
import NestApp.Lib.Replace

/-!
# `Common.LoggingInterceptor` — the fallback route keys

A request that matched no route is counted under its path, with every match of `ID_SEGMENT` replaced by
`:id`. The leftmost match goes first: a UUID where one starts, else a run of digits.

Ids that are segments of the path of their own are collapsed whatever they are, and no digit stays in
the key. But a match can end inside a UUID (in `12aaaaaaa-aaaa-aaaa-aaaa-aaaaaaaaaaaa` the match is
`12`), and the last character of `:id` is a hexadecimal digit: it makes a UUID of the key together with
a rest that stays (`RestOfUuid`).

`fallback_key`: the key has a UUID, and another normalisation changes it, iff one of the fixed segments
is like this.
-/

namespace NestApp

open Replace

namespace LoggingInterceptor

/-- What the interceptor reads of a request: `request.route?.path` if it is a string, and
    `request.path`. -/
structure Request where
  routePath : Option String
  path      : Option String

/-- `[0-9a-f]`, in any letter case. -/
def isHexDigit (c : Char) : Bool := ('0' ≤ c && c ≤ '9') || ('a' ≤ c && c ≤ 'f') || ('A' ≤ c && c ≤ 'F')

def isHyphen (c : Char) : Bool := c = '-'

/-- `[0-9a-f]{8}-[0-9a-f]{4}-[0-9a-f]{4}-[0-9a-f]{4}-[0-9a-f]{12}` -/
def UUID : List (Char → Bool) :=
  List.replicate 8 isHexDigit ++ isHyphen :: List.replicate 4 isHexDigit ++
    isHyphen :: List.replicate 4 isHexDigit ++
    isHyphen :: List.replicate 4 isHexDigit ++ isHyphen :: List.replicate 12 isHexDigit

/-- The UUID first, else `[0-9]+`: how many characters match at the start of the text. -/
def ID_SEGMENT (text : List Char) : Nat :=
  if startsWith UUID text then UUID.length else (text.takeWhile Char.isDigit).length

/-- `':id'` -/
abbrev ID : List Char := [':', 'i', 'd']

/-- `path.replace(ID_SEGMENT, ':id')`: every match from the left, each replaced by the text `:id`. -/
def normalize (path : String) : String := String.ofList (replaceAll ID_SEGMENT ID path.toList)

/-- The key of a request that matched no route. An empty path counts as the root. -/
def fallbackKey (path : String) : String := if normalize path = "" then "/" else normalize path

def routeKey (request : Request) : String :=
  match request.routePath with
  | some matchedPath =>
      if 0 < matchedPath.length then matchedPath else fallbackKey (request.path.getD "")
  | none             => fallbackKey (request.path.getD "")

/-! ## Templates

A path is a list of segments between slashes. A template fixes some of them and leaves the others to
ids; an instance puts an id in each of those. -/

/-- A segment of a template. -/
inductive Segment where
  | fixed (text : String)
  | id

/-- The text is an id: a run of digits, or a UUID. -/
def IsId (text : String) : Prop :=
  (text.toList ≠ [] ∧ ∀ c ∈ text.toList, c.isDigit) ∨
    (text.toList.length = UUID.length ∧ startsWith UUID text.toList = true)

/-- The text stands for the segment. -/
def Segment.Instance : Segment → String → Prop
  | .fixed text, segment => segment = text ∧ '/' ∉ text.toList
  | .id, segment         => IsId segment

/-- The segments stand for the template: fixed segments as they are, and an id for each of the others. -/
def Instantiates (template : List Segment) (segments : List String) : Prop :=
  List.Forall₂ Segment.Instance template segments

def path (segments : List String) : String := "/".intercalate segments

/-! ## The condition

The one way in which a UUID can get into a key: a match ends inside of what looks like a UUID, and its
replacement completes the rest. -/

/-- There is a UUID in the text. -/
def HasUuid (text : String) : Prop := ∃ rest, rest <:+ text.toList ∧ startsWith UUID rest = true

/-- Directly behind a match of `ID_SEGMENT`, 35 characters outside the matches: a UUID without its first
    character. The last letter of `:id` makes it whole. -/
def RestOfUuid (text : List Char) : Prop :=
  ∃ tail, none :: tail.map some <:+: scan ID_SEGMENT 0 text ∧ tail.length = UUID.tail.length ∧
    startsWith UUID.tail tail = true

/-! ## The pattern

What `ID_SEGMENT` matches at the start of a text. A UUID is tried first, so a run of digits is matched
only where no UUID starts. -/

section Pattern

variable {c : Char} {text rest : List Char}

theorem class_cases {inClass : Char → Bool} (h : inClass ∈ UUID) :
    inClass = isHexDigit ∨ inClass = isHyphen := by
  simp [UUID] at h
  rcases h with h | h | h | h | h | h | h | h | h <;> simp [h]

/-- A character that no class of the UUID has. -/
theorem not_class (hhex : isHexDigit c = false) (hhyphen : isHyphen c = false) :
    ∀ inClass ∈ UUID, inClass c = false := by
  intro inClass h
  rcases class_cases h with rfl | rfl
  · exact hhex
  · exact hhyphen

theorem uuid_eq : UUID = isHexDigit :: UUID.tail := rfl

theorem startsWith_uuid_cons :
    startsWith UUID (c :: rest) = (isHexDigit c && startsWith UUID.tail rest) := by
  rw [uuid_eq, startsWith]
  rfl

/-- A run of digits has no hyphen. -/
theorem not_uuid_of_digits (h : ∀ c ∈ text, c.isDigit = true) : startsWith UUID text = false := by
  rw [Bool.eq_false_iff]
  intro huuid
  obtain ⟨c, hc, hhyphen⟩ := exists_mem_of_startsWith huuid (show isHyphen ∈ UUID by simp [UUID])
  have hdigit := h c hc
  rw [isHyphen, decide_eq_true_eq] at hhyphen
  rw [hhyphen] at hdigit
  exact absurd hdigit (by decide)

theorem idSegment_of_uuid (h : startsWith UUID text = true) : ID_SEGMENT text = UUID.length := by
  rw [ID_SEGMENT, if_pos h]

theorem idSegment_of_not_uuid (h : startsWith UUID text = false) :
    ID_SEGMENT text = (text.takeWhile Char.isDigit).length := by
  rw [ID_SEGMENT, h]
  rfl

theorem idSegment_le (text : List Char) : ID_SEGMENT text ≤ text.length := by
  unfold ID_SEGMENT
  split_ifs with h
  · exact length_le_of_startsWith h
  · exact (List.takeWhile_sublist _).length_le

/-- Where nothing matches, there is neither a UUID nor a digit. -/
theorem not_match (h : ID_SEGMENT (c :: rest) = 0) :
    startsWith UUID (c :: rest) = false ∧ c.isDigit = false := by
  have huuid : startsWith UUID (c :: rest) = false := by
    rw [Bool.eq_false_iff]
    intro huuid
    rw [idSegment_of_uuid huuid] at h
    cases h
  refine ⟨huuid, ?_⟩
  rw [idSegment_of_not_uuid huuid] at h
  rw [Bool.eq_false_iff]
  intro hdigit
  rw [List.takeWhile_cons_of_pos hdigit] at h
  cases h

theorem takeWhile_digits_stop (hc : c.isDigit = false) (text rest : List Char) :
    (text ++ c :: rest).takeWhile Char.isDigit = text.takeWhile Char.isDigit := by
  induction text with
  | nil => simp [hc]
  | cons d text ih =>
      rw [List.cons_append, List.takeWhile_cons, List.takeWhile_cons, ih]

/-- No match reaches over a slash. -/
theorem separator_slash : Separator ID_SEGMENT '/' where
  head rest := by
    have huuid : startsWith UUID ('/' :: rest) = false := by
      rw [startsWith_uuid_cons, show isHexDigit '/' = false from by decide, Bool.false_and]
    rw [idSegment_of_not_uuid huuid]
    rfl
  stop text rest _ := by
    have hstop := startsWith_stop (not_class (c := '/') (by decide) (by decide)) text rest
    unfold ID_SEGMENT
    rw [hstop, takeWhile_digits_stop (by decide)]
  le := idSegment_le

/-- An id matches as a whole. -/
theorem scan_id {text : String} (h : IsId text) : scan ID_SEGMENT 0 text.toList = [none] := by
  rcases h with ⟨hne, hdigits⟩ | ⟨hlen, huuid⟩
  · apply scan_whole hne
    rw [idSegment_of_not_uuid (not_uuid_of_digits hdigits), List.takeWhile_eq_self_iff.mpr hdigits]
  · apply scan_whole
    · intro hnil
      rw [hnil] at hlen
      cases hlen
    · rw [idSegment_of_uuid huuid, hlen]

/-- An id is a segment. -/
theorem slash_not_mem_id {text : String} (h : IsId text) : '/' ∉ text.toList := by
  intro hmem
  rcases h with ⟨-, hdigits⟩ | ⟨hlen, huuid⟩
  · exact absurd (hdigits _ hmem) (by decide)
  · obtain ⟨inClass, hclass, hin⟩ := exists_class_of_startsWith huuid hlen.le hmem
    rw [not_class (c := '/') (by decide) (by decide) inClass hclass] at hin
    cases hin

end Pattern

/-! ## What is in a key

Digits never stay. A UUID in the key must begin with the `d` of `:id`, as nothing else in the key can
be the first character of one that was not matched. -/

section Key

variable {c : Char} {text : List Char}

theorem not_digit_of_mem (h : c ∈ replaceAll ID_SEGMENT ID text) : c.isDigit = false := by
  rcases mem_render h with h | h
  · obtain ⟨cs, -, hzero⟩ := exists_of_mem_scan h
    exact (not_match hzero).2
  · have hid : ID.all (fun c => !c.isDigit) = true := by decide
    simpa using List.all_eq_true.mp hid c h

/-- A UUID in the key starts with the last character of a replacement. -/
theorem exists_uuid_iff :
    (∃ rest, rest <:+ replaceAll ID_SEGMENT ID text ∧ startsWith UUID rest = true) ↔
      RestOfUuid text := by
  have hid : ∀ inClass ∈ UUID, inClass ':' = false := not_class (by decide) (by decide)
  constructor
  · rintro ⟨rest, hrest, huuid⟩
    -- no UUID stays in the text: the scan would have found it
    have hbetween : ∀ {pieces}, pieces <:+ scan ID_SEGMENT 0 text →
      ¬ startsWith UUID (render ID pieces) = true := by
      intro pieces hpieces huuid
      obtain ⟨cs, pieces', rfl, hlen, hcs⟩ := exists_of_startsWith_render hid huuid
      obtain ⟨text', -, hscan⟩ := exists_scan_of_suffix hpieces
      obtain ⟨rest', rfl, -⟩ := exists_append_of_scan hscan
      cases cs with
      | nil => cases hlen
      | cons c cs =>
          have hzero := eq_zero_of_scan hscan
          rw [idSegment_of_uuid (startsWith_append hcs rest')] at hzero
          cases hzero
    cases restOf_of_suffix hrest with
    | between hpieces => exact absurd huuid (hbetween hpieces)
    | @inside part pieces' hpart hpieces =>
        have hparts : part = ID ∨ part = ['i', 'd'] ∨ part = ['d'] ∨ part = [] := by
          rw [List.suffix_cons_iff, List.suffix_cons_iff, List.suffix_cons_iff, List.suffix_nil] at hpart
          exact hpart
        rcases hparts with rfl | rfl | rfl | rfl
        · rw [List.cons_append, startsWith_uuid_cons, show isHexDigit ':' = false from by
            decide, Bool.false_and] at huuid
          cases huuid
        · rw [List.cons_append, startsWith_uuid_cons, show isHexDigit 'i' = false from by
            decide, Bool.false_and] at huuid
          cases huuid
        · rw [List.singleton_append, startsWith_uuid_cons, Bool.and_eq_true] at huuid
          obtain ⟨tail, after, rfl, hlen, htail⟩ :=
            exists_of_startsWith_render (fun inClass h => hid inClass (List.mem_of_mem_tail h)) huuid.2
          obtain ⟨before, hbefore⟩ := hpieces
          exact ⟨tail, ⟨before, after, by
            rw [← hbefore, List.append_assoc, List.cons_append]⟩, hlen, htail⟩
        · exact absurd huuid (hbetween ((List.suffix_cons none pieces').trans hpieces))
  · rintro ⟨tail, ⟨before, after, hscan⟩, -, htail⟩
    refine ⟨'d' :: (tail ++ render ID after), ⟨render ID before ++ [':', 'i'], ?_⟩, ?_⟩
    · rw [replaceAll, ← hscan]
      simp [render_map_some]
    · rw [startsWith_uuid_cons, startsWith_append htail, Bool.and_true]
      decide

/-- The matches in a key are UUIDs. -/
theorem uuid_of_match {rest : List Char} (hrest : rest <:+ replaceAll ID_SEGMENT ID text)
    (hmatch : ID_SEGMENT rest ≠ 0) :
    startsWith UUID rest = true := by
  by_contra huuid
  rw [Bool.not_eq_true] at huuid
  rw [idSegment_of_not_uuid huuid] at hmatch
  cases rest with
  | nil => exact hmatch rfl
  | cons c cs =>
      have hdigit := not_digit_of_mem (hrest.subset List.mem_cons_self)
      rw [List.takeWhile_cons_of_neg (by rw [hdigit]; exact Bool.false_ne_true)] at hmatch
      exact hmatch rfl

theorem longMatches_key (text : List Char) :
    LongMatches ID_SEGMENT ID (replaceAll ID_SEGMENT ID text) := by
  intro rest hrest hmatch
  refine ⟨?_, idSegment_le rest⟩
  rw [idSegment_of_uuid (uuid_of_match hrest hmatch)]
  decide

/-- Nothing matches in a key iff there is no UUID in it. -/
theorem noMatch_key_iff : NoMatch ID_SEGMENT (replaceAll ID_SEGMENT ID text) ↔ ¬ RestOfUuid text := by
  rw [← exists_uuid_iff]
  constructor
  · rintro h ⟨rest, hrest, huuid⟩
    have hzero := h rest hrest
    rw [idSegment_of_uuid huuid] at hzero
    cases hzero
  · intro h rest hrest
    by_contra hmatch
    exact h ⟨rest, hrest, uuid_of_match hrest hmatch⟩

/-- **Another normalisation** changes the key iff there is a UUID in it. -/
theorem replaceAll_idempotent_iff :
    replaceAll ID_SEGMENT ID (replaceAll ID_SEGMENT ID text) = replaceAll ID_SEGMENT ID text ↔
      ¬ RestOfUuid text :=
  (longMatches_key text).replaceAll_eq_self_iff.trans noMatch_key_iff

end Key

/-! ## Paths

No match reaches over a slash, so the pieces of a path are the pieces of its segments, and an id that
is a segment is one piece. -/

section Paths

variable {template : List Segment} {segments : List String}

/-- The pieces of a segment, whatever stands for it. -/
def Segment.pieces : Segment → List (Option Char)
  | .fixed text => scan ID_SEGMENT 0 text.toList
  | .id         => [none]

theorem Segment.Instance.scan_eq {segment : Segment} {text : String} (h : segment.Instance text) :
    scan ID_SEGMENT 0 text.toList = segment.pieces := by
  cases segment with
  | fixed text' =>
      obtain ⟨rfl, -⟩ := h
      rfl
  | id => exact scan_id h

theorem Segment.Instance.slash_not_mem {segment : Segment} {text : String}
    (h : segment.Instance text) : '/' ∉ text.toList := by
  cases segment with
  | fixed text' =>
      obtain ⟨rfl, hslash⟩ := h
      exact hslash
  | id => exact slash_not_mem_id h

theorem Instantiates.slash_not_mem (h : Instantiates template segments) :
    ∀ part ∈ segments.map String.toList, '/' ∉ part := by
  unfold Instantiates at h
  induction h with
  | nil => simp
  | cons hfirst hrest ih =>
      intro part hpart
      rcases List.mem_cons.mp hpart with rfl | hpart
      · exact hfirst.slash_not_mem
      · exact ih part hpart

/-- The pieces of a path are those of its segments, and the slashes. -/
theorem Instantiates.scan_path (h : Instantiates template segments) :
    scan ID_SEGMENT 0 (path segments).toList = [some '/'].intercalate (template.map Segment.pieces) := by
  have hpieces : (segments.map String.toList).map (scan ID_SEGMENT 0) = template.map Segment.pieces := by
    rw [List.map_map]
    induction h with
    | nil => rfl
    | cons hfirst hrest ih =>
        rw [List.map_cons, List.map_cons, ih]
        congr 1
        exact hfirst.scan_eq
  unfold path
  rw [String.toList_intercalate, ← hpieces]
  exact separator_slash.scan_intercalate h.slash_not_mem

/-- The rest of a UUID has no slash. -/
theorem slash_not_mem_tail {tail : List Char} (hlen : tail.length = UUID.tail.length)
    (htail : startsWith UUID.tail tail = true) : some '/' ∉ none :: tail.map some := by
  intro hmem
  have hslash : '/' ∈ tail := by simpa using hmem
  obtain ⟨inClass, hclass, hin⟩ := exists_class_of_startsWith htail hlen.le hslash
  rw [not_class (by decide) (by decide) inClass (List.mem_of_mem_tail hclass)] at hin
  cases hin

/-- There is the rest of a UUID behind a match of the path iff there is one in a fixed segment. -/
theorem Instantiates.restOfUuid_iff (h : Instantiates template segments) :
    RestOfUuid (path segments).toList ↔ ∃ text, .fixed text ∈ template ∧ RestOfUuid text.toList := by
  have hpart : ∀ {tail : List Char}, tail.length = UUID.tail.length → startsWith UUID.tail tail = true →
      (none :: tail.map some <:+: scan ID_SEGMENT 0 (path segments).toList ↔
        ∃ segment ∈ template, none :: tail.map some <:+: segment.pieces) := by
    intro tail hlen htail
    rw [h.scan_path, infix_intercalate (slash_not_mem_tail hlen htail) (List.cons_ne_nil _ _)]
    simp only [List.mem_map, exists_exists_and_eq_and]
  constructor
  · rintro ⟨tail, hin, hlen, htail⟩
    obtain ⟨segment, hsegment, hin⟩ := (hpart hlen htail).mp hin
    cases segment with
    | fixed text => exact ⟨text, hsegment, tail, hin, hlen, htail⟩
    | id =>
        -- an id is one match, with nothing behind it
        have hle := hin.length_le
        rw [List.length_cons, List.length_map, hlen] at hle
        exact absurd hle (by decide)
  · rintro ⟨text, hsegment, tail, hin, hlen, htail⟩
    exact ⟨tail, (hpart hlen htail).mpr ⟨.fixed text, hsegment, hin⟩, hlen, htail⟩

end Paths

/-! ## Keys of paths

The key of an instance is the key of its template. So two requests for one route fall together,
whatever ids they name. -/

theorem toList_normalize (text : String) :
    (normalize text).toList = replaceAll ID_SEGMENT ID text.toList :=
  String.toList_ofList

theorem normalize_eq_empty {text : String} : normalize text = "" ↔ text = "" := by
  rw [← String.toList_eq_nil_iff, toList_normalize, replaceAll_eq_nil_iff (by decide),
    String.toList_eq_nil_iff]

/-- No route was matched. -/
theorem routeKey_path (path : String) : routeKey ⟨none, some path⟩ = fallbackKey path := rfl

theorem fallbackKey_eq (text : String) : fallbackKey text = if text = "" then "/"
    else normalize text := by
  unfold fallbackKey
  simp only [normalize_eq_empty]

/-- There is nothing to replace in the key of the empty path. -/
theorem noMatch_slash : ¬ RestOfUuid "".toList := by
  rw [← exists_uuid_iff]
  rintro ⟨rest, hrest, huuid⟩
  obtain rfl : rest = [] := List.suffix_nil.mp hrest
  cases huuid

theorem not_digit_fallbackKey {text : String} {c : Char} (h : c ∈ (fallbackKey text).toList) :
    c.isDigit = false := by
  rw [fallbackKey_eq] at h
  split_ifs at h with hempty
  · obtain rfl : c = '/' := by simpa using h
    rfl
  · rw [toList_normalize] at h
    exact not_digit_of_mem h

theorem hasUuid_fallbackKey {text : String} : HasUuid (fallbackKey text) ↔ RestOfUuid text.toList := by
  rw [fallbackKey_eq]
  split_ifs with hempty
  · subst hempty
    refine iff_of_false ?_ noMatch_slash
    rintro ⟨rest, hrest, huuid⟩
    have hle := (length_le_of_startsWith huuid).trans hrest.length_le
    exact absurd hle (by decide)
  · rw [← exists_uuid_iff, HasUuid, toList_normalize]

theorem fallbackKey_idempotent_iff {text : String} :
    fallbackKey (fallbackKey text) = fallbackKey text ↔ ¬ RestOfUuid text.toList := by
  by_cases hempty : text = ""
  · subst hempty
    exact iff_of_true (by decide +kernel) noMatch_slash
  · have hkey : fallbackKey text = normalize text := by rw [fallbackKey_eq, if_neg hempty]
    have hne : normalize text ≠ "" := fun h => hempty (normalize_eq_empty.mp h)
    rw [hkey, fallbackKey_eq, if_neg hne, ← replaceAll_idempotent_iff, ← String.toList_inj,
      toList_normalize, toList_normalize]

/-- **The key depends on the template only**: what was put in for the parameters is collapsed. -/
theorem Instantiates.fallbackKey_eq {template : List Segment} {segments segments' : List String}
    (h : Instantiates template segments) (h' : Instantiates template segments') :
    fallbackKey (path segments) = fallbackKey (path segments') := by
  have hnormalize : normalize (path segments) = normalize (path segments') := by
    unfold normalize replaceAll
    rw [h.scan_path, h'.scan_path]
  unfold fallbackKey
  rw [hnormalize]

end LoggingInterceptor

open LoggingInterceptor

/-- **Fallback route keys are insensitive to ids**, and they are free of UUIDs iff no fixed segment
    breaks one up. -/
theorem fallback_key {template : List Segment} {segments segments' : List String}
    (h : Instantiates template segments)
    (h' : Instantiates template segments') :
    routeKey ⟨none, some (path segments)⟩ = routeKey ⟨none, some (path segments')⟩ ∧
      (∀ c ∈ (routeKey ⟨none, some (path segments)⟩).toList, c.isDigit = false) ∧
      (¬ HasUuid (routeKey ⟨none, some (path segments)⟩) ↔ ∀ text, .fixed text ∈ template →
        ¬ RestOfUuid text.toList) ∧
      (routeKey ⟨none, some (routeKey ⟨none, some (path segments)⟩)⟩ =
        routeKey ⟨none, some (path segments)⟩ ↔
        ∀ text, .fixed text ∈ template → ¬ RestOfUuid text.toList) := by
  have hrest : ¬ RestOfUuid (path segments).toList ↔ ∀ text, .fixed text ∈ template →
    ¬ RestOfUuid text.toList := by
    rw [h.restOfUuid_iff, not_exists]
    exact forall_congr' fun text => not_and
  simp only [routeKey_path]
  refine ⟨h.fallbackKey_eq h', fun c hc => not_digit_fallbackKey hc, ?_, ?_⟩
  · exact (not_congr hasUuid_fallbackKey).trans hrest
  · exact fallbackKey_idempotent_iff.trans hrest

/-- The path of the interceptor's test, and another user. -/
theorem fallback_key_users :
    routeKey ⟨none, some (path ["", "api", "users", "00000000-0000-4000-8000-000000000000"])⟩ =
      routeKey ⟨none, some (path ["", "api", "users", "12"])⟩ := by
  have hfirst : Instantiates [.fixed "", .fixed "api", .fixed "users", .id]
      ["", "api", "users", "00000000-0000-4000-8000-000000000000"] :=
    .cons ⟨rfl, by decide +kernel⟩ (.cons ⟨rfl, by decide +kernel⟩ (.cons ⟨rfl, by decide +kernel⟩
      (.cons (.inr ⟨by decide +kernel, by decide +kernel⟩) .nil)))
  have hsecond : Instantiates [.fixed "", .fixed "api", .fixed "users", .id] ["", "api",
    "users", "12"] :=
    .cons ⟨rfl, by decide +kernel⟩ (.cons ⟨rfl, by decide +kernel⟩ (.cons ⟨rfl, by decide +kernel⟩
      (.cons (.inl ⟨by decide +kernel, List.all_eq_true.mp (by decide +kernel)⟩) .nil)))
  exact (fallback_key hfirst hsecond).1

/-- A UUID behind a digit: the match `12` takes its first character, and the key has another UUID. -/
theorem fallback_key_broken_uuid :
    routeKey ⟨none, some "/12aaaaaaa-aaaa-aaaa-aaaa-aaaaaaaaaaaa"⟩ =
      "/:idaaaaaaa-aaaa-aaaa-aaaa-aaaaaaaaaaaa" ∧
      HasUuid (routeKey ⟨none, some "/12aaaaaaa-aaaa-aaaa-aaaa-aaaaaaaaaaaa"⟩) ∧
      routeKey ⟨none, some "/:idaaaaaaa-aaaa-aaaa-aaaa-aaaaaaaaaaaa"⟩ = "/:i:id" := by
  refine ⟨by decide +kernel, ⟨"daaaaaaa-aaaa-aaaa-aaaa-aaaaaaaaaaaa".toList, ?_, ?_⟩, by decide +kernel⟩
  · exact ⟨"/:i".toList, by decide +kernel⟩
  · decide +kernel

end NestApp
