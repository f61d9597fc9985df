import Mathlib.Data.List.Infix
import Mathlib.Data.List.Basic

/-!
# `Lib.Replace` — global replacement of a pattern

A **pattern** says how many characters at the start of a text it matches (0: no match; it never matches
the empty text). `scan` cuts a text into its pieces from the left: the matches, and the characters
outside them. `replaceAll` puts the replacement in the place of each match.

* `scan_separator` — a character that no match reaches cuts the text in two;
* `replaceAll_eq_self_iff` — a text without long matches is a fixed point iff nothing matches in it.
-/

namespace Replace

variable {α : Type}

/-- The pieces of a text, `none` for a match and `some` for a character outside; `skip` characters
    belong to the last match. -/
def scan (pattern : List α → Nat) : Nat → List α → List (Option α)
  | _, []             => []
  | skip + 1, _ :: cs => scan pattern skip cs
  | 0, c :: cs        =>
      match pattern (c :: cs) with
      | 0      => some c :: scan pattern 0 cs
      | n + 1  => none :: scan pattern n cs

/-- The text that the pieces stand for, after the replacement. -/
def render (replacement : List α) (pieces : List (Option α)) : List α :=
  pieces.flatMap fun piece => match piece with
    | some c => [c]
    | none   => replacement

/-- `text.replace(/pattern/g, replacement)` -/
def replaceAll (pattern : List α → Nat) (replacement text : List α) : List α :=
  render replacement (scan pattern 0 text)

/-- Nothing matches anywhere in the text. -/
def NoMatch (pattern : List α → Nat) (text : List α) : Prop := ∀ rest, rest <:+ text → pattern rest = 0

variable {pattern : List α → Nat} {replacement text rest : List α} {pieces : List (Option α)}
  {c sep : α} {cs : List α}

/-! ## One piece at a time

The scan remembers how many characters still belong to the last match. These lemmas move it over one
character, or over one whole match, and say what its pieces render to. -/

@[simp] theorem scan_nil (skip : Nat) : scan pattern skip ([] : List α) = [] := by
  cases skip with
  | zero      => rfl
  | succ skip => rfl

@[simp] theorem scan_skip (skip : Nat) (c : α) (cs : List α) :
    scan pattern (skip + 1) (c :: cs) = scan pattern skip cs := rfl

theorem scan_of_no_match (h : pattern (c :: cs) = 0) :
    scan pattern 0 (c :: cs) = some c :: scan pattern 0 cs := by
  rw [scan, h]

theorem scan_of_match {n : Nat} (h : pattern (c :: cs) = n + 1) :
    scan pattern 0 (c :: cs) = none :: scan pattern n cs := by
  rw [scan, h]

/-- Behind a match the scan starts anew. -/
theorem scan_drop (skip : Nat) (text : List α) :
    scan pattern skip text = scan pattern 0 (text.drop skip) := by
  induction skip generalizing text with
  | zero => rfl
  | succ skip ih =>
      cases text with
      | nil       => simp
      | cons c cs => rw [scan_skip, List.drop_succ_cons, ih]

@[simp] theorem render_nil (replacement : List α) : render replacement [] = [] := rfl

@[simp] theorem render_some (replacement : List α) (c : α) (pieces : List (Option α)) :
    render replacement (some c :: pieces) = c :: render replacement pieces := rfl

@[simp] theorem render_none (replacement : List α) (pieces : List (Option α)) :
    render replacement (none :: pieces) = replacement ++ render replacement pieces := rfl

@[simp] theorem render_append (replacement : List α) (pieces pieces' : List (Option α)) :
    render replacement (pieces ++ pieces') = render replacement pieces ++ render replacement pieces' :=
  List.flatMap_append

theorem render_ne_nil (h : replacement ≠ []) (piece : Option α) (pieces : List (Option α)) :
    render replacement (piece :: pieces) ≠ [] := by
  cases piece with
  | some c => exact List.cons_ne_nil _ _
  | none   => exact List.append_ne_nil_of_left_ne_nil h _

/-- Only the empty text is replaced by nothing. -/
theorem replaceAll_eq_nil_iff (h : replacement ≠ []) :
    replaceAll pattern replacement text = [] ↔ text = [] := by
  constructor
  · intro hnil
    cases text with
    | nil => rfl
    | cons c cs =>
        unfold replaceAll at hnil
        cases hp : pattern (c :: cs) with
        | zero =>
            rw [scan_of_no_match hp] at hnil
            exact absurd hnil (render_ne_nil h _ _)
        | succ k =>
            rw [scan_of_match hp] at hnil
            exact absurd hnil (render_ne_nil h _ _)
  · rintro rfl
    rfl

/-- A character of the result is one that stayed, or one of a replacement. -/
theorem mem_render {c : α} (h : c ∈ render replacement pieces) : some c ∈ pieces ∨ c ∈ replacement := by
  induction pieces with
  | nil => exact absurd h List.not_mem_nil
  | cons piece pieces ih =>
      cases piece with
      | some d =>
          rw [render_some, List.mem_cons] at h
          rcases h with rfl | h
          · exact .inl List.mem_cons_self
          · exact (ih h).imp_left (List.mem_cons_of_mem _)
      | none =>
          rw [render_none, List.mem_append] at h
          rcases h with h | h
          · exact .inr h
          · exact (ih h).imp_left (List.mem_cons_of_mem _)

/-- A rest of the result starts at one of the pieces, or inside the replacement of a match. -/
inductive RestOf (replacement : List α) (pieces : List (Option α)) : List α → Prop where
  | between {pieces' : List (Option α)} : pieces' <:+ pieces →
      RestOf replacement pieces (render replacement pieces')
  | inside {part : List α} {pieces' : List (Option α)} : part <:+ replacement →
      none :: pieces' <:+ pieces →
      RestOf replacement pieces (part ++ render replacement pieces')

theorem RestOf.cons (h : RestOf replacement pieces rest) (piece : Option α) :
    RestOf replacement (piece :: pieces) rest := by
  cases h with
  | between hpieces      => exact .between (hpieces.trans (List.suffix_cons piece pieces))
  | inside hpart hpieces => exact .inside hpart (hpieces.trans (List.suffix_cons piece pieces))

theorem restOf_of_suffix (h : rest <:+ render replacement pieces) : RestOf replacement pieces rest := by
  induction pieces with
  | nil =>
      rw [List.suffix_nil.mp h]
      exact .between List.nil_suffix
  | cons piece pieces ih =>
      cases piece with
      | some c =>
          rw [render_some, List.suffix_cons_iff] at h
          rcases h with rfl | h
          · exact .between List.suffix_rfl
          · exact (ih h).cons (some c)
      | none =>
          rw [render_none] at h
          obtain ⟨before, h⟩ := h
          rcases List.append_eq_append_iff.mp h with ⟨part, hreplacement, rfl⟩ | ⟨before', -, hrest⟩
          · exact .inside ⟨before, hreplacement.symm⟩ List.suffix_rfl
          · exact (ih ⟨before', hrest.symm⟩).cons none

/-- The pieces from any one on are the pieces of the text from there on. -/
theorem exists_scan_of_suffix (h : pieces <:+ scan pattern 0 text) :
    ∃ rest, rest <:+ text ∧ scan pattern 0 rest = pieces := by
  induction hn : text.length using Nat.strong_induction_on generalizing text with
  | _ n ih =>
  cases text with
  | nil =>
      rw [scan_nil, List.suffix_nil] at h
      exact ⟨[], List.suffix_rfl, by rw [scan_nil, h]⟩
  | cons c cs =>
      -- it is the first piece, or behind it
      have hstep : ∃ piece rest, scan pattern 0 (c :: cs) = piece :: scan pattern 0 rest ∧
        rest <:+ cs := by
        cases hp : pattern (c :: cs) with
        | zero   => exact ⟨_, cs, scan_of_no_match hp, List.suffix_rfl⟩
        | succ k => exact ⟨none, cs.drop k, by rw [scan_of_match hp, scan_drop], List.drop_suffix k cs⟩
      obtain ⟨piece, rest, hscan, hrest⟩ := hstep
      rw [hscan, List.suffix_cons_iff] at h
      rcases h with rfl | h
      · exact ⟨c :: cs, List.suffix_rfl, hscan⟩
      · have hlt : rest.length < n := by
          have hle := hrest.length_le
          rw [← hn, List.length_cons]
          omega
        obtain ⟨rest', hrest', hpieces⟩ := ih _ hlt h rfl
        exact ⟨rest', hrest'.trans (hrest.trans (List.suffix_cons c cs)), hpieces⟩

/-- Where the scan finds characters outside the matches, the text has them. -/
theorem exists_append_of_scan (h : scan pattern 0 text = cs.map some ++ pieces) :
    ∃ rest, text = cs ++ rest ∧ scan pattern 0 rest = pieces := by
  induction cs generalizing text with
  | nil => exact ⟨text, rfl, h⟩
  | cons c cs ih =>
      cases text with
      | nil => simp at h
      | cons c' text =>
          cases hp : pattern (c' :: text) with
          | zero =>
              rw [scan_of_no_match hp, List.map_cons, List.cons_append, List.cons.injEq,
                Option.some.injEq] at h
              obtain ⟨rest, hrest, hpieces⟩ := ih h.2
              exact ⟨rest, by rw [h.1, hrest, List.cons_append], hpieces⟩
          | succ k =>
              rw [scan_of_match hp] at h
              simp at h

/-- Where the scan finds a character, nothing matches. -/
theorem eq_zero_of_scan (h : scan pattern 0 text = some c :: pieces) : pattern text = 0 := by
  cases text with
  | nil => simp at h
  | cons c' text =>
      cases hp : pattern (c' :: text) with
      | zero   => rfl
      | succ k =>
          rw [scan_of_match hp] at h
          simp at h

/-- A character outside the matches, at its place in the text. -/
theorem exists_of_mem_scan (h : some c ∈ scan pattern 0 text) :
    ∃ cs, c :: cs <:+ text ∧ pattern (c :: cs) = 0 := by
  obtain ⟨before, after, hsplit⟩ := List.append_of_mem h
  obtain ⟨rest, hrest, hscan⟩ := exists_scan_of_suffix ⟨before, hsplit.symm⟩
  have hzero := eq_zero_of_scan hscan
  have hfirst : scan pattern 0 rest = [c].map some ++ after := hscan
  obtain ⟨cs, rfl, -⟩ := exists_append_of_scan hfirst
  exact ⟨cs, hrest, hzero⟩

/-! ## Separators

Where texts are built from segments between slashes, a pattern that never matches across a slash may be
studied segment by segment. `Separator` is what such a pattern has to satisfy. -/

/-- No match contains the character, or depends on what is behind it. -/
structure Separator (pattern : List α → Nat) (sep : α) : Prop where
  head : ∀ rest, pattern (sep :: rest) = 0
  stop : ∀ text rest, sep ∉ text → pattern (text ++ sep :: rest) = pattern text
  le   : ∀ text, pattern text ≤ text.length

theorem Separator.scan_skip (h : Separator pattern sep) {skip : Nat} (hskip : skip ≤ text.length)
    (hsep : sep ∉ text)
    (rest : List α) : scan pattern skip (text ++ sep :: rest) = scan pattern skip text ++
      some sep :: scan pattern 0 rest := by
  induction text generalizing skip with
  | nil =>
      obtain rfl : skip = 0 := Nat.le_zero.mp hskip
      exact scan_of_no_match (h.head rest)
  | cons c cs ih =>
      have hcs : sep ∉ cs := fun hmem => hsep (List.mem_cons_of_mem c hmem)
      cases skip with
      | succ skip => exact ih (Nat.le_of_succ_le_succ hskip) hcs
      | zero =>
          have hstop := h.stop (c :: cs) rest hsep
          rw [List.cons_append] at hstop
          cases hp : pattern (c :: cs) with
          | zero =>
              rw [List.cons_append, scan_of_no_match (hstop.trans hp), scan_of_no_match hp,
                ih (Nat.zero_le _) hcs,
                List.cons_append]
          | succ k =>
              have hle := h.le (c :: cs)
              rw [hp, List.length_cons] at hle
              rw [List.cons_append, scan_of_match (hstop.trans hp), scan_of_match hp,
                ih (Nat.le_of_succ_le_succ hle) hcs, List.cons_append]

/-- **A separator cuts the text in two**: a match neither reaches over it nor begins before it and ends
    behind. -/
theorem Separator.scan (h : Separator pattern sep) (hsep : sep ∉ text) (rest : List α) :
    scan pattern 0 (text ++ sep :: rest) = scan pattern 0 text ++ some sep :: scan pattern 0 rest :=
  h.scan_skip (Nat.zero_le _) hsep rest

/-- What does not contain the separator does not start with it. -/
theorem prefix_separator {pieces l : List (Option α)} (hsep : some sep ∉ l)
    (h : l <+: some sep :: pieces) : l = [] := by
  rcases List.prefix_cons_iff.mp h with hnil | ⟨l', rfl, -⟩
  · exact hnil
  · exact absurd List.mem_cons_self hsep

/-- What does not contain the separator lies on one side of it. -/
theorem infix_append_separator {pieces pieces' l : List (Option α)} (hsep : some sep ∉ l) :
    l <:+: pieces ++ some sep :: pieces' ↔ l <:+: pieces ∨ l <:+: pieces' := by
  rw [List.infix_append_iff, List.infix_cons_iff]
  constructor
  · rintro (h | (h | h) | ⟨l₁, l₂, rfl, h₁, h₂⟩)
    · exact .inl h
    · rw [prefix_separator hsep h]
      exact .inl List.nil_infix
    · exact .inr h
    · have hnil := prefix_separator (fun hmem => hsep (List.mem_append_right l₁ hmem)) h₂
      rw [hnil, List.append_nil]
      exact .inl h₁.isInfix
  · rintro (h | h)
    · exact .inl h
    · exact .inr (.inl (.inr h))

theorem infix_intercalate {parts : List (List (Option α))} {l : List (Option α)}
    (hsep : some sep ∉ l) (hne : l ≠ []) :
    l <:+: [some sep].intercalate parts ↔ ∃ pieces ∈ parts, l <:+: pieces := by
  induction parts with
  | nil => simp [hne]
  | cons pieces parts ih =>
      cases parts with
      | nil => simp
      | cons pieces' parts =>
          rw [List.intercalate_cons_cons, List.append_assoc, List.singleton_append,
            infix_append_separator hsep, ih]
          exact (List.exists_mem_cons_iff _ pieces (pieces' :: parts)).symm

/-- **The pieces of parts between separators** are the pieces of each part. -/
theorem Separator.scan_intercalate (h : Separator pattern sep) {parts : List (List α)}
    (hsep : ∀ part ∈ parts, sep ∉ part) :
    Replace.scan pattern 0 ([sep].intercalate parts) = [some sep].intercalate
      (parts.map (Replace.scan pattern 0)) := by
  induction parts with
  | nil => rfl
  | cons part parts ih =>
      have hrest := ih fun part' hpart => hsep part' (List.mem_cons_of_mem part hpart)
      cases parts with
      | nil => rw [List.map_singleton, List.intercalate_singleton, List.intercalate_singleton]
      | cons part' parts =>
          rw [List.intercalate_cons_cons, List.append_assoc, List.singleton_append,
            h.scan (hsep part List.mem_cons_self), hrest,
            List.map_cons, List.map_cons, List.map_cons, List.intercalate_cons_cons,
              List.append_assoc, List.singleton_append]

/-- A text that matches as a whole is one piece. -/
theorem scan_whole (hne : text ≠ []) (h : pattern text = text.length) :
    scan pattern 0 text = [none] := by
  cases text with
  | nil => exact absurd rfl hne
  | cons c cs => rw [scan_of_match h, scan_drop, List.drop_length, scan_nil]

/-! ## Fixed points

Whether a replacement changes a text is not obvious when the replacement itself may match. Where every
match is longer than the replacement, a text with a match gets shorter, so it is no fixed point. -/

theorem scan_of_noMatch (h : NoMatch pattern text) : scan pattern 0 text = text.map some := by
  induction text with
  | nil => rfl
  | cons c cs ih =>
      rw [scan_of_no_match (h _ List.suffix_rfl), List.map_cons,
        ih fun rest hrest => h rest (hrest.trans (List.suffix_cons c cs))]

theorem render_map_some (replacement text : List α) : render replacement (text.map some) = text := by
  induction text with
  | nil => rfl
  | cons c cs ih => rw [List.map_cons, render_some, ih]

theorem replaceAll_of_noMatch (h : NoMatch pattern text) :
    replaceAll pattern replacement text = text := by
  rw [replaceAll, scan_of_noMatch h, render_map_some]

/-- Every match in the text is longer than the replacement, and inside the text. -/
def LongMatches (pattern : List α → Nat) (replacement text : List α) : Prop :=
  ∀ rest, rest <:+ text → pattern rest ≠ 0 → replacement.length < pattern rest ∧
    pattern rest ≤ rest.length

theorem LongMatches.suffix (h : LongMatches pattern replacement text) (hrest : rest <:+ text) :
    LongMatches pattern replacement rest := fun rest' hrest' => h rest' (hrest'.trans hrest)

/-- Replacing long matches makes the text no longer, and shorter where there is one. -/
theorem LongMatches.length (h : LongMatches pattern replacement text) :
    (replaceAll pattern replacement text).length ≤ text.length ∧
      (none ∈ scan pattern 0 text → (replaceAll pattern replacement text).length < text.length) := by
  induction hn : text.length using Nat.strong_induction_on generalizing text with
  | _ n ih =>
  subst hn
  cases text with
  | nil => simp [replaceAll]
  | cons c cs =>
      cases hp : pattern (c :: cs) with
      | zero =>
          obtain ⟨hle, hlt⟩ := ih cs.length (Nat.lt_succ_self _) (h.suffix (List.suffix_cons c cs)) rfl
          unfold replaceAll at hle hlt ⊢
          rw [scan_of_no_match hp, render_some, List.length_cons, List.length_cons]
          refine ⟨Nat.succ_le_succ hle, fun hmem => Nat.succ_lt_succ (hlt ?_)⟩
          simpa using hmem
      | succ k =>
          obtain ⟨hlong, hinside⟩ := h _ List.suffix_rfl (by omega)
          rw [hp] at hlong hinside
          rw [List.length_cons] at hinside
          have hdrop := List.length_drop (i := k) (l := cs)
          obtain ⟨hle, -⟩ := ih (cs.drop k).length (by rw [hdrop, List.length_cons]; omega)
            (h.suffix ((List.drop_suffix k cs).trans (List.suffix_cons c cs))) rfl
          unfold replaceAll at hle ⊢
          rw [scan_of_match hp, scan_drop, render_none, List.length_append, List.length_cons]
          omega

/-- The scan of a text with a match finds one. -/
theorem LongMatches.none_mem_scan (hlong : LongMatches pattern replacement text) (h : rest <:+ text)
    (hp : pattern rest ≠ 0) : none ∈ Replace.scan pattern 0 text := by
  have hinside := (hlong rest h hp).2
  by_contra hnone
  -- else all the text is outside the matches, and the scan has passed the start of this one
  have hall : Replace.scan pattern 0 text = text.map some := by
    clear h hlong
    induction text with
    | nil => rfl
    | cons c cs ih =>
        cases hc : pattern (c :: cs) with
        | zero =>
            rw [scan_of_no_match hc] at hnone ⊢
            rw [ih fun hmem => hnone (List.mem_cons_of_mem _ hmem), List.map_cons]
        | succ k =>
            rw [scan_of_match hc] at hnone
            exact absurd List.mem_cons_self hnone
  obtain ⟨before, rfl⟩ := h
  rw [List.map_append] at hall
  obtain ⟨rest', hrest', hscan⟩ := exists_append_of_scan hall
  obtain rfl : rest = rest' := List.append_cancel_left hrest'
  cases rest with
  | nil => exact hp (Nat.le_zero.mp hinside)
  | cons c cs =>
      obtain ⟨k, hk⟩ := Nat.exists_eq_succ_of_ne_zero hp
      rw [scan_of_match hk] at hscan
      simp at hscan

/-- **A text is a fixed point** of the replacement of long matches iff nothing matches in it. -/
theorem LongMatches.replaceAll_eq_self_iff (h : LongMatches pattern replacement text) :
    replaceAll pattern replacement text = text ↔ NoMatch pattern text := by
  constructor
  · intro heq rest hrest
    by_contra hp
    have hlt := h.length.2 (h.none_mem_scan hrest hp)
    rw [heq] at hlt
    exact lt_irrefl _ hlt
  · exact replaceAll_of_noMatch

/-! ## Patterns of fixed width

A pattern given by one class of characters for each place. A character outside all classes is a
barrier: no match reaches over it, and what stands behind it cannot matter. -/

/-- The text starts with one character of each class. -/
def startsWith : List (α → Bool) → List α → Bool
  | [], _                     => true
  | _ :: _, []                => false
  | inClass :: classes, c :: cs => inClass c && startsWith classes cs

section FixedWidth

variable {classes : List (α → Bool)}

theorem startsWith_append (h : startsWith classes text = true) (rest : List α) :
    startsWith classes (text ++ rest) = true := by
  induction classes generalizing text with
  | nil => rfl
  | cons inClass classes ih =>
      cases text with
      | nil => exact absurd h (by simp [startsWith])
      | cons c cs =>
          rw [startsWith, Bool.and_eq_true] at h
          rw [List.cons_append, startsWith, h.1, ih h.2, Bool.and_true]

theorem length_le_of_startsWith (h : startsWith classes text = true) : classes.length ≤ text.length := by
  induction classes generalizing text with
  | nil => exact Nat.zero_le _
  | cons inClass classes ih =>
      cases text with
      | nil => exact absurd h (by simp [startsWith])
      | cons c cs =>
          rw [startsWith, Bool.and_eq_true] at h
          exact Nat.succ_le_succ (ih h.2)

/-- Every class has its character. -/
theorem exists_mem_of_startsWith (h : startsWith classes text = true) {inClass : α → Bool}
    (hclass : inClass ∈ classes) :
    ∃ c ∈ text, inClass c = true := by
  induction classes generalizing text with
  | nil => exact absurd hclass List.not_mem_nil
  | cons inClass' classes ih =>
      cases text with
      | nil => exact absurd h (by simp [startsWith])
      | cons c cs =>
          rw [startsWith, Bool.and_eq_true] at h
          rcases List.mem_cons.mp hclass with rfl | hclass
          · exact ⟨c, List.mem_cons_self, h.1⟩
          · obtain ⟨d, hd, hin⟩ := ih h.2 hclass
            exact ⟨d, List.mem_cons_of_mem c hd, hin⟩

/-- A text as long as the classes has a class for each character. -/
theorem exists_class_of_startsWith (h : startsWith classes text = true)
    (hlen : text.length ≤ classes.length) (hc : c ∈ text) :
    ∃ inClass ∈ classes, inClass c = true := by
  induction classes generalizing text with
  | nil =>
      rw [List.eq_nil_of_length_eq_zero (Nat.le_zero.mp hlen)] at hc
      exact absurd hc List.not_mem_nil
  | cons inClass classes ih =>
      cases text with
      | nil => exact absurd hc List.not_mem_nil
      | cons d cs =>
          rw [startsWith, Bool.and_eq_true] at h
          rcases List.mem_cons.mp hc with rfl | hc
          · exact ⟨inClass, List.mem_cons_self, h.1⟩
          · obtain ⟨inClass', hclass, hin⟩ := ih h.2 (Nat.le_of_succ_le_succ hlen) hc
            exact ⟨inClass', List.mem_cons_of_mem _ hclass, hin⟩

/-- What is behind a character outside the classes does not count. -/
theorem startsWith_stop (hsep : ∀ inClass ∈ classes, inClass sep = false) (text rest : List α) :
    startsWith classes (text ++ sep :: rest) = startsWith classes text := by
  induction classes generalizing text with
  | nil => rfl
  | cons inClass classes ih =>
      have hfirst := hsep inClass List.mem_cons_self
      cases text with
      | nil => simp [startsWith, hfirst]
      | cons c cs =>
          rw [List.cons_append, startsWith, startsWith,
            ih (fun inClass' h => hsep inClass' (List.mem_cons_of_mem _ h)) cs]

/-- Where the replacement starts with a character outside the classes, they only find characters that
    stayed in the text. -/
theorem exists_of_startsWith_render (hsep : ∀ inClass ∈ classes, inClass sep = false)
    (h : startsWith classes (render (sep :: replacement) pieces) = true) :
    ∃ cs pieces', pieces = cs.map some ++ pieces' ∧ cs.length = classes.length ∧
      startsWith classes cs = true := by
  induction classes generalizing pieces with
  | nil => exact ⟨[], pieces, rfl, rfl, rfl⟩
  | cons inClass classes ih =>
      cases pieces with
      | nil => exact absurd h (by simp [startsWith])
      | cons piece pieces =>
          cases piece with
          | none =>
              rw [render_none, List.cons_append, startsWith, hsep inClass List.mem_cons_self] at h
              exact absurd h (by simp)
          | some c =>
              rw [render_some, startsWith, Bool.and_eq_true] at h
              obtain ⟨cs, pieces', rfl, hlen, hcs⟩ :=
                ih (fun inClass' hc => hsep inClass' (List.mem_cons_of_mem _ hc)) h.2
              refine ⟨c :: cs, pieces', rfl, ?_, ?_⟩
              · rw [List.length_cons, List.length_cons, hlen]
              · rw [startsWith, h.1, hcs, Bool.and_true]

end FixedWidth

end Replace
