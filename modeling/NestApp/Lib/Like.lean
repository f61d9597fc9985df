import Mathlib.Data.List.Infix

/-!
# `Lib.Like` — the patterns of `LIKE` and `ILIKE`

A pattern is a text in which `%` stands for any run of characters, `_` for any one, and `\` takes the
next character literally. `parse` reads it (a pattern must not end with `\`), `accepts` matches the
tokens against a text.

A text spliced between two `%` finds the texts that contain it, provided it has none of the three
characters (`like_plain`); otherwise there is a text that it finds and that does not contain it
(`sample`).
-/

namespace Sql.Like

/-- What a pattern says of the next characters: any run, any one, or this one. -/
inductive Token where
  | any
  | one
  | lit (c : Char)
deriving DecidableEq

/-- Read a pattern (`none`: it ends with the escape character, which is an error). -/
def parse : List Char → Option (List Token)
  | []             => some []
  | '%' :: p       => (parse p).map (.any :: ·)
  | '_' :: p       => (parse p).map (.one :: ·)
  | ['\\']         => none
  | '\\' :: c :: p => (parse p).map (.lit c :: ·)
  | c :: p         => (parse p).map (.lit c :: ·)

/-- The tokens match the whole text. A run of any characters is tried from the shortest on. -/
def accepts : List Token → List Char → Bool
  | [], s                => s.isEmpty
  | .any :: p, s         => s.tails.any (accepts p)
  | .one :: p, _ :: s    => accepts p s
  | .lit a :: p, c :: s  => a = c && accepts p s
  | .one :: _, []        => false
  | .lit _ :: _, []      => false

/-- `s LIKE pattern` -/
def like (pattern s : List Char) : Bool :=
  match parse pattern with
  | some p => accepts p s
  | none   => false

/-- The characters with a meaning of their own. -/
def isMeta (c : Char) : Bool := c = '%' || c = '_' || c = '\\'

/-- The text has no such character. -/
def Plain (q : List Char) : Prop := ∀ c ∈ q, isMeta c = false

instance (q : List Char) : Decidable (Plain q) := inferInstanceAs (Decidable (∀ c ∈ q, isMeta c = false))

variable {p : List Token} {q s : List Char} {c other : Char}

/-! ## Literal texts

Tokens that stand for themselves are matched letter by letter, and `%` on both sides lets them stand
anywhere: the pattern is containment. -/

theorem accepts_any : accepts (.any :: p) s = true ↔ ∃ l r, s = l ++ r ∧ accepts p r = true := by
  rw [accepts, List.any_eq_true]
  constructor
  · rintro ⟨r, hr, hp⟩
    obtain ⟨l, hl⟩ := (List.mem_tails _ _).mp hr
    exact ⟨l, r, hl.symm, hp⟩
  · rintro ⟨l, r, rfl, hp⟩
    exact ⟨r, (List.mem_tails _ _).mpr (List.suffix_append l r), hp⟩

theorem accepts_lits : accepts (q.map .lit ++ p) s = true ↔ ∃ r, s = q ++ r ∧ accepts p r = true := by
  induction q generalizing s with
  | nil => simp
  | cons c q ih =>
      cases s with
      | nil => simp [accepts]
      | cons d s =>
          show (decide (c = d) && accepts (q.map .lit ++ p) s) = true ↔ _
          rw [Bool.and_eq_true, decide_eq_true_eq, ih]
          constructor
          · rintro ⟨rfl, r, rfl, hp⟩
            exact ⟨r, rfl, hp⟩
          · rintro ⟨r, hs, hp⟩
            obtain ⟨rfl, rfl⟩ := List.cons_eq_cons.mp hs
            exact ⟨rfl, r, rfl, hp⟩

/-- A literal between two `%`. -/
theorem accepts_infix : accepts (.any :: (q.map .lit ++ [.any])) s = true ↔ q <:+: s := by
  have hend : ∀ r, accepts [.any] r = true :=
    fun r => accepts_any.mpr ⟨r, [], (List.append_nil r).symm, rfl⟩
  rw [accepts_any]
  constructor
  · rintro ⟨l, r, rfl, hp⟩
    obtain ⟨r', rfl, -⟩ := accepts_lits.mp hp
    exact ⟨l, r', by rw [List.append_assoc]⟩
  · rintro ⟨l, r, rfl⟩
    refine ⟨l, q ++ r, by rw [List.append_assoc], ?_⟩
    exact accepts_lits.mpr ⟨r, rfl, hend r⟩

/-- An ordinary character is read as itself. -/
theorem parse_cons (h : isMeta c = false) (q : List Char) :
    parse (c :: q) = (parse q).map (.lit c :: ·) := by
  simp only [isMeta, Bool.or_eq_false_iff, decide_eq_false_iff_not] at h
  obtain ⟨⟨hany, hone⟩, hesc⟩ := h
  rw [parse]
  · exact hany
  · exact hone
  · intro he
    exact absurd he hesc
  · intro c' p' he
    exact absurd he hesc

theorem parse_plain (h : Plain q) (t : List Char) :
    parse (q ++ t) = (parse t).map (q.map .lit ++ ·) := by
  induction q with
  | nil => simp
  | cons c q ih =>
      have hq : Plain q := fun d hd => h d (List.mem_cons_of_mem _ hd)
      rw [List.cons_append, parse_cons (h c List.mem_cons_self), ih hq, Option.map_map]
      rfl

/-- **A text without special characters** finds the texts that contain it. -/
theorem like_plain (h : Plain q) : like ('%' :: (q ++ ['%'])) s = true ↔ q <:+: s := by
  have hparse : parse ('%' :: (q ++ ['%'])) = some (.any :: (q.map .lit ++ [.any])) := by
    rw [parse, parse_plain h]
    rfl
  rw [like, hparse]
  exact accepts_infix

/-! ## Special characters

That the three characters are special is shown by a text that the pattern finds: every run of
characters is empty, and every single character is one that the text searched for does not have there.
Its length tells it from a text that contains the search text. -/

/-- A text that `%q%` accepts: runs are empty, single characters are `other`. -/
def sample (other : Char) : List Char → List Char
  | []             => []
  | '%' :: q       => sample other q
  | '_' :: q       => other :: sample other q
  | ['\\']         => ['%']
  | '\\' :: c :: q => c :: sample other q
  | c :: q         => c :: sample other q

/-- What is left when no case for a special character applies. -/
theorem isMeta_of_cons (hany : c ≠ '%') (hone : c ≠ '_') (hend : c = '\\' → q ≠ [])
    (hesc : ∀ d r, c = '\\' → q ≠ d :: r) : isMeta c = false := by
  have hc : c ≠ '\\' := by
    rintro rfl
    cases q with
    | nil => exact hend rfl rfl
    | cons d q => exact hesc d q rfl rfl
  simp [isMeta, hany, hone, hc]

/-- The pattern `%q%` never ends with an escape character: at most its last `%` is escaped. -/
theorem parse_sample (q : List Char) :
    ∃ p, parse (q ++ ['%']) = some p ∧ accepts p (sample other q) = true := by
  fun_induction sample other q with
  | case1 => exact ⟨[.any], rfl, rfl⟩
  | case2 q ih =>
      obtain ⟨p, hp, ha⟩ := ih
      refine ⟨.any :: p, ?_, accepts_any.mpr ⟨[], _, rfl, ha⟩⟩
      rw [List.cons_append, parse, hp]
      rfl
  | case3 q ih =>
      obtain ⟨p, hp, ha⟩ := ih
      refine ⟨.one :: p, ?_, ha⟩
      rw [List.cons_append, parse, hp]
      rfl
  | case4 => exact ⟨[.lit '%'], rfl, rfl⟩
  | case5 c q ih =>
      obtain ⟨p, hp, ha⟩ := ih
      refine ⟨.lit c :: p, ?_, ?_⟩
      · rw [List.cons_append, List.cons_append, parse, hp]
        rfl
      · show (decide (c = c) && accepts p (sample other q)) = true
        rw [decide_eq_true rfl, ha]
        rfl
  | case6 c q hany hone hend hesc ih =>
      obtain ⟨p, hp, ha⟩ := ih
      have hmeta := isMeta_of_cons hany hone hend hesc
      refine ⟨.lit c :: p, ?_, ?_⟩
      · rw [List.cons_append, parse_cons hmeta, hp]
        rfl
      · show (decide (c = c) && accepts p (sample other q)) = true
        rw [decide_eq_true rfl, ha]
        rfl

theorem like_sample (q : List Char) : like ('%' :: (q ++ ['%'])) (sample other q) = true := by
  obtain ⟨p, hp, ha⟩ := @parse_sample other q
  have hparse : parse ('%' :: (q ++ ['%'])) = some (.any :: p) := by
    rw [parse, hp]
    rfl
  rw [like, hparse]
  exact accepts_any.mpr ⟨[], _, rfl, ha⟩

theorem length_sample (q : List Char) : (sample other q).length ≤ q.length := by
  fun_induction sample other q with
  | case1 => exact le_refl _
  | case2 q ih => exact ih.trans (Nat.le_succ _)
  | case3 q ih => exact Nat.succ_le_succ ih
  | case4 => exact le_refl _
  | case5 c q ih => exact (Nat.succ_le_succ ih).trans (Nat.le_succ _)
  | case6 c q hany hone hend hesc ih => exact Nat.succ_le_succ ih

/-- The sample is the text itself only if nothing in it is special. -/
theorem plain_of_sample (hother : other ≠ '_') (h : sample other q = q) : Plain q := by
  fun_induction sample other q with
  | case1 => exact fun _ hc => absurd hc List.not_mem_nil
  | case2 q ih =>
      have hlen : (sample other q).length ≤ q.length := length_sample q
      rw [h, List.length_cons] at hlen
      omega
  | case3 q ih => exact absurd (List.cons_eq_cons.mp h).1 hother
  | case4 => exact absurd h (by decide)
  | case5 c q ih =>
      have hlen : (sample other q).length ≤ q.length := length_sample q
      have heq := congrArg List.length h
      rw [List.length_cons, List.length_cons, List.length_cons] at heq
      omega
  | case6 c q hany hone hend hesc ih =>
      have hmeta := isMeta_of_cons hany hone hend hesc
      intro d hd
      rcases List.mem_cons.mp hd with rfl | hd
      · exact hmeta
      · exact ih (List.cons_eq_cons.mp h).2 d hd

/-- **A text with a special character** finds a text that does not contain it. -/
theorem not_infix_sample (hother : other ≠ '_') (h : ¬ Plain q) : ¬ q <:+: sample other q := by
  intro hinfix
  have heq : q = sample other q := hinfix.eq_of_length_le (length_sample q)
  exact h (plain_of_sample hother heq.symm)

/-! ## Letter case

`ILIKE` folds both sides. Folding is done character by character and leaves the special characters
alone, so a search text has as many of them after folding as before. -/

/-- The letter case of a collation, character by character: it leaves the special characters alone. -/
structure CaseFold where
  lower      : Char → Char
  isMeta_iff : ∀ c m, isMeta m = true → (lower c = m ↔ c = m)

/-- No capital letter is folded to a special character. -/
theorem toLower_eq_iff (c m : Char) (hm : isMeta m = true) : c.toLower = m ↔ c = m := by
  have hcases : m = '%' ∨ m = '_' ∨ m = '\\' := by simpa [isMeta, or_assoc] using hm
  have hval : m.toNat = 37 ∨ m.toNat = 95 ∨ m.toNat = 92 := by
    rcases hcases with rfl | rfl | rfl <;> decide
  unfold Char.toLower
  split
  · next h =>
      have hupper : 65 ≤ c.toNat ∧ c.toNat ≤ 90 := by
        simpa [Char.le_def, UInt32.le_iff_toNat_le] using h
      have hc : c ≠ m := by
        rintro rfl
        omega
      refine iff_of_false (fun he => ?_) hc
      have hnat := congrArg Char.toNat he
      simp at hnat
      omega
  · rfl

namespace CaseFold

/-- The letters of ASCII. -/
def ascii : CaseFold := ⟨Char.toLower, toLower_eq_iff⟩

variable (fold : CaseFold)

/-- `s ILIKE pattern`: both sides are folded. -/
def ilike (pattern s : String) : Bool := like (pattern.toList.map fold.lower) (s.toList.map fold.lower)

/-- `s` contains `q`, whatever the letter case. -/
def Contains (s q : String) : Prop := q.toList.map fold.lower <:+: s.toList.map fold.lower

theorem lower_of_isMeta {m : Char} (h : isMeta m = true) : fold.lower m = m :=
  (fold.isMeta_iff m m h).mpr rfl

@[simp] theorem isMeta_lower (c : Char) : isMeta (fold.lower c) = isMeta c := by
  cases h : isMeta (fold.lower c) with
  | true =>
      have hc : c = fold.lower c := (fold.isMeta_iff c _ h).mp rfl
      rw [hc, h]
  | false =>
      cases hc : isMeta c with
      | false => rfl
      | true =>
          rw [fold.lower_of_isMeta hc, hc] at h
          cases h

theorem plain_map {q : List Char} : Plain (q.map fold.lower) ↔ Plain q := by
  simp [Plain]

theorem map_sample (other : Char) (q : List Char) :
    (sample other q).map fold.lower = sample (fold.lower other) (q.map fold.lower) := by
  have hany := fold.lower_of_isMeta (m := '%') rfl
  have hone := fold.lower_of_isMeta (m := '_') rfl
  have hesc := fold.lower_of_isMeta (m := '\\') rfl
  fun_induction sample other q with
  | case1 => rfl
  | case2 q ih => rw [List.map_cons, hany, sample, ih]
  | case3 q ih => rw [List.map_cons, List.map_cons, hone, sample, ih]
  | case4 => simp [hany, hesc, sample]
  | case5 c q ih => rw [List.map_cons, List.map_cons, List.map_cons, hesc, sample, ih]
  | case6 c q hnany hnone hend hnesc ih =>
      rw [List.map_cons, List.map_cons, ih, sample]
      · exact fun h => hnany ((fold.isMeta_iff c '%' rfl).mp h)
      · exact fun h => hnone ((fold.isMeta_iff c '_' rfl).mp h)
      · intro h hq
        exact hend ((fold.isMeta_iff c '\\' rfl).mp h) (List.map_eq_nil_iff.mp hq)
      · intro d r h hq
        obtain ⟨d', q', rfl, -, -⟩ := List.map_eq_cons_iff.mp hq
        exact hnesc d' q' ((fold.isMeta_iff c '\\' rfl).mp h) rfl

/-- **`ILIKE '%q%'` is containment, for every text,** iff `q` has no special character. -/
theorem ilike_iff (q : String) :
    (∀ s, fold.ilike ("%" ++ q ++ "%") s = true ↔ fold.Contains s q) ↔ Plain q.toList := by
  have hany := fold.lower_of_isMeta (m := '%') rfl
  have hpattern : ("%" ++ q ++ "%").toList.map fold.lower =
    '%' :: (q.toList.map fold.lower ++ ['%']) := by
    simp [String.toList_append, hany]
  constructor
  · intro h
    by_contra hplain
    -- the sample is matched, so it would have to contain the text
    let s := String.ofList (sample 'x' q.toList)
    have hs : s.toList.map fold.lower = sample (fold.lower 'x') (q.toList.map fold.lower) := by
      rw [show s.toList = sample 'x' q.toList from String.toList_ofList, fold.map_sample]
    have hother : fold.lower 'x' ≠ '_' :=
      fun he => absurd ((fold.isMeta_iff 'x' '_' rfl).mp he) (by decide)
    have hmatch : fold.ilike ("%" ++ q ++ "%") s = true := by
      rw [ilike, hpattern, hs]
      exact like_sample _
    have hcontains := (h s).mp hmatch
    rw [Contains, hs] at hcontains
    exact not_infix_sample hother (mt fold.plain_map.mp hplain) hcontains
  · intro hplain s
    rw [ilike, hpattern, like_plain (fold.plain_map.mpr hplain)]
    rfl

end CaseFold

end Sql.Like
