import NestApp.Lib.Like
import NestApp.Lib.Paging
import NestApp.Rbac.Seed

/-!
# `Users.FindAll` — the search and the pages of `UsersService.findAll`

`findAll` splices the trimmed `q` between two `%` of an `ILIKE` pattern, orders by `createdAt` alone
and cuts a page out by `OFFSET` and `LIMIT`; the roles come from a second query and are joined by id.

`search_finds_text`: the users matched are those that contain the text iff it has none of the pattern's
own characters, which `findAll` does not escape. `pages_partition`: the pages hold every matching user
once, whatever the database answers, iff no page boundary falls between two users created at the same
time: nothing in the `ORDER BY` breaks the tie.

Both properties are about what the database may answer. The text of the user becomes part of a pattern,
and an order that is not total leaves the answer open: in neither case does the code do anything wrong
with what it gets.
-/

namespace NestApp

open Sql Sql.Like

/-- `ListUsersQueryDto`, as validated. An explicit `null` is treated as absent throughout. -/
structure ListUsersQueryDto where
  page        : Option Nat
  limit       : Option Nat
  q           : Option String
  page_min    : ∀ p ∈ page, 1 ≤ p
  limit_range : ∀ l ∈ limit, 1 ≤ l ∧ l ≤ 100
  q_maxLength : ∀ t ∈ q, t.length ≤ 255

namespace ListUsersQueryDto

/-- `query.page ?? 1` -/
def pageOrDefault (query : ListUsersQueryDto) : Nat := query.page.getD 1

/-- `query.limit ?? 10` -/
def limitOrDefault (query : ListUsersQueryDto) : Nat := query.limit.getD 10

/-- The text searched for: empty for every user. -/
def text (query : ListUsersQueryDto) : String := (query.q.map trim).getD ""

/-- The same query for the page after `k` others. -/
def atPage (query : ListUsersQueryDto) (k : Nat) : ListUsersQueryDto :=
  { query with
    page     := some (k + 1)
    page_min := fun p hp => by
      obtain rfl : k + 1 = p := Option.some.inj hp
      exact Nat.le_add_left 1 k }

theorem limit_pos (query : ListUsersQueryDto) : 0 < query.limitOrDefault := by
  unfold limitOrDefault
  cases h : query.limit with
  | none => exact Nat.succ_pos 9
  | some l => exact (query.limit_range l h).1

end ListUsersQueryDto

/-- A user with the roles joined to it. -/
structure UserWithRoles where
  user      : User
  userRoles : List Role
deriving DecidableEq

/-- `{ items, total, page, limit }` -/
structure UserPage where
  items : List UserWithRoles
  total : Nat
  page  : Nat
  limit : Nat
deriving DecidableEq

/-- The roles of a user, through `user_roles`. -/
def Rbac.rolesOf (db : Rbac) (userId : Uuid) : List Role :=
  (db.userRoles.rows.filter fun ur => ur.userId = userId).filterMap fun ur => db.roles.get ur.roleId

namespace UsersService

variable {fold : CaseFold} {db : Rbac} {query : ListUsersQueryDto}

/-- The `where` of `findAll`: one of the three columns matches, or there is nothing to search for. -/
def isMatch (fold : CaseFold) (q : Option String) (user : User) : Bool :=
  match trimOrNull q with
  | none   => true
  | some q =>
      let pattern := "%" ++ q ++ "%"
      fold.ilike pattern user.email || user.firstName.any (fold.ilike pattern) ||
        user.lastName.any (fold.ilike pattern)

/-- The users matched; soft-deleted ones are left out. -/
def matching (fold : CaseFold) (db : Rbac) (q : Option String) : List User :=
  db.users.rows.filter fun user => user.deletedAt.isNone && isMatch fold q user

/-- What the database answers to the two queries of one call. Each is a list the database is free to
    choose, within `Possible`. -/
structure Answers where
  /-- all the users matched, in the order of the first query -/
  ordered : List User
  loaded  : List UserWithRoles

/-- The users on the page asked for: `skip` and `take`. -/
def pageOf (query : ListUsersQueryDto) (ordered : List User) : List User :=
  Paging.page ordered query.limitOrDefault (query.pageOrDefault - 1)

/-- `loadUsersWithRoles(ids)`: the users in any order, each with its roles in any order. -/
structure LoadUsersWithRoles (db : Rbac) (ids : List Uuid) (loaded : List UserWithRoles) : Prop where
  users : (loaded.map UserWithRoles.user).Perm
    (db.users.rows.filter fun u => u.deletedAt.isNone && u.id ∈ ids)
  roles : ∀ u ∈ loaded, u.userRoles.Perm (db.rolesOf u.user.id)

/-- What the database may answer: the first query orders by `createdAt` and by nothing else. -/
structure Answers.Possible (fold : CaseFold) (db : Rbac) (query : ListUsersQueryDto)
    (answers : Answers) : Prop where
  ordered : Paging.Ordering User.createdAt (matching fold db query.q) answers.ordered
  loaded  : LoadUsersWithRoles db ((pageOf query answers.ordered).map User.id) answers.loaded

/-- `rolesById.get(id)`: of two entries of a `Map` with one key the later counts. -/
def rolesById (loaded : List UserWithRoles) (id : Uuid) : Option (List Role) :=
  (loaded.reverse.find? fun u => u.user.id = id).map UserWithRoles.userRoles

/-- `UsersService.findAll`: the page of the first answer, each user with the roles the second answer has
    for the id, and the total. -/
def findAll (fold : CaseFold) (db : Rbac) (answers : Answers) (query : ListUsersQueryDto) :
    UserPage where
  items := (pageOf query answers.ordered).map fun user =>
    ⟨user, (rolesById answers.loaded user.id).getD []⟩
  total := (matching fold db query.q).length
  page  := query.pageOrDefault
  limit := query.limitOrDefault

/-! ## Search

The trimmed text stands between two `%`, so it is found as it stands in any of the three columns,
provided no character of it means something in a pattern. A missing name matches nothing, as `NULL`
does. -/

/-- The user's email or one of the names contains the text, whatever the letter case. -/
def ContainsText (fold : CaseFold) (text : String) (user : User) : Prop :=
  fold.Contains user.email text ∨ (∃ name ∈ user.firstName, fold.Contains name text) ∨
    ∃ name ∈ user.lastName, fold.Contains name text

theorem mem_matching {q : Option String} {user : User} :
    user ∈ matching fold db q ↔ user ∈ db.users.rows ∧ user.deletedAt = none ∧
      isMatch fold q user = true := by
  rw [matching, List.mem_filter, Bool.and_eq_true, Option.isNone_iff_eq_none]

/-- Where the pattern means containment for every column, it does for every user. -/
theorem isMatch_iff {text : String} {q : Option String} (hq : trimOrNull q = some text)
    (h : ∀ s, fold.ilike ("%" ++ text ++ "%") s = true ↔ fold.Contains s text) (user : User) :
    isMatch fold q user = true ↔ ContainsText fold text user := by
  have hname : ∀ name : Option String,
      name.any (fold.ilike ("%" ++ text ++ "%")) = true ↔ ∃ s ∈ name, fold.Contains s text := by
    intro name
    cases name with
    | none => simp
    | some s => simp [h]
  unfold isMatch
  rw [hq]
  simp only [Bool.or_eq_true, h, hname]
  rw [or_assoc]
  rfl

/-- A query with nothing to search for. -/
theorem text_of_trimOrNull_none (h : trimOrNull query.q = none) : query.text = "" := by
  unfold ListUsersQueryDto.text
  unfold trimOrNull at h
  cases hq : query.q.map trim with
  | none => rfl
  | some text =>
      rw [hq] at h
      split at h
      · next heq => exact Option.some.inj heq
      · cases h

theorem text_of_trimOrNull_some {text : String} (h : trimOrNull query.q = some text) :
    query.text = text := by
  unfold ListUsersQueryDto.text
  unfold trimOrNull at h
  split at h
  · cases h
  · rw [h]
    rfl

/-- A table with one user, whose names are missing. -/
def onlyUser (email : String) : Rbac := Rbac.empty.putUser { alice with email := email }

theorem rows_onlyUser (email : String) : (onlyUser email).users.rows = [{ alice with email := email }] :=
  rfl

/-- **Search finds exactly the users containing the text, in every table, iff the text has none of the
    characters that mean something in a pattern.** -/
theorem search_finds_text (fold : CaseFold) (query : ListUsersQueryDto) :
    (∀ (db : Rbac) (user : User), user ∈ matching fold db query.q ↔
      user ∈ db.users.rows ∧ user.deletedAt = none ∧ ContainsText fold query.text user) ↔
    Plain query.text.toList := by
  cases hq : trimOrNull query.q with
  | none =>
      rw [text_of_trimOrNull_none hq]
      refine iff_of_true (fun db user => ?_) (fun c hc => absurd hc (by simp))
      rw [mem_matching, isMatch, hq]
      have hall : ContainsText fold "" user := .inl (by simp [CaseFold.Contains])
      simp [hall]
  | some text =>
      rw [text_of_trimOrNull_some hq, ← fold.ilike_iff]
      constructor
      · -- the table with one user whose email is the text in question
        intro h s
        have huser := h (onlyUser s) { alice with email := s }
        rw [mem_matching, rows_onlyUser, isMatch, hq] at huser
        simpa [ContainsText, alice] using huser
      · intro h db user
        rw [mem_matching, isMatch_iff hq h]

/-- Searching for `_` finds a user none of whose columns contains it. -/
theorem search_finds_others :
    ¬ ∀ (fold : CaseFold) (db : Rbac) (query : ListUsersQueryDto) (user : User),
      trimOrNull query.q ≠ none →
      (user ∈ matching fold db query.q ↔
        user ∈ db.users.rows ∧ user.deletedAt = none ∧ ContainsText fold query.text user) := by
  intro h
  let query : ListUsersQueryDto :=
    { page := none, limit := none, q := some "_",
      page_min := by simp, limit_range := by simp, q_maxLength := by decide }
  have hfound := (h .ascii (onlyUser "a@b.co") query alice (by decide)).mp (by decide)
  have hnot : ¬ ContainsText .ascii query.text alice := by
    unfold ContainsText CaseFold.Contains
    decide
  exact hnot hfound.2.2

/-! ## Pages

Each page is a query of its own. The second query, for the roles, may answer in any order; joining by
id puts them back. -/

/-- The items of all the pages, one call after the other. -/
def allItems (fold : CaseFold) (db : Rbac) (answers : Nat → Answers) (query : ListUsersQueryDto) :
    List UserWithRoles :=
  (List.range (Paging.pages (matching fold db query.q).length query.limitOrDefault)).flatMap fun k =>
    (findAll fold db (answers k) (query.atPage k)).items

/-- The pages partition the users matched. -/
structure Partitions (fold : CaseFold) (db : Rbac) (answers : Nat → Answers)
    (query : ListUsersQueryDto) : Prop where
  /-- every user matched, once -/
  users  : ((allItems fold db answers query).map UserWithRoles.user).Perm (matching fold db query.q)
  sorted : (allItems fold db answers query).Pairwise fun a b => b.user.createdAt ≤ a.user.createdAt
  total  : ∀ k, (findAll fold db (answers k) (query.atPage k)).total = (matching fold db query.q).length
  roles  : ∀ item ∈ allItems fold db answers query, item.userRoles.Perm (db.rolesOf item.user.id)

theorem map_user_allItems (answers : Nat → Answers) :
    (allItems fold db answers query).map UserWithRoles.user =
      Paging.concat (fun k => (answers k).ordered) query.limitOrDefault
        (Paging.pages (matching fold db query.q).length query.limitOrDefault) := by
  rw [allItems, List.map_flatMap, Paging.concat]
  refine congrArg (List.flatMap · _) (funext fun k => ?_)
  show List.map _ (List.map _ (pageOf (query.atPage k) _)) = _
  rw [List.map_map]
  exact List.map_id _

/-- **The join by id**: each item has its own roles. -/
theorem roles_findAll {answers : Answers} (h : answers.Possible fold db query) {item : UserWithRoles}
    (hitem : item ∈ (findAll fold db answers query).items) :
      item.userRoles.Perm (db.rolesOf item.user.id) := by
  obtain ⟨user, huser, rfl⟩ := List.mem_map.mp hitem
  have hmatch : user ∈ matching fold db query.q :=
    h.ordered.perm.mem_iff.mp (List.mem_of_mem_drop (List.mem_of_mem_take huser))
  obtain ⟨hrow, hlive, -⟩ := mem_matching.mp hmatch
  -- the second query loads the user too
  have hloaded : user ∈ answers.loaded.map UserWithRoles.user := by
    rw [h.loaded.users.mem_iff, List.mem_filter, hlive]
    refine ⟨hrow, ?_⟩
    simpa using ⟨user, huser, rfl⟩
  obtain ⟨u, hu, hname⟩ := List.mem_map.mp hloaded
  show ((rolesById answers.loaded user.id).getD []).Perm (db.rolesOf user.id)
  unfold rolesById
  cases hfind : answers.loaded.reverse.find? fun u => u.user.id = user.id with
  | none =>
      have hnone := List.find?_eq_none.mp hfind u (List.mem_reverse.mpr hu)
      exact absurd (by rw [hname]; exact decide_eq_true rfl) hnone
  | some u' =>
      have hid : u'.user.id = user.id := by simpa using List.find?_some hfind
      have hmem : u' ∈ answers.loaded := List.mem_reverse.mp (List.mem_of_find?_eq_some hfind)
      rw [← hid]
      exact h.loaded.roles u' hmem

/-- The answers with a given order, where the second query keeps the order of the table. -/
def answersOf (db : Rbac) (query : ListUsersQueryDto) (ordered : List User) : Answers where
  ordered := ordered
  loaded  := (db.users.rows.filter fun u => u.deletedAt.isNone && u.id ∈
    (pageOf query ordered).map User.id).map
    fun u => ⟨u, db.rolesOf u.id⟩

theorem possible_answersOf {ordered : List User}
    (h : Paging.Ordering User.createdAt (matching fold db query.q) ordered) :
    (answersOf db query ordered).Possible fold db query where
  ordered := h
  loaded  :=
    { users := by
        show List.Perm (List.map _ (List.map _ _)) _
        rw [List.map_map]
        exact List.Perm.of_eq (List.map_id _)
      roles := by
        intro u hu
        obtain ⟨user, -, rfl⟩ := List.mem_map.mp hu
        exact List.Perm.refl _ }

theorem nodup_matching (fold : CaseFold) (db : Rbac) (q : Option String) : (matching fold db q).Nodup :=
  (List.Nodup.of_map _ db.users.nodup).filter _

/-- **The pages partition the users matched, whatever the database answers, iff no page boundary falls
    between two users created at the same time.** -/
theorem pages_partition (fold : CaseFold) (db : Rbac) (query : ListUsersQueryDto) :
    (∀ answers : Nat → Answers, (∀ k, (answers k).Possible fold db (query.atPage k)) →
      Partitions fold db answers query) ↔
    Paging.NoTie User.createdAt (matching fold db query.q) query.limitOrDefault := by
  rw [← Paging.concat_perm_iff query.limit_pos (nodup_matching fold db query.q)]
  constructor
  · intro h ordered hordered
    have hpart := h (fun k => answersOf db (query.atPage k) (ordered k)) fun k =>
      possible_answersOf (hordered k)
    have husers := hpart.users
    rw [map_user_allItems] at husers
    exact husers
  · intro h answers hanswers
    have hordered : ∀ k, Paging.Ordering User.createdAt (matching fold db query.q) (answers k).ordered :=
      fun k => (hanswers k).ordered
    refine ⟨?_, ?_, fun k => rfl, fun item hitem => ?_⟩
    · rw [map_user_allItems]
      exact h (fun k => (answers k).ordered) hordered
    · have hsorted := Paging.sorted_concat hordered query.limitOrDefault
        (Paging.pages (matching fold db query.q).length query.limitOrDefault)
      rw [← map_user_allItems] at hsorted
      exact List.pairwise_map.mp hsorted
    · obtain ⟨k, -, hk⟩ := List.mem_flatMap.mp hitem
      exact roles_findAll (hanswers k) hk

/-- A second account, created at the same time. -/
def twin : User := { alice with id := uuidB, email := "b@b.co" }

/-- The answers to two calls with `limit` 1: each puts the other user first. -/
def turned (k : Nat) : List User := if k = 0 then [alice, twin] else [twin, alice]

/-- One of two users is on both pages, the other on none. -/
theorem user_on_two_pages :
    ¬ ∀ (fold : CaseFold) (db : Rbac) (query : ListUsersQueryDto) (answers : Nat → Answers),
      (∀ k, (answers k).Possible fold db (query.atPage k)) → Partitions fold db answers query := by
  intro h
  let query : ListUsersQueryDto :=
    { page := none, limit := some 1, q := none,
      page_min := by simp, limit_range := by decide, q_maxLength := by simp }
  let db : Rbac := (Rbac.empty.putUser alice).putUser twin
  have hordered : ∀ k, Paging.Ordering User.createdAt (matching .ascii db query.q) (turned k) := by
    intro k
    unfold turned
    split
    · exact ⟨by decide, by decide⟩
    · exact ⟨by decide, by decide⟩
  have hpart := h .ascii db query (fun k => answersOf db (query.atPage k) (turned k)) fun k =>
    possible_answersOf (hordered k)
  have hnot : ¬ ((allItems .ascii db (fun k => answersOf db (query.atPage k) (turned k)) query).map
      UserWithRoles.user).Perm (matching .ascii db query.q) := by
    rw [map_user_allItems]
    decide
  exact hnot hpart.users

end UsersService

end NestApp
