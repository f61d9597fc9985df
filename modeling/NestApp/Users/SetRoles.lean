import NestApp.Rbac.Replace

/-!
# `Users.SetRoles` — what `setRoles` leaves behind when it throws

The role ids are checked inside the transaction, and the foreign key refuses a missing user; but
whether the user is deleted is only asked by the `findWithRolesOrFail` that reads the answer, after the
commit. A soft-deleted user keeps its row, so its roles are replaced and the call then throws 404
(`set_roles_of_deleted_user`).

`set_roles_all_or_nothing`: that is the only case. The call otherwise changes no join row when it
throws, and returns only for an existing user who now has exactly the roles listed.

The order of the checks matters to a caller who retries: an id that is no role, or one that is named
twice in different letter case, is refused before anything is written, and a missing user is noticed by
the foreign key of the first row inserted, or, where the list is empty, when the user is read back.
-/

namespace NestApp

open Sql Prog JoinTable

namespace UsersService

variable {userId : String} {roleIds : List String} {w : World} {db' : Rbac}

/-! ## Execution

The call is its transaction, the deletion of the cache entry, and a lookup that may throw. Only the
transaction can be undone. -/

/-- The transaction throws: so does the call, and nothing is written. -/
theorem setRoles_error {e : Failure} (h : userRoles.replace (.cast userId) roleIds w = (.error e, w)) :
    setRoles userId roleIds w = (.error e, w) := by
  rw [← replace_userRoles] at h
  exact bind_error h

theorem findWithRolesOrFail_some {user : User} (hrow : w.db.users.get (.cast userId) = some user)
    (hlive : user.deletedAt = none) : findWithRolesOrFail userId w = (.ok user, w) := by
  unfold findWithRolesOrFail
  rw [gets_bind, hrow, Option.filter_some, if_pos (by rw [hlive]; rfl)]
  rfl

theorem findWithRolesOrFail_none
    (h : ∀ user, w.db.users.get (.cast userId) = some user → user.deletedAt.isSome) :
    findWithRolesOrFail userId w = (.error (.http (.notFound "User not found")), w) := by
  unfold findWithRolesOrFail
  rw [gets_bind]
  have hnone : (w.db.users.get (.cast userId)).filter (fun u => u.deletedAt.isNone) = none := by
    rw [Option.filter_eq_none_iff]
    intro user hrow
    rw [Option.isNone_iff_eq_none]
    exact Option.isSome_iff_ne_none.mp (h user hrow)
  rw [hnone]
  rfl

/-- The transaction commits: what is left is the deletion of the cache entry and the lookup. -/
theorem setRoles_done (h : userRoles.replace (.cast userId) roleIds w = (.ok (), { w with db := db' })) :
    setRoles userId roleIds w = findWithRolesOrFail userId
      (w.wrote db' [PermissionsService.cacheKey userId]) := by
  rw [← replace_userRoles] at h
  exact bind_ok h

/-! ## The property

Both directions at once: what a call that throws must have left, and what a call that returns must have
done. -/

/-- If the call throws, `user_roles` is as before; if it returns, the user exists, is not deleted and
    has exactly the distinct roles listed. -/
structure AllOrNothing (userId : String) (roleIds : List String) (w : World) : Prop where
  throws  : ∀ e, (setRoles userId roleIds w).1 = .error e →
    ∀ row, row ∈ (setRoles userId roleIds w).2.db.userRoles.rows ↔ row ∈ w.db.userRoles.rows
  returns : ∀ user, (setRoles userId roleIds w).1 = .ok user →
    (setRoles userId roleIds w).2.db.users.get (.cast userId) = some user ∧ user.deletedAt = none ∧
      (((userRoles.rows (setRoles userId roleIds w).2.db).filter fun row => row.1 = .cast userId).map
        Prod.snd).Perm
        (roleIds.map Uuid.cast).dedup

/-- The list names existing roles, each in one spelling: the transaction goes through. -/
def Accepted (roleIds : List String) (db : Rbac) : Prop :=
  ¬ userRoles.Unknown roleIds db ∧ OneSpelling roleIds

/-- The user has exactly the roles listed. -/
def HasExactly (db : Rbac) (userId : String) (roleIds : List String) : Prop :=
  ∀ r, db.HasRole (.cast userId) r ↔ r ∈ roleIds.map Uuid.cast

theorem mem_userRoles {db : Rbac} {row : UserRole} :
    row ∈ db.userRoles.rows ↔ (row.userId, row.roleId) ∈ userRoles.rows db := by
  show row ∈ db.userRoles.rows ↔ key row ∈ db.userRoles.rows.map key
  constructor
  · exact fun h => List.mem_map_of_mem h
  · intro h
    obtain ⟨row', hmem, hkey⟩ := List.mem_map.mp h
    have hrow : row' = row := by
      cases row'
      cases row
      cases hkey
      rfl
    exact hrow ▸ hmem

/-- After a replacement, `user_roles` is as before iff the user already had exactly the roles listed. -/
theorem sameRows_iff
    (hrows : userRoles.rows db' = (userRoles.rows w.db).filter (fun row => row.1 ≠ .cast userId) ++
      (roleIds.eraseDups.map Uuid.cast).map (.cast userId, ·)) :
    (∀ row, row ∈ db'.userRoles.rows ↔ row ∈ w.db.userRoles.rows) ↔ HasExactly w.db userId roleIds := by
  have hmem : ∀ row, row ∈ db'.userRoles.rows ↔
      (row ∈ w.db.userRoles.rows ∧ row.userId ≠ .cast userId) ∨
        (row.userId = .cast userId ∧ row.roleId ∈ roleIds.map Uuid.cast) := by
    intro row
    rw [mem_userRoles, mem_userRoles, hrows, List.mem_append, List.mem_filter, List.mem_map,
      decide_eq_true_eq]
    refine or_congr_right ⟨?_, ?_⟩
    · rintro ⟨r, hr, heq⟩
      obtain ⟨hu, hr'⟩ := Prod.mk.inj heq
      exact ⟨hu.symm, hr' ▸ mem_cast.mp hr⟩
    · rintro ⟨hu, hr⟩
      exact ⟨row.roleId, mem_cast.mpr hr, by rw [hu]⟩
  constructor
  · intro h r
    have hr := hmem ⟨.cast userId, r⟩
    rw [h] at hr
    show (⟨.cast userId, r⟩ : UserRole) ∈ w.db.userRoles.rows ↔ _
    rw [hr]
    simp
  · intro h row
    rw [hmem]
    by_cases hu : row.userId = .cast userId
    · have hown : row ∈ w.db.userRoles.rows ↔ row.roleId ∈ roleIds.map Uuid.cast := by
        rw [← h row.roleId, ← hu]
        rfl
      rw [hown]
      simp [hu]
    · simp [hu]

/-- A call whose transaction throws changes nothing. -/
theorem allOrNothing_of_error {e : Failure}
    (h : userRoles.replace (.cast userId) roleIds w = (.error e, w)) :
    AllOrNothing userId roleIds w := by
  have hrun := setRoles_error h
  constructor
  · intro _ _ row
    rw [hrun]
  · intro user hok
    rw [hrun] at hok
    cases hok

/-- A user without a row has no roles. -/
theorem hasExactly_of_missing (hmissing : w.db.users.get (.cast userId) = none) :
    HasExactly w.db userId [] := by
  intro r
  rw [List.map_nil]
  refine ⟨fun hrole => ?_, fun h => absurd h List.not_mem_nil⟩
  have hsome := w.db.userOf _ hrole
  rw [hmissing] at hsome
  cases hsome

/-- The roles are replaced and the lookup finds nobody: the call throws, after the commit. -/
theorem allOrNothing_of_gone (haccepted : Accepted roleIds w.db)
    (howner : Uuid.cast userId ∈ userRoles.owners w.db ∨ roleIds = [])
    (hgone : ∀ user, w.db.users.get (.cast userId) = some user → user.deletedAt.isSome) :
    AllOrNothing userId roleIds w ↔ HasExactly w.db userId roleIds := by
  obtain ⟨db', hreplace, hsame, hrows⟩ :=
    replace_done (known_of_not_unknown haccepted.1) haccepted.2 howner
  have hgone' : ∀ user, (w.wrote db' [PermissionsService.cacheKey userId]).db.users.get
    (.cast userId) = some user →
      user.deletedAt.isSome := by
    intro user hrow
    exact hgone user (hsame.users ▸ hrow)
  have hrun := (setRoles_done hreplace).trans (findWithRolesOrFail_none hgone')
  rw [← sameRows_iff hrows]
  constructor
  · intro h row
    have hkept := h.throws _ (congrArg Prod.fst hrun) row
    rw [hrun] at hkept
    exact hkept
  · intro h
    constructor
    · intro _ _ row
      rw [hrun]
      exact h row
    · intro user hok
      rw [hrun] at hok
      cases hok

/-- The roles are replaced and the lookup finds the user. -/
theorem allOrNothing_of_live {user : User} (haccepted : Accepted roleIds w.db)
    (hrow : w.db.users.get (.cast userId) = some user) (hlive : user.deletedAt = none) :
    AllOrNothing userId roleIds w := by
  have howner : Uuid.cast userId ∈ userRoles.owners w.db := Table.mem_map_key.mpr (by rw [hrow]; rfl)
  have hknown := known_of_not_unknown haccepted.1
  obtain ⟨db', hreplace, hsame, hrows⟩ := replace_done hknown haccepted.2 (.inl howner)
  have hrow' : (w.wrote db' [PermissionsService.cacheKey userId]).db.users.get (.cast userId) =
    some user := by
    show db'.users.get (.cast userId) = some user
    rw [hsame.users, hrow]
  have hrun := (setRoles_done hreplace).trans (findWithRolesOrFail_some hrow' hlive)
  constructor
  · intro e he
    rw [hrun] at he
    cases he
  · intro found hok
    rw [hrun] at hok ⊢
    obtain rfl : user = found := Except.ok.inj hok
    refine ⟨hrow', hlive, ?_⟩
    have hown := (replaced_of_done hknown haccepted.2 (.inl howner)).2.own
    rw [hreplace] at hown
    exact hown

end UsersService

/-- **`setRoles` is all-or-nothing** iff the user is not a deleted one whose roles the call replaces by
    others. -/
theorem set_roles_all_or_nothing (userId : String) (roleIds : List String) (w : World) :
    UsersService.AllOrNothing userId roleIds w ↔
      ∀ user, w.db.users.get (.cast userId) = some user → user.deletedAt.isSome →
        UsersService.Accepted roleIds w.db → UsersService.HasExactly w.db userId roleIds := by
  by_cases haccepted : UsersService.Accepted roleIds w.db
  case neg =>
    -- the transaction throws before it writes
    have hrefused : ¬ ((∀ id ∈ roleIds, Uuid.cast id ∈ userRoles.referenced w.db) ∧
      OneSpelling roleIds) := by
      rintro ⟨hknown, hone⟩
      refine haccepted ⟨?_, hone⟩
      rintro ⟨id, hid, hno⟩
      exact hno (hknown id hid)
    obtain ⟨message, hrun⟩ := replace_refused (.cast userId) hrefused
    exact ⟨fun _ _ _ _ h => absurd h haccepted, fun _ => UsersService.allOrNothing_of_error hrun⟩
  case pos =>
    cases huser : w.db.users.get (.cast userId) with
    | none =>
        refine ⟨fun _ _ h => (by cases h), fun _ => ?_⟩
        by_cases hids : roleIds = []
        · -- an empty list needs no foreign key; there was no row to delete
          subst hids
          have hgone : ∀ user, w.db.users.get (.cast userId) = some user → user.deletedAt.isSome := by
            rw [huser]
            intro user h
            cases h
          exact (UsersService.allOrNothing_of_gone haccepted (.inr rfl) hgone).mpr
            (UsersService.hasExactly_of_missing huser)
        · have howner : Uuid.cast userId ∉ userRoles.owners w.db := by
            intro h
            have hsome := Table.mem_map_key.mp h
            rw [huser] at hsome
            cases hsome
          exact UsersService.allOrNothing_of_error
            (replace_orphan (known_of_not_unknown haccepted.1) haccepted.2 howner hids)
    | some user =>
        cases hdeleted : user.deletedAt with
        | none =>
            refine ⟨fun _ found hfound hsome => ?_,
              fun _ => UsersService.allOrNothing_of_live haccepted huser hdeleted⟩
            obtain rfl : user = found := Option.some.inj hfound
            rw [hdeleted] at hsome
            cases hsome
        | some deletedAt =>
            have hgone : ∀ found, w.db.users.get (.cast userId) = some found →
              found.deletedAt.isSome := by
              intro found hfound
              rw [huser] at hfound
              obtain rfl : user = found := Option.some.inj hfound
              rw [hdeleted]
              rfl
            have howner : Uuid.cast userId ∈ userRoles.owners w.db :=
              Table.mem_map_key.mpr (by rw [huser]; rfl)
            rw [UsersService.allOrNothing_of_gone haccepted (.inl howner) hgone]
            refine ⟨fun h _ _ _ _ => h, fun h => h user rfl ?_ haccepted⟩
            rw [hdeleted]
            rfl

/-- The seeded deployment after the deletion of its administrator. -/
def deletedAdminWorld : World :=
  seededWorld.next toyEnv (.plain (.softDelete (seedId 8).text (some uuidA.text)))

/-- **The roles of a deleted user are replaced**: the request names the role `user`, the call throws
    404, and the account has lost the role `admin`. -/
theorem set_roles_of_deleted_user :
    ¬ UsersService.AllOrNothing (seedId 8).text [(seedId 7).text] deletedAdminWorld := by
  have haccepted : UsersService.Accepted [(seedId 7).text] deletedAdminWorld.db := by
    refine ⟨by decide +kernel, ?_⟩
    simp [OneSpelling]
  have hdeleted : ∀ user ∈ deletedAdminWorld.db.users.rows, user.deletedAt.isSome := by decide +kernel
  have howner : Uuid.cast (seedId 8).text ∈ userRoles.owners deletedAdminWorld.db := by decide +kernel
  intro h
  have hexactly := (UsersService.allOrNothing_of_gone haccepted (.inl howner)
    fun user hrow => hdeleted user (Table.get_mem hrow)).mp h
  have hadmin : deletedAdminWorld.db.HasRole (.cast (seedId 8).text) (seedId 6) := by
    show _ ∈ deletedAdminWorld.db.userRoles.rows
    decide +kernel
  have hlisted := (hexactly (seedId 6)).mp hadmin
  revert hlisted
  decide +kernel

end NestApp
