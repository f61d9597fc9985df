import NestApp.Rbac.Seed

/-!
# `Rbac.Replace` — `replaceJoinRows`, alone in its transaction

The helper counts: as many rows found as distinct texts listed. The set of texts is a JavaScript `Set`
of strings, the rows are found by value, so the two counts agree iff every listed id exists and no id
is listed in two spellings. Two spellings of one role are refused although the role exists
(`two_spellings_refused`).

`replace_join_rows` says exactly when the replacement does what its name says. The two uses — the roles
of a user and the permissions of a role — are one `JoinTable` with parameters.

A caller who sends the same role twice in the same spelling is served: the set of texts has one element
then. It is only two different texts for one id that the count takes for an unknown role.
-/

namespace NestApp

open Sql Prog

/-! ## The count

Distinct texts on the one side, rows found by value on the other. The counts agree if and only if
casting is a bijection between the two. -/

theorem nodup_eraseDups {α : Type} [DecidableEq α] (l : List α) : l.eraseDups.Nodup := by
  induction hn : l.length using Nat.strong_induction_on generalizing l with
  | _ n ih =>
      cases l with
      | nil => simp
      | cons a l =>
          rw [List.eraseDups_cons, List.nodup_cons]
          have hlen : (l.filter fun b => !b == a).length < n := by
            rw [← hn, List.length_cons]
            exact Nat.lt_succ_of_le (List.length_filter_le _ _)
          refine ⟨?_, ih _ hlen _ rfl⟩
          simp

/-- No id is listed in two spellings. -/
def OneSpelling (ids : List String) : Prop := ∀ a ∈ ids, ∀ b ∈ ids, Uuid.cast a = Uuid.cast b → a = b

instance (ids : List String) : Decidable (OneSpelling ids) := by
  unfold OneSpelling
  infer_instance

variable {ids : List String}

theorem nodup_cast : (ids.eraseDups.map Uuid.cast).Nodup ↔ OneSpelling ids := by
  constructor
  · intro h a ha b hb hab
    exact List.inj_on_of_nodup_map h (List.mem_eraseDups.mpr ha) (List.mem_eraseDups.mpr hb) hab
  · intro h
    refine (nodup_eraseDups ids).map_on fun a ha b hb hab => ?_
    exact h a (List.mem_eraseDups.mp ha) b (List.mem_eraseDups.mp hb) hab

theorem mem_cast {u : Uuid} : u ∈ ids.eraseDups.map Uuid.cast ↔ u ∈ ids.map Uuid.cast := by
  simp [List.mem_map, List.mem_eraseDups]

/-- **The counts agree** iff every listed id exists, in one spelling. -/
theorem length_existingIds {referenced : List Uuid} (hnodup : referenced.Nodup) :
    (existingIds referenced ids.eraseDups).length = ids.eraseDups.length ↔
      (∀ id ∈ ids, Uuid.cast id ∈ referenced) ∧ OneSpelling ids := by
  have hexisting : (existingIds referenced ids.eraseDups).Nodup := hnodup.filter _
  have hmem : ∀ {u}, u ∈ existingIds referenced ids.eraseDups ↔ u ∈ referenced ∧
    u ∈ ids.map Uuid.cast := by
    intro u
    rw [existingIds, List.mem_filter, decide_eq_true_eq, mem_cast]
  have hsub : (existingIds referenced ids.eraseDups).Subperm (ids.eraseDups.map Uuid.cast) :=
    List.subperm_of_subset hexisting fun u hu => mem_cast.mpr (hmem.mp hu).2
  constructor
  · intro hlen
    -- as many rows as listed values: they are the same ones
    have hperm : (existingIds referenced ids.eraseDups).Perm (ids.eraseDups.map Uuid.cast) :=
      hsub.perm_of_length_le (by rw [List.length_map, hlen])
    refine ⟨fun id hid => ?_, nodup_cast.mp (hperm.nodup_iff.mp hexisting)⟩
    have hlisted : Uuid.cast id ∈ ids.eraseDups.map Uuid.cast := mem_cast.mpr (List.mem_map_of_mem hid)
    exact (hmem.mp (hperm.mem_iff.mpr hlisted)).1
  · rintro ⟨hknown, hone⟩
    have hperm : (existingIds referenced ids.eraseDups).Perm (ids.eraseDups.map Uuid.cast) := by
      rw [List.perm_ext_iff_of_nodup hexisting (nodup_cast.mpr hone)]
      intro u
      rw [hmem, mem_cast]
      refine ⟨fun h => h.2, fun h => ⟨?_, h⟩⟩
      obtain ⟨id, hid, rfl⟩ := List.mem_map.mp h
      exact hknown id hid
    rw [hperm.length_eq, List.length_map]

/-! ## The join tables

Roles of a user and permissions of a role, as one structure with the statements as fields, so that one
proof serves both callers. -/

/-- The two join tables: the roles of a user, the permissions of a role. -/
inductive JoinTable where
  | userRoles | rolePermissions

namespace JoinTable

def owners : JoinTable → Rbac → List Uuid
  | userRoles, db       => db.users.rows.map User.id
  | rolePermissions, db => db.roles.rows.map Role.id

def referenced : JoinTable → Rbac → List Uuid
  | userRoles, db       => db.roles.rows.map Role.id
  | rolePermissions, db => db.permissions.rows.map Permission.id

/-- The rows of the join table: an owner and what it refers to. -/
def rows : JoinTable → Rbac → List (Uuid × Uuid)
  | userRoles, db       => db.userRoles.rows.map key
  | rolePermissions, db => db.rolePermissions.rows.map key

def delete : JoinTable → Uuid → Rbac → Rbac
  | userRoles, owner, db       => db.deleteUserRoles owner
  | rolePermissions, owner, db => db.deleteRolePermissions owner

def insert : JoinTable → Uuid → Rbac → Uuid → Option Rbac
  | userRoles, owner, db, ref       => db.insertUserRole owner ref
  | rolePermissions, owner, db, ref => db.insertRolePermission owner ref

def label : JoinTable → String
  | userRoles       => "role"
  | rolePermissions => "permission"

/-- `replaceJoinRows` for one owner, in a transaction. -/
def replace (j : JoinTable) (owner : Uuid) (ids : List String) : Service Unit :=
  transaction (replaceJoinRows j.referenced (j.delete owner) (j.insert owner) ids j.label)

/-- The transaction of `UsersService.setRoles`. -/
theorem replace_userRoles (userId : String) (roleIds : List String) :
    transaction (UsersService.assignRoles userId roleIds) = userRoles.replace (.cast userId) roleIds :=
      rfl

/-- The transaction of `RolesService.setPermissions`. -/
theorem replace_rolePermissions (roleId : Uuid) (permissionIds : List String) :
    RolesService.replacePermissions roleId permissionIds =
      rolePermissions.replace roleId permissionIds := rfl

/-- Everything but the join table is the same. -/
structure SameElsewhere (j : JoinTable) (db db' : Rbac) : Prop where
  users       : db'.users = db.users
  roles       : db'.roles = db.roles
  permissions : db'.permissions = db.permissions
  other       : match j with
    | userRoles       => db'.rolePermissions = db.rolePermissions
    | rolePermissions => db'.userRoles = db.userRoles

variable {j : JoinTable} {db db' db'' : Rbac} {owner ref : Uuid}

theorem nodup_referenced : (j.referenced db).Nodup := by
  cases j with
  | userRoles => exact db.roles.nodup
  | rolePermissions => exact db.permissions.nodup

namespace SameElsewhere

theorem refl : j.SameElsewhere db db := by
  refine ⟨rfl, rfl, rfl, ?_⟩
  cases j <;> rfl

theorem trans (h : j.SameElsewhere db db') (h' : j.SameElsewhere db' db'') :
    j.SameElsewhere db db'' := by
  refine ⟨h'.users.trans h.users, h'.roles.trans h.roles, h'.permissions.trans h.permissions, ?_⟩
  have hother := h.other
  have hother' := h'.other
  cases j with
  | userRoles => exact hother'.trans hother
  | rolePermissions => exact hother'.trans hother

theorem referenced (h : j.SameElsewhere db db') : j.referenced db' = j.referenced db := by
  cases j with
  | userRoles => exact congrArg (fun t : Table Role => t.rows.map Role.id) h.roles
  | rolePermissions =>
      exact congrArg (fun t : Table Permission => t.rows.map Permission.id) h.permissions

theorem owners (h : j.SameElsewhere db db') : j.owners db' = j.owners db := by
  cases j with
  | userRoles => exact congrArg (fun t : Table User => t.rows.map User.id) h.users
  | rolePermissions => exact congrArg (fun t : Table Role => t.rows.map Role.id) h.roles

/-- A join row is its key, so the rows decide the table. -/
theorem eq (h : j.SameElsewhere db db') (hrows : j.rows db' = j.rows db) : db' = db := by
  obtain ⟨husers, hroles, hpermissions, hother⟩ := h
  obtain ⟨users, roles, permissions, userRoles, rolePermissions⟩ := db
  obtain ⟨users', roles', permissions', userRoles', rolePermissions'⟩ := db'
  cases husers
  cases hroles
  cases hpermissions
  cases j with
  | userRoles =>
      cases hother
      have hinj : Function.Injective (key : UserRole → Uuid × Uuid) := by
        rintro ⟨u, r⟩ ⟨u', r'⟩ h
        cases h
        rfl
      cases Table.ext (hinj.list_map hrows)
      rfl
  | rolePermissions =>
      cases hother
      have hinj : Function.Injective (key : RolePermission → Uuid × Uuid) := by
        rintro ⟨r, p⟩ ⟨r', p'⟩ h
        cases h
        rfl
      cases Table.ext (hinj.list_map hrows)
      rfl

end SameElsewhere

/-! ## The two statements

A `DELETE` by owner and an `INSERT` row by row. Other owners keep their rows, and their order. -/

theorem same_delete : j.SameElsewhere db (j.delete owner db) := by
  cases j <;> exact ⟨rfl, rfl, rfl, rfl⟩

theorem rows_delete : j.rows (j.delete owner db) = (j.rows db).filter fun row => row.1 ≠ owner := by
  cases j with
  | userRoles =>
      show (db.userRoles.rows.filter fun r => r.userId ≠ owner).map key =
        (db.userRoles.rows.map key).filter _
      rw [List.filter_map]
      rfl
  | rolePermissions =>
      show (db.rolePermissions.rows.filter fun r => r.roleId ≠ owner).map key =
        (db.rolePermissions.rows.map key).filter _
      rw [List.filter_map]
      rfl

/-- The foreign keys admit a row iff both ends exist. A new row is the last one. -/
theorem insert_new (howner : owner ∈ j.owners db) (href : ref ∈ j.referenced db)
    (hnew : (owner, ref) ∉ j.rows db) :
    ∃ db', j.insert owner db ref = some db' ∧ j.SameElsewhere db db' ∧
      j.rows db' = j.rows db ++ [(owner, ref)] := by
  cases j with
  | userRoles =>
      have hfk : (db.users.get owner).isSome ∧ (db.roles.get ref).isSome :=
        ⟨Table.mem_map_key.mp howner, Table.mem_map_key.mp href⟩
      have hget : db.userRoles.get (owner, ref) = none :=
        Option.not_isSome_iff_eq_none.mp fun h => hnew (Table.mem_map_key.mpr h)
      refine ⟨_, dif_pos hfk, ⟨rfl, rfl, rfl, rfl⟩, ?_⟩
      show (db.userRoles.put ⟨owner, ref⟩).rows.map key = _
      rw [Table.rows_put_new hget, List.map_append]
      rfl
  | rolePermissions =>
      have hfk : (db.roles.get owner).isSome ∧ (db.permissions.get ref).isSome :=
        ⟨Table.mem_map_key.mp howner, Table.mem_map_key.mp href⟩
      have hget : db.rolePermissions.get (owner, ref) = none :=
        Option.not_isSome_iff_eq_none.mp fun h => hnew (Table.mem_map_key.mpr h)
      refine ⟨_, dif_pos hfk, ⟨rfl, rfl, rfl, rfl⟩, ?_⟩
      show (db.rolePermissions.put ⟨owner, ref⟩).rows.map key = _
      rw [Table.rows_put_new hget, List.map_append]
      rfl

/-- An owner without a row violates the foreign key. -/
theorem insert_orphan (howner : owner ∉ j.owners db) : j.insert owner db ref = none := by
  cases j with
  | userRoles => exact dif_neg fun h => howner (Table.mem_map_key.mpr h.1)
  | rolePermissions => exact dif_neg fun h => howner (Table.mem_map_key.mpr h.1)

/-- The rows are inserted one after the other. -/
theorem insert_all {refs : List Uuid} (howner : owner ∈ j.owners db ∨ refs = [])
    (hrefs : ∀ ref ∈ refs, ref ∈ j.referenced db)
    (hnodup : refs.Nodup) (hnew : ∀ ref ∈ refs, (owner, ref) ∉ j.rows db) :
    ∃ db', refs.foldlM (j.insert owner) db = some db' ∧ j.SameElsewhere db db' ∧
      j.rows db' = j.rows db ++ refs.map (owner, ·) := by
  induction refs generalizing db with
  | nil => exact ⟨db, rfl, .refl, (List.append_nil _).symm⟩
  | cons ref refs ih =>
      have howner : owner ∈ j.owners db := howner.resolve_right (List.cons_ne_nil _ _)
      obtain ⟨hfresh, hnodup⟩ := List.nodup_cons.mp hnodup
      obtain ⟨db₁, hone, hsame, hrows⟩ :=
        insert_new howner (hrefs ref List.mem_cons_self) (hnew ref List.mem_cons_self)
      have hnew₁ : ∀ r ∈ refs, (owner, r) ∉ j.rows db₁ := by
        intro r hr hmem
        rw [hrows, List.mem_append, List.mem_singleton] at hmem
        rcases hmem with hold | heq
        · exact hnew r (List.mem_cons_of_mem _ hr) hold
        · exact hfresh ((Prod.mk.inj heq).2 ▸ hr)
      have hrefs₁ : ∀ r ∈ refs, r ∈ j.referenced db₁ := by
        intro r hr
        rw [hsame.referenced]
        exact hrefs r (List.mem_cons_of_mem _ hr)
      obtain ⟨db', hrest, hsame', hrows'⟩ := ih (.inl (hsame.owners ▸ howner)) hrefs₁ hnodup hnew₁
      refine ⟨db', ?_, hsame.trans hsame', ?_⟩
      · rw [List.foldlM_cons, hone]
        exact hrest
      · rw [hrows', hrows, List.append_assoc]
        rfl

/-! ## The replacement

Three ways in which the transaction can end: refused by the count, failing on the foreign key of the
owner, or done. -/

variable {w : World}

/-- The counts differ: nothing is written. -/
theorem replace_refused (owner : Uuid)
    (h : ¬ ((∀ id ∈ ids, Uuid.cast id ∈ j.referenced w.db) ∧ OneSpelling ids)) :
    ∃ message, j.replace owner ids w = (.error (.http (.badRequest message)), w) := by
  have hcount : (existingIds (j.referenced w.db) ids.eraseDups).length ≠ ids.eraseDups.length :=
    fun hlen => h ((length_existingIds nodup_referenced).mp hlen)
  have hbody : replaceJoinRows j.referenced (j.delete owner) (j.insert owner) ids j.label w =
      (.error (unknownIds j.label (existingIds (j.referenced w.db) ids.eraseDups) ids.eraseDups), w) :=
        by
    unfold replaceJoinRows
    rw [gets_bind, throwIf_bind_true hcount]
  exact ⟨_, transaction_rolls_back hbody⟩

/-- The owner has no row: the `INSERT` fails, and the `DELETE` is rolled back. -/
theorem replace_orphan (hknown : ∀ id ∈ ids, Uuid.cast id ∈ j.referenced w.db) (hone : OneSpelling ids)
    (howner : owner ∉ j.owners w.db) (hne : ids ≠ []) :
      j.replace owner ids w = (.error .unexpected, w) := by
  have hcount : ¬ (existingIds (j.referenced w.db) ids.eraseDups).length ≠ ids.eraseDups.length :=
    not_not.mpr ((length_existingIds nodup_referenced).mpr ⟨hknown, hone⟩)
  have hinsert : (ids.eraseDups.map Uuid.cast).foldlM (j.insert owner) (j.delete owner w.db) = none := by
    cases ids with
    | nil => exact absurd rfl hne
    | cons id ids =>
        have horphan : owner ∉ j.owners (j.delete owner w.db) := by
          rw [same_delete.owners]
          exact howner
        rw [List.eraseDups_cons, List.map_cons, List.foldlM_cons, insert_orphan horphan]
        rfl
  have hbody : replaceJoinRows j.referenced (j.delete owner) (j.insert owner) ids j.label w =
      (.error .unexpected, { w with db := j.delete owner w.db }) := by
    unfold replaceJoinRows
    rw [gets_bind, throwIf_bind_false hcount, modify_bind]
    exact save_error hinsert
  rw [replace, transaction_rolls_back hbody]

/-- The owner's rows become those listed, each once; they come after the rows of the others, which stay
    in order. -/
theorem replace_done (hknown : ∀ id ∈ ids, Uuid.cast id ∈ j.referenced w.db) (hone : OneSpelling ids)
    (howner : owner ∈ j.owners w.db ∨ ids = []) :
    ∃ db', j.replace owner ids w = (.ok (), { w with db := db' }) ∧ j.SameElsewhere w.db db' ∧
      j.rows db' = (j.rows w.db).filter (fun row => row.1 ≠ owner) ++
        (ids.eraseDups.map Uuid.cast).map (owner, ·) := by
  have hcount : ¬ (existingIds (j.referenced w.db) ids.eraseDups).length ≠ ids.eraseDups.length :=
    not_not.mpr ((length_existingIds nodup_referenced).mpr ⟨hknown, hone⟩)
  have howner' : owner ∈ j.owners (j.delete owner w.db) ∨ ids.eraseDups.map Uuid.cast = [] := by
    rw [same_delete.owners]
    refine howner.imp id ?_
    rintro rfl
    rfl
  have hrefs : ∀ ref ∈ ids.eraseDups.map Uuid.cast, ref ∈ j.referenced (j.delete owner w.db) := by
    intro ref href
    obtain ⟨id, hid, rfl⟩ := List.mem_map.mp href
    rw [same_delete.referenced]
    exact hknown id (List.mem_eraseDups.mp hid)
  -- the `DELETE` has left no row of the owner
  have hnew : ∀ ref ∈ ids.eraseDups.map Uuid.cast, (owner, ref) ∉ j.rows (j.delete owner w.db) := by
    intro ref _ hmem
    rw [rows_delete, List.mem_filter] at hmem
    simp at hmem
  obtain ⟨db', hinsert, hsame, hrows⟩ := insert_all howner' hrefs (nodup_cast.mpr hone) hnew
  refine ⟨db', ?_, same_delete.trans hsame, by rw [hrows, rows_delete]⟩
  refine transaction_commits ?_
  unfold replaceJoinRows
  rw [gets_bind, throwIf_bind_false hcount, modify_bind]
  exact save_ok hinsert

/-- Some listed id denotes no row of the referenced table. -/
def Unknown (j : JoinTable) (ids : List String) (db : Rbac) : Prop :=
  ∃ id ∈ ids, Uuid.cast id ∉ j.referenced db

instance (ids : List String) (db : Rbac) : Decidable (j.Unknown ids db) := by
  unfold Unknown
  infer_instance

theorem known_of_not_unknown {db : Rbac} (h : ¬ j.Unknown ids db) :
    ∀ id ∈ ids, Uuid.cast id ∈ j.referenced db := by
  intro id hid
  by_contra hno
  exact h ⟨id, hid, hno⟩

/-- Between the two worlds the owner's rows were replaced by one for each listed id. -/
structure Replaced (j : JoinTable) (owner : Uuid) (ids : List String) (w w' : World) : Prop where
  own       : (((j.rows w'.db).filter fun row => row.1 = owner).map Prod.snd).Perm
    (ids.map Uuid.cast).dedup
  others    : (j.rows w'.db).filter (fun row => row.1 ≠ owner) = (j.rows w.db).filter
    fun row => row.1 ≠ owner
  elsewhere : j.SameElsewhere w.db w'.db
  /-- a second run changes nothing -/
  again     : j.replace owner ids w' = (.ok (), w')

/-- **What the helper is for**: it refuses exactly the lists with an unknown id, writing nothing, and
    otherwise replaces the owner's rows. -/
structure ReplacesExactly (j : JoinTable) (owner : Uuid) (ids : List String) (w : World) : Prop where
  refuses   : (∃ message, (j.replace owner ids w).1 = .error (.http (.badRequest message))) ↔
    j.Unknown ids w.db
  unchanged : j.Unknown ids w.db → (j.replace owner ids w).2 = w
  returns   : ¬ j.Unknown ids w.db → (j.replace owner ids w).1 = .ok ()
  replaced  : ¬ j.Unknown ids w.db → j.Replaced owner ids w (j.replace owner ids w).2

/-- The rows of a done replacement, split by owner. -/
theorem replaced_rows {rows rows' : List (Uuid × Uuid)} {refs : List Uuid}
    (h : rows' = rows.filter (fun row => row.1 ≠ owner) ++ refs.map (owner, ·)) :
    (rows'.filter fun row => row.1 = owner).map Prod.snd = refs ∧
      rows'.filter (fun row => row.1 ≠ owner) = rows.filter fun row => row.1 ≠ owner := by
  subst h
  constructor
  · have hnone : (rows.filter fun row => row.1 ≠ owner).filter (fun row => row.1 = owner) = [] := by
      rw [List.filter_filter, List.filter_eq_nil_iff]
      simp
    have hall : (refs.map (owner, ·)).filter (fun row => row.1 = owner) = refs.map (owner, ·) := by
      rw [List.filter_eq_self]
      simp
    rw [List.filter_append, hnone, hall, List.nil_append, List.map_map]
    exact List.map_id _
  · have hnone : (refs.map (owner, ·)).filter (fun row => row.1 ≠ owner) = [] := by
      rw [List.filter_eq_nil_iff]
      simp
    rw [List.filter_append, hnone, List.append_nil, List.filter_filter]
    simp

/-- Where the helper reaches its end, the owner's rows have been replaced. -/
theorem replaced_of_done (hknown : ∀ id ∈ ids, Uuid.cast id ∈ j.referenced w.db) (hone : OneSpelling ids)
    (howner : owner ∈ j.owners w.db ∨ ids = []) :
    (j.replace owner ids w).1 = .ok () ∧ j.Replaced owner ids w (j.replace owner ids w).2 := by
  obtain ⟨db', hrun, hsame, hrows⟩ := replace_done hknown hone howner
  obtain ⟨hown, hothers⟩ := replaced_rows hrows
  rw [hrun]
  refine ⟨rfl, ?_, hothers, hsame, ?_⟩
  · show (((j.rows db').filter fun row => row.1 = owner).map Prod.snd).Perm _
    rw [hown, List.perm_ext_iff_of_nodup (nodup_cast.mpr hone) (List.nodup_dedup _)]
    intro u
    rw [mem_cast, List.mem_dedup]
  · -- the second run deletes the rows it then inserts, in the same order
    have hknown' : ∀ id ∈ ids, Uuid.cast id ∈ j.referenced db' := by
      rw [hsame.referenced]
      exact hknown
    have howner' : owner ∈ j.owners db' ∨ ids = [] := by
      rw [hsame.owners]
      exact howner
    obtain ⟨db'', hrun', hsame', hrows'⟩ := replace_done (w := { w with db := db' }) hknown' hone howner'
    have hfixed : db'' = db' := hsame'.eq (by rw [hrows', hothers, hrows])
    rw [hrun', hfixed]

theorem replacesExactly_of_unknown (hunknown : j.Unknown ids w.db) : j.ReplacesExactly owner ids w := by
  have hrefused : ¬ ((∀ id ∈ ids, Uuid.cast id ∈ j.referenced w.db) ∧ OneSpelling ids) := by
    rintro ⟨hknown, -⟩
    obtain ⟨id, hid, hno⟩ := hunknown
    exact hno (hknown id hid)
  obtain ⟨message, hrun⟩ := replace_refused owner hrefused
  constructor
  · rw [hrun]
    exact ⟨fun _ => hunknown, fun _ => ⟨message, rfl⟩⟩
  · intro _
    rw [hrun]
  · exact fun hknown => absurd hunknown hknown
  · exact fun hknown => absurd hunknown hknown

theorem replacesExactly_of_done (hknown : ¬ j.Unknown ids w.db) (hone : OneSpelling ids)
    (howner : owner ∈ j.owners w.db ∨ ids = []) : j.ReplacesExactly owner ids w := by
  obtain ⟨hok, hdone⟩ := replaced_of_done (known_of_not_unknown hknown) hone howner
  constructor
  · rw [hok]
    refine ⟨?_, fun h => absurd h hknown⟩
    rintro ⟨message, he⟩
    cases he
  · exact fun h => absurd h hknown
  · exact fun _ => hok
  · exact fun _ => hdone

end JoinTable

/-- **`replaceJoinRows` replaces exactly the owner's set** iff some listed id is unknown, or each is
    listed in one spelling and the owner has a row (an empty list needs none). -/
theorem replace_join_rows (j : JoinTable) (owner : Uuid) (ids : List String) (w : World) :
    j.ReplacesExactly owner ids w ↔
      j.Unknown ids w.db ∨ (OneSpelling ids ∧ (owner ∈ j.owners w.db ∨ ids = [])) := by
  constructor
  · intro h
    by_contra hcond
    obtain ⟨hknown, hrest⟩ := not_or.mp hcond
    have hok : (j.replace owner ids w).1 = .ok () := h.returns hknown
    by_cases hone : OneSpelling ids
    · obtain ⟨howner, hne⟩ := not_or.mp fun h => hrest ⟨hone, h⟩
      rw [JoinTable.replace_orphan (JoinTable.known_of_not_unknown hknown) hone howner hne] at hok
      cases hok
    · have hrefused : ¬ ((∀ id ∈ ids, Uuid.cast id ∈ j.referenced w.db) ∧ OneSpelling ids) :=
        fun h => hone h.2
      obtain ⟨message, hrun⟩ := JoinTable.replace_refused owner hrefused
      rw [hrun] at hok
      cases hok
  · rintro (hunknown | ⟨hone, howner⟩)
    · exact JoinTable.replacesExactly_of_unknown hunknown
    · by_cases hunknown : j.Unknown ids w.db
      · exact JoinTable.replacesExactly_of_unknown hunknown
      · exact JoinTable.replacesExactly_of_done hunknown hone howner

/-- The seeded role `user`, in both letter cases. -/
def twoSpellings : List String := [(seedId 7).text, "6F2A5B7C-8D1E-4F3A-9B2C-1D2E3F4A5B07"]

theorem not_oneSpelling_twoSpellings : ¬ OneSpelling twoSpellings := by
  intro h
  have hsame : Uuid.cast (seedId 7).text = Uuid.cast "6F2A5B7C-8D1E-4F3A-9B2C-1D2E3F4A5B07" := by
    rw [Uuid.cast_text]
    exact Uuid.ext (by decide +kernel)
  have heq : (seedId 7).text = "6F2A5B7C-8D1E-4F3A-9B2C-1D2E3F4A5B07" :=
    h _ List.mem_cons_self _ (List.mem_cons_of_mem _ List.mem_cons_self) hsame
  revert heq
  decide +kernel

/-- **Two spellings of one role are refused**, although the role exists. -/
theorem two_spellings_refused :
    ¬ JoinTable.userRoles.ReplacesExactly (seedId 8) twoSpellings seededWorld := by
  intro h
  have hknown : ¬ JoinTable.userRoles.Unknown twoSpellings seededWorld.db := by decide +kernel
  have hok := h.returns hknown
  have hrefused : ¬ ((∀ id ∈ twoSpellings,
    Uuid.cast id ∈ JoinTable.userRoles.referenced seededWorld.db) ∧
      OneSpelling twoSpellings) := fun h => not_oneSpelling_twoSpellings h.2
  obtain ⟨message, hrun⟩ := JoinTable.replace_refused (seedId 8) hrefused
  rw [hrun] at hok
  cases hok

end NestApp
