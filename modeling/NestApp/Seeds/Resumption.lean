import NestApp.Seeds.Plan

/-!
# `Seeds.Resumption` — seeding twice, and seeding again after a crash

Every turn of every loop of the script works on one goal of the plan and writes at most once, so a run
is at each moment some way through the plan (`Progress`), and so is every database it may leave behind.
What becomes of a plan that is run twice, or from the middle, is known (`Lib.Ensure`).

The theorems are for every list of seed roles whose texts fit their columns, every database and every
generated value. The deployed list is an instance, and a role whose name does not fit shows that the
hypothesis counts.
-/

namespace NestApp
namespace Seeds

open Sql Prog

variable {env : Env}

/-! ## Progress through the plan

The invariant of the loops. It speaks of the goals behind, and each turn of a loop adds its own to
them. -/

/-- The run has dealt with the goals in `done`: so says its database, and each database on the way had
    dealt with the first of them. The second half is what a crash leaves. -/
structure Progress (db₀ : Database env) (done : List Goal) (s : Session env) : Prop where
  grown : db₀.Extends s.db
  view  : s.db.view = after env done db₀.view
  stops : ∀ stop ∈ s.written, db₀.Extends stop ∧ ∃ first, first <+: done ∧
    stop.view = after env first db₀.view
  size  : s.db.size = db₀.size + s.written.length

variable {db₀ db' : Database env} {done : List Goal} {goal : Goal} {s : Session env}

/-- At the beginning nothing is dealt with. -/
theorem Progress.start (db : Database env) : Progress db [] ⟨db, []⟩ where
  grown := .refl db
  view  := rfl
  stops := fun _ h => absurd h List.not_mem_nil
  size  := rfl

theorem Progress.earlier (h : Progress db₀ done s) (goal : Goal) :
    ∀ stop ∈ s.written, db₀.Extends stop ∧ ∃ first, first <+: done ++ [goal] ∧
      stop.view = after env first db₀.view := by
  intro stop hstop
  obtain ⟨hgrown, first, hfirst, hview⟩ := h.stops stop hstop
  exact ⟨hgrown, first, hfirst.trans (List.prefix_append done [goal]), hview⟩

/-- A goal that is met is passed over. -/
theorem Progress.skip (h : Progress db₀ done s) (hmet : met env goal s.db.view) :
    Progress db₀ (done ++ [goal]) s where
  grown := h.grown
  view  := by
    rw [after, Ensure.run_snoc, ← after, ← h.view, act, if_pos hmet]
  stops := h.earlier goal
  size  := h.size

/-- A goal that is not met is created. -/
theorem Progress.create (h : Progress db₀ done s) (hnew : ¬ met env goal s.db.view)
    (hcreates : Creates goal s.db db') :
    Progress db₀ (done ++ [goal]) ⟨db', s.written ++ [db']⟩ := by
  have hview : db'.view = after env (done ++ [goal]) db₀.view := by
    rw [after, Ensure.run_snoc, ← after, ← h.view, act, if_neg hnew, hcreates.view]
  have hgrown : db₀.Extends db' := h.grown.trans hcreates.grown
  refine ⟨hgrown, hview, ?_, ?_⟩
  · intro stop hstop
    cases List.mem_append.mp hstop with
    | inl hold => exact h.earlier goal stop hold
    | inr hlast =>
        obtain rfl : stop = db' := List.mem_singleton.mp hlast
        exact ⟨hgrown, done ++ [goal], List.prefix_rfl, hview⟩
  · rw [List.length_append, List.length_singleton, ← Nat.add_assoc, ← h.size]
    exact hcreates.size

/-! ## The statements

What a `find` followed by a `save` does to the progress: the row is found, or made. Either way the goal
is met afterwards. -/

/-- A write that succeeds is one database more on the way. -/
theorem write_eq {insert : Database env → Option (Database env)} (hinsert : insert s.db = some db') :
    write insert s = (.ok (), ⟨db', s.written ++ [db']⟩) := by
  unfold write
  rw [gets_bind, hinsert]
  rfl

/-- An existing row is passed over, a missing one is written. -/
theorem Progress.ensure {insert : Database env → Option (Database env)} {missing : Bool}
    (h : Progress db₀ done s)
    (goal : Goal) (hmet : met env goal s.db.view ↔ missing = false)
    (hinsert : missing = true → ∃ db', insert s.db = some db' ∧ Creates goal s.db db') :
    Triple (· = s) (if missing then write insert else pure ())
      (fun _ s' => Progress db₀ (done ++ [goal]) s' ∧ s.db.Extends s'.db) fun _ => False := by
  cases missing with
  | false => exact Triple.pure_single ⟨h.skip (hmet.mpr rfl), .refl _⟩
  | true =>
      obtain ⟨db', hdb', hcreates⟩ := hinsert rfl
      intro s' hs
      rw [hs, if_pos rfl, write_eq hdb']
      refine ⟨h.create ?_ hcreates, hcreates.grown⟩
      rw [hmet]
      exact Bool.noConfusion

/-- Found or saved, the row is there afterwards. -/
theorem Progress.findOrSave {α : Type} {find : Script env (Option α)} {save : Script env α}
    {found : Option α}
    {P : α → Database env → Prop} (h : Progress db₀ done s) (hfind : find s = (.ok found, s))
    (hfound : ∀ row, found = some row → P row s.db)
    (hmet : met env goal s.db.view ↔ ∃ row, found = some row)
    (hsave : found = none → ∃ row db', save s = (.ok row, ⟨db', s.written ++ [db']⟩) ∧
      Creates goal s.db db' ∧ P row db') :
    Triple (· = s) (findOrSave find save)
      (fun row s' => Progress db₀ (done ++ [goal]) s' ∧ s.db.Extends s'.db ∧
        P row s'.db) fun _ => False := by
  intro s' hs
  unfold Seeds.findOrSave
  rw [hs, bind_ok hfind]
  cases found with
  | some row => exact ⟨h.skip (hmet.mpr ⟨row, rfl⟩), .refl _, hfound row rfl⟩
  | none =>
      obtain ⟨row, db', hrow, hcreates, hP⟩ := hsave rfl
      dsimp only
      rw [hrow]
      refine ⟨h.create ?_ hcreates, hcreates.grown, hP⟩
      rw [hmet]
      rintro ⟨row, hrow⟩
      cases hrow

theorem findPermission_eq {seed : SeedPermission} (hfits : seed.Fits) :
    findPermission seed s = (.ok (s.db.permissions.find? fun p => p.action = seed.action &&
      p.subject = seed.subject), s) := by
  have haction := (action_plain seed.action hfits.action).1
  unfold findPermission bindText
  rw [throwIf_bind_false (by simp [haction]), throwIf_bind_false (by simp [hfits.subject.1])]
  rfl

theorem findRole_eq {name : String} (h : hasNul name = false) :
    findRole name s = (.ok (s.db.roles.find? fun r => r.name = name), s) := by
  unfold findRole bindText
  rw [throwIf_bind_false (by simp [h])]
  rfl

theorem findUser_eq {email : String} :
    findUser email s = (.ok (s.db.users.find? fun u => Database.Holds env email u), s) := rfl

theorem matches_rule {p : Permission} {seed : SeedPermission} :
    (p.action = seed.action && p.subject = seed.subject) = true ↔ p.rule = seed := by
  cases seed with
  | mk action subject => simp [Permission.rule]

theorem exists_find? {R K : Type} [Keyed R K] {t : Table R} {p : R → Bool} :
    (∃ row, t.find? p = some row) ↔ ∃ row ∈ t.rows, p row = true := by
  rw [← Option.isSome_iff_exists]
  exact List.find?_isSome

/-- The permission of a seed, found or saved. -/
theorem findOrSave_permission (h : Progress db₀ done s) {seed : SeedPermission}
    (hfits : seed.Fits) (g : Generated env) :
    Triple (· = s) (findOrSave (findPermission seed) (savePermission g seed))
      (fun p s' => Progress db₀ (done ++ [.permission seed]) s' ∧ s.db.Extends s'.db ∧
        p ∈ s'.db.permissions.rows ∧ p.rule = seed) fun _ => False := by
  refine h.findOrSave (P := fun p db => p ∈ db.permissions.rows ∧ p.rule = seed)
    (findPermission_eq hfits) ?_ ?_ ?_
  · intro p hp
    obtain ⟨hrow, hmatch⟩ := Table.find?_some hp
    exact ⟨hrow, matches_rule.mp hmatch⟩
  · rw [met_permission, exists_find?]
    exact exists_congr fun p => and_congr_right fun _ => matches_rule.symm
  · intro hnone
    have hnew : ∀ p ∈ s.db.permissions.rows, p.rule ≠ seed := fun p hp hrule =>
      List.find?_eq_none.mp hnone p hp (matches_rule.mpr hrule)
    obtain ⟨db', hinsert, hcreates, hrow⟩ := insertPermission_creates (g.fresh s.db) hfits hnew
    refine ⟨_, db', ?_, hcreates, hrow, rfl⟩
    unfold savePermission
    rw [gets_bind, bind_ok (write_eq hinsert)]
    rfl

/-- The role of a seed, found or saved. An existing one is not brought up to date. -/
theorem findOrSave_role (h : Progress db₀ done s) {role : SeedRole} (hfits : role.Fits)
    (g : Generated env) :
    Triple (· = s) (findOrSave (findRole role.name) (saveRole g role))
      (fun row s' => Progress db₀ (done ++ [.role role]) s' ∧ s.db.Extends s'.db ∧
        row ∈ s'.db.roles.rows ∧ row.name = role.name) fun _ => False := by
  refine h.findOrSave (P := fun row db => row ∈ db.roles.rows ∧ row.name = role.name)
    (findRole_eq hfits.name.1) ?_ ?_ ?_
  · intro row hrow
    obtain ⟨hmem, hname⟩ := Table.find?_some hrow
    exact ⟨hmem, of_decide_eq_true hname⟩
  · rw [met_role, exists_find?]
    exact exists_congr fun row => and_congr_right fun _ => decide_eq_true_iff.symm
  · intro hnone
    have hnew : ∀ r ∈ s.db.roles.rows, r.name ≠ role.name := fun r hr hname =>
      List.find?_eq_none.mp hnone r hr (decide_eq_true hname)
    obtain ⟨db', hinsert, hcreates, hrow⟩ := insertRole_creates (g.fresh s.db) hfits hnew
    refine ⟨_, db', ?_, hcreates, hrow, rfl⟩
    unfold saveRole
    rw [gets_bind, bind_ok (write_eq hinsert)]
    rfl

/-- The account of the administrator, found among those in use or saved. -/
theorem findOrSave_user (h : Progress db₀ done s) (email password : String) (g : Generated env) :
    Triple (· = s) (findOrSave (findUser email) (saveUser g email password))
      (fun user s' => Progress db₀ (done ++ [.admin email]) s' ∧ s.db.Extends s'.db ∧
        user ∈ s'.db.users.rows ∧ Database.Holds env email user) fun _ => False := by
  refine h.findOrSave (P := fun user db => user ∈ db.users.rows ∧
    Database.Holds env email user) findUser_eq ?_ ?_ ?_
  · intro user huser
    obtain ⟨hmem, hholds⟩ := Table.find?_some huser
    exact ⟨hmem, of_decide_eq_true hholds⟩
  · rw [met_admin, exists_find?]
    exact exists_congr fun user => and_congr_right fun _ => decide_eq_true_iff.symm
  · intro hnone
    have hnew : ∀ u ∈ s.db.users.rows, ¬ Database.Holds env email u := fun u hu hholds =>
      List.find?_eq_none.mp hnone u hu (decide_eq_true hholds)
    obtain ⟨db', hinsert, hcreates, hrow⟩ := insertUser_creates (g.fresh s.db) hnew
    refine ⟨_, db', ?_, hcreates, hrow, rfl, rfl⟩
    unfold saveUser
    rw [gets_bind, bind_ok (write_eq hinsert)]
    rfl

/-! ## `seedPermissions`

The first loop. Along with the progress it keeps that the map holds a row for each permission that has
had its turn, which the second loop relies on. -/

/-- The map holds the rows of the seed permissions that have had their turn. It may hold no others. -/
structure Listed (permissionMap : PermissionMap) (rules : List SeedPermission)
    (db : Database env) : Prop where
  row    : ∀ seed, seed.action ∈ PERMISSION_ACTIONS → ∀ p, permissionMap (permissionKey seed) = some p →
    p ∈ db.permissions.rows ∧ p.rule = seed
  listed : ∀ seed ∈ rules, ∃ p, permissionMap (permissionKey seed) = some p

variable {permissionMap : PermissionMap} {rules : List SeedPermission} {seed : SeedPermission}
  {db : Database env}

/-- Rows stay, so what the map holds stays in the tables. -/
theorem Listed.mono (h : Listed permissionMap rules db) (hgrown : db.Extends db') :
    Listed permissionMap rules db' where
  row seed haction p hp := by
    obtain ⟨hrow, hrule⟩ := h.row seed haction p hp
    exact ⟨hgrown.permissions.subset hrow, hrule⟩
  listed := h.listed

theorem Listed.snoc {p : Permission} (h : Listed permissionMap rules db)
    (hp : permissionMap (permissionKey seed) = some p) :
    Listed permissionMap (rules ++ [seed]) db where
  row := h.row
  listed other hother := by
    cases List.mem_append.mp hother with
    | inl hold => exact h.listed other hold
    | inr hlast =>
        rw [List.mem_singleton.mp hlast]
        exact ⟨p, hp⟩

/-- No other key is that of a seed permission, so an entry of the map stands for one permission only. -/
theorem Listed.set {p : Permission} (h : Listed permissionMap rules db)
    (haction : seed.action ∈ PERMISSION_ACTIONS)
    (hp : p ∈ db.permissions.rows) (hrule : p.rule = seed) :
    Listed (Function.update permissionMap (permissionKey seed) (some p)) (rules ++ [seed]) db := by
  refine Listed.snoc (p := p) ⟨?_, ?_⟩ (Function.update_self ..)
  · intro other hother row hrow
    by_cases hkey : permissionKey other = permissionKey seed
    · obtain rfl : other = seed := permissionKey_inj hother haction hkey
      rw [Function.update_self] at hrow
      cases hrow
      exact ⟨hp, hrule⟩
    · rw [Function.update_of_ne hkey] at hrow
      exact h.row other hother row hrow
  · intro other hother
    by_cases hkey : permissionKey other = permissionKey seed
    · exact ⟨p, by rw [hkey, Function.update_self]⟩
    · rw [Function.update_of_ne hkey]
      exact h.listed other hother

variable {g : Generated env}

/-- One turn: the permission is there afterwards, and the map has it under its key. -/
theorem seedPermission_spec (hfits : seed.Fits) :
    Triple (fun s => Progress db₀ done s ∧ Listed permissionMap rules s.db)
      (seedPermission g permissionMap seed)
      (fun map s => Progress db₀ (done ++ [.permission seed]) s ∧
        Listed map (rules ++ [seed]) s.db) fun _ => False := by
  refine Triple.of_single fun s ⟨hprogress, hlisted⟩ => ?_
  unfold seedPermission
  split
  · next hknown =>
      obtain ⟨p, hp⟩ := Option.isSome_iff_exists.mp hknown
      have hrow := hlisted.row seed hfits.action p hp
      exact Triple.pure_single ⟨hprogress.skip (met_permission.mpr ⟨p, hrow⟩), hlisted.snoc hp⟩
  · refine Triple.bind (findOrSave_permission hprogress hfits g) fun p => ?_
    exact Triple.pure fun s' ⟨hdone, hgrown, hrow, hrule⟩ =>
      ⟨hdone, (hlisted.mono hgrown).set hfits.action hrow hrule⟩

/-- The permissions of one role. -/
theorem seedPermissions_role {seeds : List SeedPermission} (hfits : ∀ seed ∈ seeds, seed.Fits) :
    Triple (fun s => Progress db₀ done s ∧ Listed permissionMap rules s.db)
      (seeds.foldlM (seedPermission g) permissionMap)
      (fun map s => Progress db₀ (done ++ seeds.map .permission) s ∧
        Listed map (rules ++ seeds) s.db) fun _ => False := by
  have h := Triple.fold (E := fun _ => False) (f := seedPermission g) (l := seeds)
    (I := fun had map s => Progress db₀ (done ++ had.map .permission) s ∧
      Listed map (rules ++ had) s.db) ?_ permissionMap
  · simpa only [List.map_nil, List.append_nil] using h
  · intro had seed rest map hl
    simp only [List.map_append, List.map_cons, List.map_nil, ← List.append_assoc]
    exact seedPermission_spec (hfits seed (hl ▸ by simp))

/-- The first loop: the permissions of all seed roles are there, and in the map. -/
theorem seedPermissions_spec {seeds : List SeedRole} (hfits : ∀ role ∈ seeds, role.Fits) :
    Triple (· = ⟨db₀, []⟩) (seedPermissions g seeds)
      (fun map s => Progress db₀ (seeds.flatMap permissionGoals) s ∧
        Listed map (seeds.flatMap SeedRole.permissions) s.db)
      fun _ => False := by
  have h := Triple.fold (E := fun _ => False)
    (f := fun map (role : SeedRole) => role.permissions.foldlM (seedPermission g) map) (l := seeds)
    (I := fun had map s =>
      Progress db₀ (had.flatMap permissionGoals) s ∧
        Listed map (had.flatMap SeedRole.permissions) s.db) ?_ fun _ => none
  · refine Triple.conseq h ?_ (fun _ _ hs => hs) fun _ hs => hs
    rintro _ rfl
    exact ⟨Progress.start db₀, fun _ _ _ hp => absurd hp (by simp),
      fun _ hmem => absurd hmem List.not_mem_nil⟩
  · intro had role rest map hl
    simp only [List.flatMap_append, List.flatMap_cons, List.flatMap_nil, List.append_nil]
    exact seedPermissions_role (hfits role (hl ▸ by simp)).permissions

/-! ## `seedRoles`

The second loop. The link of a role to a permission is looked up by the ids, which are those of the
map. -/

/-- One turn: the role is linked to the permission that the map has under the key. -/
theorem seedRolePermission_spec {role : Role} {name : String} (hname : role.name = name)
    (hlisted : ∃ p, permissionMap (permissionKey seed) = some p)
    (haction : seed.action ∈ PERMISSION_ACTIONS) :
    Triple (fun s => Progress db₀ done s ∧ Listed permissionMap rules s.db ∧ role ∈ s.db.roles.rows)
      (seedRolePermission permissionMap role seed)
      (fun _ s => Progress db₀ (done ++ [.link name seed]) s ∧ Listed permissionMap rules s.db ∧
        role ∈ s.db.roles.rows) fun _ => False := by
  refine Triple.of_single fun s ⟨hprogress, hmap, hrole⟩ => ?_
  obtain ⟨permission, hp⟩ := hlisted
  obtain ⟨hpermission, hrule⟩ := hmap.row seed haction permission hp
  subst hrule hname
  unfold seedRolePermission
  rw [hp]
  refine Triple.gets_single ?_
  refine Triple.conseq (hprogress.ensure (.link role.name permission.rule) ?_ ?_)
    (fun _ hs => hs) ?_ fun _ hs => hs
  · rw [met_link hrole hpermission, ← Option.isSome_iff_exists, ← Option.not_isSome, Bool.not_eq_false']
  · intro hmissing
    exact insertRolePermission_creates hrole hpermission (Option.isNone_iff_eq_none.mp hmissing)
  · rintro _ s' ⟨hdone, hgrown⟩
    exact ⟨hdone, hmap.mono hgrown, hgrown.roles.subset hrole⟩

/-- One role, with its links. -/
theorem seedRole_spec {role : SeedRole} (hfits : role.Fits)
    (hlisted : ∀ seed ∈ role.permissions, ∃ p, permissionMap (permissionKey seed) = some p) :
    Triple (fun s => Progress db₀ done s ∧ Listed permissionMap rules s.db)
      (seedRole g permissionMap role)
      (fun _ s => Progress db₀ (done ++ roleGoals role) s ∧ Listed permissionMap rules s.db)
        fun _ => False := by
  unfold seedRole
  refine Triple.of_single fun s ⟨hprogress, hmap⟩ => ?_
  refine Triple.bind (findOrSave_role hprogress hfits g) fun row => ?_
  refine Triple.of_single fun s' ⟨hdone, hgrown, hrow, hname⟩ => ?_
  have hlinks := Triple.forEach (E := fun _ => False)
    (k := seedRolePermission permissionMap row) (l := role.permissions)
    (I := fun had s => Progress db₀ (done ++ [.role role] ++ had.map (.link role.name)) s ∧
      Listed permissionMap rules s.db ∧ row ∈ s.db.roles.rows) ?_
  · refine Triple.conseq hlinks ?_ ?_ fun _ hs' => hs'
    · rintro _ rfl
      rw [List.map_nil, List.append_nil]
      exact ⟨hdone, hmap.mono hgrown, hrow⟩
    · rintro _ last ⟨hlast, hmap', -⟩
      rw [List.append_assoc, List.singleton_append] at hlast
      exact ⟨hlast, hmap'⟩
  · intro had seed rest hl
    have hmem : seed ∈ role.permissions := hl ▸ by simp
    simp only [List.map_append, List.map_cons, List.map_nil, ← List.append_assoc]
    exact seedRolePermission_spec hname (hlisted seed hmem) (hfits.permissions seed hmem).action

/-- The second loop: every seed role is there, with its links. -/
theorem seedRoles_spec {seeds : List SeedRole} (hfits : ∀ role ∈ seeds, role.Fits)
    (hrules : seeds.flatMap SeedRole.permissions = rules) :
    Triple (fun s => Progress db₀ done s ∧ Listed permissionMap rules s.db)
      (seedRoles g seeds permissionMap)
      (fun _ s => Progress db₀ (done ++ seeds.flatMap roleGoals) s) fun _ => False := by
  refine Triple.of_single fun s ⟨hprogress, hmap⟩ => ?_
  have hloop := Triple.forEach (E := fun _ => False)
    (k := seedRole g permissionMap) (l := seeds)
    (I := fun had s => Progress db₀ (done ++ had.flatMap roleGoals) s ∧
      Listed permissionMap rules s.db) ?_
  · refine Triple.conseq hloop ?_ (fun _ _ hs => hs.1) fun _ hs => hs
    rintro _ rfl
    rw [List.flatMap_nil, List.append_nil]
    exact ⟨hprogress, hmap⟩
  · intro had role rest hl
    have hmem : role ∈ seeds := hl ▸ by simp
    simp only [List.flatMap_append, List.flatMap_cons, List.flatMap_nil, List.append_nil,
      ← List.append_assoc]
    apply seedRole_spec (hfits role hmem)
    intro seed hseed
    exact hmap.listed seed (hrules ▸ List.mem_flatMap.mpr ⟨role, hmem, hseed⟩)

/-! ## `seedBootstrapAdmin`

The last part, which only runs if an address and a password are given. It is the only one that may fail
on a database in which every text fits. -/

/-- The bootstrap administrator can be given the role, or none is asked for: there is a role named
    `admin` when its turn comes. -/
def Assignable (admin : AdminEnv) (db : Database env) : Prop :=
  admin.given = none ∨ ∃ r ∈ db.roles.rows, r.name = "admin"

/-- Once the account is there: the role is found and given to it, or the script fails with everything
    else done. -/
theorem assignAdmin_spec {email : String} {user : User} (hprogress : Progress db₀ done s)
    (huser : user ∈ s.db.users.rows) (hholds : Database.Holds env email user) :
    Triple (· = s)
      (findRole "admin" >>=
        fun found => (orThrow found Failure.entityNotFound : Script env Role) >>= fun role =>
        Prog.gets (fun s => s.db.userRoles.get (user.id, role.id)) >>= fun existing =>
          if existing.isNone then write (·.insertUserRole ⟨user.id, role.id⟩) else pure ())
      (fun _ s' => Progress db₀ (done ++ [.adminRole email]) s' ∧ ∃ r ∈ s'.db.roles.rows,
        r.name = "admin")
      fun s' => Progress db₀ (done ++ [.adminRole email]) s' ∧ ¬ ∃ r ∈ s'.db.roles.rows,
        r.name = "admin" := by
  refine Triple.bind (Q := fun found s' => found = (s.db.roles.find? fun r => r.name = "admin") ∧
    s' = s) ?_ fun found => ?_
  · rintro _ rfl
    rw [findRole_eq (by decide +kernel)]
    exact ⟨rfl, rfl⟩
  refine Triple.of_single fun s' ⟨hfound, hsame⟩ => ?_
  rw [hsame]
  cases found with
  | none =>
      have hnone : ¬ ∃ r ∈ s.db.roles.rows, r.name = "admin" := by
        rintro ⟨r, hr, hname⟩
        exact List.find?_eq_none.mp hfound.symm r hr (decide_eq_true hname)
      have hmet : met env (.adminRole email) s.db.view :=
        fun hthere => absurd (view_role.mp hthere) hnone
      exact Triple.bind (Q := fun _ _ => False) (Triple.throw_single ⟨hprogress.skip hmet, hnone⟩)
        fun _ _ h => h.elim
  | some role =>
      obtain ⟨hrole, hname⟩ := Table.find?_some hfound.symm
      rw [decide_eq_true_iff] at hname
      refine Triple.return_single (Triple.gets_single ?_)
      refine Triple.conseq (hprogress.ensure (.adminRole email) ?_ ?_) (fun _ hs => hs) ?_
        fun _ hs => hs.elim
      · rw [met_adminRole huser hholds hrole hname, ← Option.isSome_iff_exists,
          ← Option.not_isSome, Bool.not_eq_false']
      · intro hmissing
        exact insertUserRole_creates huser hholds hrole hname (Option.isNone_iff_eq_none.mp hmissing)
      · rintro _ s' ⟨hdone, hgrown⟩
        exact ⟨hdone, role, hgrown.roles.subset hrole, hname⟩

/-- The last part: it returns if the administrator can be given the role, and fails if not; either way
    its goals are dealt with. -/
theorem seedBootstrapAdmin_spec {admin : AdminEnv} :
    Triple (Progress db₀ done) (seedBootstrapAdmin g admin)
      (fun _ s => Progress db₀ (done ++ adminGoals admin) s ∧ Assignable admin s.db)
      fun s => Progress db₀ (done ++ adminGoals admin) s ∧ ¬ Assignable admin s.db := by
  unfold seedBootstrapAdmin adminGoals Assignable
  cases admin.given with
  | none =>
      refine Triple.pure fun s hs => ?_
      rw [List.append_nil]
      exact ⟨hs, .inl rfl⟩
  | some given =>
      obtain ⟨email, password⟩ := given
      refine Triple.of_single fun s₀ hprogress₀ => ?_
      refine Triple.bind (Triple.conseq (findOrSave_user hprogress₀ email password g)
        (fun _ hs => hs) (fun _ _ hs => hs)
        fun _ hs => hs.elim) fun user => ?_
      refine Triple.of_single fun s ⟨hprogress, _, huser, hholds⟩ => ?_
      have hsplit : done ++ [.admin email, .adminRole email] = done ++ [Goal.admin email] ++
        [.adminRole email] := by
        rw [List.append_assoc, List.singleton_append]
      rw [hsplit]
      refine Triple.conseq (assignAdmin_spec hprogress huser hholds) (fun _ hs => hs) ?_ ?_
      · rintro _ s' ⟨hdone, hadmin⟩
        exact ⟨hdone, .inr hadmin⟩
      · rintro s' ⟨hdone, hadmin⟩
        exact ⟨hdone, not_or.mpr ⟨Option.some_ne_none _, hadmin⟩⟩

/-! ## The script

The three parts in a row: from an empty list of goals to the whole plan. -/

/-- **The script works through the plan**, and fails only where there is no role for the
    administrator. -/
theorem seed_spec {seeds : List SeedRole} (admin : AdminEnv) (hfits : ∀ role ∈ seeds, role.Fits) :
    Triple (· = ⟨db₀, []⟩) (Seeds.seed g seeds admin)
      (fun _ s => Progress db₀ (plan seeds admin) s ∧ Assignable admin s.db)
      fun s => Progress db₀ (plan seeds admin) s ∧ ¬ Assignable admin s.db := by
  unfold Seeds.seed plan
  refine Triple.bind (Triple.conseq (seedPermissions_spec hfits) (fun _ hs => hs)
    (fun _ _ hs => hs) fun _ hs => hs.elim)
    fun permissionMap => ?_
  refine Triple.bind (Triple.conseq (seedRoles_spec hfits rfl) (fun _ hs => hs)
    (fun _ _ hs => hs) fun _ hs => hs.elim)
    fun _ => ?_
  exact seedBootstrapAdmin_spec

/-- A whole run is progress through the whole plan, whether it returns or fails. -/
theorem progress_runSeed (g : Generated env) {seeds : List SeedRole} (admin : AdminEnv)
    (hfits : ∀ role ∈ seeds, role.Fits)
    (db : Database env) : Progress db (plan seeds admin) (runSeed g seeds admin db).2 :=
  Triple.final (Triple.conseq (seed_spec admin hfits) (fun _ hs => hs) (fun _ _ hs => hs.1)
    fun _ hs => hs.1) rfl

/-- The script returns unless there is no role for the administrator. -/
theorem runSeed_returns (g : Generated env) {seeds : List SeedRole} (admin : AdminEnv)
    (hfits : ∀ role ∈ seeds, role.Fits) (db : Database env) :
    (runSeed g seeds admin db).1 = .ok () ↔ Assignable admin (seeded g seeds admin db) := by
  have h := seed_spec (g := g) admin hfits ⟨db, []⟩ rfl
  unfold seeded runSeed
  cases hrun : Seeds.seed g seeds admin ⟨db, []⟩ with
  | mk result s =>
      rw [hrun] at h
      cases result with
      | ok a => exact iff_of_true rfl h.2
      | error e => exact iff_of_false (fun hok => by cases hok) h.2

/-- What a stopped run leaves behind is some way through the plan. -/
theorem stops_view (g : Generated env) {seeds : List SeedRole} (admin : AdminEnv)
    (hfits : ∀ role ∈ seeds, role.Fits)
    {db stop : Database env} (hstop : stop ∈ stops g seeds admin db) :
    db.Extends stop ∧ ∃ first, first <+: plan seeds admin ∧ stop.view = after env first db.view := by
  cases List.mem_cons.mp hstop with
  | inl heq =>
      subst heq
      exact ⟨.refl _, [], List.nil_prefix, rfl⟩
  | inr hwritten => exact (progress_runSeed g admin hfits db).stops stop hwritten

/-- A run on a database where every goal is met writes nothing. -/
theorem runSeed_idle (g : Generated env) {seeds : List SeedRole} (admin : AdminEnv)
    (hfits : ∀ role ∈ seeds, role.Fits)
    {db : Database env} (hmet : ∀ goal ∈ plan seeds admin, met env goal db.view) :
    (runSeed g seeds admin db).2 = ⟨db, []⟩ := by
  have hprogress := progress_runSeed g admin hfits db
  have hview : db.view = (runSeed g seeds admin db).2.db.view := by
    rw [hprogress.view, after, Ensure.run_of_met ensures hmet]
  have hsize := Database.size_view hview
  have hnothing : (runSeed g seeds admin db).2.written.length = 0 := by
    have := hprogress.size
    omega
  cases hrun : (runSeed g seeds admin db).2 with
  | mk last written =>
      rw [hrun] at hprogress hsize hnothing
      obtain rfl : last = db := hprogress.grown.eq_of_size hsize
      obtain rfl : written = [] := List.length_eq_zero_iff.mp hnothing
      rfl

/-- After a run every goal is met. -/
theorem met_seeded (g : Generated env) {seeds : List SeedRole} (admin : AdminEnv)
    (hfits : ∀ role ∈ seeds, role.Fits)
    (db : Database env) : ∀ goal ∈ plan seeds admin, met env goal (seeded g seeds admin db).view := by
  have hview : (seeded g seeds admin db).view = after env (plan seeds admin) db.view :=
    (progress_runSeed g admin hfits db).view
  rw [hview]
  exact Ensure.met_run ensures (ordered seeds admin)

/-- A role with its permissions, as a seed role lists them: one row for each action and subject, linked
    to the role. -/
def Holding (role : SeedRole) (db : Database env) : Prop :=
  ∃ row ∈ db.roles.rows, row.name = role.name ∧ ∀ seed ∈ role.permissions,
    ∃ p ∈ db.permissions.rows, p.rule = seed ∧ (∀ q ∈ db.permissions.rows, q.rule = seed → q = p) ∧
      ⟨row.id, p.id⟩ ∈ db.rolePermissions.rows

/-- A role whose goals are met holds its permissions. -/
theorem holding_of_met {seeds : List SeedRole} {admin : AdminEnv} {db : Database env}
    {role : SeedRole} (hrole : role ∈ seeds)
    (h : ∀ goal ∈ plan seeds admin, met env goal db.view) : Holding role db := by
  have hroleGoals : ∀ goal ∈ roleGoals role, met env goal db.view := fun goal hgoal =>
    h goal (List.mem_append_left _ (List.mem_append_right _ (List.mem_flatMap.mpr ⟨role, hrole, hgoal⟩)))
  obtain ⟨row, hrow, hname⟩ := met_role.mp (hroleGoals (.role role) List.mem_cons_self)
  refine ⟨row, hrow, hname, fun seed hseed => ?_⟩
  have hpermission : met env (.permission seed) db.view :=
    h _ (List.mem_append_left _ (List.mem_append_left _ (List.mem_flatMap.mpr ⟨role, hrole,
      List.mem_map_of_mem hseed⟩)))
  have hlink : met env (.link role.name seed) db.view :=
    hroleGoals _ (List.mem_cons_of_mem _ (List.mem_map_of_mem hseed))
  obtain ⟨p, hp, hrule⟩ := met_permission.mp hpermission
  rw [← hname, ← hrule, met_link hrow hp] at hlink
  obtain ⟨link, hget⟩ := hlink
  obtain ⟨hmem, hkey⟩ := Table.get_eq_some.mp hget
  obtain ⟨hid, hid'⟩ := Prod.mk.inj hkey
  refine ⟨p, hp, hrule, fun q hq hq' => db.uniqueRule q hq p hp (hq'.trans hrule.symm), ?_⟩
  rw [← hid, ← hid']
  exact hmem

/-! ## Seeding again

Each run has generated values of its own; whatever they are, the outcome is the same but for them. -/

/-- **Seeding is additive, idempotent and resumable**, for seed roles whose texts fit their columns. -/
theorem seeding {seeds : List SeedRole} (admin : AdminEnv) (db : Database env)
    (hfits : ∀ role ∈ seeds, role.Fits)
    (g : Generated env) :
    db.Extends (seeded g seeds admin db) ∧
    (∀ role ∈ seeds, Holding role (seeded g seeds admin db)) ∧
    (∀ g', (runSeed g' seeds admin (seeded g seeds admin db)).2 = ⟨seeded g seeds admin db, []⟩) ∧
    ∀ g₁ g₂, ∀ stop ∈ stops g₁ seeds admin db,
      db.Extends stop ∧ stop.Extends (seeded g₂ seeds admin stop) ∧
      (seeded g₂ seeds admin stop).view = (seeded g seeds admin db).view := by
  have hmet := met_seeded g admin hfits db
  refine ⟨(progress_runSeed g admin hfits db).grown, ?_, ?_, ?_⟩
  · intro role hrole
    exact holding_of_met hrole hmet
  · intro g'
    exact runSeed_idle g' admin hfits hmet
  · intro g₁ g₂ stop hstop
    obtain ⟨hgrown, first, hfirst, hview⟩ := stops_view g₁ admin hfits hstop
    have hresumed := progress_runSeed g₂ admin hfits stop
    refine ⟨hgrown, hresumed.grown, ?_⟩
    calc (seeded g₂ seeds admin stop).view
        = after env (plan seeds admin) stop.view := hresumed.view
      _ = after env (plan seeds admin) (after env first db.view) := by rw [hview]
      _ = after env (plan seeds admin) db.view := Ensure.run_resume ensures (ordered seeds admin) hfirst
      _ = (seeded g seeds admin db).view := (progress_runSeed g admin hfits db).view.symm

/-! ## A deployment

A generator of ids that never repeats one, and the script run with it on an empty database. -/

/-- The value with `n` digits, all of them zero. -/
def zeros (n : Nat) : Uuid where
  text      := String.ofList (List.replicate n '0')
  canonical := by simp [String.toLower, String.ext_iff, show '0'.toLower = '0' from rfl]

/-- The lengths of the ids. -/
def idLengths (db : Database env) : List Nat :=
  db.users.rows.map (·.id.text.length) ++ db.roles.rows.map (·.id.text.length) ++
    db.permissions.rows.map (·.id.text.length)

/-- Ids longer than any before. -/
def nextId (db : Database env) : Uuid := zeros ((idLengths db).sum + 1)

theorem nextId_ne {db : Database env} {id : Uuid} (h : id.text.length ∈ idLengths db) :
    id ≠ nextId db := by
  rintro rfl
  have hle := List.single_le_sum (fun _ _ => Nat.zero_le _) _ h
  simp [nextId, zeros] at hle

/-- Ids that are longer than all before, with a salt and a clock. -/
def generated (env : Env) (salt : String) (now : Nat) : Generated env where
  id    := nextId
  fresh := fun db => by
    refine ⟨Table.get_eq_none.mpr fun r hr => ?_, Table.get_eq_none.mpr fun r hr => ?_,
      Table.get_eq_none.mpr fun r hr => ?_⟩
    · exact nextId_ne (List.mem_append_left _ (List.mem_append_left _ (List.mem_map_of_mem hr)))
    · exact nextId_ne (List.mem_append_left _ (List.mem_append_right _ (List.mem_map_of_mem hr)))
    · exact nextId_ne (List.mem_append_right _ (List.mem_map_of_mem hr))
  salt  := salt
  now   := fun _ => now

/-- The texts of the deployed list fit their columns. -/
theorem fits_deployed : ∀ role ∈ SEED_ROLES, role.Fits := by
  intro role hrole
  have hname : ∀ role ∈ SEED_ROLES, hasNul role.name = false ∧ role.name.length ≤ 50 := by decide +kernel
  have hdescription : ∀ role ∈ SEED_ROLES, hasNul role.description = false ∧
    role.description.length ≤ 255 := by
    decide +kernel
  have hpermissions : ∀ role ∈ SEED_ROLES, ∀ p ∈ role.permissions,
      p.action ∈ PERMISSION_ACTIONS ∧ hasNul p.subject = false ∧ p.subject.length ≤ 100 := by
    decide +kernel
  exact ⟨hname role hrole, hdescription role hrole, fun p hp =>
    ⟨(hpermissions role hrole p hp).1, (hpermissions role hrole p hp).2⟩⟩

def root : AdminEnv := ⟨some "root@b.co", some "secret"⟩

/-- The deployed list on an empty database: the role `user` has its permissions, and a second run writes
    nothing. -/
theorem seeding_deployed :
    Holding ⟨"user", "Default registered user", true, [⟨"read", "User"⟩, ⟨"read", "Role"⟩]⟩
      (seeded (generated toyEnv "salt" 1) SEED_ROLES root .empty) ∧
    (runSeed (generated toyEnv "pepper" 2) SEED_ROLES root
      (seeded (generated toyEnv "salt" 1) SEED_ROLES root .empty)).2 =
        ⟨seeded (generated toyEnv "salt" 1) SEED_ROLES root .empty, []⟩ := by
  have h := seeding root .empty fits_deployed (generated toyEnv "salt" 1)
  exact ⟨h.2.1 _ (List.mem_cons_of_mem _ List.mem_cons_self), h.2.2.1 (generated toyEnv "pepper" 2)⟩

/-- argon2 puts the salt into the hash. -/
def saltedEnv : Env := { toyEnv with hashPassword := fun salt password => salt ++ password }

/-- A role name of 51 characters. -/
def longRole : SeedRole := ⟨String.ofList (List.replicate 51 'a'), "", false, []⟩

/-- The role of the administrator, without permissions. -/
def bareAdmin : SeedRole := ⟨"admin", "", true, []⟩

/-- The column takes 50 characters, so the role is not created; and a run that is stopped after its
    first write and run again stores a hash of its own. So neither half of the property holds of every
    seed list and every run. -/
theorem seeding_refused :
    (¬ ∃ row ∈ (seeded (generated toyEnv "salt" 1) [longRole] ⟨none, none⟩ .empty).roles.rows,
      row.name = longRole.name) ∧
    ∃ stop ∈ stops (generated saltedEnv "salt" 1) [bareAdmin] root .empty, stop.size = 1 ∧
      (seeded (generated saltedEnv "pepper" 2) [bareAdmin] root stop).users.rows.map User.passwordHash ≠
        (seeded (generated saltedEnv "salt" 1) [bareAdmin] root .empty).users.rows.map
          User.passwordHash := by
  have hrefused : (seeded (generated toyEnv "salt" 1) [longRole]
    ⟨none, none⟩ .empty).roles.rows = [] := by
    decide +kernel
  refine ⟨?_, (stops (generated saltedEnv "salt" 1) [bareAdmin] root .empty).get ⟨1, by
    decide +kernel⟩, List.get_mem _ _,
    by decide +kernel, by decide +kernel⟩
  rw [hrefused]
  rintro ⟨row, hrow, -⟩
  exact absurd hrow List.not_mem_nil

end Seeds
end NestApp
