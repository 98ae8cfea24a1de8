import MaharitDb.Lib.MapEntries
import MaharitDb.Server.ReadOnly

/-!
# Statements on users

`try_handle_user_management` of `maharit-server/src/tcp_server.rs` over the operations of `auth.rs`.  An operation
that fails changes nothing, and none of them removes the last active administrator.  `ALTER USER` is two operations:
when the second one fails, the password of the first one is kept.
-/

namespace Maharit

/-! ## The operations -/

namespace AuthManager

variable {hash : PasswordHash} {m : AuthManager}

/-- An operation that fails leaves the manager as it was. -/
def KeptOnError (m : AuthManager) (r : AuthManager × Except AuthError Unit) : Prop :=
  ∀ e, r.2 = .error e → r.1 = m

lemma keptOnError_createUser (username password : String) (role : Role) (salt : String) (now : UInt64) :
    m.KeptOnError (m.createUser hash username password role salt now) := by
  intro e he
  unfold createUser at he ⊢
  split at he
  · rename_i huser
    rw [if_pos huser]
  · cases he

lemma keptOnError_dropUser (username : String) : m.KeptOnError (m.dropUser username) := by
  intro e he
  unfold dropUser at he ⊢
  rcases hlookup : m.users.lookup username with - | user
  · rfl
  · rw [hlookup] at he
    dsimp only at he ⊢
    split at he
    · rename_i hlast
      rw [if_pos hlast]
    · cases he

/-- The role of a user that is there cannot be changed: the user is the last administrator. -/
def KeepsLastAdmin (m : AuthManager) (user : User) (role : Role) : Prop :=
  user.role = .admin ∧ role ≠ .admin ∧ m.adminCount ≤ 1

instance (m : AuthManager) (user : User) (role : Role) : Decidable (m.KeepsLastAdmin user role) :=
  inferInstanceAs (Decidable (_ ∧ _))

lemma alterUserRole_of_some {username : String} {user : User} (hlookup : m.users.lookup username = some user)
    (role : Role) : m.alterUserRole username role =
      if m.KeepsLastAdmin user role then (m, .error .cannotDeleteLastAdmin)
      else ({ m with users := HashMap.modify m.users username fun u => { u with role := role } }, .ok ()) := by
  unfold alterUserRole
  rw [hlookup]
  rfl

lemma keptOnError_alterUserRole (username : String) (role : Role) :
    m.KeptOnError (m.alterUserRole username role) := by
  intro e he
  rcases hlookup : m.users.lookup username with - | user
  · unfold alterUserRole
    rw [hlookup]
  · rw [alterUserRole_of_some hlookup] at he ⊢
    split at he
    · rename_i hlast
      rw [if_pos hlast]
    · cases he

/-! ## The administrators -/

/-- What `adminCount` counts. -/
def isActiveAdmin (u : User) : Bool := u.role == .admin && u.active

/-- The administrators under other names. -/
def otherAdmins (m : AuthManager) (username : String) : ℕ :=
  (m.users.erase username).entries.countP fun e => isActiveAdmin e.2

lemma adminCount_eq {username : String} {user : User} (hlookup : m.users.lookup username = some user) :
    m.adminCount = m.otherAdmins username + if isActiveAdmin user then 1 else 0 :=
  HashMap.countP_entries m.users isActiveAdmin hlookup

/-- The administrators after a change of one user. -/
lemma adminCount_modify {username : String} {user : User} (hlookup : m.users.lookup username = some user)
    (f : User → User) : { m with users := HashMap.modify m.users username f }.adminCount =
      m.otherAdmins username + if isActiveAdmin (f user) then 1 else 0 :=
  HashMap.countP_modify m.users isActiveAdmin f hlookup

/-- A user with the role of an administrator stays, or there is another one. -/
lemma otherAdmins_pos {username : String} {user : User} (hlookup : m.users.lookup username = some user)
    (hadmin : 0 < m.adminCount) (hlast : user.role = .admin → ¬ m.adminCount ≤ 1) : 0 < m.otherAdmins username := by
  have hcount := adminCount_eq hlookup
  by_cases hrole : user.role = .admin
  · have htwo := hlast hrole
    split at hcount <;> omega
  · have hnone : isActiveAdmin user = false := by
      simp [isActiveAdmin, hrole]
    rw [hnone] at hcount
    simp only [Bool.false_eq_true, if_false, add_zero] at hcount
    omega

lemma adminCount_createUser (hadmin : 0 < m.adminCount) (username password : String) (role : Role) (salt : String)
    (now : UInt64) : 0 < (m.createUser hash username password role salt now).1.adminCount := by
  unfold createUser
  split
  · exact hadmin
  · rename_i hnew
    have hcount : ({ m with users := m.users.insert username (.new hash username password role salt now) } :
        AuthManager).adminCount = m.adminCount + _ :=
      HashMap.countP_insert m.users isActiveAdmin hnew _
    rw [hcount]
    exact Nat.add_pos_left hadmin _

lemma adminCount_dropUser (hadmin : 0 < m.adminCount) (username : String) :
    0 < (m.dropUser username).1.adminCount := by
  unfold dropUser
  rcases hlookup : m.users.lookup username with - | user
  · exact hadmin
  · dsimp only
    split
    · exact hadmin
    · rename_i hlast
      exact otherAdmins_pos hlookup hadmin fun hrole hone => hlast ⟨hrole, hone⟩

lemma adminCount_alterUserRole (hadmin : 0 < m.adminCount) (username : String) (role : Role) :
    0 < (m.alterUserRole username role).1.adminCount := by
  rcases hlookup : m.users.lookup username with - | user
  · unfold alterUserRole
    rw [hlookup]
    exact hadmin
  · rw [alterUserRole_of_some hlookup]
    split
    · exact hadmin
    · rename_i hlast
      rw [adminCount_modify hlookup]
      by_cases hrole : role = .admin
      · -- the user is an administrator afterwards at least if before
        have hcount := adminCount_eq hlookup
        have hle : (if isActiveAdmin user then 1 else 0 : ℕ) ≤
            if isActiveAdmin { user with role := role } then 1 else 0 := by
          rw [hrole]
          have hactive : isActiveAdmin user = true → isActiveAdmin { user with role := .admin } = true := by
            simp [isActiveAdmin]
          split
          · rename_i huser
            rw [if_pos (hactive huser)]
          · exact Nat.zero_le _
        omega
      · have hothers := otherAdmins_pos hlookup hadmin fun huser hone => hlast ⟨huser, hrole, hone⟩
        omega

lemma adminCount_alterUserPassword (username password salt : String) :
    (m.alterUserPassword hash username password salt).1.adminCount = m.adminCount := by
  unfold alterUserPassword
  rcases hlookup : m.users.lookup username with - | user
  · rfl
  · dsimp only
    rw [adminCount_modify hlookup, adminCount_eq hlookup]
    rfl

end AuthManager

/-! ## The statements -/

/-- The response says that the statement failed. -/
def Response.isError : Response → Bool
  | .error _ => true
  | .authError _ => true
  | _ => false

namespace Server

variable {ε : Type} {E : ServerEnv ε} {s : Server}

/-- Users and sessions are the same. -/
structure SameAccounts (m m' : AuthManager) : Prop where
  users : m'.users = m.users
  sessions : m'.sessions = m.sessions

/-- If the statement fails, users and sessions are what they were. -/
def AtomicFor (E : ServerEnv ε) (s : Server) (d : Draw) (role : Role) (query : String) : Prop :=
  ∀ response, (s.tryHandleUserManagement E d role query).2 = some response → response.isError = true →
    SameAccounts s.auth (s.tryHandleUserManagement E d role query).1.auth

/-- Whoever has the role may manage users. -/
def MayManageUsers (E : ServerEnv ε) (role : Role) : Prop :=
  ¬ (E.requireAuth ∧ (AuthManager.checkRolePermission role .manageUsers).toOption = none)

/-- `ALTER USER` gives a user a new password, and a role that is unknown or that would leave no administrator. -/
def AlterKeepsPassword (E : ServerEnv ε) (m : AuthManager) (d : Draw) (au : AlterUserStatement) : Prop :=
  ∃ password roleText user, au.password = some password ∧ au.role = some roleText ∧
    m.users.lookup au.username = some user ∧ user.updatePassword E.hash password d.salt ≠ user ∧
    ∀ role, parseRoleStr roleText = some role → m.KeepsLastAdmin user role

lemma userChange_auth (r : AuthManager × Except AuthError Unit) (message : String) :
    (userChange E s r message).1.auth = r.1 := by
  rcases r with ⟨m, e | ⟨⟩⟩
  · rfl
  · rfl

lemma userChange_atomic {r : AuthManager × Except AuthError Unit} (hkept : s.auth.KeptOnError r) (message : String)
    (herror : (userChange E s r message).2.isError = true) : (userChange E s r message).1.auth = s.auth := by
  rw [userChange_auth]
  rcases r with ⟨m, e | ⟨⟩⟩
  · exact hkept e rfl
  · cases herror

/-- Setting a password fails only for a user that is not there. -/
lemma alterUserPassword_of_some {username : String} {user : User} {hash : PasswordHash} {m : AuthManager}
    (hlookup : m.users.lookup username = some user) (password salt : String) :
    m.alterUserPassword hash username password salt =
      ({ m with users := HashMap.modify m.users username (·.updatePassword hash password salt) }, .ok ()) := by
  unfold AuthManager.alterUserPassword
  rw [hlookup]

/-- The manager with a new password of a user. -/
def withPassword (E : ServerEnv ε) (m : AuthManager) (username password salt : String) : AuthManager :=
  { m with users := HashMap.modify m.users username (·.updatePassword E.hash password salt) }

/-- A new password leaves the accounts as they are if and only if it leaves the user as it is. -/
lemma sameAccounts_withPassword {m : AuthManager} {username : String} {user : User}
    (hlookup : m.users.lookup username = some user) (password salt : String) :
    SameAccounts m (withPassword E m username password salt) ↔ user.updatePassword E.hash password salt = user := by
  constructor
  · intro hsame
    have hchanged : (withPassword E m username password salt).users.lookup username =
        some (user.updatePassword E.hash password salt) := by
      rw [withPassword, HashMap.lookup_modify, if_pos rfl, hlookup, Option.map_some]
    rw [hsame.users, hlookup] at hchanged
    exact (Option.some.inj hchanged).symm
  · intro hsame
    refine ⟨HashMap.modify_eq_self _ _ _ fun u hu => ?_, rfl⟩
    obtain rfl : user = u := Option.some.inj (hlookup.symm.trans hu)
    exact hsame

/-- A new password changes no role. -/
lemma keepsLastAdmin_withPassword {m : AuthManager} {username : String} {user : User}
    (hlookup : m.users.lookup username = some user) (password salt : String) (role : Role) :
    (withPassword E m username password salt).KeepsLastAdmin (user.updatePassword E.hash password salt) role ↔
      m.KeepsLastAdmin user role := by
  have hcount : (withPassword E m username password salt).adminCount = m.adminCount := by
    rw [withPassword, AuthManager.adminCount_modify hlookup, AuthManager.adminCount_eq hlookup]
    rfl
  unfold AuthManager.KeepsLastAdmin
  rw [hcount]
  rfl

/-- `ALTER USER` without a password. -/
lemma alterUser_of_none {d : Draw} {au : AlterUserStatement} (hpassword : au.password = none)
    (herror : (alterUser E s d au).2.isError = true) : (alterUser E s d au).1.auth = s.auth := by
  unfold alterUser at herror ⊢
  rw [hpassword] at herror ⊢
  rcases hrole : au.role with - | roleText
  · rw [hrole] at herror
    cases herror
  · rw [hrole] at herror
    dsimp only at herror ⊢
    rcases hparse : parseRoleStr roleText with - | role
    · rfl
    · rw [hparse] at herror
      exact userChange_atomic (s.auth.keptOnError_alterUserRole au.username role) _ herror

/-- `ALTER USER` of a user that is there, with a password and a role. -/
lemma alterUser_of_some {d : Draw} {au : AlterUserStatement} {password roleText : String} {user : User}
    (hpassword : au.password = some password) (hrole : au.role = some roleText)
    (hlookup : s.auth.users.lookup au.username = some user) :
    alterUser E s d au =
      match parseRoleStr roleText with
      | some role =>
          userChange E s ((withPassword E s.auth au.username password d.salt).alterUserRole au.username role)
            ("User '" ++ au.username ++ "' altered")
      | none =>
          ({ s with auth := withPassword E s.auth au.username password d.salt },
            .error ("unknown role: '" ++ roleText ++ "'")) := by
  unfold alterUser
  rw [hpassword, hrole]
  dsimp only
  rw [alterUserPassword_of_some hlookup]
  rfl

/-- `ALTER USER` is atomic unless it keeps the password of a change that fails. -/
lemma alterUser_atomic_iff (d : Draw) (au : AlterUserStatement) :
    ((alterUser E s d au).2.isError = true → SameAccounts s.auth (alterUser E s d au).1.auth) ↔
      ¬ AlterKeepsPassword E s.auth d au := by
  have hsame : ∀ {m : AuthManager}, m = s.auth → SameAccounts s.auth m := by
    rintro m rfl
    exact ⟨rfl, rfl⟩
  rcases hpassword : au.password with - | password
  · refine iff_of_true (fun herror => hsame (alterUser_of_none hpassword herror)) ?_
    rintro ⟨password, -, -, hsome, -⟩
    rw [hpassword] at hsome
    cases hsome
  rcases hlookup : s.auth.users.lookup au.username with - | user
  · -- setting the password fails
    refine iff_of_true (fun _ => hsame ?_) ?_
    · unfold alterUser AuthManager.alterUserPassword
      rw [hpassword]
      dsimp only
      rw [hlookup]
      rfl
    · rintro ⟨-, -, user, -, -, hsome, -⟩
      rw [hlookup] at hsome
      cases hsome
  rcases hrole : au.role with - | roleText
  · refine iff_of_true (fun herror => ?_) ?_
    · unfold alterUser at herror
      rw [hpassword, hrole] at herror
      dsimp only at herror
      rw [alterUserPassword_of_some hlookup] at herror
      cases herror
    · rintro ⟨-, roleText, -, -, hsome, -⟩
      rw [hrole] at hsome
      cases hsome
  have hiff : AlterKeepsPassword E s.auth d au ↔ user.updatePassword E.hash password d.salt ≠ user ∧
      ∀ role, parseRoleStr roleText = some role → s.auth.KeepsLastAdmin user role := by
    constructor
    · rintro ⟨password', roleText', user', hpassword', hrole', hlookup', hchanged, hlast⟩
      rw [hpassword] at hpassword'
      rw [hrole] at hrole'
      rw [hlookup] at hlookup'
      cases hpassword'
      cases hrole'
      cases hlookup'
      exact ⟨hchanged, hlast⟩
    · rintro ⟨hchanged, hlast⟩
      exact ⟨password, roleText, user, hpassword, hrole, hlookup, hchanged, hlast⟩
  rw [hiff, alterUser_of_some hpassword hrole hlookup, ne_eq,
    ← sameAccounts_withPassword (E := E) hlookup password d.salt]
  rcases hparse : parseRoleStr roleText with - | role
  · -- the role is unknown
    dsimp only
    constructor
    · rintro hatomic ⟨hchanged, -⟩
      exact hchanged (hatomic rfl)
    · intro hkept _
      by_contra hchanged
      exact hkept ⟨hchanged, fun role hrole => by cases hrole⟩
  · have hlookup' : (withPassword E s.auth au.username password d.salt).users.lookup au.username =
        some (user.updatePassword E.hash password d.salt) := by
      rw [withPassword, HashMap.lookup_modify, if_pos rfl, hlookup, Option.map_some]
    dsimp only
    rw [userChange_auth, AuthManager.alterUserRole_of_some hlookup',
      if_congr (keepsLastAdmin_withPassword hlookup password d.salt role) rfl rfl]
    by_cases hlast : s.auth.KeepsLastAdmin user role
    · rw [if_pos hlast]
      constructor
      · rintro hatomic ⟨hchanged, -⟩
        exact hchanged (hatomic rfl)
      · intro hkept _
        by_contra hchanged
        refine hkept ⟨hchanged, fun role' hrole' => ?_⟩
        cases hrole'
        exact hlast
    · rw [if_neg hlast]
      refine iff_of_true (fun herror => ?_) fun hkept => hlast (hkept.2 role rfl)
      cases herror

/-! ## The statement of a query -/

/-- What the server does with a query that is a statement on users. -/
lemma tryHandleUserManagement_of_some {d : Draw} {role : Role} {query : String} {s' s'' : Server} {stmt : Statement}
    {response : Response} (hparse : s.getOrParse E query = (s', .ok stmt))
    (hmanage : s'.manageUsers E d stmt = some (s'', response)) (hallowed : MayManageUsers E role) :
    s.tryHandleUserManagement E d role query = (s'', some response) := by
  unfold tryHandleUserManagement
  rw [hparse]
  dsimp only
  rw [hmanage]
  exact if_neg hallowed

/-- A statement on users other than `ALTER USER` that fails changes no account. -/
lemma manageUsers_kept {d : Draw} {s' : Server} {stmt : Statement} {response : Response}
    (hmanage : s.manageUsers E d stmt = some (s', response)) (hne : ∀ au, stmt ≠ .alterUser au)
    (herror : response.isError = true) : s'.auth = s.auth := by
  have hchange : ∀ {r : AuthManager × Except AuthError Unit} {message : String}, s.auth.KeptOnError r →
      some (userChange E s r message) = some (s', response) → s'.auth = s.auth := by
    intro r message hkept heq
    have hpair := Option.some.inj heq
    have hatomic := userChange_atomic (E := E) hkept message
    rw [hpair] at hatomic
    exact hatomic herror
  cases stmt with
  | createUser cu =>
    unfold manageUsers at hmanage
    dsimp only at hmanage
    rcases hrole : parseRoleStr cu.role with - | newRole
    · rw [hrole] at hmanage
      cases hmanage
      rfl
    · rw [hrole] at hmanage
      exact hchange (s.auth.keptOnError_createUser _ _ _ _ _) hmanage
  | dropUser username => exact hchange (s.auth.keptOnError_dropUser username) hmanage
  | alterUser au => exact absurd rfl (hne au)
  | showUsers =>
    cases hmanage
    rfl
  | _ => cases hmanage

/-- A query that is no `ALTER USER` is atomic, and a query of someone who may not manage users. -/
lemma atomicFor_of_ne {d : Draw} {role : Role} {query : String}
    (hne : ∀ au, (s.getOrParse E query).2 = .ok (.alterUser au) → ¬ MayManageUsers E role) :
    AtomicFor E s d role query := by
  intro response hresponse herror
  have hauth : (s.getOrParse E query).1.auth = s.auth := rfl
  unfold tryHandleUserManagement at hresponse ⊢
  rcases hparse : s.getOrParse E query with ⟨s', e | stmt⟩
  · rw [hparse] at hresponse
    cases hresponse
  · rw [hparse] at hresponse hauth hne
    dsimp only at hresponse hauth ⊢
    rcases hmanage : s'.manageUsers E d stmt with - | ⟨s'', response'⟩
    · rw [hmanage] at hresponse
      cases hresponse
    · rw [hmanage] at hresponse
      dsimp only at hresponse ⊢
      by_cases hallowed : MayManageUsers E role
      · rw [if_neg hallowed] at hresponse ⊢
        cases hresponse
        have hsame : ∀ {m : AuthManager}, m = s'.auth → SameAccounts s.auth m := by
          rintro m rfl
          rw [hauth]
          exact ⟨rfl, rfl⟩
        refine hsame (manageUsers_kept hmanage (fun au heq => ?_) herror)
        rw [heq] at hne
        exact hne au rfl hallowed
      · rw [if_pos (not_not.mp hallowed)] at hresponse ⊢
        exact ⟨congrArg _ hauth, congrArg _ hauth⟩

/-- A statement is atomic unless it is an `ALTER USER` that keeps the password of a change that fails. -/
lemma atomicFor_iff (d : Draw) (role : Role) (query : String) :
    AtomicFor E s d role query ↔ ∀ au, (s.getOrParse E query).2 = .ok (.alterUser au) → MayManageUsers E role →
      ¬ AlterKeepsPassword E s.auth d au := by
  by_cases hne : ∀ au, (s.getOrParse E query).2 = .ok (.alterUser au) → ¬ MayManageUsers E role
  · exact iff_of_true (atomicFor_of_ne hne) fun au hstmt hallowed => absurd hallowed (hne au hstmt)
  · push Not at hne
    obtain ⟨au, hstmt, hallowed⟩ := hne
    have hauth : (s.getOrParse E query).1.auth = s.auth := rfl
    rcases hparse : s.getOrParse E query with ⟨s', r⟩
    rw [hparse] at hstmt hauth
    dsimp only at hstmt hauth
    subst hstmt
    have hmanage : s'.manageUsers E d (.alterUser au) = some (alterUser E s' d au) := rfl
    have hhandle := tryHandleUserManagement_of_some hparse hmanage hallowed
    have hatomic : AtomicFor E s d role query ↔
        ((alterUser E s' d au).2.isError = true → SameAccounts s'.auth (alterUser E s' d au).1.auth) := by
      unfold AtomicFor
      rw [hhandle, ← hauth]
      exact ⟨fun h => h _ rfl, fun h response hresponse herror => by
        cases hresponse
        exact h herror⟩
    rw [hatomic, alterUser_atomic_iff, hauth]
    constructor
    · intro hkept au' hau' _
      cases hau'
      exact hkept
    · intro hkept
      exact hkept au rfl hallowed

/-! ## Runs -/

/-- An operation on users with the values it draws. -/
lemma adminCount_userChange {r : AuthManager × Except AuthError Unit} (hadmin : 0 < r.1.adminCount)
    (message : String) : 0 < (userChange E s r message).1.auth.adminCount := by
  rw [userChange_auth]
  exact hadmin

lemma adminCount_alterUser (hadmin : 0 < s.auth.adminCount) (d : Draw) (au : AlterUserStatement) :
    0 < (alterUser E s d au).1.auth.adminCount := by
  unfold alterUser
  extract_lets r message
  have hr : 0 < r.1.adminCount := by
    simp only [r]
    rcases au.password with - | password
    · exact hadmin
    · dsimp only
      rw [AuthManager.adminCount_alterUserPassword]
      exact hadmin
  clear_value r
  rcases r with ⟨m, e | ⟨⟩⟩
  · exact adminCount_userChange hr message
  · rcases au.role with - | roleText
    · exact adminCount_userChange hr message
    · dsimp only
      rcases parseRoleStr roleText with - | role
      · exact hr
      · exact adminCount_userChange (AuthManager.adminCount_alterUserRole hr au.username role) message

lemma adminCount_manageUsers {d : Draw} {s' : Server} {stmt : Statement} {response : Response}
    (hadmin : 0 < s.auth.adminCount) (hmanage : s.manageUsers E d stmt = some (s', response)) :
    0 < s'.auth.adminCount := by
  have hchange : ∀ {x : Server × Response}, 0 < x.1.auth.adminCount → some x = some (s', response) →
      0 < s'.auth.adminCount := by
    intro x hx heq
    rwa [Option.some.inj heq] at hx
  cases stmt with
  | createUser cu =>
    unfold manageUsers at hmanage
    dsimp only at hmanage
    rcases hrole : parseRoleStr cu.role with - | newRole
    · rw [hrole] at hmanage
      exact hchange hadmin hmanage
    · rw [hrole] at hmanage
      exact hchange (adminCount_userChange (AuthManager.adminCount_createUser hadmin _ _ _ _ _) _) hmanage
  | dropUser username =>
    exact hchange (adminCount_userChange (AuthManager.adminCount_dropUser hadmin username) _) hmanage
  | alterUser au => exact hchange (adminCount_alterUser hadmin d au) hmanage
  | showUsers => exact hchange hadmin hmanage
  | _ => cases hmanage

/-- A statement leaves an active administrator. -/
lemma adminCount_tryHandleUserManagement (hadmin : 0 < s.auth.adminCount) (d : Draw) (role : Role) (query : String) :
    0 < (s.tryHandleUserManagement E d role query).1.auth.adminCount := by
  have hauth : (s.getOrParse E query).1.auth = s.auth := rfl
  unfold tryHandleUserManagement
  rcases hparse : s.getOrParse E query with ⟨s', e | stmt⟩
  · rw [hparse] at hauth
    dsimp only at hauth ⊢
    rw [hauth]
    exact hadmin
  · rw [hparse] at hauth
    dsimp only at hauth ⊢
    have hadmin' : 0 < s'.auth.adminCount := by
      rw [hauth]
      exact hadmin
    rcases hmanage : s'.manageUsers E d stmt with - | ⟨s'', response⟩
    · exact hadmin'
    · dsimp only
      split
      · exact hadmin'
      · exact adminCount_manageUsers hadmin' hmanage

/-- A statement on users: the role of the sender, the query and what it draws. -/
structure UserStatement where
  role : Role
  query : String
  draw : Draw

/-- The server after a statement. -/
def handleUserStatement (E : ServerEnv ε) (s : Server) (u : UserStatement) : Server :=
  (s.tryHandleUserManagement E u.draw u.role u.query).1

/-- Statements are atomic but for an `ALTER USER` that keeps the password of a change that fails; after any number
of statements there still is an active administrator. -/
theorem userStatements {ε : Type} (E : ServerEnv ε) :
    (∀ s d role query, AtomicFor E s d role query ↔
      ∀ au, (s.getOrParse E query).2 = .ok (.alterUser au) → MayManageUsers E role →
        ¬ AlterKeepsPassword E s.auth d au) ∧
    ∀ (s : Server) (statements : List UserStatement), 0 < s.auth.adminCount →
      0 < (statements.foldl (handleUserStatement E) s).auth.adminCount := by
  refine ⟨fun s d role query => atomicFor_iff d role query, fun s statements hadmin => ?_⟩
  induction statements generalizing s with
  | nil => exact hadmin
  | cons u statements ih => exact ih _ (adminCount_tryHandleUserManagement hadmin u.draw u.role u.query)

end Server

/-- A server whose users are managed by two statements. -/
def userEnv : ServerEnv Unit :=
  { sampleEnv true with
    parse := fun
      | "ALTER USER admin" => .ok (.alterUser ⟨"admin", some "new", some "reader"⟩)
      | "DROP USER admin" => .ok (.dropUser "admin")
      | _ => .error () }

theorem userStatements_userEnv :
    Server.AtomicFor userEnv .new (sampleDraw "") .admin "DROP USER admin" ∧
      0 < ([⟨.admin, "ALTER USER admin", sampleDraw ""⟩, ⟨.admin, "DROP USER admin", sampleDraw ""⟩].foldl
        (Server.handleUserStatement userEnv) .new).auth.adminCount := by
  refine ⟨((Server.userStatements userEnv).1 _ _ _ _).mpr fun au hstmt => ?_,
    (Server.userStatements userEnv).2 _ _ (by decide +kernel)⟩
  have hdrop : ((Server.new.getOrParse userEnv "DROP USER admin").2.toOption.map fun stmt =>
      match stmt with
      | .alterUser _ => true
      | _ => false) = some false := by decide +kernel
  rw [hstmt] at hdrop
  cases hdrop

/-- The last administrator is to become a reader: the statement fails, and the password is the new one. -/
theorem alterUser_keeps_password :
    ¬ Server.AtomicFor userEnv .new (sampleDraw "") .admin "ALTER USER admin" := by
  intro hatomic
  have hfails : (Server.new.tryHandleUserManagement userEnv (sampleDraw "") .admin "ALTER USER admin").2.map
      Response.isError = some true := by decide +kernel
  obtain ⟨response, hresponse, herror⟩ := Option.map_eq_some_iff.mp hfails
  have husers := (hatomic response hresponse herror).users
  have hbefore : (Server.new.auth.users.lookup "admin").map User.passwordHash = some "saltsecret" := by
    decide +kernel
  have hafter : ((Server.new.tryHandleUserManagement userEnv (sampleDraw "") .admin
      "ALTER USER admin").1.auth.users.lookup "admin").map User.passwordHash = some "saltnew" := by
    decide +kernel
  rw [husers, hbefore] at hafter
  exact absurd (Option.some.inj hafter) (by decide)

end Maharit
