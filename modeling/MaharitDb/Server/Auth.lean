import MaharitDb.Lib.AssocMap
import MaharitDb.Lib.GuardedRun

/-!
# Users and sessions

The authentication manager (`maharit-server/src/auth.rs`).  The password hash is a parameter, and so
are the values an operation draws from outside: the salt, the session token and the time.  Saving the
users to a file is left out; it changes nothing in the manager.

A session copies the role of its user at login.  Whenever a session is accepted, its user is there,
active and has that role, as long as no role is changed while the user has a session open.
-/

namespace Maharit

open GuardedRun

/-- The roles of access control. -/
inductive Role where
  /-- Full access. -/
  | admin
  /-- Read and write, no user management. -/
  | readWrite
  /-- Read only. -/
  | readOnly
  deriving DecidableEq, Repr

/-- A user account. -/
structure User where
  username : String
  passwordHash : String
  salt : String
  role : Role
  /-- Unix time in seconds. -/
  createdAt : UInt64
  active : Bool
  deriving DecidableEq, Repr

/-- An open session; the times are readings of a monotonic clock. -/
structure Session where
  token : String
  username : String
  role : Role
  createdAt : ℕ
  lastActive : ℕ
  deriving DecidableEq, Repr

/-- The operations that need a permission. -/
inductive Operation where
  | read
  | write
  | createIndex
  | dropIndex
  | manageUsers
  deriving DecidableEq, Repr

inductive AuthError where
  | userNotFound (username : String)
  | userAlreadyExists (username : String)
  | invalidCredentials
  | sessionExpired
  | invalidSession
  | permissionDenied (role : Role) (operation : Operation)
  | cannotDeleteLastAdmin
  deriving DecidableEq, Repr

/-- The authentication manager. -/
structure AuthManager where
  users : HashMap String User
  sessions : HashMap String Session
  sessionTimeout : ℕ

/-- A hash of a salt and a password. -/
abbrev PasswordHash := String → String → String

namespace User

/-- A new user. -/
def new (hash : PasswordHash) (username password : String) (role : Role) (salt : String)
    (now : UInt64) : User where
  username := username
  passwordHash := hash salt password
  salt := salt
  role := role
  createdAt := now
  active := true

def verifyPassword (hash : PasswordHash) (u : User) (password : String) : Bool :=
  hash u.salt password == u.passwordHash

def updatePassword (hash : PasswordHash) (u : User) (password salt : String) : User :=
  { u with salt := salt, passwordHash := hash salt password }

end User

/-- `is_expired`. -/
def Session.isExpired (s : Session) (timeout now : ℕ) : Bool := timeout < now - s.lastActive

namespace AuthManager

variable (hash : PasswordHash) (m : AuthManager)

/-- A manager with one administrator, no session and half an hour of session timeout. -/
def withAdminPassword (password salt : String) (now : UInt64) : AuthManager where
  users := (∅ : HashMap String User).insert "admin" (.new hash "admin" password .admin salt now)
  sessions := ∅
  sessionTimeout := 30 * 60 * 10 ^ 9

/-! ## User management -/

def createUser (username password : String) (role : Role) (salt : String) (now : UInt64) :
    AuthManager × Except AuthError Unit :=
  if username ∈ m.users then (m, .error (.userAlreadyExists username))
  else ({ m with users := m.users.insert username (.new hash username password role salt now) }, .ok ())

/-- The number of active administrators. -/
def adminCount : ℕ := m.users.entries.countP fun e => e.2.role == .admin && e.2.active

/-- Delete a user and close the user's sessions. -/
def dropUser (username : String) : AuthManager × Except AuthError Unit :=
  match m.users.lookup username with
  | none => (m, .error (.userNotFound username))
  | some user =>
      if user.role = .admin ∧ m.adminCount ≤ 1 then (m, .error .cannotDeleteLastAdmin)
      else
        ({ m with
            users := m.users.erase username
            sessions := ⟨m.sessions.entries.filter fun e => e.2.username ≠ username,
              m.sessions.nodupKeys.sublist List.filter_sublist⟩ }, .ok ())

/-- Change the role of a user; the sessions stay as they are. -/
def alterUserRole (username : String) (role : Role) : AuthManager × Except AuthError Unit :=
  match m.users.lookup username with
  | none => (m, .error (.userNotFound username))
  | some user =>
      if user.role = .admin ∧ role ≠ .admin ∧ m.adminCount ≤ 1 then (m, .error .cannotDeleteLastAdmin)
      else
        ({ m with users := HashMap.modify m.users username fun u => { u with role := role } }, .ok ())

def alterUserPassword (username password salt : String) : AuthManager × Except AuthError Unit :=
  match m.users.lookup username with
  | none => (m, .error (.userNotFound username))
  | some _ =>
      ({ m with users := HashMap.modify m.users username (·.updatePassword hash password salt) }, .ok ())

/-! ## Sessions -/

/-- Open a session under the token drawn. -/
def authenticate (username password token : String) (now : ℕ) :
    AuthManager × Except AuthError String :=
  match m.users.lookup username with
  | none => (m, .error .invalidCredentials)
  | some user =>
      if !user.active then (m, .error .invalidCredentials)
      else if !user.verifyPassword hash password then (m, .error .invalidCredentials)
      else
        ({ m with
            sessions := m.sessions.insert token
              { token := token, username := username, role := user.role, createdAt := now,
                lastActive := now } }, .ok token)

/-- Look a session up and refresh it; a session that expired is removed. -/
def validateSession (token : String) (now : ℕ) : AuthManager × Except AuthError Session :=
  match m.sessions.lookup token with
  | none => (m, .error .invalidSession)
  | some s =>
      if s.isExpired m.sessionTimeout now then
        ({ m with sessions := m.sessions.erase token }, .error .sessionExpired)
      else
        let s := { s with lastActive := now }
        ({ m with sessions := HashMap.modify m.sessions token fun _ => s }, .ok s)

def invalidateSession (token : String) : AuthManager :=
  { m with sessions := m.sessions.erase token }

/-! ## Permissions -/

/-- `check_role_permission`. -/
def checkRolePermission (role : Role) (operation : Operation) : Except AuthError Unit :=
  let allowed : Bool := match role, operation with
    | .admin, _ => true
    | .readWrite, .manageUsers => false
    | .readWrite, _ => true
    | .readOnly, .read => true
    | .readOnly, _ => false
  if allowed then .ok () else .error (.permissionDenied role operation)

/-- `check_session` of `tcp_server.rs`: the role of the session; without authentication everyone is an
administrator. -/
def checkSession (requireAuth : Bool) (token : Option String) (now : ℕ) :
    AuthManager × Except (Option AuthError) Role :=
  if !requireAuth then (m, .ok .admin)
  else
    match token with
    | none => (m, .error none)
    | some t =>
        if t.isEmpty then (m, .error none)
        else
          match m.validateSession t now with
          | (m, .ok s) => (m, .ok s.role)
          | (m, .error e) => (m, .error (some e))

end AuthManager

/-! ## Runs -/

/-- A call of an operation, with the values it draws. -/
inductive AuthCall where
  | createUser (username password : String) (role : Role) (salt : String) (now : UInt64)
  | dropUser (username : String)
  | alterUserRole (username : String) (role : Role)
  | alterUserPassword (username password salt : String)
  | authenticate (username password token : String) (now : ℕ)
  | validateSession (token : String) (now : ℕ)
  | invalidateSession (token : String)
  deriving DecidableEq, Repr

/-- The manager after a call. -/
def AuthCall.apply (hash : PasswordHash) (m : AuthManager) : AuthCall → AuthManager
  | createUser username password role salt now => (m.createUser hash username password role salt now).1
  | dropUser username => (m.dropUser username).1
  | alterUserRole username role => (m.alterUserRole username role).1
  | alterUserPassword username password salt => (m.alterUserPassword hash username password salt).1
  | authenticate username password token now => (m.authenticate hash username password token now).1
  | validateSession token now => (m.validateSession token now).1
  | invalidateSession token => m.invalidateSession token

namespace AuthManager

/-- The user of the session is there, active and has the role of the session. -/
def Backed (m : AuthManager) (s : Session) : Prop :=
  ∃ u, m.users.lookup s.username = some u ∧ u.active = true ∧ u.role = s.role

/-- Every session is backed by its user. -/
def SessionsBacked (m : AuthManager) : Prop :=
  ∀ token s, m.sessions.lookup token = some s → m.Backed s

/-- No role is changed under an open session: a user whose role changes has no session. -/
def RoleChangeSafe (m : AuthManager) : AuthCall → Prop
  | .alterUserRole username role =>
      ∀ u, m.users.lookup username = some u → u.role ≠ role →
        ∀ token s, m.sessions.lookup token = some s → s.username ≠ username
  | _ => True

variable {hash : PasswordHash} {m : AuthManager}

/-! ### What each operation does to the two tables -/

/-- Users other than the one touched keep backing their sessions. -/
lemma Backed.of_lookup {m' : AuthManager} {s : Session} (hs : m.Backed s)
    (hsame : m'.users.lookup s.username = m.users.lookup s.username) : m'.Backed s := by
  obtain ⟨u, hu, hactive, hrole⟩ := hs
  exact ⟨u, hsame.trans hu, hactive, hrole⟩

lemma SessionsBacked.createUser (hm : m.SessionsBacked) (username password : String) (role : Role)
    (salt : String) (now : UInt64) :
    (m.createUser hash username password role salt now).1.SessionsBacked := by
  unfold AuthManager.createUser
  split
  · exact hm
  · next hnew =>
    intro token s hs
    obtain ⟨u, hu, hactive, hrole⟩ := hm token s hs
    have hne : s.username ≠ username := by
      rintro rfl
      exact hnew ((HashMap.mem_iff_exists _ _).mpr ⟨u, hu⟩)
    exact ⟨u, by simp only [HashMap.lookup_insert_ite, if_neg hne]; exact hu, hactive, hrole⟩

/-- The sessions that are left when a user is dropped. -/
lemma lookup_filter_sessions {sessions : HashMap String Session} (keep : Session → Bool)
    {hnodup : (sessions.entries.filter fun e => keep e.2).NodupKeys} {token : String} {s : Session}
    (hs : (⟨_, hnodup⟩ : HashMap String Session).lookup token = some s) :
    sessions.lookup token = some s ∧ keep s = true := by
  have hmem := List.mem_filter.mp (List.of_mem_dlookup hs)
  exact ⟨List.mem_dlookup sessions.nodupKeys hmem.1, hmem.2⟩

lemma SessionsBacked.dropUser (hm : m.SessionsBacked) (username : String) :
    (m.dropUser username).1.SessionsBacked := by
  unfold AuthManager.dropUser
  cases m.users.lookup username with
  | none => exact hm
  | some user =>
    simp only
    split
    · exact hm
    · intro token s hs
      have hleft : m.sessions.lookup token = some s ∧ decide (s.username ≠ username) = true :=
        lookup_filter_sessions (fun s => decide (s.username ≠ username)) hs
      refine (hm token s hleft.1).of_lookup ?_
      simp only [HashMap.lookup_erase_ite, if_neg (of_decide_eq_true hleft.2)]

lemma SessionsBacked.alterUserRole (hm : m.SessionsBacked) {username : String} {role : Role}
    (hsafe : m.RoleChangeSafe (.alterUserRole username role)) :
    (m.alterUserRole username role).1.SessionsBacked := by
  unfold AuthManager.alterUserRole
  cases huser : m.users.lookup username with
  | none => exact hm
  | some user =>
    simp only
    split
    · exact hm
    · intro token s hs
      obtain ⟨u, hu, hactive, hrole⟩ := hm token s hs
      by_cases hname : s.username = username
      · have hsame : user.role = role := by
          by_contra hne
          exact hsafe user huser hne token s hs hname
        have huu : u = user := by
          rw [hname, huser] at hu
          exact (Option.some.inj hu).symm
        subst huu
        refine ⟨{ u with role := role }, ?_, hactive, hsame.symm.trans hrole⟩
        simp only [HashMap.lookup_modify, if_pos hname, hu, Option.map_some]
      · refine Backed.of_lookup ⟨u, hu, hactive, hrole⟩ ?_
        simp only [HashMap.lookup_modify, if_neg hname]

lemma SessionsBacked.alterUserPassword (hm : m.SessionsBacked) (username password salt : String) :
    (m.alterUserPassword hash username password salt).1.SessionsBacked := by
  unfold AuthManager.alterUserPassword
  cases m.users.lookup username with
  | none => exact hm
  | some user =>
    intro token s hs
    obtain ⟨u, hu, hactive, hrole⟩ := hm token s hs
    by_cases hname : s.username = username
    · refine ⟨u.updatePassword hash password salt, ?_, hactive, hrole⟩
      simp only [HashMap.lookup_modify, if_pos hname, hu, Option.map_some]
    · refine Backed.of_lookup ⟨u, hu, hactive, hrole⟩ ?_
      simp only [HashMap.lookup_modify, if_neg hname]

lemma SessionsBacked.authenticate (hm : m.SessionsBacked) (username password token : String)
    (now : ℕ) : (m.authenticate hash username password token now).1.SessionsBacked := by
  unfold AuthManager.authenticate
  cases huser : m.users.lookup username with
  | none => exact hm
  | some user =>
    simp only
    split
    · exact hm
    · next hactive =>
      split
      · exact hm
      · intro token' s hs
        simp only [HashMap.lookup_insert_ite] at hs
        split at hs
        · obtain rfl := Option.some.inj hs
          exact ⟨user, huser, by simpa using hactive, rfl⟩
        · exact hm token' s hs

lemma SessionsBacked.erase (hm : m.SessionsBacked) (token : String) :
    SessionsBacked { m with sessions := m.sessions.erase token } := by
  intro token' s hs
  simp only [HashMap.lookup_erase_ite] at hs
  split at hs
  · cases hs
  · exact hm token' s hs

lemma SessionsBacked.validateSession (hm : m.SessionsBacked) (token : String) (now : ℕ) :
    (m.validateSession token now).1.SessionsBacked := by
  unfold AuthManager.validateSession
  cases hsession : m.sessions.lookup token with
  | none => exact hm
  | some s =>
    simp only
    split
    · exact hm.erase token
    · intro token' s' hs'
      simp only [HashMap.lookup_modify] at hs'
      split at hs'
      · next heq =>
        rw [heq, hsession, Option.map_some] at hs'
        obtain rfl := Option.some.inj hs'
        exact hm token s hsession
      · exact hm token' s' hs'

/-- A call keeps every session backed, unless it changes a role under an open session. -/
theorem SessionsBacked.apply (hm : m.SessionsBacked) {c : AuthCall} (hsafe : m.RoleChangeSafe c) :
    (c.apply hash m).SessionsBacked := by
  cases c with
  | createUser username password role salt now => exact hm.createUser username password role salt now
  | dropUser username => exact hm.dropUser username
  | alterUserRole username role => exact hm.alterUserRole hsafe
  | alterUserPassword username password salt => exact hm.alterUserPassword username password salt
  | authenticate username password token now => exact hm.authenticate username password token now
  | validateSession token now => exact hm.validateSession token now
  | invalidateSession token => exact hm.erase token

/-- A session that is accepted is in the table, up to the time of its last use. -/
lemma validateSession_eq_ok {token : String} {now : ℕ} {s : Session}
    (h : (m.validateSession token now).2 = .ok s) :
    ∃ s₀, m.sessions.lookup token = some s₀ ∧ s = { s₀ with lastActive := now } := by
  unfold AuthManager.validateSession at h
  cases hsession : m.sessions.lookup token with
  | none => simp [hsession] at h
  | some s₀ =>
    rw [hsession] at h
    simp only at h
    split at h
    · cases h
    · exact ⟨s₀, rfl, (Except.ok.inj h).symm⟩

end AuthManager

/-- In every run from a manager without sessions in which no role is changed under an open session,
a session that is accepted belongs to an active user who has its role. -/
theorem validateSession_backed (hash : PasswordHash) {m : AuthManager} (hm : m.sessions = ∅)
    {calls : List AuthCall} (hsafe : Along (AuthCall.apply hash) AuthManager.RoleChangeSafe m calls)
    {token : String} {now : ℕ} {s : Session}
    (hs : ((calls.foldl (AuthCall.apply hash) m).validateSession token now).2 = .ok s) :
    (calls.foldl (AuthCall.apply hash) m).Backed s := by
  have hstart : m.SessionsBacked := by
    intro token s hlookup
    rw [hm] at hlookup
    cases hlookup
  have hall : (calls.foldl (AuthCall.apply hash) m).SessionsBacked :=
    inv_foldl (fun m c hm hc => hm.apply hc) hstart hsafe
  obtain ⟨s₀, hlookup, rfl⟩ := AuthManager.validateSession_eq_ok hs
  exact hall token s₀ hlookup

/-- A user is created, gets another role and logs in. -/
def sampleAuthCalls : List AuthCall :=
  [.createUser "bob" "secret" .readWrite "salt" 0, .alterUserRole "bob" .readOnly,
    .authenticate "bob" "secret" "token" 0]

theorem validateSession_backed_sample :
    (sampleAuthCalls.foldl (AuthCall.apply (· ++ ·))
      (.withAdminPassword (· ++ ·) "admin" "salt" 0)).Backed
        { token := "token", username := "bob", role := .readOnly, createdAt := 0, lastActive := 5 } := by
  have hsafe : Along (AuthCall.apply (· ++ ·)) AuthManager.RoleChangeSafe
      (.withAdminPassword (· ++ ·) "admin" "salt" 0) sampleAuthCalls := by
    refine ⟨trivial, ?_, trivial, trivial⟩
    intro u _ _ token s hs
    cases hs
  have hs : ((sampleAuthCalls.foldl (AuthCall.apply (· ++ ·))
      (.withAdminPassword (· ++ ·) "admin" "salt" 0)).validateSession "token" 5).2 =
        .ok ⟨"token", "bob", .readOnly, 0, 5⟩ := by decide +kernel
  exact validateSession_backed (· ++ ·) rfl hsafe hs

/-- Changing a role leaves the open sessions of the user with the old one. -/
theorem alterUserRole_keeps_session_role :
    ¬ ∀ (hash : PasswordHash) (m : AuthManager) (calls : List AuthCall) (token : String) (now : ℕ)
        (s : Session), m.sessions = ∅ →
      ((calls.foldl (AuthCall.apply hash) m).validateSession token now).2 = .ok s →
        (calls.foldl (AuthCall.apply hash) m).Backed s := by
  intro hall
  let calls : List AuthCall := [.createUser "bob" "secret" .readWrite "salt" 0,
    .authenticate "bob" "secret" "token" 0, .alterUserRole "bob" .readOnly]
  have hs : ((calls.foldl (AuthCall.apply (· ++ ·))
      (.withAdminPassword (· ++ ·) "admin" "salt" 0)).validateSession "token" 5).2 =
        .ok ⟨"token", "bob", .readWrite, 0, 5⟩ := by decide +kernel
  obtain ⟨u, hu, -, hrole⟩ := hall (· ++ ·) (.withAdminPassword (· ++ ·) "admin" "salt" 0) calls "token" 5
    _ rfl hs
  have huser : (calls.foldl (AuthCall.apply (· ++ ·))
      (.withAdminPassword (· ++ ·) "admin" "salt" 0)).users.lookup "bob" =
        some ⟨"bob", "saltsecret", "salt", .readOnly, 0, true⟩ := by decide +kernel
  rw [huser] at hu
  rw [← Option.some.inj hu] at hrole
  cases hrole

end Maharit
