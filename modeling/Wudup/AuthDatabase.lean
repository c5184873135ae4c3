import Wudup.Library.Unicode
import Wudup.Models

/-! The rows of the web accounts, and the transactions that read and write them. -/
namespace Wudup
open Library

structure HTTPException where
  statusCode : ℕ
  detail : Str
  deriving DecidableEq, Repr

structure WebUser where
  id : ℕ
  username : Str
  passwordHash : Str
  role : Str
  disabledAt : Option Str
  deriving DecidableEq, Repr

/-- A row with, beside its columns, the hash that the request behind it was checked against or had stored. -/
structure WebSession where
  idHash : Str
  userId : ℕ
  expiresAt : Str
  revokedAt : Option Str
  credential : Str
  deriving DecidableEq, Repr

inductive ClaimKind where
  | setup
  | recovery
  deriving DecidableEq, Repr

/-- The settings about claims, empty where there is no row. -/
structure ClaimSettings where
  setupClaimHash : Str := []
  setupClaimExpiresAt : Str := []
  resetAdminClaimHash : Str := []
  resetAdminClaimExpiresAt : Str := []
  resetAdminClaimUserId : Option ℕ := none
  deriving DecidableEq, Repr

def ClaimSettings.hash (settings : ClaimSettings) : ClaimKind → Str
  | .setup => settings.setupClaimHash
  | .recovery => settings.resetAdminClaimHash

structure AuthDatabase where
  users : List WebUser := []
  sessions : List WebSession := []
  settings : ClaimSettings := {}
  deriving DecidableEq, Repr

/-- The hash of a password under a salt, and the hash that tokens are stored as. -/
structure Hashing where
  hash (password salt : Str) : Str
  verify (passwordHash password : Str) : Bool
  checkNeedsRehash (passwordHash : Str) : Bool
  secretHash (value : Str) : Str

structure AdminRecoveryClaim where
  username : Str
  claim : Str
  expiresAt : Str
  revokedSessions : ℕ
  deriving DecidableEq, Repr

namespace AuthDatabase
variable (db : AuthDatabase) (hashing : Hashing)

def webUserCount : ℕ := db.users.length

def activeAdminUser (username : Str) : Option WebUser :=
  db.users.find? fun user => user.username = username ∧ user.role = "admin".toList ∧ user.disabledAt = none

/-- The rows that meet the condition of the statement get the hash. -/
def setPasswordHash (condition : WebUser → Bool) (passwordHash : Str) : AuthDatabase :=
  { db with users := db.users.map fun user => if condition user then { user with passwordHash } else user }

def setSetupClaim (claim expiresAt : Str) : AuthDatabase :=
  { db with settings :=
    { db.settings with setupClaimHash := hashing.secretHash claim, setupClaimExpiresAt := expiresAt } }

def claimInitialAdmin (claim username password salt now : Str) (lastrowid : ℕ) :
    Except HTTPException ((ℕ × Str) × AuthDatabase) :=
  let expectedHash := db.settings.setupClaimHash
  let expiresAt := db.settings.setupClaimExpiresAt
  if db.webUserCount > 0 then .error ⟨409,"setup is complete".toList⟩
  else if expectedHash = [] ∨ expiresAt = [] then .error ⟨403,"setup claim is invalid".toList⟩
  else if expiresAt < now then .error ⟨403,"setup claim expired".toList⟩
  else if expectedHash ≠ hashing.secretHash claim then .error ⟨403,"setup claim is invalid".toList⟩
  else
    let passwordHash := hashing.hash password salt
    .ok ((lastrowid,passwordHash),{ db with
      users := db.users ++ [⟨lastrowid,username,passwordHash,"admin".toList,none⟩]
      settings := { db.settings with setupClaimHash := [], setupClaimExpiresAt := [] } })

/-- The password becomes one that nobody knows, and the sessions of the user end. -/
def issueAdminRecoveryClaim (username claim secret salt expiresAt now : Str) :
    Except Str (AdminRecoveryClaim × AuthDatabase) :=
  let normalized := strip username
  if normalized = [] then .error "username is required".toList
  else
    match db.activeAdminUser normalized with
    | none =>
      if db.webUserCount = 0 then .error "WebUI setup is not complete".toList
      else .error ("active admin user not found: ".toList ++ normalized)
    | some user =>
      let disabledPasswordHash := hashing.hash secret salt
      let db := db.setPasswordHash (·.id = user.id) disabledPasswordHash
      let revoked (session : WebSession) : Bool := session.userId = user.id ∧ session.revokedAt = none
      .ok (⟨normalized,claim,expiresAt,db.sessions.countP revoked⟩,{ db with
        sessions := db.sessions.map fun session =>
          if revoked session then { session with revokedAt := some now } else session
        settings := { db.settings with
          resetAdminClaimHash := hashing.secretHash claim
          resetAdminClaimExpiresAt := expiresAt
          resetAdminClaimUserId := some user.id } })

def redeemAdminRecoveryClaim (claim username password salt now : Str) :
    Except HTTPException ((ℕ × Str) × AuthDatabase) :=
  let expectedHash := db.settings.resetAdminClaimHash
  let expiresAt := db.settings.resetAdminClaimExpiresAt
  let invalid := .error ⟨403,"admin recovery claim is invalid".toList⟩
  match db.settings.resetAdminClaimUserId with
  | none => invalid
  | some userId =>
    if expectedHash = [] ∨ expiresAt = [] then invalid
    else if expiresAt < now then .error ⟨403,"admin recovery claim expired".toList⟩
    else if expectedHash ≠ hashing.secretHash claim then invalid
    else if (db.users.find? fun user => user.id = userId ∧ user.username = username ∧
        user.role = "admin".toList ∧ user.disabledAt = none).isNone then invalid
    else
      let passwordHash := hashing.hash password salt
      .ok ((userId,passwordHash),{ db.setPasswordHash (·.id = userId) passwordHash with
        settings := { db.settings with
          resetAdminClaimHash := []
          resetAdminClaimExpiresAt := []
          resetAdminClaimUserId := none } })

/-- The row that a password is checked against. -/
def enabledUser (username : Str) : Option WebUser :=
  let normalized := strip username
  if normalized = [] then none
  else db.users.find? fun user => user.username = normalized ∧ user.disabledAt = none

/-- The row that a session may be made for, with the hash that the password was checked against: the one
read before, if it was still stored, and otherwise the one stored now. -/
def rehashWebUser (user : WebUser) (password salt : Str) : Option (WebUser × Str) × AuthDatabase :=
  let condition (row : WebUser) : Bool :=
    row.id = user.id ∧ row.passwordHash = user.passwordHash ∧ row.disabledAt = none
  let rowcount := db.users.countP condition
  let db := db.setPasswordHash condition (hashing.hash password salt)
  let current := db.users.find? (·.id = user.id)
  if rowcount = 1 then (current.map fun row => (row,user.passwordHash),db)
  else
    match current with
    | none => (none,db)
    | some row =>
      if row.disabledAt.isSome then (none,db)
      else if !hashing.verify row.passwordHash password then (none,db)
      else (some (row,row.passwordHash),db)

/-- The check of the stored hash and the insertion are one statement. -/
def createWebSession (userId : ℕ) (passwordHash sessionId expiresAt credential : Str) : Option AuthDatabase :=
  if db.sessions.any (·.idHash = hashing.secretHash sessionId) then none
  else if db.users.any fun user => user.id = userId ∧ user.passwordHash = passwordHash ∧ user.disabledAt = none then
    some { db with
      sessions := db.sessions ++ [⟨hashing.secretHash sessionId,userId,expiresAt,none,credential⟩] }
  else none

def sessionUser (sessionId now : Str) : Option (WebSession × WebUser) :=
  if sessionId = [] then none
  else
    db.sessions.findSome? fun session =>
      if session.idHash = hashing.secretHash sessionId ∧ session.revokedAt = none ∧ ¬session.expiresAt < now then
        (db.users.find? fun user => user.id = session.userId ∧ user.disabledAt = none).map fun user => (session,user)
      else none

def revokeWebSession (sessionId now : Str) : AuthDatabase :=
  if sessionId = [] then db
  else { db with sessions := db.sessions.map fun session =>
    if session.idHash = hashing.secretHash sessionId then { session with revokedAt := some now } else session }

variable {db hashing}

/-! What each transaction does when it succeeds -/

theorem mem_setPasswordHash {condition : WebUser → Bool} {passwordHash : Str} {user : WebUser}
    (hu : user ∈ (db.setPasswordHash condition passwordHash).users) :
    ∃ row ∈ db.users, user.id = row.id ∧
      (condition row = true ∧ user.passwordHash = passwordHash ∨ condition row = false ∧ user = row) := by
  obtain ⟨row,hrow,rfl⟩ := List.mem_map.mp hu
  refine ⟨row,hrow,?_⟩
  cases hc : condition row <;> simp

theorem claimInitialAdmin_ok {claim username password salt now : Str} {lastrowid userId : ℕ} {passwordHash : Str}
    {db' : AuthDatabase}
    (h : db.claimInitialAdmin hashing claim username password salt now lastrowid = .ok ((userId,passwordHash),db')) :
    passwordHash = hashing.hash password salt ∧ db.users = [] ∧
      db'.users = [⟨userId,username,passwordHash,"admin".toList,none⟩] ∧ db'.sessions = db.sessions ∧
      db.settings.setupClaimHash ≠ [] ∧ db.settings.setupClaimHash = hashing.secretHash claim ∧
      db'.settings = { db.settings with setupClaimHash := [], setupClaimExpiresAt := [] } := by
  simp only [claimInitialAdmin] at h
  repeat' split at h
  all_goals cases h
  rename_i hcount hset _ hclaim
  have hnone : db.users = [] := List.eq_nil_of_length_eq_zero (by simpa [webUserCount] using hcount)
  exact ⟨rfl,hnone,by simp [hnone],rfl,fun he => hset (.inl he),not_not.mp hclaim,rfl⟩

theorem issueAdminRecoveryClaim_ok {username claim secret salt expiresAt now : Str}
    {issued : AdminRecoveryClaim} {db' : AuthDatabase}
    (h : db.issueAdminRecoveryClaim hashing username claim secret salt expiresAt now = .ok (issued,db')) :
    ∃ user, db.activeAdminUser (strip username) = some user ∧
      db'.users = (db.setPasswordHash (·.id = user.id) (hashing.hash secret salt)).users ∧
      db'.sessions = (db.sessions.map fun session =>
        if session.userId = user.id ∧ session.revokedAt = none then { session with revokedAt := some now }
        else session) ∧
      db'.settings = { db.settings with
        resetAdminClaimHash := hashing.secretHash claim
        resetAdminClaimExpiresAt := expiresAt
        resetAdminClaimUserId := some user.id } := by
  simp only [issueAdminRecoveryClaim] at h
  split at h
  · cases h
  · split at h
    · split at h <;> cases h
    · rename_i user huser
      cases h
      exact ⟨user,huser,rfl,by simp [setPasswordHash],rfl⟩

theorem redeemAdminRecoveryClaim_ok {claim username password salt now : Str} {userId : ℕ} {passwordHash : Str}
    {db' : AuthDatabase}
    (h : db.redeemAdminRecoveryClaim hashing claim username password salt now = .ok ((userId,passwordHash),db')) :
    passwordHash = hashing.hash password salt ∧
      db'.users = (db.setPasswordHash (·.id = userId) passwordHash).users ∧ db'.sessions = db.sessions ∧
      db.settings.resetAdminClaimHash ≠ [] ∧ db.settings.resetAdminClaimHash = hashing.secretHash claim ∧
      db'.settings = { db.settings with
        resetAdminClaimHash := []
        resetAdminClaimExpiresAt := []
        resetAdminClaimUserId := none } := by
  simp only [redeemAdminRecoveryClaim] at h
  repeat' split at h
  all_goals cases h
  rename_i hset _ hclaim _ _
  exact ⟨rfl,rfl,rfl,fun he => hset (.inl he),not_not.mp hclaim,rfl⟩

theorem mem_of_enabledUser {username : Str} {user : WebUser} (h : db.enabledUser username = some user) :
    user ∈ db.users := by
  simp only [enabledUser] at h
  split at h
  · cases h
  · exact List.mem_of_find?_eq_some h

theorem rehashWebUser_db {user : WebUser} {password salt : Str} :
    (db.rehashWebUser hashing user password salt).2 = db.setPasswordHash
      (fun row => row.id = user.id ∧ row.passwordHash = user.passwordHash ∧ row.disabledAt = none)
      (hashing.hash password salt) := by
  unfold rehashWebUser
  dsimp only
  repeat' split
  all_goals rfl

/-- The row is one of the rows left, and its hash was checked unless the one read before was still stored. -/
theorem rehashWebUser_some {user row : WebUser} {password salt credential : Str}
    (h : (db.rehashWebUser hashing user password salt).1 = some (row,credential)) :
    row ∈ (db.rehashWebUser hashing user password salt).2.users ∧ row.id = user.id ∧
      (credential = row.passwordHash ∨ ∃ stored ∈ db.users, stored.id = user.id ∧ stored.passwordHash = credential) := by
  rw [rehashWebUser_db]
  simp only [rehashWebUser] at h
  split at h
  · rename_i hcount
    obtain ⟨row',hrow,hpair⟩ := Option.map_eq_some_iff.mp h
    cases hpair
    have hpos : 0 < db.users.countP fun stored =>
        stored.id = user.id ∧ stored.passwordHash = user.passwordHash ∧ stored.disabledAt = none := by
      rw [hcount]
      exact Nat.one_pos
    obtain ⟨stored,hstored,hmatch⟩ := List.countP_pos_iff.mp hpos
    simp only [decide_eq_true_eq] at hmatch
    refine ⟨List.mem_of_find?_eq_some hrow,by simpa using List.find?_some hrow,.inr ?_⟩
    exact ⟨stored,hstored,hmatch.1,hmatch.2.1⟩
  · split at h
    · cases h
    · rename_i row' hrow
      repeat' split at h
      all_goals cases h
      exact ⟨List.mem_of_find?_eq_some hrow,by simpa using List.find?_some hrow,.inl rfl⟩

theorem createWebSession_some {userId : ℕ} {passwordHash sessionId expiresAt credential : Str} {db' : AuthDatabase}
    (h : db.createWebSession hashing userId passwordHash sessionId expiresAt credential = some db') :
    (∃ user ∈ db.users, user.id = userId ∧ user.passwordHash = passwordHash) ∧
      db' = { db with
        sessions := db.sessions ++ [⟨hashing.secretHash sessionId,userId,expiresAt,none,credential⟩] } := by
  unfold createWebSession at h
  split at h
  · cases h
  · split at h
    · rename_i huser
      cases h
      obtain ⟨user,hu,hmatch⟩ := List.any_eq_true.mp huser
      simp only [decide_eq_true_eq] at hmatch
      exact ⟨⟨user,hu,hmatch.1,hmatch.2.1⟩,rfl⟩
    · cases h

/-- A session that is let in is a row that nobody has revoked. -/
theorem sessionUser_some {sessionId now : Str} {session : WebSession} {user : WebUser}
    (h : db.sessionUser hashing sessionId now = some (session,user)) :
    session ∈ db.sessions ∧ session.revokedAt = none ∧ user.id = session.userId := by
  unfold sessionUser at h
  split at h
  · cases h
  · obtain ⟨row,hrow,hfound⟩ := List.exists_of_findSome?_eq_some h
    split at hfound
    · rename_i hvalid
      obtain ⟨account,haccount,hpair⟩ := Option.map_eq_some_iff.mp hfound
      cases hpair
      have hmatch := List.find?_some haccount
      simp only [decide_eq_true_eq] at hmatch
      exact ⟨hrow,hvalid.2.1,hmatch.1⟩
    · cases hfound

theorem mem_of_revoked {sessions : List WebSession} {condition : WebSession → Prop} [DecidablePred condition]
    {now : Str} {session : WebSession}
    (hm : session ∈ sessions.map fun row => if condition row then { row with revokedAt := some now } else row)
    (hr : session.revokedAt = none) : session ∈ sessions := by
  obtain ⟨row,hrow,rfl⟩ := List.mem_map.mp hm
  split at hr
  · cases hr
  · rename_i hkept
    simpa [hkept] using hrow

theorem users_revokeWebSession {sessionId now : Str} : (db.revokeWebSession hashing sessionId now).users = db.users := by
  unfold revokeWebSession
  split <;> rfl

theorem settings_revokeWebSession {sessionId now : Str} :
    (db.revokeWebSession hashing sessionId now).settings = db.settings := by
  unfold revokeWebSession
  split <;> rfl

theorem mem_revokeWebSession {sessionId now : Str} {session : WebSession}
    (hs : session ∈ (db.revokeWebSession hashing sessionId now).sessions) (hr : session.revokedAt = none) :
    session ∈ db.sessions := by
  unfold revokeWebSession at hs
  split at hs
  · exact hs
  · exact mem_of_revoked hs hr

end AuthDatabase
end Wudup
