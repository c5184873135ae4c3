import Wudup.AuthDatabase
import Wudup.Library.Transition
import Mathlib.Logic.Function.Basic

/-! Requests of the web accounts against one database, transaction by transaction and in any order, and what
the recovery of an account leaves of the sessions before it. -/
namespace Wudup
open Library

/-- How far a request is: between two transactions it holds what it has read or written. -/
inductive AuthRequest where
  | idle
  | verifying (user : WebUser) (password : Str)
  | rehashing (user : WebUser) (password : Str)
  | inserting (userId : ℕ) (passwordHash credential : Str)
  | preparing
  deriving DecidableEq, Repr

namespace AuthRequest

/-- The stored hash that the request holds. -/
def storedHash : AuthRequest → Option Str
  | .verifying user _ => some user.passwordHash
  | .rehashing user _ => some user.passwordHash
  | .inserting _ passwordHash _ => some passwordHash
  | _ => none

/-- Checked against a hash from before, it asks for a session with one from before. -/
def KeepsHash (before : List Str) (userId : ℕ) : AuthRequest → Prop
  | .inserting id passwordHash credential => id = userId → credential ∈ before → passwordHash ∈ before
  | _ => True

end AuthRequest

/-- The database, the requests by number, and what has ever been stored, issued and consumed. -/
structure AuthState where
  db : AuthDatabase
  requests : ℕ → AuthRequest := fun _ => .idle
  storedHashes : List Str
  issuedClaims : List Str
  consumedClaims : List (ClaimKind × Str) := []

inductive AuthAction where
  | login (request : ℕ) (username password : Str)
  | verify (request : ℕ)
  | rehash (request : ℕ) (salt : Str)
  | createSession (request : ℕ) (sessionId expiresAt : Str)
  | claimSetup (request : ℕ) (claim username password salt now : Str) (lastrowid : ℕ)
  | redeem (request : ℕ) (claim username password salt now : Str)
  | issue (username claim secret salt expiresAt now : Str)
  | prepare (request : ℕ)
  | storeSetupClaim (request : ℕ) (claim expiresAt : Str)
  | logout (sessionId now : Str)
  | abandon (request : ℕ)

namespace AuthState
variable (hashing : Hashing) (s : AuthState)

def start (db : AuthDatabase) : AuthState where
  db := db
  storedHashes := db.users.map (·.passwordHash)
  issuedClaims := [db.settings.setupClaimHash,db.settings.resetAdminClaimHash]

def put (request : ℕ) (phase : AuthRequest) : AuthState :=
  { s with requests := Function.update s.requests request phase }

/-- The request goes on to its session with the hash that it has stored itself. -/
def consume (request : ℕ) (kind : ClaimKind) (claim : Str) (userId : ℕ) (passwordHash : Str) (db : AuthDatabase) :
    AuthState :=
  { s with
    db
    requests := Function.update s.requests request (.inserting userId passwordHash passwordHash)
    storedHashes := passwordHash :: s.storedHashes
    consumedClaims := (kind,claim) :: s.consumedClaims }

/-- A salt makes a hash that was never stored before, and a token is never drawn twice. A step is one
transaction or the work between two of them. -/
def step : System AuthState AuthAction
  | s, .login request username password =>
    if s.requests request = .idle then
      match s.db.enabledUser username with
      | some user => some (s.put request (.verifying user password))
      | none => some s
    else none
  | s, .verify request =>
    match s.requests request with
    | .verifying user password =>
      if !hashing.verify user.passwordHash password then some (s.put request .idle)
      else if hashing.checkNeedsRehash user.passwordHash then some (s.put request (.rehashing user password))
      else some (s.put request (.inserting user.id user.passwordHash user.passwordHash))
    | _ => none
  | s, .rehash request salt =>
    match s.requests request with
    | .rehashing user password =>
      if hashing.hash password salt ∈ s.storedHashes then none
      else
        let (verified,db) := s.db.rehashWebUser hashing user password salt
        let s := { s with db, storedHashes := hashing.hash password salt :: s.storedHashes }
        match verified with
        | some (row,credential) => some (s.put request (.inserting row.id row.passwordHash credential))
        | none => some (s.put request .idle)
    | _ => none
  | s, .createSession request sessionId expiresAt =>
    match s.requests request with
    | .inserting userId passwordHash credential =>
      match s.db.createWebSession hashing userId passwordHash sessionId expiresAt credential with
      | some db => some ({ s with db }.put request .idle)
      | none => some (s.put request .idle)
    | _ => none
  | s, .claimSetup request claim username password salt now lastrowid =>
    if s.requests request = .idle ∧ strip username ≠ [] ∧ hashing.hash password salt ∉ s.storedHashes then
      match s.db.claimInitialAdmin hashing claim (strip username) password salt now lastrowid with
      | .ok ((userId,passwordHash),db) => some (s.consume request .setup claim userId passwordHash db)
      | .error _ => some s
    else none
  | s, .redeem request claim username password salt now =>
    if s.requests request = .idle ∧ strip username ≠ [] ∧ hashing.hash password salt ∉ s.storedHashes then
      match s.db.redeemAdminRecoveryClaim hashing claim (strip username) password salt now with
      | .ok ((userId,passwordHash),db) => some (s.consume request .recovery claim userId passwordHash db)
      | .error _ => some s
    else none
  | s, .issue username claim secret salt expiresAt now =>
    if hashing.secretHash claim ∉ s.issuedClaims ∧ hashing.hash secret salt ∉ s.storedHashes then
      match s.db.issueAdminRecoveryClaim hashing username claim secret salt expiresAt now with
      | .ok (_,db) => some { s with
          db
          storedHashes := hashing.hash secret salt :: s.storedHashes
          issuedClaims := hashing.secretHash claim :: s.issuedClaims }
      | .error _ => some s
    else none
  -- With users there, the deletion of the claim is rolled back: nothing commits it.
  | s, .prepare request =>
    if s.requests request = .idle then
      if s.db.webUserCount > 0 then some s else some (s.put request .preparing)
    else none
  | s, .storeSetupClaim request claim expiresAt =>
    if s.requests request = .preparing ∧ hashing.secretHash claim ∉ s.issuedClaims then
      some ({ s with
        db := s.db.setSetupClaim hashing claim expiresAt
        issuedClaims := hashing.secretHash claim :: s.issuedClaims }.put request .idle)
    else none
  | s, .logout sessionId now => some { s with db := s.db.revokeWebSession hashing sessionId now }
  | s, .abandon request => some (s.put request .idle)

/-! What has been stored -/

/-- Every hash that is in use was stored at some time. -/
structure Recorded (s : AuthState) : Prop where
  users : ∀ user ∈ s.db.users, user.passwordHash ∈ s.storedHashes
  requests : ∀ request, ∀ hash ∈ (s.requests request).storedHash, hash ∈ s.storedHashes

/-- The user's hash is none of those from before, no request that was checked against one of those goes on
with a later one, and the sessions that were authorised by one of those are revoked. -/
structure Recovered (before : List Str) (userId : ℕ) (s : AuthState) : Prop where
  stored : before ⊆ s.storedHashes
  users : ∀ user ∈ s.db.users, user.id = userId → user.passwordHash ∉ before
  requests : ∀ request, (s.requests request).KeepsHash before userId
  sessions : ∀ session ∈ s.db.sessions, session.userId = userId → session.revokedAt = none →
    session.credential ∉ before

/-- Every claim is consumed once, and the one that is stored has not been. -/
structure ClaimsFresh (s : AuthState) : Prop where
  nodup : s.consumedClaims.Nodup
  consumed : ∀ claim ∈ s.consumedClaims, hashing.secretHash claim.2 ∈ s.issuedClaims
  current : ∀ kind, s.db.settings.hash kind ≠ [] → s.db.settings.hash kind ∈ s.issuedClaims ∧
    ∀ claim ∈ s.consumedClaims, claim.1 = kind → hashing.secretHash claim.2 ≠ s.db.settings.hash kind

/-! What a step can do -/

/-- What the committed transactions of a step leave. A request that only reads holds a stored hash, or the hash it
held. -/
inductive Effect : AuthState → Prop
  | nothing : Effect s
  | reads {request : ℕ} {phase : AuthRequest} :
    (∀ hash ∈ phase.storedHash, (∃ user ∈ s.db.users, user.passwordHash = hash) ∨
      hash ∈ (s.requests request).storedHash) →
    (∀ before userId, phase.KeepsHash before userId) → Effect (s.put request phase)
  | rehashes {request : ℕ} {phase : AuthRequest} {user : WebUser} {password salt : Str} :
    hashing.hash password salt ∉ s.storedHashes →
    (phase = .idle ∨ ∃ row credential, (s.db.rehashWebUser hashing user password salt).1 = some (row,credential) ∧
      phase = .inserting row.id row.passwordHash credential) →
    Effect ({ s with
      db := (s.db.rehashWebUser hashing user password salt).2
      storedHashes := hashing.hash password salt :: s.storedHashes }.put request phase)
  | createsSession {request id : ℕ} {passwordHash credential sessionId expiresAt : Str} {db : AuthDatabase} :
    s.requests request = .inserting id passwordHash credential →
    s.db.createWebSession hashing id passwordHash sessionId expiresAt credential = some db →
    Effect ({ s with db }.put request .idle)
  | claims {request id lastrowid : ℕ} {claim username password salt now passwordHash : Str} {db : AuthDatabase} :
    hashing.hash password salt ∉ s.storedHashes →
    s.db.claimInitialAdmin hashing claim (strip username) password salt now lastrowid = .ok ((id,passwordHash),db) →
    Effect (s.consume request .setup claim id passwordHash db)
  | redeems {request id : ℕ} {claim username password salt now passwordHash : Str} {db : AuthDatabase} :
    hashing.hash password salt ∉ s.storedHashes →
    s.db.redeemAdminRecoveryClaim hashing claim (strip username) password salt now = .ok ((id,passwordHash),db) →
    Effect (s.consume request .recovery claim id passwordHash db)
  | issues {username claim secret salt expiresAt now : Str} {issued : AdminRecoveryClaim} {db : AuthDatabase} :
    hashing.secretHash claim ∉ s.issuedClaims → hashing.hash secret salt ∉ s.storedHashes →
    s.db.issueAdminRecoveryClaim hashing username claim secret salt expiresAt now = .ok (issued,db) →
    Effect { s with
      db
      storedHashes := hashing.hash secret salt :: s.storedHashes
      issuedClaims := hashing.secretHash claim :: s.issuedClaims }
  | storesClaim {request : ℕ} {claim expiresAt : Str} : hashing.secretHash claim ∉ s.issuedClaims →
    Effect ({ s with
      db := s.db.setSetupClaim hashing claim expiresAt
      issuedClaims := hashing.secretHash claim :: s.issuedClaims }.put request .idle)
  | revokes {sessionId now : Str} : Effect { s with db := s.db.revokeWebSession hashing sessionId now }

variable {hashing s} {t : AuthState} {before : List Str} {userId : ℕ}

theorem Effect.idle {request : ℕ} : Effect hashing s (s.put request .idle) :=
  .reads (by simp [AuthRequest.storedHash]) fun _ _ => trivial

theorem effect_of_step {action : AuthAction} (hs : step hashing s action = some t) : Effect hashing s t := by
  cases action with
  | login request username password =>
    simp only [step] at hs
    split at hs
    · split at hs
      · rename_i user huser
        cases hs
        refine .reads (fun hash hmem => .inl ⟨user,AuthDatabase.mem_of_enabledUser huser,?_⟩) fun _ _ => trivial
        simpa [AuthRequest.storedHash] using hmem
      · cases hs
        exact .nothing
    · cases hs
  | verify request =>
    simp only [step] at hs
    split at hs
    · rename_i user password hphase
      repeat' split at hs
      all_goals cases hs
      · exact .idle
      · exact .reads (fun hash hmem => .inr (hphase ▸ hmem)) fun _ _ => trivial
      · exact .reads (fun hash hmem => .inr (hphase ▸ hmem)) fun _ _ _ hm => hm
    · cases hs
  | rehash request salt =>
    simp only [step] at hs
    split at hs
    · split at hs
      · cases hs
      · rename_i hfresh
        split at hs
        · rename_i row credential hverified
          cases hs
          exact .rehashes hfresh (.inr ⟨row,credential,hverified,rfl⟩)
        · cases hs
          exact .rehashes hfresh (.inl rfl)
    · cases hs
  | createSession request sessionId expiresAt =>
    simp only [step] at hs
    split at hs
    · rename_i hphase
      split at hs
      · rename_i hcreated
        cases hs
        exact .createsSession hphase hcreated
      · cases hs
        exact .idle
    · cases hs
  | claimSetup request claim username password salt now lastrowid =>
    simp only [step] at hs
    split at hs
    · rename_i hfresh
      split at hs
      · rename_i hclaimed
        cases hs
        exact .claims hfresh.2.2 hclaimed
      · cases hs
        exact .nothing
    · cases hs
  | redeem request claim username password salt now =>
    simp only [step] at hs
    split at hs
    · rename_i hfresh
      split at hs
      · rename_i hredeemed
        cases hs
        exact .redeems hfresh.2.2 hredeemed
      · cases hs
        exact .nothing
    · cases hs
  | issue username claim secret salt expiresAt now =>
    simp only [step] at hs
    split at hs
    · rename_i hfresh
      split at hs
      · rename_i hissued
        cases hs
        exact .issues hfresh.1 hfresh.2 hissued
      · cases hs
        exact .nothing
    · cases hs
  | prepare request =>
    simp only [step] at hs
    repeat' split at hs
    all_goals cases hs
    · exact .nothing
    · exact .reads (by simp [AuthRequest.storedHash]) fun _ _ => trivial
  | storeSetupClaim request claim expiresAt =>
    simp only [step] at hs
    split at hs
    · rename_i hfresh
      cases hs
      exact .storesClaim hfresh.2
    · cases hs
  | logout sessionId now =>
    cases hs
    exact .revokes
  | abandon request =>
    cases hs
    exact .idle

/-! What is kept -/

theorem Recorded.put (h : s.Recorded) {request : ℕ} {phase : AuthRequest}
    (hp : ∀ hash ∈ phase.storedHash, hash ∈ s.storedHashes) : (s.put request phase).Recorded := by
  refine ⟨h.users,?_⟩
  intro other hash hmem
  by_cases ho : other = request
  · subst ho
    exact hp hash (by simpa [AuthState.put] using hmem)
  · exact h.requests other hash (by simpa [AuthState.put,ho] using hmem)

/-- The database may change, if the hashes of its users are noted. -/
theorem Recorded.write (h : s.Recorded) (hr : t.requests = s.requests) (hs : s.storedHashes ⊆ t.storedHashes)
    (hu : ∀ user ∈ t.db.users, user.passwordHash ∈ t.storedHashes) : t.Recorded :=
  ⟨hu,fun request hash hmem => hs (h.requests request hash (hr ▸ hmem))⟩

theorem Recorded.consume (h : s.Recorded) {request : ℕ} {kind : ClaimKind} {claim passwordHash : Str}
    {db : AuthDatabase} (hu : ∀ user ∈ db.users, user.passwordHash = passwordHash ∨ user ∈ s.db.users) :
    (s.consume request kind claim userId passwordHash db).Recorded := by
  have hwritten : ({ s with
      db
      storedHashes := passwordHash :: s.storedHashes
      consumedClaims := (kind,claim) :: s.consumedClaims } : AuthState).Recorded := by
    apply h.write
    · rfl
    · exact List.subset_cons_self _ _
    · intro user huser
      obtain hnew | hold := hu user huser
      · exact List.mem_cons.mpr (.inl hnew)
      · exact List.mem_cons_of_mem _ (h.users user hold)
  exact hwritten.put (by simp [AuthRequest.storedHash])

theorem hash_setPasswordHash {db : AuthDatabase} {condition : WebUser → Bool} {passwordHash : Str} {user : WebUser}
    (hu : user ∈ (db.setPasswordHash condition passwordHash).users) :
    user.passwordHash = passwordHash ∨ user ∈ db.users := by
  obtain ⟨row,hrow,-,hset | hkept⟩ := AuthDatabase.mem_setPasswordHash hu
  · exact .inl hset.2
  · exact .inr (hkept.2 ▸ hrow)

theorem recorded_step (s : AuthState) (action : AuthAction) (t : AuthState) (h : s.Recorded)
    (hs : step hashing s action = some t) : t.Recorded := by
  cases effect_of_step hs with
  | nothing => exact h
  | @reads request phase hheld _ =>
    apply h.put
    intro hash hmem
    obtain ⟨user,huser,rfl⟩ | hkept := hheld hash hmem
    · exact h.users user huser
    · exact h.requests request hash hkept
  | @rehashes request phase user password salt _ hphase =>
    have hwritten : ({ s with
        db := (s.db.rehashWebUser hashing user password salt).2
        storedHashes := hashing.hash password salt :: s.storedHashes } : AuthState).Recorded := by
      apply h.write
      · rfl
      · exact List.subset_cons_self _ _
      · intro row hrow
        simp only [AuthDatabase.rehashWebUser_db] at hrow
        obtain hnew | hold := hash_setPasswordHash hrow
        · exact List.mem_cons.mpr (.inl hnew)
        · exact List.mem_cons_of_mem _ (h.users row hold)
    apply hwritten.put
    obtain rfl | ⟨row,credential,hverified,rfl⟩ := hphase
    · simp [AuthRequest.storedHash]
    · simpa [AuthRequest.storedHash] using hwritten.users row (AuthDatabase.rehashWebUser_some hverified).1
  | createsSession _ hcreated =>
    obtain ⟨-,rfl⟩ := AuthDatabase.createWebSession_some hcreated
    apply Recorded.put
    · exact h.write rfl (List.Subset.refl _) h.users
    · simp [AuthRequest.storedHash]
  | claims _ hclaimed =>
    obtain ⟨-,-,husers,-⟩ := AuthDatabase.claimInitialAdmin_ok hclaimed
    apply h.consume
    rw [husers]
    simp
  | redeems _ hredeemed =>
    obtain ⟨-,husers,-⟩ := AuthDatabase.redeemAdminRecoveryClaim_ok hredeemed
    apply h.consume
    rw [husers]
    exact fun user => hash_setPasswordHash
  | issues _ _ hissued =>
    obtain ⟨user,-,husers,-⟩ := AuthDatabase.issueAdminRecoveryClaim_ok hissued
    apply h.write
    · rfl
    · exact List.subset_cons_self _ _
    · intro row hrow
      simp only [husers] at hrow
      obtain hnew | hold := hash_setPasswordHash hrow
      · exact List.mem_cons.mpr (.inl hnew)
      · exact List.mem_cons_of_mem _ (h.users row hold)
  | storesClaim =>
    apply Recorded.put
    · exact h.write rfl (List.Subset.refl _) h.users
    · simp [AuthRequest.storedHash]
  | revokes =>
    apply h.write
    · rfl
    · exact List.Subset.refl _
    · rw [AuthDatabase.users_revokeWebSession]
      exact h.users

/-! What a recovery leaves -/

theorem Recovered.put (h : s.Recovered before userId) {request : ℕ} {phase : AuthRequest}
    (hp : phase.KeepsHash before userId) : (s.put request phase).Recovered before userId := by
  refine ⟨h.stored,h.users,?_,h.sessions⟩
  intro other
  by_cases ho : other = request
  · subst ho
    simpa [AuthState.put] using hp
  · simpa [AuthState.put,ho] using h.requests other

theorem Recovered.write (h : s.Recovered before userId) (hr : t.requests = s.requests)
    (hs : s.storedHashes ⊆ t.storedHashes)
    (hu : ∀ user ∈ t.db.users, user.id = userId → user.passwordHash ∉ before)
    (hsessions : ∀ session ∈ t.db.sessions, session.userId = userId → session.revokedAt = none →
      session.credential ∉ before) : t.Recovered before userId :=
  ⟨fun _ hm => hs (h.stored hm),hu,fun request => hr ▸ h.requests request,hsessions⟩

/-- A hash that was never stored may be given to any user. -/
theorem Recovered.setPasswordHash (h : s.Recovered before userId) {condition : WebUser → Bool} {passwordHash : Str}
    (hp : passwordHash ∉ s.storedHashes) :
    ∀ user ∈ (s.db.setPasswordHash condition passwordHash).users, user.id = userId → user.passwordHash ∉ before := by
  intro user huser hid
  obtain hnew | hold := hash_setPasswordHash huser
  · rw [hnew]
    exact fun hm => hp (h.stored hm)
  · exact h.users user hold hid

theorem Recovered.consume (h : s.Recovered before userId) {request : ℕ} {kind : ClaimKind} {claim passwordHash : Str}
    {id : ℕ} {db : AuthDatabase}
    (hu : ∀ user ∈ db.users, user.id = userId → user.passwordHash ∉ before) (hsessions : db.sessions = s.db.sessions) :
    (s.consume request kind claim id passwordHash db).Recovered before userId := by
  have hwritten : ({ s with
      db
      storedHashes := passwordHash :: s.storedHashes
      consumedClaims := (kind,claim) :: s.consumedClaims } : AuthState).Recovered before userId := by
    apply h.write
    · rfl
    · exact List.subset_cons_self _ _
    · exact hu
    · rw [hsessions]
      exact h.sessions
  exact hwritten.put fun _ hm => hm

/-- A rehash finds the hash that was checked still stored, or goes on with the one it has checked. -/
theorem Recovered.rehash (h : s.Recovered before userId) {user row : WebUser} {password salt credential : Str}
    (hv : (s.db.rehashWebUser hashing user password salt).1 = some (row,credential)) :
    (AuthRequest.inserting row.id row.passwordHash credential).KeepsHash before userId := by
  obtain ⟨-,hid,hcredential⟩ := AuthDatabase.rehashWebUser_some hv
  intro huser hbefore
  obtain hsame | ⟨stored,hstored,hsid,hhash⟩ := hcredential
  · exact hsame ▸ hbefore
  · have hkept := h.users stored hstored (hsid.trans (hid.symm.trans huser))
    exact absurd (hhash ▸ hbefore) hkept

theorem Recovered.createSession (h : s.Recovered before userId) {request id : ℕ}
    {passwordHash credential sessionId expiresAt : Str} {db : AuthDatabase}
    (hr : s.requests request = .inserting id passwordHash credential)
    (hc : s.db.createWebSession hashing id passwordHash sessionId expiresAt credential = some db) :
    ({ s with db } : AuthState).Recovered before userId := by
  obtain ⟨⟨user,huser,hid,hhash⟩,rfl⟩ := AuthDatabase.createWebSession_some hc
  apply h.write
  · rfl
  · exact List.Subset.refl _
  · exact h.users
  · intro session hsession hsid hrevoked
    obtain hold | hnew := List.mem_append.mp hsession
    · exact h.sessions session hold hsid hrevoked
    · obtain rfl := List.mem_singleton.mp hnew
      -- the hash that the request kept would be the user's, which is none of those from before
      intro hbefore
      have hkeeps : (AuthRequest.inserting id passwordHash credential).KeepsHash before userId :=
        hr ▸ h.requests request
      have hkept := hkeeps hsid hbefore
      exact h.users user huser (hid.trans hsid) (hhash ▸ hkept)

theorem recovered_step (s : AuthState) (action : AuthAction) (t : AuthState) (h : s.Recovered before userId)
    (hs : step hashing s action = some t) : t.Recovered before userId := by
  cases effect_of_step hs with
  | nothing => exact h
  | reads _ hkeeps => exact h.put (hkeeps before userId)
  | @rehashes request phase user password salt hfresh hphase =>
    have hwritten : ({ s with
        db := (s.db.rehashWebUser hashing user password salt).2
        storedHashes := hashing.hash password salt :: s.storedHashes } : AuthState).Recovered before userId := by
      apply h.write
      · rfl
      · exact List.subset_cons_self _ _
      · simp only [AuthDatabase.rehashWebUser_db]
        exact h.setPasswordHash hfresh
      · simp only [AuthDatabase.rehashWebUser_db]
        exact h.sessions
    apply hwritten.put
    obtain rfl | ⟨row,credential,hverified,rfl⟩ := hphase
    · trivial
    · exact h.rehash hverified
  | createsSession hphase hcreated => exact (h.createSession hphase hcreated).put trivial
  | claims hfresh hclaimed =>
    obtain ⟨hhash,-,husers,hsessions,-⟩ := AuthDatabase.claimInitialAdmin_ok hclaimed
    apply h.consume _ hsessions
    intro user huser _ hbefore
    rw [husers] at huser
    obtain rfl := List.mem_singleton.mp huser
    exact hfresh (hhash ▸ h.stored hbefore)
  | redeems hfresh hredeemed =>
    obtain ⟨hhash,husers,hsessions,-⟩ := AuthDatabase.redeemAdminRecoveryClaim_ok hredeemed
    apply h.consume _ hsessions
    rw [husers]
    exact h.setPasswordHash (hhash ▸ hfresh)
  | issues _ hfresh hissued =>
    obtain ⟨user,-,husers,hsessions,-⟩ := AuthDatabase.issueAdminRecoveryClaim_ok hissued
    apply h.write
    · rfl
    · exact List.subset_cons_self _ _
    · simp only [husers]
      exact h.setPasswordHash hfresh
    · intro session hsession hid hrevoked
      simp only [hsessions] at hsession
      exact h.sessions session (AuthDatabase.mem_of_revoked hsession hrevoked) hid hrevoked
  | storesClaim =>
    apply Recovered.put
    · exact h.write rfl (List.Subset.refl _) h.users h.sessions
    · trivial
  | revokes =>
    apply h.write
    · rfl
    · exact List.Subset.refl _
    · rw [AuthDatabase.users_revokeWebSession]
      exact h.users
    · intro session hsession hid hrevoked
      exact h.sessions session (AuthDatabase.mem_revokeWebSession hsession hrevoked) hid hrevoked

/-- What the recovery of the user has done when it commits. -/
theorem Recorded.recovered (h : s.Recorded) {username claim secret salt expiresAt now : Str} {user : WebUser}
    (hu : s.db.activeAdminUser (strip username) = some user) (hname : strip username ≠ [])
    (hs : step hashing s (.issue username claim secret salt expiresAt now) = some t) :
    t.Recovered s.storedHashes user.id := by
  simp only [step] at hs
  split at hs
  · rename_i hfresh
    split at hs
    · rename_i issued db hissued
      cases hs
      obtain ⟨account,haccount,husers,hsessions,-⟩ := AuthDatabase.issueAdminRecoveryClaim_ok hissued
      obtain rfl := Option.some.inj (hu.symm.trans haccount)
      refine ⟨List.subset_cons_self _ _,?_,?_,?_⟩
      · intro row hrow hid
        simp only [husers] at hrow
        obtain ⟨old,-,hold,hset | hkept⟩ := AuthDatabase.mem_setPasswordHash hrow
        · rw [hset.2]
          exact hfresh.2
        · have hne : old.id ≠ user.id := by simpa using hkept.1
          exact absurd (hold.symm.trans hid) hne
      · intro request
        cases hphase : s.requests request with
        | inserting id passwordHash credential =>
          exact fun _ _ => h.requests request _ (by simp [hphase,AuthRequest.storedHash])
        | _ => trivial
      · intro session hsession hid hrevoked
        simp only [hsessions] at hsession
        obtain ⟨row,-,rfl⟩ := List.mem_map.mp hsession
        split at hrevoked
        · cases hrevoked
        · rename_i hkept
          rw [if_neg hkept] at hid
          exact absurd ⟨hid,hrevoked⟩ hkept
    · rename_i hfailed
      simp [AuthDatabase.issueAdminRecoveryClaim,hname,hu] at hfailed
  · cases hs

/-! Claims -/

theorem ClaimsFresh.keep (h : s.ClaimsFresh hashing) (hsettings : t.db.settings = s.db.settings)
    (hissued : t.issuedClaims = s.issuedClaims) (hconsumed : t.consumedClaims = s.consumedClaims) :
    t.ClaimsFresh hashing := by
  refine ⟨hconsumed ▸ h.nodup,?_,?_⟩
  · rw [hconsumed,hissued]
    exact h.consumed
  · rw [hsettings,hissued,hconsumed]
    exact h.current

/-- A token that was never drawn before takes the place of the claim of its kind. -/
theorem ClaimsFresh.issue (h : s.ClaimsFresh hashing) (kind : ClaimKind) {claim : Str}
    (hfresh : hashing.secretHash claim ∉ s.issuedClaims)
    (hsettings : ∀ other, t.db.settings.hash other =
      if other = kind then hashing.secretHash claim else s.db.settings.hash other)
    (hissued : t.issuedClaims = hashing.secretHash claim :: s.issuedClaims)
    (hconsumed : t.consumedClaims = s.consumedClaims) : t.ClaimsFresh hashing := by
  refine ⟨hconsumed ▸ h.nodup,?_,?_⟩
  · rw [hconsumed,hissued]
    exact fun consumed hc => List.mem_cons_of_mem _ (h.consumed consumed hc)
  · rw [hissued,hconsumed]
    intro other hne
    rw [hsettings] at hne ⊢
    split
    · refine ⟨List.mem_cons_self,?_⟩
      intro consumed hc _ heq
      exact hfresh (heq ▸ h.consumed consumed hc)
    · rename_i hother
      rw [if_neg hother] at hne
      exact ⟨List.mem_cons_of_mem _ (h.current other hne).1,(h.current other hne).2⟩

/-- The claim that is consumed is the one that was stored, and is stored no longer. -/
theorem ClaimsFresh.consume (h : s.ClaimsFresh hashing) {request id : ℕ} (kind : ClaimKind) {claim passwordHash : Str}
    {db : AuthDatabase} (hne : s.db.settings.hash kind ≠ [])
    (hclaim : s.db.settings.hash kind = hashing.secretHash claim)
    (hsettings : ∀ other, db.settings.hash other = if other = kind then [] else s.db.settings.hash other) :
    (s.consume request kind claim id passwordHash db).ClaimsFresh hashing := by
  obtain ⟨hissued,hunused⟩ := h.current kind hne
  refine ⟨?_,?_,?_⟩
  · apply List.nodup_cons.mpr
    refine ⟨?_,h.nodup⟩
    intro hmem
    exact hunused _ hmem rfl hclaim.symm
  · intro consumed hc
    obtain rfl | hold := List.mem_cons.mp hc
    · exact hclaim ▸ hissued
    · exact h.consumed consumed hold
  · intro other hother
    simp only [AuthState.consume,hsettings] at hother ⊢
    by_cases hk : other = kind
    · simp [hk] at hother
    · rw [if_neg hk] at hother ⊢
      refine ⟨(h.current other hother).1,?_⟩
      intro consumed hc hkind
      obtain rfl | hold := List.mem_cons.mp hc
      · exact absurd hkind.symm hk
      · exact (h.current other hother).2 consumed hold hkind

theorem claimsFresh_step (s : AuthState) (action : AuthAction) (t : AuthState) (h : s.ClaimsFresh hashing)
    (hs : step hashing s action = some t) : t.ClaimsFresh hashing := by
  cases effect_of_step hs with
  | nothing => exact h
  | reads => exact h.keep rfl rfl rfl
  | rehashes =>
    exact h.keep (by simp [AuthState.put,AuthDatabase.rehashWebUser_db,AuthDatabase.setPasswordHash]) rfl rfl
  | createsSession _ hcreated =>
    obtain ⟨-,rfl⟩ := AuthDatabase.createWebSession_some hcreated
    exact h.keep rfl rfl rfl
  | claims _ hclaimed =>
    obtain ⟨-,-,-,-,hne,hclaim,hsettings⟩ := AuthDatabase.claimInitialAdmin_ok hclaimed
    apply h.consume .setup hne hclaim
    rintro (_ | _) <;> simp [hsettings,ClaimSettings.hash]
  | redeems _ hredeemed =>
    obtain ⟨-,-,-,hne,hclaim,hsettings⟩ := AuthDatabase.redeemAdminRecoveryClaim_ok hredeemed
    apply h.consume .recovery hne hclaim
    rintro (_ | _) <;> simp [hsettings,ClaimSettings.hash]
  | issues hfresh _ hissued =>
    obtain ⟨user,-,-,-,hsettings⟩ := AuthDatabase.issueAdminRecoveryClaim_ok hissued
    apply h.issue .recovery hfresh
    · rintro (_ | _) <;> simp [hsettings,ClaimSettings.hash]
    · rfl
    · rfl
  | storesClaim hfresh =>
    apply h.issue .setup hfresh
    · rintro (_ | _) <;> simp [AuthState.put,AuthDatabase.setSetupClaim,ClaimSettings.hash]
    · rfl
    · rfl
  | revokes => exact h.keep AuthDatabase.settings_revokeWebSession rfl rfl

/-! Runs -/

theorem recorded_start (db : AuthDatabase) : (start db).Recorded :=
  ⟨fun _ hu => List.mem_map_of_mem hu,fun _ _ hm => by cases hm⟩

theorem claimsFresh_start (db : AuthDatabase) : (start db).ClaimsFresh hashing := by
  refine ⟨List.nodup_nil,by simp [start],?_⟩
  rintro (_ | _) _ <;> simp [start,ClaimSettings.hash]

/-- In every run from any database each claim is consumed by one request at most, and once the recovery of an
account is committed, no session that is let in later was authorised by a credential from before. -/
theorem recovery_revokes {db : AuthDatabase} {actions : List AuthAction}
    (hr : System.run (step hashing) (start db) actions = some s) :
    s.consumedClaims.Nodup ∧
      ∀ username claim secret salt expiresAt issuedAt user t, strip username ≠ [] →
        s.db.activeAdminUser (strip username) = some user →
        step hashing s (.issue username claim secret salt expiresAt issuedAt) = some t →
        ∀ later v, System.run (step hashing) t later = some v →
          ∀ sessionId now session account, v.db.sessionUser hashing sessionId now = some (session,account) →
            account.id = user.id → session.credential ∉ s.storedHashes := by
  have hrecorded := System.run_keeps recorded_step (recorded_start db) hr
  have hclaims := System.run_keeps claimsFresh_step (claimsFresh_start db) hr
  refine ⟨hclaims.nodup,?_⟩
  intro username claim secret salt expiresAt issuedAt user t hname huser hissue later v hlater
  have hrecovered := System.run_keeps recovered_step (hrecorded.recovered huser hname hissue) hlater
  intro sessionId now session account hsession haccount
  obtain ⟨hmem,hvalid,hid⟩ := AuthDatabase.sessionUser_some hsession
  exact hrecovered.sessions session hmem (hid.symm.trans haccount) hvalid

/-- A salted hash and a tagged token. -/
def taggedHashing : Hashing where
  hash password salt := salt ++ "$".toList ++ password
  verify passwordHash password := ("$".toList ++ password).isSuffixOf passwordHash
  checkNeedsRehash _ := false
  secretHash value := '#' :: value

def recoveryAdmin : WebUser := ⟨1,"admin".toList,"s1$old".toList,"admin".toList,none⟩

def loginBefore : List AuthAction := [.login 0 "admin".toList "old".toList,.verify 0]

/-- The login from before the recovery and the new owner both ask for a session. -/
def sessionsAfter : List AuthAction :=
  [.redeem 1 "claim".toList "admin".toList "new".toList "s3".toList "2026-01-02".toList,
    .createSession 0 "early".toList "2026-01-04".toList,.createSession 1 "late".toList "2026-01-04".toList]

theorem recovery_revokes_late :
    ∃ s t v session account,
      System.run (step taggedHashing) (start { users := [recoveryAdmin] }) loginBefore = some s ∧
      step taggedHashing s (.issue "admin".toList "claim".toList "x".toList "s2".toList "2026-01-03".toList
        "2026-01-02".toList) = some t ∧
      System.run (step taggedHashing) t sessionsAfter = some v ∧
      v.db.sessionUser taggedHashing "late".toList "2026-01-03".toList = some (session,account) ∧
      v.db.sessionUser taggedHashing "early".toList "2026-01-03".toList = none ∧
      session.credential ∉ s.storedHashes := by
  have hs : ∃ s t v, System.run (step taggedHashing) (start { users := [recoveryAdmin] }) loginBefore = some s ∧
      step taggedHashing s (.issue "admin".toList "claim".toList "x".toList "s2".toList "2026-01-03".toList
        "2026-01-02".toList) = some t ∧
      System.run (step taggedHashing) t sessionsAfter = some v ∧
      s.db.activeAdminUser (strip "admin".toList) = some recoveryAdmin ∧
      (v.db.sessionUser taggedHashing "late".toList "2026-01-03".toList).map (·.2.id) = some recoveryAdmin.id ∧
      v.db.sessionUser taggedHashing "early".toList "2026-01-03".toList = none := by
    refine ⟨_,_,_,rfl,rfl,rfl,?_,?_,?_⟩ <;> decide +kernel
  obtain ⟨s,t,v,hbefore,hissue,hlater,huser,hlate,hearly⟩ := hs
  obtain ⟨⟨session,account⟩,hsession,haccount⟩ := Option.map_eq_some_iff.mp hlate
  have hname : strip "admin".toList ≠ [] := by decide +kernel
  exact ⟨s,t,v,session,account,hbefore,hissue,hlater,hsession,hearly,
    (recovery_revokes hbefore).2 _ _ _ _ _ _ _ _ hname huser hissue _ _ hlater _ _ _ _ hsession haccount⟩

end AuthState
end Wudup
