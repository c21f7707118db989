import CohortSwitch.Hashing
import CohortSwitch.Rearrangement
import CohortSwitch.Transactions

/-!
# Signing in

Users sign in with a password and stay signed in with refresh tokens. A
refresh exchanges the token it presents for a new one: the old row is revoked
and points to its replacement. Presenting a revoked token is taken for theft,
and every token of the user is revoked in one `UPDATE`, which is committed
although the request fails.

## Locks

The `SELECT … FOR UPDATE` of a refresh keeps the token's row locked until the
transaction ends. The revoking `UPDATE` finds the rows it may change when it
starts; it then takes their locks one after the other, waits where another
transaction holds one, and looks at the predicate again on the row it gets. A row
that is inserted after the `UPDATE` has started is not among those it found. This
is how PostgreSQL runs an `UPDATE` under READ COMMITTED, and it is modelled as
written: `revokeAll` is one statement that finds the rows, then one for each of them.

## What is committed with an error

Two of the errors of a refresh are committed: the endpoint catches them to keep the
revocation, and rolls back after the others. So the result of a committed refresh may
be an error, and `AuthOutcome` holds either.

Passwords and access tokens come from libraries that are not part of the
repository, so `Credentials` stands for them. Nothing below depends on what they
compute.
-/

namespace CohortSwitch

/-! ## What comes from outside -/

/-- The claims of an access token. -/
structure AccessClaims where
  sub : String
  type : String
  iat : Instant
  exp : Instant

/-- **What signing in takes from outside**: the Unicode tables behind `email.strip().lower()`,
the password hasher, and the encoding of a token. What is proved holds for any of them. -/
class Credentials where
  normalize : String → String
  hash (salt password : String) : String
  verify (encoded password : String) : Bool
  encode (claims : AccessClaims) (secret algorithm : String) : String

/-- Passwords and claims as they are. -/
@[reducible] def Credentials.plain : Credentials where
  normalize := fun email => email
  hash := fun _ password => password
  verify := fun encoded password => encoded == password
  encode := fun claims _ _ => claims.sub

/-- The settings of signing in. -/
structure AuthSettings where
  jwtSecret : String
  jwtAlgorithm : String
  jwtAccessTtlSeconds : ℤ
  refreshTokenTtlSeconds : ℤ

/-- `now + timedelta(seconds=…)`. -/
def Instant.addSeconds (now : Instant) (seconds : ℤ) : Except PyError Instant :=
  let shifted : ℤ := (now : ℕ) + 1000000 * seconds
  if h : 0 ≤ shifted ∧ shifted.toNat < datetimeSpan then .ok ⟨shifted.toNat, h.2⟩
  else .error (.overflowError "date value out of range")

/-! ## The tables -/

/-- A user. -/
structure UserRow where
  id : UUID
  email : String
  passwordHash : String
  isActive : Bool

/-- **A refresh token**, by the hash of its text. Once it is exchanged it points to its
replacement. -/
structure RefreshTokenRow where
  id : UUID
  userId : UUID
  /-- The token itself is not stored. -/
  tokenHash : String
  expiresAt : Instant
  /-- When it was revoked: exchanged, logged out, or taken for stolen. -/
  revokedAt : Option Instant
  /-- What it was exchanged for. -/
  replacedById : Option UUID

/-- **The committed tables of signing in.** -/
structure AuthDatabase where
  users : List UserRow
  refreshTokens : List RefreshTokenRow

/-- A statement that writes. -/
inductive AuthWrite where
  | insertUser (row : UserRow)
  | insertToken (row : RefreshTokenRow)
  /-- `UPDATE … SET revoked_at`. -/
  | revoke (id : UUID) (at_ : Instant)
  /-- `UPDATE … SET revoked_at, replaced_by_id`. -/
  | replace (id : UUID) (at_ : Instant) (replacedById : UUID)

/-- A row a statement may lock: the refresh token of an id. -/
inductive AuthRow where
  | refreshToken (id : UUID)
deriving DecidableEq

/-- The rows an update locks. -/
def AuthWrite.locks : AuthWrite → List AuthRow
  | .insertUser _ | .insertToken _ => []
  | .revoke id _ | .replace id _ _ => [.refreshToken id]

/-- The update of one row. -/
def updateToken (id : UUID) (f : RefreshTokenRow → RefreshTokenRow)
    (rows : List RefreshTokenRow) : List RefreshTokenRow :=
  rows.map (fun row => if row.id = id then f row else row)

/-- The effect of a statement. -/
def AuthDatabase.apply (db : AuthDatabase) : AuthWrite → AuthDatabase
  | .insertUser row => { db with users := db.users ++ [row] }
  | .insertToken row => { db with refreshTokens := db.refreshTokens ++ [row] }
  | .revoke id at_ =>
    { db with
      refreshTokens := updateToken id (fun row => { row with revokedAt := some at_ })
        db.refreshTokens }
  | .replace id at_ replacedById =>
    { db with
      refreshTokens := updateToken id
        (fun row => { row with revokedAt := some at_, replacedById := some replacedById })
        db.refreshTokens }

/-- **The constraints of the schema.** -/
structure AuthDatabase.Consistent (db : AuthDatabase) : Prop where
  userIds : (db.users.map UserRow.id).Nodup
  userEmails : (db.users.map UserRow.email).Nodup
  tokenIds : (db.refreshTokens.map RefreshTokenRow.id).Nodup
  tokenHashes : (db.refreshTokens.map RefreshTokenRow.tokenHash).Nodup
  tokenUsers : ∀ row ∈ db.refreshTokens, row.userId ∈ db.users.map UserRow.id
  tokenReplacements : ∀ row ∈ db.refreshTokens, ∀ id ∈ row.replacedById.toList,
    id ∈ db.refreshTokens.map RefreshTokenRow.id

instance AuthDatabase.decidableConsistent (db : AuthDatabase) : Decidable db.Consistent :=
  decidable_of_iff
    ((db.users.map UserRow.id).Nodup
      ∧ (db.users.map UserRow.email).Nodup
      ∧ (db.refreshTokens.map RefreshTokenRow.id).Nodup
      ∧ (db.refreshTokens.map RefreshTokenRow.tokenHash).Nodup
      ∧ (∀ row ∈ db.refreshTokens, row.userId ∈ db.users.map UserRow.id)
      ∧ ∀ row ∈ db.refreshTokens, ∀ id ∈ row.replacedById.toList,
        id ∈ db.refreshTokens.map RefreshTokenRow.id)
    ⟨fun ⟨a, b, c, d, e, f⟩ => ⟨a, b, c, d, e, f⟩, fun ⟨a, b, c, d, e, f⟩ => ⟨a, b, c, d, e, f⟩⟩

/-- What is up to the environment in one statement. -/
structure AuthChoice where
  /-- The order in which the rows come. -/
  order : List ℕ
  /-- `uuid4`. -/
  id : UUID
  /-- `secrets.token_urlsafe`. -/
  secret : String
  /-- The salt of the password hasher. -/
  salt : String
  /-- The clock. -/
  now : Instant

/-- A transaction of signing in. -/
abbrev AuthTx (α : Type) := Prog (View AuthDatabase AuthRow AuthChoice) AuthWrite AuthRow PyError α

/-- What the environment chooses. -/
def chooseAuth : AuthTx AuthChoice := Prog.read View.choice

/-- The flush of a session. -/
def flushAuth (pending : List AuthWrite) : AuthTx Unit :=
  .statement (fun _ => pending.flatMap AuthWrite.locks) (fun _ => pending) (fun _ => .ret ())

/-! ## Payloads and responses -/

/-- The payload of a registration. -/
structure RegisterRequest where
  email : String
  password : String
  passwordLength : 12 ≤ password.length ∧ password.length ≤ 200

/-- The payload of a login. -/
structure LoginRequest where
  email : String
  password : String

/-- `RefreshRequest`, and `LogoutRequest` with it. -/
structure RefreshRequest where
  refreshToken : String
  tokenLength : 32 ≤ refreshToken.length

/-- What a successful request gives: an access token, and a refresh token whose text is stored
nowhere. -/
structure TokenPair where
  accessToken : String
  refreshToken : String
  tokenType : String
  expiresIn : ℤ
deriving DecidableEq

/-- **What a committed request is answered with.** A refresh may fail and
commit nevertheless. -/
structure AuthOutcome where
  response : Except PyError (Option TokenPair)

/-- The code of the service's own errors. -/
def PyError.code : PyError → String
  | .apiError _ code _ _ => code
  | _ => ""

/-- The error of a token that was used before. It is committed with the revocation. -/
def refreshTokenReused : PyError :=
  .apiError 401 "refresh_token_reused" "Refresh token reuse was detected." []

/-- The error of a token whose time is over. It is committed, too. -/
def refreshTokenExpired : PyError :=
  .apiError 401 "refresh_token_expired" "Refresh token has expired." []

/-! ## The service functions -/

/-- The row of a token, and its lock: `SELECT … FOR UPDATE`. -/
def selectTokenForUpdate (rawToken : String) : AuthTx (Option RefreshTokenRow) :=
  let query (db : AuthDatabase) :=
    db.refreshTokens.find? (fun row => row.tokenHash = hashSecret rawToken)
  .statement (fun v => (query v.state).toList.map (fun row => .refreshToken row.id)) (fun _ => [])
    (fun v => .ret (query v.state))

/-- One row of the revoking `UPDATE`: the lock, and the predicate again on the
row as it is then. -/
def revokeFound (userId : UUID) (now : Instant) (id : UUID) : AuthTx Unit :=
  .statement (fun _ => [.refreshToken id])
    (fun v => (v.state.refreshTokens.filter (fun row =>
      row.id = id ∧ row.userId = userId ∧ row.revokedAt = none)).map
        (fun row => .revoke row.id now))
    (fun _ => .ret ())

/-- The rows of the revoking `UPDATE`, one after the other. -/
def revokeEach (userId : UUID) (now : Instant) : List UUID → AuthTx Unit
  | [] => pure ()
  | id :: rest => do
    revokeFound userId now id
    revokeEach userId now rest

/-- `UPDATE … SET revoked_at WHERE user_id = … AND revoked_at IS NULL`. -/
def revokeAll (userId : UUID) (now : Instant) : AuthTx Unit := do
  let rows ← (Prog.read (fun v => arrange v.choice.order
    (v.state.refreshTokens.filter (fun row =>
      row.userId = userId ∧ row.revokedAt = none))) : AuthTx (List RefreshTokenRow))
  revokeEach userId now (rows.map RefreshTokenRow.id)

section Service

variable [Credentials] (settings : AuthSettings)

/-- `create_access_token`. -/
def createAccessToken (userId : UUID) (now : Instant) : Except PyError String := do
  let exp ← now.addSeconds settings.jwtAccessTtlSeconds
  pure (Credentials.encode ⟨userId.str, "access", now, exp⟩ settings.jwtSecret
    settings.jwtAlgorithm)

/-- `register_user`. -/
def registerUser (email password : String) : AuthTx UserRow := do
  let normalized := Credentials.normalize email
  let existing ← (Prog.read (fun v => v.state.users.find? (fun row => row.email = normalized)) :
    AuthTx (Option UserRow))
  Prog.attempt (raiseIf (existing.isSome = true) (.apiError 409 "email_already_registered"
    "An account with this email exists." []))
  let chosen ← chooseAuth
  let user : UserRow := ⟨chosen.id, normalized, Credentials.hash chosen.salt password, true⟩
  flushAuth [.insertUser user]
  pure user

/-- `authenticate_user`. -/
def authenticateUser (email password : String) : AuthTx UserRow := do
  let found ← (Prog.read (fun v =>
    v.state.users.find? (fun row => row.email = Credentials.normalize email)) :
      AuthTx (Option UserRow))
  match found with
  | none =>
    .raise (.apiError 401 "invalid_credentials" "Email or password is incorrect." [])
  | some user =>
    if !user.isActive || !Credentials.verify user.passwordHash password then
      .raise (.apiError 401 "invalid_credentials" "Email or password is incorrect." [])
    else pure user

/-- `issue_tokens`: the pair, and the row that is pending. -/
def issueTokens (user : UserRow) : AuthTx (TokenPair × RefreshTokenRow) := do
  let chosen ← chooseAuth
  let expiresAt ← Prog.attempt (chosen.now.addSeconds settings.refreshTokenTtlSeconds)
  let issued ← chooseAuth
  let accessToken ← Prog.attempt (createAccessToken settings user.id issued.now)
  pure (⟨accessToken, chosen.secret, "bearer", settings.jwtAccessTtlSeconds⟩,
    ⟨chosen.id, user.id, hashSecret chosen.secret, expiresAt, none, none⟩)

/-- What a refresh does with a token that is neither revoked nor expired: a new one is inserted,
and the old one points to it. -/
def exchangeToken (token : RefreshTokenRow) (now : Instant) : AuthTx AuthOutcome := do
  let found ← (Prog.read (fun v => v.state.users.find? (fun row => row.id = token.userId)) :
    AuthTx (Option UserRow))
  match found with
  | none => .raise (.apiError 401 "account_inactive" "The account is inactive." [])
  | some user =>
    if !user.isActive then
      .raise (.apiError 401 "account_inactive" "The account is inactive." [])
    else do
      let chosen ← chooseAuth
      let expiresAt ← Prog.attempt (now.addSeconds settings.refreshTokenTtlSeconds)
      let replacement : RefreshTokenRow :=
        ⟨chosen.id, user.id, hashSecret chosen.secret, expiresAt, none, none⟩
      flushAuth [.insertToken replacement]
      let issued ← chooseAuth
      let accessToken ← Prog.attempt (createAccessToken settings user.id issued.now)
      flushAuth [.replace token.id now replacement.id]
      pure ⟨.ok (some ⟨accessToken, chosen.secret, "bearer", settings.jwtAccessTtlSeconds⟩)⟩

/-- **`rotate_refresh_token`**, with the error it raises as its result. -/
def rotateRefreshToken (rawToken : String) : AuthTx AuthOutcome := do
  let found ← selectTokenForUpdate rawToken
  match found with
  | none =>
    pure ⟨.error (.apiError 401 "invalid_refresh_token" "Refresh token is invalid." [])⟩
  | some token => do
    let chosen ← chooseAuth
    if token.revokedAt.isSome then do
      revokeAll token.userId chosen.now
      pure ⟨.error refreshTokenReused⟩
    else if token.expiresAt ≤ chosen.now then do
      flushAuth [.revoke token.id chosen.now]
      pure ⟨.error refreshTokenExpired⟩
    else exchangeToken settings token chosen.now

/-- `revoke_refresh_token`. -/
def revokeRefreshToken (rawToken : String) : AuthTx Unit := do
  let found ← selectTokenForUpdate rawToken
  match found with
  | none => pure ()
  | some token =>
    if token.revokedAt = none then do
      let chosen ← chooseAuth
      flushAuth [.revoke token.id chosen.now]
    else pure ()

/-! ## The endpoints -/

/-- `register`. -/
def register (payload : RegisterRequest) : AuthTx AuthOutcome := do
  let user ← registerUser payload.email payload.password
  let (tokens, row) ← issueTokens settings user
  flushAuth [.insertToken row]
  pure ⟨.ok (some tokens)⟩

/-- `login`. -/
def login (payload : LoginRequest) : AuthTx AuthOutcome := do
  let user ← authenticateUser payload.email payload.password
  let (tokens, row) ← issueTokens settings user
  flushAuth [.insertToken row]
  pure ⟨.ok (some tokens)⟩

/-- `refresh` commits after two of the errors, and rolls back after the
others. -/
def refresh (payload : RefreshRequest) : AuthTx AuthOutcome := do
  let outcome ← rotateRefreshToken settings payload.refreshToken
  match outcome.response with
  | .error error =>
    if error.code ∈ ["refresh_token_reused", "refresh_token_expired"] then pure outcome
    else .raise error
  | .ok _ => pure outcome

/-- `logout`: the token is revoked, if it is known. -/
def logout (payload : RefreshRequest) : AuthTx AuthOutcome := do
  revokeRefreshToken payload.refreshToken
  pure ⟨.ok none⟩

/-- A call of one endpoint. -/
inductive AuthRequest where
  | register (payload : RegisterRequest)
  | login (payload : LoginRequest)
  | refresh (payload : RefreshRequest)
  | logout (payload : RefreshRequest)

/-- The transaction of a request. -/
def AuthRequest.program : AuthRequest → AuthTx AuthOutcome
  | .register payload => CohortSwitch.register settings payload
  | .login payload => CohortSwitch.login settings payload
  | .refresh payload => CohortSwitch.refresh settings payload
  | .logout payload => CohortSwitch.logout payload

/-- **The server of the four endpoints.** A refresh that presents a revoked token revokes the
tokens of its user, commits that, and is answered with an error all the same. -/
def authService : System AuthDatabase AuthWrite AuthRow AuthChoice PyError AuthRequest AuthOutcome
    where
  apply := AuthDatabase.apply
  ok := fun db => decide db.Consistent
  program := AuthRequest.program settings

end Service

/-- A state of the server. -/
abbrev AuthWorld := World AuthDatabase AuthWrite AuthRow AuthChoice PyError AuthRequest AuthOutcome

/-- The server before its first request. -/
def authInitial : AuthWorld := ⟨⟨[], []⟩, [], [], 0⟩

end CohortSwitch
