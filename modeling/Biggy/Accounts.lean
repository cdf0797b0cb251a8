import Biggy.TwoFactor
import Biggy.IdToken
import Biggy.SafeNext
import Biggy.Keyed

/-!
# Accounts, sessions and tokens

The session of a browser is a cookie that the server signs and the browser keeps, so any cookie that was ever issued may
come back with any later request. A request acts for the account of its cookie or, without one, of its bearer token.
-/
namespace Biggy
namespace Accounts

open TwoFactor RateLimit

structure AppUser where
  id : ℕ
  username : String
  passwordHash : String
  role : String
  isActiveFlag : Bool
  totpSecret : Option String
  mfaEnabled : Bool
  mfaBackupCodes : Option (List String)
  oidcSubject : Option String
  deriving DecidableEq

def AppUser.isDesigner (user : AppUser) : Bool := user.role == "designer"
def AppUser.isPortal (user : AppUser) : Bool := user.role == "portal"

structure ApiToken where
  id : ℕ
  userId : ℕ
  name : String
  tokenHash : String
  shown : String
  revoked : Bool
  deriving DecidableEq

/-- The session that a cookie holds. -/
structure Cookie where
  userId : Option ℕ
  mfaUid : Option ℕ
  mfaNext : Option String
  mfaSetupSecret : Option String
  oidcState : Option String
  oidcNonce : Option String
  oidcNext : Option String
  deriving DecidableEq

/-- A session with nothing in it. -/
def Cookie.blank : Cookie := ⟨none,none,none,none,none,none,none⟩

/-- The rows that the requests read and write, the cookies that the server has signed, and the workers that remember that
there is a designer. -/
structure State where
  users : List AppUser
  tokens : List ApiToken
  hits : List RateHit
  roles : List String
  issued : List Cookie
  cached : List ℕ

/-- The settings, the database and the libraries: `fold` gives one text for all user names or subjects that the collation
takes for equal, and `cascades` says whether the tokens of a deleted account go with it. -/
structure Env (κ : Type*) where
  fold : String → String
  cascades : Bool
  checkPasswordHash : String → String → Bool
  generatePasswordHash : ℕ → String → String
  factor : String → Factor
  hashToken : String → String
  rateLimit : Option ℤ
  rateWindow : Option ℤ
  requireMfa : Bool
  url : Redirect.UrlLib
  oidcLib : IdToken.OidcLib κ
  settings : IdToken.Settings
  provider : IdToken.Provider κ
  repr : Json → String
  usernameClaim : String
  provision : String
  defaultRole : String

/-- A form of the user administration that validates. -/
structure UserForm where
  username : String
  password : String
  role : String
  isActive : Bool

/-- What a request asks for. A form is there when it is posted and validates; what is drawn at random, what the identity
provider answers and the ids that the database gives to new rows come with the request. -/
inductive Call
  | login (form : Option (String × String)) (remoteAddr : String) (next : Option String)
  | mfaVerify (form : Option String)
  | mfa (post : Option (String × Option String)) (secret : String) (codes : List String)
  | logout
  | account (form : Option (String × String)) (salt : ℕ)
  | oidcLogin (next : Option String) (state nonce : String) (authorize : Except String String)
  | oidcCallback (error state code : Option String) (exchange : Except String String) (id salt : ℕ) (random : String)
  | usersBulk (rows : String) (ids : ℕ → ℕ) (salt : ℕ) (random : ℕ → String)
  | userNew (form : Option UserForm) (id salt : ℕ)
  | userEdit (userId : ℕ) (form : Option UserForm) (salt : ℕ)
  | userDelete (userId : ℕ)
  | userResetMfa (userId : ℕ)
  | tokens (post : Option String) (raw : String) (id : ℕ)
  | tokenRevoke (tokenId : ℕ)
  | setup (form : Option (String × String)) (id salt : ℕ)
  | page (endpoint : String)
  | sweep

structure Request where
  cookie : Cookie
  authorization : String
  now : ℤ
  worker : ℕ
  call : Call

inductive Response
  | page (template : String)
  | redirect (endpoint : String)
  | location (url : String)
  | status (code : ℕ)
  deriving DecidableEq

structure Reply where
  state : State
  cookie : Cookie
  response : Response
  flashes : List (String × String)

/-! ### Who a request acts for -/

section Caller

variable {κ : Type*} (env : Env κ) (s : State)

/-- A cookie that the server has not signed is taken for none. -/
def openCookie (cookie : Cookie) : Cookie := if cookie ∈ s.issued then cookie else .blank

/-- `session.get(AppUser, id)`. -/
def getUser (users : List AppUser) (id : ℕ) : Option AppUser := Keyed.find AppUser.id id users

/-- `load_user`. -/
def loadUser (id : ℕ) : Option AppUser := (getUser s.users id).filter AppUser.isActiveFlag

/-- `load_user_from_token`. -/
def loadUserFromToken (authorization : String) : Option AppUser :=
  if !startsWith authorization "Bearer " then none
  else
    let raw := strip (String.ofList (authorization.toList.drop 7))
    if raw = "" then none
    else match s.tokens.find? fun t => decide (t.tokenHash = env.hashToken raw) && !t.revoked with
      | none => none
      | some tok => loadUser s tok.userId

/-- `current_user`: the account of the session, and that of the token where there is none. -/
def currentUser (r : Request) : Option AppUser :=
  match (openCookie s r.cookie).userId.bind (loadUser s) with
  | some user => some user
  | none => loadUserFromToken env s r.authorization

end Caller

/-! ### The rows -/

section Rows

variable {κ : Type*} (env : Env κ)

/-- The primary key and the unique columns of the accounts. -/
def admissible (users : List AppUser) : Bool :=
  decide ((users.map AppUser.id).Nodup ∧ (users.map fun u => env.fold u.username).Nodup ∧
    ((users.filterMap AppUser.oidcSubject).map env.fold).Nodup)

/-- The account with a user name. -/
def byUsername (users : List AppUser) (name : String) : Option AppUser :=
  users.find? fun u => decide (env.fold u.username = env.fold name)

/-- The account that is linked to a subject. -/
def bySubject (users : List AppUser) (sub : String) : Option AppUser :=
  users.find? fun u => decide (u.oidcSubject.map env.fold = some (env.fold sub))

/-- Columns of one row are set. -/
def setUser (users : List AppUser) (id : ℕ) (f : AppUser → AppUser) : List AppUser :=
  users.map fun u => if u.id = id then f u else u

/-- `session.commit()` after new accounts or changed ones: the database takes them or refuses the lot. -/
def commitUsers (s : State) (users : List AppUser) : Option State :=
  if admissible env users then some { s with users := users } else none

/-- A new account as `AppUser(...)` makes it. -/
def newUser (id : ℕ) (username passwordHash role : String) (active : Bool) (subject : Option String) : AppUser :=
  ⟨id,username,passwordHash,role,active,none,false,none,subject⟩

/-- `totp.verify`, where an account without a secret has no code. -/
def verifyTotp (secret : Option String) (code : String) (now : ℤ) : Except PyError Bool :=
  match secret with
  | none => .ok false
  | some secret => if secret = "" then .ok false else verify (env.factor secret) code now

/-- What the secret of the account gives. -/
def factorOf (user : AppUser) : Factor := env.factor (user.totpSecret.getD "")

/-- `_login_limits`. -/
def loginLimits : ℤ × ℤ :=
  (env.rateLimit.getD 0,if env.rateWindow.getD 0 = 0 then 300 else env.rateWindow.getD 0)

/-- `rate_limit.blocked`. -/
def isBlocked (s : State) (key : String) (now : ℤ) : Bool := blocked (loginLimits env).1 (loginLimits env).2 key now s.hits

end Rows

/-! ### Signing in -/

section SignIn

variable {κ : Type*} (env : Env κ) (s : State) (cookie : Cookie)

/-- A reply that leaves the rows as they are. -/
def stay (response : Response) (flashes : List (String × String)) : Reply := ⟨s,cookie,response,flashes⟩

/-- `establish_session`: `login_user` of an active account. -/
def establishSession (user : AppUser) : Cookie := if user.isActiveFlag then { cookie with userId := some user.id } else cookie

/-- `_safe_next`. -/
def safeNext (next : Option String) : String := Redirect.safeNext env.url "/" next

def tooMany : List (String × String) := [("Too many failed attempts — try again later.","danger")]

/-- The keys of the lockout. -/
def loginKeys (username remoteAddr : String) : List String := ["login:"++username,"login-ip:"++remoteAddr]

/-- The account whose password is given. -/
def authenticate (username password : String) : Option AppUser :=
  (byUsername env s.users username).filter fun u => env.checkPasswordHash u.passwordHash password && u.isActiveFlag

/-- `login` for who is not signed in. -/
def login (form : Option (String × String)) (remoteAddr : String) (next : Option String) (now : ℤ) : Reply :=
  match form with
  | none => stay s cookie (.page "auth/login.html") []
  | some (username,password) =>
    if (loginKeys username remoteAddr).any fun key => isBlocked env s key now then stay s cookie (.page "auth/login.html") tooMany
    else match authenticate env s username password with
      | some user =>
        if user.mfaEnabled then
          stay s { cookie with mfaUid := some user.id,mfaNext := some (safeNext env next) } (.redirect "auth.mfa_verify") []
        else stay s (establishSession cookie user) (.location (safeNext env next)) []
      | none =>
        ⟨{ s with hits := (loginKeys username remoteAddr).foldl (fun hits key => record key now hits) s.hits },cookie,
          .page "auth/login.html",[("Invalid credentials or inactive account.","danger")]⟩

/-- The key of the lockout for codes. -/
def mfaKey (id : ℕ) : String := "mfa:"++toString id

/-- The end of `mfa_verify` for a good code. -/
def finishMfa (s : State) (user : AppUser) : Reply :=
  stay s (establishSession { cookie with mfaNext := none,mfaUid := none } user)
    (.location (safeNext env (some (cookie.mfaNext.getD "")))) []

/-- The account that waits for its code. -/
def pending : Option AppUser :=
  (cookie.mfaUid.bind (getUser s.users)).filter fun u => u.mfaEnabled && u.isActiveFlag

/-- A code for an account that waits for it. -/
def submitCode (user : AppUser) (code : String) (now : ℤ) : Reply :=
  match verifyTotp env user.totpSecret (strip code) now with
  | .error _ => stay s cookie (.status 500) []
  | .ok true => finishMfa env cookie s user
  | .ok false =>
    match consumeBackupCode (factorOf env user) user.mfaBackupCodes (strip code) with
    | (true,left) => finishMfa env cookie { s with users := setUser s.users user.id fun u => { u with mfaBackupCodes := left } } user
    | (false,_) =>
      ⟨{ s with hits := record (mfaKey user.id) now s.hits },cookie,.page "auth/mfa_verify.html",
        [("Invalid authentication code.","danger")]⟩

/-- `mfa_verify`. -/
def mfaVerify (form : Option String) (now : ℤ) : Reply :=
  if cookie.mfaUid.getD 0 = 0 then stay s cookie (.redirect "auth.login") []
  else match pending s cookie with
    | none => stay s { cookie with mfaUid := none } (.redirect "auth.login") []
    | some user => match form with
      | none => stay s cookie (.page "auth/mfa_verify.html") []
      | some code =>
        if isBlocked env s (mfaKey user.id) now then stay s cookie (.page "auth/mfa_verify.html") tooMany
        else submitCode env s cookie user code now

/-- `oidc.enabled`. -/
def oidcEnabled : Bool := decide ((env.settings.issuer.getD "") ≠ "" ∧ (env.settings.clientId.getD "") ≠ "")

/-- `oidc_login`. -/
def oidcLogin (next : Option String) (state nonce : String) (authorize : Except String String) : Reply :=
  let asked := { cookie with oidcState := some state,oidcNonce := some nonce,oidcNext := some (safeNext env next) }
  if !oidcEnabled env then stay s cookie (.status 404) []
  else match authorize with
    | .ok url => stay s asked (.location url) []
    | .error message => stay s asked (.redirect "auth.login") [("SSO is unavailable: "++message,"danger")]

/-- `claims.get(name)`, where a blank text counts as none. -/
def claim (claims : List (String × Json)) (name : String) : Option String :=
  match Json.get claims name with
  | .str text => if text = "" then none else some text
  | _ => none

/-- The user name that the claims give. -/
def claimedName (claims : List (String × Json)) : Option String :=
  ((claim claims env.usernameClaim).or (claim claims "email")).or (claim claims "preferred_username")

/-- `_map_oidc_user`: the account of the claims, and the accounts as they are then; nothing where the database refuses. -/
def mapOidcUser (users : List AppUser) (claims : List (String × Json)) (id salt : ℕ) (random : String) :
    Option (Option AppUser × List AppUser) :=
  match claim claims "sub" with
  | none => some (none,users)
  | some sub => match bySubject env users sub with
    | some user => some (some user,users)
    | none => match claimedName env claims with
      | none => some (none,users)
      | some name => match byUsername env users name with
        | some user =>
          let linked := setUser users user.id fun u => { u with oidcSubject := some sub }
          if admissible env linked then some (some { user with oidcSubject := some sub },linked) else none
        | none =>
          if env.provision = "jit" then
            let new := newUser id name (env.generatePasswordHash salt ("oidc-"++random)) env.defaultRole true (some sub)
            if admissible env (users++[new]) then some (some new,users++[new]) else none
          else some (none,users)

/-- The session once the state, the nonce and the destination have been taken from it. -/
def Cookie.taken : Cookie := { cookie with oidcState := none,oidcNonce := none,oidcNext := none }

/-- The end of `oidc_callback`, for verified claims. -/
def signInAs (claims : List (String × Json)) (id salt : ℕ) (random : String) : Reply :=
  match mapOidcUser env s.users claims id salt random with
  | none => stay s cookie (.status 500) []
  | some (none,users) =>
    stay { s with users := users } cookie.taken (.redirect "auth.login") [("No Biggy account is linked to this identity.","danger")]
  | some (some user,users) =>
    if !user.isActiveFlag then
      stay { s with users := users } cookie.taken (.redirect "auth.login") [("That account is inactive.","danger")]
    else stay { s with users := users } (establishSession cookie.taken user) (.location (safeNext env (some (cookie.oidcNext.getD "")))) []

/-- `oidc_callback` for a state that matches. -/
def callback (code : Option String) (exchange : Except String String) (id salt : ℕ) (random : String) (now : ℤ) : Reply :=
  if code.getD "" = "" then stay s cookie.taken (.redirect "auth.login") [("SSO did not return a code.","danger")]
  else match exchange with
    | .error message => stay s cookie.taken (.redirect "auth.login") [("SSO sign-in failed: "++message,"danger")]
    | .ok idToken =>
      match IdToken.verifyIdToken env.oidcLib env.settings env.provider cookie.oidcNonce (now / 1000000) idToken with
      | .error (.oidc e) => stay s cookie.taken (.redirect "auth.login") [("SSO sign-in failed: "++e.message env.repr,"danger")]
      | .error (.other _) => stay s cookie (.status 500) []
      | .ok claims => signInAs env s cookie claims id salt random

/-- `oidc_callback`. -/
def oidcCallback (error state code : Option String) (exchange : Except String String) (id salt : ℕ) (random : String)
    (now : ℤ) : Reply :=
  let mismatch := [("SSO state mismatch — please try again.","danger")]
  if !oidcEnabled env then stay s cookie (.status 404) []
  else if error.getD "" ≠ "" then stay s cookie (.redirect "auth.login") [("SSO error: "++error.getD "","danger")]
  else if state.getD "" = "" then stay s cookie (.redirect "auth.login") mismatch
  else if state ≠ cookie.oidcState then stay s { cookie with oidcState := none } (.redirect "auth.login") mismatch
  else callback env s cookie code exchange id salt random now

/-- `is_bootstrapped`. -/
def isBootstrapped (worker : ℕ) : Bool := decide (worker ∈ s.cached) || s.users.any AppUser.isDesigner

/-- `setup`. -/
def setup (form : Option (String × String)) (id salt worker : ℕ) : Reply :=
  if isBootstrapped s worker then stay s cookie (.redirect "core.index") []
  else match form with
    | none => stay s cookie (.page "core/setup.html") []
    | some (username,password) =>
      let user := newUser id username (env.generatePasswordHash salt password) "designer" true none
      match commitUsers env s (s.users++[user]) with
      | none => stay s cookie (.status 500) []
      | some s => stay { s with cached := worker::s.cached } (establishSession cookie user) (.redirect "designer.dashboard")
          [("Setup complete. Welcome to Biggy!","success")]

end SignIn

/-! ### What an account does with itself and with others -/

section Self

variable {κ : Type*} (env : Env κ) (s : State) (cookie : Cookie) (user : AppUser)

/-- The key that is offered for enrolment stays in the session. -/
def enrolment (mfaEnabled : Bool) (secret : String) : Cookie :=
  if mfaEnabled then cookie
  else { cookie with mfaSetupSecret := some (if cookie.mfaSetupSecret.getD "" = "" then secret else cookie.mfaSetupSecret.getD "") }

/-- The page of `mfa`. -/
def mfaPage (s : State) (cookie : Cookie) (mfaEnabled : Bool) (secret : String) (flashes : List (String × String)) : Reply :=
  stay s (enrolment cookie mfaEnabled secret) (.page "auth/mfa.html") flashes

/-- `totp.verify` of the code of the form, which may not be there. -/
def checkCode (secret code : Option String) (now : ℤ) : Except PyError Bool :=
  match code with
  | none => .ok false
  | some code => verifyTotp env secret code now

def withMfa (secret : Option String) (enabled : Bool) (codes : Option (List String)) (u : AppUser) : AppUser :=
  { u with totpSecret := secret,mfaEnabled := enabled,mfaBackupCodes := codes }

/-- `mfa`; the codes are those that `make_backup_codes` draws. -/
def mfa (post : Option (String × Option String)) (secret : String) (codes : List String) (now : ℤ) : Reply :=
  match post with
  | none => mfaPage s cookie user.mfaEnabled secret []
  | some (action,code) =>
    if action = "enable" ∧ user.mfaEnabled = false then
      match checkCode env cookie.mfaSetupSecret code now with
      | .error _ => stay s cookie (.status 500) []
      | .ok true =>
        let new := withMfa cookie.mfaSetupSecret true (some (codes.map (env.factor (cookie.mfaSetupSecret.getD "")).hash))
        mfaPage { s with users := setUser s.users user.id new } { cookie with mfaSetupSecret := none } true secret
          [("Two-factor authentication enabled.","success")]
      | .ok false => mfaPage s cookie false secret [("That code didn't match — try again.","danger")]
    else if action = "disable" ∧ user.mfaEnabled = true then
      match checkCode env user.totpSecret code now with
      | .error _ => stay s cookie (.status 500) []
      | .ok true => mfaPage { s with users := setUser s.users user.id (withMfa none false none) } cookie false secret
          [("Two-factor authentication disabled.","info")]
      | .ok false => mfaPage s cookie true secret [("Enter a current code to disable two-factor.","danger")]
    else if action = "regenerate" ∧ user.mfaEnabled = true then
      mfaPage { s with users := setUser s.users user.id fun u => { u with mfaBackupCodes := some (codes.map (factorOf env user).hash) } }
        cookie true secret [("New backup codes generated — the old ones no longer work.","success")]
    else mfaPage s cookie user.mfaEnabled secret []

/-- `logout`. -/
def logout : Reply := stay s { cookie with userId := none } (.redirect "auth.login") [("Signed out.","info")]

/-- `account`. -/
def account (form : Option (String × String)) (salt : ℕ) : Reply :=
  match form with
  | none => stay s cookie (.page "auth/account.html") []
  | some (current,new) =>
    if !env.checkPasswordHash user.passwordHash current then
      stay s cookie (.page "auth/account.html") [("Current password is incorrect.","danger")]
    else stay { s with users := setUser s.users user.id fun u => { u with passwordHash := env.generatePasswordHash salt new } }
      cookie (.redirect "auth.account") [("Password changed.","success")]

/-- The token that `mint` makes. -/
def minted (userId id : ℕ) (name raw : String) : ApiToken :=
  ⟨id,userId,if name = "" then "token" else name,env.hashToken raw,clip 12 raw,false⟩

/-- `tokens`; the id and the hash are unique. -/
def tokens (post : Option String) (raw : String) (id : ℕ) : Reply :=
  match post with
  | none => stay s cookie (.page "user/tokens.html") []
  | some name =>
    if s.tokens.any fun t => decide (t.id = id ∨ t.tokenHash = env.hashToken ("biggy_"++raw)) then stay s cookie (.status 500) []
    else stay { s with tokens := s.tokens++[minted env user.id id (strip name) ("biggy_"++raw)] } cookie
      (.page "user/tokens.html") [("Token created — copy it now; it won't be shown again.","success")]

/-- `token_revoke`. -/
def tokenRevoke (tokenId : ℕ) : Reply :=
  match s.tokens.find? fun t => decide (t.id = tokenId ∧ t.userId = user.id) with
  | none => stay s cookie (.redirect "user.tokens") []
  | some _ => stay { s with tokens := s.tokens.map fun t => if t.id = tokenId then { t with revoked := true } else t } cookie
      (.redirect "user.tokens") [("Token revoked.","info")]

end Self

section Admin

variable {κ : Type*} (env : Env κ) (s : State) (cookie : Cookie) (user : AppUser)

/-- What the bulk creation has made so far. -/
structure Bulk where
  users : List AppUser
  created : ℕ
  skipped : ℕ
  errors : ℕ

/-- A line of the bulk creation. -/
def bulkLine (ids : ℕ → ℕ) (salt : ℕ) (random : ℕ → String) (bulk : Bulk) (text : String) : Bulk :=
  let line := strip text
  if line = "" ∨ startsWith line "#" then bulk
  else
    let parts := (splitOn ',' line).map strip
    let username := parts.getD 0 ""
    let role := if parts.getD 1 "" = "" then "user" else parts.getD 1 ""
    let password := parts.getD 2 ""
    if username = "" ∨ role ∉ s.roles then { bulk with errors := bulk.errors+1 }
    else if (byUsername env bulk.users username).isSome then { bulk with skipped := bulk.skipped+1 }
    else
      let secret := if password = "" then "set-"++random bulk.created else password
      { bulk with users := bulk.users++[newUser (ids bulk.created) username (env.generatePasswordHash (salt+bulk.created) secret) role
          true none],created := bulk.created+1 }

/-- `users_bulk`. -/
def usersBulk (rows : String) (ids : ℕ → ℕ) (salt : ℕ) (random : ℕ → String) : Reply :=
  let bulk := (splitlines rows).foldl (bulkLine env s ids salt random) ⟨s.users,0,0,0⟩
  match commitUsers env s bulk.users with
  | none => stay s cookie (.status 500) []
  | some s => stay s cookie (.redirect "auth.users")
      [("Bulk import: "++toString bulk.created++" created, "++toString bulk.skipped++" skipped (existing), "++
        toString bulk.errors++" error(s).",if bulk.created = 0 then "info" else "success")]

/-- `user_new`. -/
def userNew (form : Option UserForm) (id salt : ℕ) : Reply :=
  match form with
  | none => stay s cookie (.page "auth/user_form.html") []
  | some form =>
    if (byUsername env s.users form.username).isSome then
      stay s cookie (.page "auth/user_form.html") [("Username already exists.","danger")]
    else if form.password = "" then
      stay s cookie (.page "auth/user_form.html") [("Password is required for a new user.","danger")]
    else
      let new := newUser id form.username (env.generatePasswordHash salt form.password) form.role form.isActive none
      match commitUsers env s (s.users++[new]) with
      | none => stay s cookie (.status 500) []
      | some s => stay s cookie (.redirect "auth.users") [("User created.","success")]

/-- The columns that `user_edit` sets. -/
def edited (form : UserForm) (salt : ℕ) (u : AppUser) : AppUser :=
  { u with
    username := form.username
    role := form.role
    isActiveFlag := form.isActive
    passwordHash := if form.password = "" then u.passwordHash else env.generatePasswordHash salt form.password }

/-- `user_edit`. -/
def userEdit (userId : ℕ) (form : Option UserForm) (salt : ℕ) : Reply :=
  match getUser s.users userId with
  | none => stay s cookie (.redirect "auth.users") [("User not found.","danger")]
  | some _ => match form with
    | none => stay s cookie (.page "auth/user_form.html") []
    | some form => match commitUsers env s (setUser s.users userId (edited env form salt)) with
      | none => stay s cookie (.status 500) []
      | some s => stay s cookie (.redirect "auth.users") [("User updated.","success")]

/-- `user_delete`. -/
def userDelete (userId : ℕ) : Reply :=
  if (getUser s.users userId).isSome ∧ userId ≠ user.id then
    stay { s with
      users := s.users.filter fun u => decide (u.id ≠ userId)
      tokens := if env.cascades then s.tokens.filter fun t => decide (t.userId ≠ userId) else s.tokens } cookie
      (.redirect "auth.users") [("User deleted.","info")]
  else stay s cookie (.redirect "auth.users") [("Cannot delete this account.","warning")]

/-- `user_reset_mfa`. -/
def userResetMfa (userId : ℕ) : Reply :=
  match getUser s.users userId with
  | none => stay s cookie (.redirect "auth.user_edit") []
  | some target => stay { s with users := setUser s.users userId (withMfa none false none) } cookie (.redirect "auth.user_edit")
      [("Two-factor reset for "++target.username++".","info")]

end Admin

/-! ### A request -/

section Step

variable {κ : Type*} (env : Env κ)

def Call.endpoint : Call → String
  | .login .. => "auth.login"
  | .mfaVerify _ => "auth.mfa_verify"
  | .mfa .. => "auth.mfa"
  | .logout => "auth.logout"
  | .account .. => "auth.account"
  | .oidcLogin .. => "auth.oidc_login"
  | .oidcCallback .. => "auth.oidc_callback"
  | .usersBulk .. => "auth.users_bulk"
  | .userNew .. => "auth.user_new"
  | .userEdit .. => "auth.user_edit"
  | .userDelete _ => "auth.user_delete"
  | .userResetMfa _ => "auth.user_reset_mfa"
  | .tokens .. => "user.tokens"
  | .tokenRevoke _ => "user.token_revoke"
  | .setup .. => "core.setup"
  | .page endpoint => endpoint
  | .sweep => "static"

/-- The pages that are there before the setup. -/
def exempt (endpoint : String) : Bool :=
  startsWith endpoint "core.setup" || endpoint == "static" || endpoint == "core.health" || startsWith endpoint "hooks."

/-- `require_bootstrap` sends the request to the setup. -/
def needsSetup (s : State) (worker : ℕ) (endpoint : String) : Bool :=
  !exempt endpoint && !isBootstrapped s worker

/-- `require_mfa_enrolled` sends the request to the enrolment. -/
def needsEnrolment (user : Option AppUser) (endpoint : String) : Bool :=
  env.requireMfa && !(["auth.mfa","auth.logout","core.health","static"].contains endpoint) && user.any fun u => !u.mfaEnabled

/-- `login_required`. -/
def signedIn (s : State) (cookie : Cookie) (user : Option AppUser) (f : AppUser → Reply) : Reply :=
  match user with
  | none => stay s cookie (.redirect "auth.login") []
  | some user => f user

/-- `login_required` and `designer_required`. -/
def asDesigner (s : State) (cookie : Cookie) (user : Option AppUser) (f : AppUser → Reply) : Reply :=
  signedIn s cookie user fun user => if user.isDesigner then f user else stay s cookie (.status 403) []

/-- `_guard` of user mode. -/
def asStaff (s : State) (cookie : Cookie) (user : Option AppUser) (f : AppUser → Reply) : Reply :=
  signedIn s cookie user fun user => if user.isPortal then stay s cookie (.redirect "portal.home") [] else f user

/-- The view of a request, for the session that its cookie holds. -/
def view (s : State) (cookie : Cookie) (user : Option AppUser) (now : ℤ) (worker : ℕ) : Call → Reply
  | .login form remoteAddr next => match user with
    | some _ => stay s cookie (.redirect "core.index") []
    | none => login env s cookie form remoteAddr next now
  | .mfaVerify form => mfaVerify env s cookie form now
  | .mfa post secret codes => signedIn s cookie user fun user => mfa env s cookie user post secret codes now
  | .logout => signedIn s cookie user fun _ => logout s cookie
  | .account form salt => signedIn s cookie user fun user => account env s cookie user form salt
  | .oidcLogin next state nonce authorize => oidcLogin env s cookie next state nonce authorize
  | .oidcCallback error state code exchange id salt random => oidcCallback env s cookie error state code exchange id salt random now
  | .usersBulk rows ids salt random => asDesigner s cookie user fun _ => usersBulk env s cookie rows ids salt random
  | .userNew form id salt => asDesigner s cookie user fun _ => userNew env s cookie form id salt
  | .userEdit userId form salt => asDesigner s cookie user fun _ => userEdit env s cookie userId form salt
  | .userDelete userId => asDesigner s cookie user fun user => userDelete env s cookie user userId
  | .userResetMfa userId => asDesigner s cookie user fun _ => userResetMfa s cookie userId
  | .tokens post raw id => asStaff s cookie user fun user => tokens env s cookie user post raw id
  | .tokenRevoke tokenId => asStaff s cookie user fun user => tokenRevoke s cookie user tokenId
  | .setup form id salt => setup env s cookie form id salt worker
  | .page endpoint => stay s cookie (.page endpoint) []
  | .sweep => stay { s with hits := sweep now s.hits } cookie (.page "") []

/-- `is_bootstrapped` remembers a designer for the worker. -/
def remember (s : State) (worker : ℕ) : State := if s.users.any AppUser.isDesigner then { s with cached := worker::s.cached } else s

/-- The state that the view of the request sees. -/
def seen (s : State) (r : Request) : State :=
  if exempt r.call.endpoint && r.call.endpoint != "core.setup" then s else remember s r.worker

/-- What the server answers. -/
def respond (s : State) (r : Request) : Reply :=
  let cookie := openCookie s r.cookie
  let user := currentUser env s r
  if needsSetup s r.worker r.call.endpoint then stay s cookie (.redirect "core.setup") []
  else if needsEnrolment env user r.call.endpoint then stay (seen s r) cookie (.redirect "auth.mfa") []
  else view env (seen s r) cookie user r.now r.worker r.call

/-- The state after the answer, which carries a cookie. -/
def step (s : State) (r : Request) : State :=
  let reply := respond env s r
  { reply.state with issued := reply.cookie::reply.state.issued }

end Step

end Accounts
end Biggy
