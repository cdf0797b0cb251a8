import Biggy.Accounts

/-!
# What a request does to a session

A request can prove an account by a password, a code, an identity or the setup, and in no other way does it put an account
into the session of its answer. Of the rows it can make a token for the account that it acts for.
-/
namespace Biggy
namespace Accounts

open Run TwoFactor

/-! ### Proofs of an account -/

section Proofs

variable {κ : Type*} (env : Env κ)

/-- The request gives the password of an active account, with or without a second factor. -/
def GivesPassword (users : List AppUser) (r : Request) (id : ℕ) (mfa : Bool) : Prop :=
  ∃ username password remoteAddr next, r.call = .login (some (username,password)) remoteAddr next ∧
    ∃ u ∈ users, u.id = id ∧ u.isActiveFlag = true ∧ u.mfaEnabled = mfa ∧ env.fold u.username = env.fold username ∧
      env.checkPasswordHash u.passwordHash password = true

/-- The request gives a code of the secret of the account that is good now, or a backup code that is left. -/
def GivesCode (users : List AppUser) (r : Request) (id : ℕ) : Prop :=
  ∃ code, r.call = .mfaVerify (some code) ∧ ∃ u ∈ users, u.id = id ∧ u.isActiveFlag = true ∧ u.mfaEnabled = true ∧
    ((∃ secret, u.totpSecret = some secret ∧ ∃ k ∈ window r.now, (env.factor secret).hotp k = strip code) ∨
      ∃ hashes, u.mfaBackupCodes = some hashes ∧ (factorOf env u).hash (strip code) ∈ hashes)

/-- The request asks the identity provider for a sign-in. -/
def AsksProvider (r : Request) (state nonce : String) : Prop := ∃ next authorize, r.call = .oidcLogin next state nonce authorize

/-- The request brings a verified token with the nonce, whose subject the account is linked to then. -/
def GivesIdentity (usersAfter : List AppUser) (r : Request) (state : String) (nonce : Option String) (id : ℕ) : Prop :=
  ∃ error code idToken newId salt random claims sub, r.call = .oidcCallback error (some state) code (.ok idToken) newId salt random ∧
    IdToken.verifyIdToken env.oidcLib env.settings env.provider nonce (r.now / 1000000) idToken = .ok claims ∧
    claim claims "sub" = some sub ∧ ∃ u ∈ usersAfter, u.id = id ∧ u.isActiveFlag = true ∧
      u.oidcSubject.map env.fold = some (env.fold sub)

/-- The request makes the first designer. -/
def SetsUp (users : List AppUser) (r : Request) (id : ℕ) : Prop :=
  (∃ form salt, r.call = .setup (some form) id salt) ∧ ∀ u ∈ users, u.isDesigner = false

end Proofs

/-! ### What a request does to the session -/

section Effects

variable {κ : Type*} (env : Env κ)

/-- The request proves the account, given what the session holds. -/
def SignsIn (users usersAfter : List AppUser) (r : Request) (cookie : Cookie) (id : ℕ) : Prop :=
  GivesPassword env users r id false ∨ (cookie.mfaUid = some id ∧ GivesCode env users r id) ∨
    (∃ state, cookie.oidcState = some state ∧ GivesIdentity env usersAfter r state cookie.oidcNonce id) ∨ SetsUp users r id

/-- Who is signed in, who waits for a code and what was asked of the provider change in these ways only. -/
structure Effect (users usersAfter : List AppUser) (r : Request) (cookie new : Cookie) : Prop where
  user : new.userId = cookie.userId ∨ new.userId = none ∨ ∃ id, new.userId = some id ∧ SignsIn env users usersAfter r cookie id
  pending : new.mfaUid = cookie.mfaUid ∨ new.mfaUid = none ∨ ∃ id, new.mfaUid = some id ∧ GivesPassword env users r id true
  asked : (new.oidcState = cookie.oidcState ∧ new.oidcNonce = cookie.oidcNonce) ∨ new.oidcState = none ∨
    ∃ state nonce, new.oidcState = some state ∧ new.oidcNonce = some nonce ∧ AsksProvider r state nonce

variable {env} {s : State} {users usersAfter : List AppUser} {r : Request} {cookie new : Cookie}

/-- Neither who is signed in nor who waits nor what was asked changes. -/
theorem effect_same (huser : new.userId = cookie.userId) (hpending : new.mfaUid = cookie.mfaUid)
    (hstate : new.oidcState = cookie.oidcState) (hnonce : new.oidcNonce = cookie.oidcNonce) :
    Effect env users usersAfter r cookie new :=
  ⟨Or.inl huser,Or.inl hpending,Or.inl ⟨hstate,hnonce⟩⟩

theorem effect_refl (cookie : Cookie) : Effect env users usersAfter r cookie cookie := effect_same rfl rfl rfl rfl

theorem mem_of_getUser {id : ℕ} {user : AppUser} (h : getUser users id = some user) : user ∈ users ∧ user.id = id :=
  ⟨Keyed.mem_of_find h,Keyed.key_of_find h⟩

theorem mem_of_byUsername {name : String} {user : AppUser} (h : byUsername env users name = some user) :
    user ∈ users ∧ env.fold user.username = env.fold name :=
  ⟨List.mem_of_find?_eq_some h,by simpa using List.find?_some h⟩

theorem authenticate_some {username password : String} {user : AppUser} (h : authenticate env s username password = some user) :
    user ∈ s.users ∧ env.fold user.username = env.fold username ∧ user.isActiveFlag = true ∧
      env.checkPasswordHash user.passwordHash password = true := by
  rw [authenticate,Option.filter_eq_some_iff,Bool.and_eq_true] at h
  obtain ⟨hfound,hcheck,hactive⟩ := h
  obtain ⟨hmem,hname⟩ := mem_of_byUsername hfound
  exact ⟨hmem,hname,hactive,hcheck⟩

theorem login_effect {form : Option (String × String)} {remoteAddr : String} {next : Option String} {now : ℤ}
    (hcall : r.call = .login form remoteAddr next) :
    Effect env s.users usersAfter r cookie (login env s cookie form remoteAddr next now).cookie := by
  cases form with
  | none => exact effect_refl cookie
  | some form =>
    obtain ⟨username,password⟩ := form
    rw [login]
    split
    · exact effect_refl cookie
    · cases hauth : authenticate env s username password with
      | none => exact effect_refl cookie
      | some user =>
        obtain ⟨hmem,hname,hactive,hcheck⟩ := authenticate_some hauth
        have hgives : GivesPassword env s.users r user.id user.mfaEnabled :=
          ⟨username,password,remoteAddr,next,hcall,user,hmem,rfl,hactive,rfl,hname,hcheck⟩
        cases hmfa : user.mfaEnabled with
        | true =>
          rw [hmfa] at hgives
          simp only [hmfa,if_true,stay]
          exact ⟨Or.inl rfl,Or.inr (Or.inr ⟨user.id,rfl,hgives⟩),Or.inl ⟨rfl,rfl⟩⟩
        | false =>
          rw [hmfa] at hgives
          simp only [hmfa,Bool.false_eq_true,if_false,stay,establishSession,hactive,if_true]
          exact ⟨Or.inr (Or.inr ⟨user.id,rfl,Or.inl hgives⟩),Or.inl rfl,Or.inl ⟨rfl,rfl⟩⟩

/-- A code that `totp.verify` takes is that of a time step around now. -/
theorem verifyTotp_ok {secret : Option String} {code : String} {now : ℤ} (h : verifyTotp env secret code now = .ok true) :
    ∃ text, secret = some text ∧ ∃ k ∈ window now, (env.factor text).hotp k = strip code := by
  cases secret with
  | none => simp [verifyTotp] at h
  | some text =>
    simp only [verifyTotp] at h
    split at h
    · cases h
    · simp only [verify] at h
      split at h
      · cases h
      · split at h
        · cases h
        · obtain ⟨k,hk,hcode⟩ := List.any_eq_true.mp (Except.ok.inj h)
          exact ⟨text,rfl,k,hk,of_decide_eq_true hcode⟩

/-- What a good code makes of the session. -/
theorem finishMfa_effect {s' : State} {user : AppUser} (hactive : user.isActiveFlag = true) (hpending : cookie.mfaUid = some user.id)
    (hgives : GivesCode env users r user.id) : Effect env users usersAfter r cookie (finishMfa env cookie s' user).cookie := by
  simp only [finishMfa,stay,establishSession,hactive,if_true]
  exact ⟨Or.inr (Or.inr ⟨user.id,rfl,Or.inr (Or.inl ⟨hpending,hgives⟩)⟩),Or.inr (Or.inl rfl),Or.inl ⟨rfl,rfl⟩⟩

theorem submitCode_effect {user : AppUser} {code : String} (hcall : r.call = .mfaVerify (some code)) (hmem : user ∈ s.users)
    (hmfa : user.mfaEnabled = true) (hactive : user.isActiveFlag = true) (hpending : cookie.mfaUid = some user.id) :
    Effect env s.users usersAfter r cookie (submitCode env s cookie user code r.now).cookie := by
  rw [submitCode]
  split
  · exact effect_refl cookie
  · rename_i hverify
    refine finishMfa_effect hactive hpending ⟨code,hcall,user,hmem,rfl,hactive,hmfa,Or.inl ?_⟩
    simpa only [strip_strip] using verifyTotp_ok hverify
  · split
    · rename_i left hconsumed
      obtain ⟨hashes,hstored,hheld,-⟩ := consume_ok (congrArg Prod.fst hconsumed)
      rw [strip_strip] at hheld
      exact finishMfa_effect hactive hpending ⟨code,hcall,user,hmem,rfl,hactive,hmfa,Or.inr ⟨hashes,hstored,hheld⟩⟩
    · exact effect_refl cookie

theorem pending_some {user : AppUser} (h : pending s cookie = some user) :
    user ∈ s.users ∧ cookie.mfaUid = some user.id ∧ user.mfaEnabled = true ∧ user.isActiveFlag = true := by
  rw [pending,Option.filter_eq_some_iff,Bool.and_eq_true] at h
  obtain ⟨hfound,hmfa,hactive⟩ := h
  obtain ⟨id,hid,hget⟩ := Option.bind_eq_some_iff.mp hfound
  obtain ⟨hmem,hkey⟩ := mem_of_getUser hget
  exact ⟨hmem,by rw [hid,hkey],hmfa,hactive⟩

theorem mfaVerify_effect {form : Option String} (hcall : r.call = .mfaVerify form) :
    Effect env s.users usersAfter r cookie (mfaVerify env s cookie form r.now).cookie := by
  rw [mfaVerify]
  split
  · exact effect_refl cookie
  · cases huser : pending s cookie with
    | none => exact ⟨Or.inl rfl,Or.inr (Or.inl rfl),Or.inl ⟨rfl,rfl⟩⟩
    | some user =>
      obtain ⟨hmem,hpending,hmfa,hactive⟩ := pending_some huser
      cases form with
      | none => exact effect_refl cookie
      | some code =>
        simp only
        split
        · exact effect_refl cookie
        · exact submitCode_effect hcall hmem hmfa hactive hpending

theorem oidcLogin_effect {next : Option String} {state nonce : String} {authorize : Except String String}
    (hcall : r.call = .oidcLogin next state nonce authorize) :
    Effect env users usersAfter r cookie (oidcLogin env s cookie next state nonce authorize).cookie := by
  have hasks : AsksProvider r state nonce := ⟨next,authorize,hcall⟩
  unfold oidcLogin
  split
  · exact effect_refl cookie
  · split
    · exact ⟨Or.inl rfl,Or.inl rfl,Or.inr (Or.inr ⟨state,nonce,rfl,rfl,hasks⟩)⟩
    · exact ⟨Or.inl rfl,Or.inl rfl,Or.inr (Or.inr ⟨state,nonce,rfl,rfl,hasks⟩)⟩

theorem effect_taken (cookie : Cookie) : Effect env users usersAfter r cookie cookie.taken :=
  ⟨Or.inl rfl,Or.inl rfl,Or.inr (Or.inl rfl)⟩

/-- The account that the claims are mapped to is linked to their subject then. -/
theorem mapOidcUser_linked {claims : List (String × Json)} {id salt : ℕ} {random : String} {user : AppUser} {new : List AppUser}
    (h : mapOidcUser env users claims id salt random = some (some user,new)) :
    ∃ sub, claim claims "sub" = some sub ∧ user ∈ new ∧ user.oidcSubject.map env.fold = some (env.fold sub) := by
  rw [mapOidcUser] at h
  cases hsub : claim claims "sub" with
  | none => simp [hsub] at h
  | some sub =>
    refine ⟨sub,rfl,?_⟩
    simp only [hsub] at h
    cases hknown : bySubject env users sub with
    | some known =>
      simp only [hknown,Option.some.injEq,Prod.mk.injEq] at h
      obtain ⟨rfl,rfl⟩ := h
      exact ⟨List.mem_of_find?_eq_some hknown,by simpa using List.find?_some hknown⟩
    | none =>
      simp only [hknown] at h
      cases hname : claimedName env claims with
      | none => simp [hname] at h
      | some name =>
        simp only [hname] at h
        cases hfound : byUsername env users name with
        | some found =>
          simp only [hfound] at h
          split at h
          · simp only [Option.some.injEq,Prod.mk.injEq] at h
            obtain ⟨rfl,rfl⟩ := h
            refine ⟨List.mem_map.mpr ⟨found,(mem_of_byUsername hfound).1,if_pos rfl⟩,rfl⟩
          · cases h
        | none =>
          simp only [hfound] at h
          split at h
          · split at h
            · simp only [Option.some.injEq,Prod.mk.injEq] at h
              obtain ⟨rfl,rfl⟩ := h
              exact ⟨List.mem_append_right _ (List.mem_singleton_self _),rfl⟩
            · cases h
          · simp at h

theorem signInAs_effect {error code : Option String} {state idToken random : String} {id salt : ℕ} {claims : List (String × Json)}
    (hcall : r.call = .oidcCallback error (some state) code (.ok idToken) id salt random) (hstate : cookie.oidcState = some state)
    (hverified : IdToken.verifyIdToken env.oidcLib env.settings env.provider cookie.oidcNonce (r.now / 1000000) idToken = .ok claims) :
    Effect env users (signInAs env s cookie claims id salt random).state.users r cookie
      (signInAs env s cookie claims id salt random).cookie := by
  rw [signInAs]
  split
  · exact effect_refl cookie
  · exact effect_taken cookie
  · rename_i user new hmapped
    obtain ⟨sub,hsub,hmem,hlinked⟩ := mapOidcUser_linked hmapped
    cases hactive : user.isActiveFlag with
    | false =>
      simp only [Bool.not_false,if_true]
      exact effect_taken cookie
    | true =>
      have hgives : GivesIdentity env new r state cookie.oidcNonce user.id :=
        ⟨error,code,idToken,id,salt,random,claims,sub,hcall,hverified,hsub,user,hmem,rfl,hactive,hlinked⟩
      simp only [hactive,Bool.not_true,Bool.false_eq_true,if_false,stay,establishSession,if_true]
      exact ⟨Or.inr (Or.inr ⟨user.id,rfl,Or.inr (Or.inr (Or.inl ⟨state,hstate,hgives⟩))⟩),Or.inl rfl,Or.inr (Or.inl rfl)⟩

theorem oidcCallback_effect {error state code : Option String} {exchange : Except String String} {id salt : ℕ} {random : String}
    (hcall : r.call = .oidcCallback error state code exchange id salt random) :
    Effect env users (oidcCallback env s cookie error state code exchange id salt random r.now).state.users r cookie
      (oidcCallback env s cookie error state code exchange id salt random r.now).cookie := by
  unfold oidcCallback
  split
  · exact effect_refl cookie
  split
  · exact effect_refl cookie
  split
  · exact effect_refl cookie
  split
  · exact ⟨Or.inl rfl,Or.inl rfl,Or.inr (Or.inl rfl)⟩
  · rename_i hblank hstate
    have hstate : state = cookie.oidcState := by simpa using hstate
    cases state with
    | none => exact absurd rfl hblank
    | some state =>
      unfold callback
      split
      · exact effect_taken cookie
      · cases exchange with
        | error message => exact effect_taken cookie
        | ok idToken =>
          simp only
          split
          · exact effect_taken cookie
          · exact effect_refl cookie
          · rename_i claims hverified
            exact signInAs_effect hcall hstate.symm hverified

theorem setup_effect {form : Option (String × String)} {id salt worker : ℕ} (hcall : r.call = .setup form id salt) :
    Effect env s.users usersAfter r cookie (setup env s cookie form id salt worker).cookie := by
  unfold setup
  split
  · exact effect_refl cookie
  · rename_i hfirst
    simp only [isBootstrapped,Bool.or_eq_true,not_or] at hfirst
    have hnone : ∀ u ∈ s.users, u.isDesigner = false := by simpa using hfirst.2
    cases form with
    | none => exact effect_refl cookie
    | some form =>
      simp only
      split
      · exact effect_refl cookie
      · simp only [stay,establishSession,newUser,if_true]
        exact ⟨Or.inr (Or.inr ⟨id,rfl,Or.inr (Or.inr (Or.inr ⟨⟨form,salt,hcall⟩,hnone⟩))⟩),Or.inl rfl,Or.inl ⟨rfl,rfl⟩⟩

/-- The session keeps who is signed in, who waits and what was asked. -/
def Keeps (cookie new : Cookie) : Prop :=
  new.userId = cookie.userId ∧ new.mfaUid = cookie.mfaUid ∧ new.oidcState = cookie.oidcState ∧ new.oidcNonce = cookie.oidcNonce

theorem keeps_refl (cookie : Cookie) : Keeps cookie cookie := ⟨rfl,rfl,rfl,rfl⟩

theorem Keeps.effect (h : Keeps cookie new) : Effect env users usersAfter r cookie new := effect_same h.1 h.2.1 h.2.2.1 h.2.2.2

theorem enrolment_keeps (mfaEnabled : Bool) (secret : String) : Keeps cookie (enrolment cookie mfaEnabled secret) := by
  rw [enrolment]
  split
  · exact keeps_refl cookie
  · exact ⟨rfl,rfl,rfl,rfl⟩

theorem mfa_keeps (user : AppUser) (post : Option (String × Option String)) (secret : String) (codes : List String) (now : ℤ) :
    Keeps cookie (mfa env s cookie user post secret codes now).cookie := by
  cases post with
  | none => exact enrolment_keeps _ _
  | some post =>
    obtain ⟨action,code⟩ := post
    simp only [mfa]
    split
    · split
      · exact keeps_refl cookie
      · exact keeps_refl cookie
      · exact enrolment_keeps _ _
    · split
      · split
        · exact keeps_refl cookie
        · exact enrolment_keeps _ _
        · exact enrolment_keeps _ _
      · split
        · exact enrolment_keeps _ _
        · exact enrolment_keeps _ _

theorem account_cookie (user : AppUser) (form : Option (String × String)) (salt : ℕ) :
    (account env s cookie user form salt).cookie = cookie := by
  unfold account
  repeat' split
  all_goals rfl

theorem usersBulk_cookie (rows : String) (ids : ℕ → ℕ) (salt : ℕ) (random : ℕ → String) :
    (usersBulk env s cookie rows ids salt random).cookie = cookie := by
  unfold usersBulk
  dsimp only
  split <;> rfl

theorem userNew_cookie (form : Option UserForm) (id salt : ℕ) : (userNew env s cookie form id salt).cookie = cookie := by
  unfold userNew
  dsimp only
  repeat' split
  all_goals rfl

theorem userEdit_cookie (userId : ℕ) (form : Option UserForm) (salt : ℕ) :
    (userEdit env s cookie userId form salt).cookie = cookie := by
  unfold userEdit
  repeat' split
  all_goals rfl

theorem userDelete_cookie (user : AppUser) (userId : ℕ) : (userDelete env s cookie user userId).cookie = cookie := by
  unfold userDelete
  split <;> rfl

theorem userResetMfa_cookie (userId : ℕ) : (userResetMfa s cookie userId).cookie = cookie := by
  unfold userResetMfa
  split <;> rfl

theorem tokens_cookie (user : AppUser) (post : Option String) (raw : String) (id : ℕ) :
    (tokens env s cookie user post raw id).cookie = cookie := by
  unfold tokens
  repeat' split
  all_goals rfl

theorem tokenRevoke_cookie (user : AppUser) (tokenId : ℕ) : (tokenRevoke s cookie user tokenId).cookie = cookie := by
  unfold tokenRevoke
  split <;> rfl

theorem effect_signedIn {user : Option AppUser} {f : AppUser → Reply}
    (h : ∀ user, Effect env users usersAfter r cookie (f user).cookie) :
    Effect env users usersAfter r cookie (signedIn s cookie user f).cookie := by
  cases user with
  | none => exact effect_refl cookie
  | some user => exact h user

theorem effect_asDesigner {user : Option AppUser} {f : AppUser → Reply} (h : ∀ user, (f user).cookie = cookie) :
    Effect env users usersAfter r cookie (asDesigner s cookie user f).cookie := by
  refine effect_signedIn fun user => ?_
  split
  · rw [h user]
    exact effect_refl cookie
  · exact effect_refl cookie

theorem effect_asStaff {user : Option AppUser} {f : AppUser → Reply} (h : ∀ user, (f user).cookie = cookie) :
    Effect env users usersAfter r cookie (asStaff s cookie user f).cookie := by
  refine effect_signedIn fun user => ?_
  split
  · exact effect_refl cookie
  · rw [h user]
    exact effect_refl cookie

/-- What any view does to the session. -/
theorem view_effect (user : Option AppUser) (worker : ℕ) :
    Effect env s.users (view env s cookie user r.now worker r.call).state.users r cookie
      (view env s cookie user r.now worker r.call).cookie := by
  cases hcall : r.call with
  | login form remoteAddr next =>
    cases user with
    | none => exact login_effect hcall
    | some user => exact effect_refl cookie
  | mfaVerify form => exact mfaVerify_effect hcall
  | mfa post secret codes => exact effect_signedIn fun user => (mfa_keeps user post secret codes r.now).effect
  | logout => exact effect_signedIn fun _ => ⟨Or.inr (Or.inl rfl),Or.inl rfl,Or.inl ⟨rfl,rfl⟩⟩
  | account form salt =>
    refine effect_signedIn fun user => ?_
    rw [account_cookie]
    exact effect_refl cookie
  | oidcLogin next state nonce authorize => exact oidcLogin_effect hcall
  | oidcCallback error state code exchange id salt random => exact oidcCallback_effect hcall
  | usersBulk rows ids salt random => exact effect_asDesigner fun _ => usersBulk_cookie rows ids salt random
  | userNew form id salt => exact effect_asDesigner fun _ => userNew_cookie form id salt
  | userEdit userId form salt => exact effect_asDesigner fun _ => userEdit_cookie userId form salt
  | userDelete userId => exact effect_asDesigner fun user => userDelete_cookie user userId
  | userResetMfa userId => exact effect_asDesigner fun _ => userResetMfa_cookie userId
  | tokens post raw id => exact effect_asStaff fun user => tokens_cookie user post raw id
  | tokenRevoke tokenId => exact effect_asStaff fun user => tokenRevoke_cookie user tokenId
  | setup form id salt => exact setup_effect hcall
  | page endpoint => exact effect_refl cookie
  | sweep => exact effect_refl cookie

@[simp] theorem remember_users (worker : ℕ) : (remember s worker).users = s.users := by
  rw [remember]
  split <;> rfl

@[simp] theorem remember_tokens (worker : ℕ) : (remember s worker).tokens = s.tokens := by
  rw [remember]
  split <;> rfl

@[simp] theorem remember_issued (worker : ℕ) : (remember s worker).issued = s.issued := by
  rw [remember]
  split <;> rfl

@[simp] theorem remember_hits (worker : ℕ) : (remember s worker).hits = s.hits := by
  rw [remember]
  split <;> rfl

/-- The server redirects the request or leaves it to its view. -/
theorem respond_cases (env : Env κ) (s : State) (r : Request) : (∃ response, respond env s r = stay s (openCookie s r.cookie) response []) ∨
    (∃ response, respond env s r = stay (seen s r) (openCookie s r.cookie) response []) ∨
    respond env s r = view env (seen s r) (openCookie s r.cookie) (currentUser env s r) r.now r.worker r.call := by
  rw [respond]
  split
  · exact Or.inl ⟨_,rfl⟩
  · split
    · exact Or.inr (Or.inl ⟨_,rfl⟩)
    · exact Or.inr (Or.inr rfl)

@[simp] theorem seen_users (s : State) (r : Request) : (seen s r).users = s.users := by
  rw [seen]
  split <;> simp

@[simp] theorem seen_tokens (s : State) (r : Request) : (seen s r).tokens = s.tokens := by
  rw [seen]
  split <;> simp

@[simp] theorem seen_issued (s : State) (r : Request) : (seen s r).issued = s.issued := by
  rw [seen]
  split <;> simp

@[simp] theorem seen_hits (s : State) (r : Request) : (seen s r).hits = s.hits := by
  rw [seen]
  split <;> simp

/-- What any request does to the session. -/
theorem respond_effect (env : Env κ) (s : State) (r : Request) :
    Effect env s.users (respond env s r).state.users r (openCookie s r.cookie) (respond env s r).cookie := by
  rcases respond_cases env s r with ⟨response,h⟩ | ⟨response,h⟩ | h
  · rw [h]
    exact effect_refl _
  · rw [h]
    exact effect_refl _
  · have heffect := @view_effect κ env (seen s r) r (openCookie s r.cookie) (currentUser env s r) r.worker
    rw [seen_users] at heffect
    rw [h]
    exact heffect

end Effects

/-! ### What a request does to the tokens and the issued cookies -/

section Rows

variable {κ : Type*} {env : Env κ} {s s' : State} {r : Request} {cookie : Cookie} {user : Option AppUser}

/-- A token of before, which may have been revoked. -/
def Descends (s : State) (t : ApiToken) : Prop := ∃ old ∈ s.tokens, t = old ∨ t = { old with revoked := true }

/-- A token that the request makes for the account that it acts for. -/
def Mints (env : Env κ) (user : Option AppUser) (r : Request) (t : ApiToken) : Prop :=
  ∃ u name raw id, user = some u ∧ r.call = .tokens (some name) raw id ∧ t = minted env u.id id (strip name) ("biggy_"++raw)

/-- The requests that the table of hits is for. -/
def Call.guessing : Call → Bool
  | .login .. | .mfaVerify _ | .sweep => true
  | _ => false

/-- No cookie is issued before the answer, a token comes from before or is made for who asks, and only a sign-in, a code and the
sweep change the hits. -/
structure RowEffect (env : Env κ) (user : Option AppUser) (r : Request) (s s' : State) : Prop where
  issued : s'.issued = s.issued
  tokens : ∀ t ∈ s'.tokens, Descends s t ∨ Mints env user r t
  hits : r.call.guessing = false → s'.hits = s.hits

theorem rowEffect_same (hissued : s'.issued = s.issued) (htokens : s'.tokens = s.tokens)
    (hhits : r.call.guessing = false → s'.hits = s.hits) : RowEffect env user r s s' :=
  ⟨hissued,fun t ht => Or.inl ⟨t,htokens ▸ ht,Or.inl rfl⟩,hhits⟩

theorem rowEffect_refl (s : State) : RowEffect env user r s s := rowEffect_same rfl rfl fun _ => rfl

theorem not_guessing {P : Prop} {call : Call} (hcall : r.call = call) (hguessing : call.guessing = true) :
    r.call.guessing = false → P := by
  rw [hcall,hguessing]
  exact fun h => by cases h

theorem commitUsers_some {users : List AppUser} (h : commitUsers env s users = some s') : s' = { s with users := users } := by
  rw [commitUsers] at h
  split at h
  · exact (Option.some.inj h).symm
  · cases h

theorem rowEffect_commit {users : List AppUser} (h : commitUsers env s users = some s') : RowEffect env user r s s' := by
  rw [commitUsers_some h]
  exact rowEffect_same rfl rfl fun _ => rfl

theorem login_rows {form : Option (String × String)} {remoteAddr : String} {next : Option String} (now : ℤ)
    (hcall : r.call = .login form remoteAddr next) :
    RowEffect env user r s (login env s cookie form remoteAddr next now).state := by
  unfold login
  repeat' split
  all_goals exact rowEffect_same rfl rfl (not_guessing hcall rfl)

theorem mfaVerify_rows {form : Option String} (now : ℤ) (hcall : r.call = .mfaVerify form) :
    RowEffect env user r s (mfaVerify env s cookie form now).state := by
  unfold mfaVerify
  split
  · exact rowEffect_refl s
  · split
    · exact rowEffect_refl s
    · split
      · exact rowEffect_refl s
      · split
        · exact rowEffect_refl s
        · unfold submitCode
          repeat' split
          all_goals exact rowEffect_same rfl rfl (not_guessing hcall rfl)

theorem mfa_rows (u : AppUser) (post : Option (String × Option String)) (secret : String) (codes : List String) (now : ℤ) :
    RowEffect env user r s (mfa env s cookie u post secret codes now).state := by
  unfold mfa
  repeat' split
  all_goals exact rowEffect_same rfl rfl fun _ => rfl

theorem oidcCallback_rows (error state code : Option String) (exchange : Except String String) (id salt : ℕ) (random : String)
    (now : ℤ) : RowEffect env user r s (oidcCallback env s cookie error state code exchange id salt random now).state := by
  unfold oidcCallback
  repeat' split
  all_goals first | exact rowEffect_refl s | skip
  unfold callback
  repeat' split
  all_goals first | exact rowEffect_refl s | skip
  unfold signInAs
  repeat' split
  all_goals exact rowEffect_same rfl rfl fun _ => rfl

theorem setup_rows (form : Option (String × String)) (id salt worker : ℕ) :
    RowEffect env user r s (setup env s cookie form id salt worker).state := by
  unfold setup
  split
  · exact rowEffect_refl s
  · cases form with
    | none => exact rowEffect_refl s
    | some form =>
      dsimp only
      split
      · exact rowEffect_refl s
      · rename_i hcommit
        rw [commitUsers_some hcommit]
        exact rowEffect_same rfl rfl fun _ => rfl

theorem userDelete_rows (u : AppUser) (userId : ℕ) : RowEffect env user r s (userDelete env s cookie u userId).state := by
  rw [userDelete]
  split
  · refine ⟨rfl,fun t ht => Or.inl ⟨t,?_,Or.inl rfl⟩,fun _ => rfl⟩
    simp only [stay] at ht
    split at ht
    · exact List.mem_of_mem_filter ht
    · exact ht
  · exact rowEffect_refl s

theorem tokens_rows {u : AppUser} {post : Option String} {raw : String} {id : ℕ} (huser : user = some u)
    (hcall : r.call = .tokens post raw id) : RowEffect env user r s (tokens env s cookie u post raw id).state := by
  cases post with
  | none => exact rowEffect_refl s
  | some name =>
    rw [tokens]
    split
    · exact rowEffect_refl s
    · refine ⟨rfl,fun t ht => ?_,fun _ => rfl⟩
      rcases List.mem_append.mp ht with ht | ht
      · exact Or.inl ⟨t,ht,Or.inl rfl⟩
      · exact Or.inr ⟨u,name,raw,id,huser,hcall,List.mem_singleton.mp ht⟩

theorem tokenRevoke_rows (u : AppUser) (tokenId : ℕ) : RowEffect env user r s (tokenRevoke s cookie u tokenId).state := by
  rw [tokenRevoke]
  split
  · exact rowEffect_refl s
  · refine ⟨rfl,fun t ht => Or.inl ?_,fun _ => rfl⟩
    obtain ⟨old,hold,rfl⟩ := List.mem_map.mp ht
    refine ⟨old,hold,?_⟩
    split
    · exact Or.inr rfl
    · exact Or.inl rfl

theorem rows_signedIn {f : AppUser → Reply} (h : ∀ u, user = some u → RowEffect env user r s (f u).state) :
    RowEffect env user r s (signedIn s cookie user f).state := by
  cases user with
  | none => exact rowEffect_refl s
  | some u => exact h u rfl

theorem rows_asDesigner {f : AppUser → Reply} (h : ∀ u, RowEffect env user r s (f u).state) :
    RowEffect env user r s (asDesigner s cookie user f).state := by
  refine rows_signedIn fun u _ => ?_
  split
  · exact h u
  · exact rowEffect_refl s

theorem rows_asStaff {f : AppUser → Reply} (h : ∀ u, user = some u → RowEffect env user r s (f u).state) :
    RowEffect env user r s (asStaff s cookie user f).state := by
  refine rows_signedIn fun u hu => ?_
  split
  · exact rowEffect_refl s
  · exact h u hu

/-- What any view does to the rows. -/
theorem view_rows (user : Option AppUser) (worker : ℕ) : RowEffect env user r s (view env s cookie user r.now worker r.call).state := by
  cases hcall : r.call with
  | login form remoteAddr next =>
    cases user with
    | none => exact login_rows r.now hcall
    | some u => exact rowEffect_refl s
  | mfaVerify form => exact mfaVerify_rows r.now hcall
  | mfa post secret codes => exact rows_signedIn fun u _ => mfa_rows u post secret codes r.now
  | logout => exact rows_signedIn fun _ _ => rowEffect_refl s
  | account form salt =>
    refine rows_signedIn fun u _ => ?_
    unfold account
    repeat' split
    all_goals exact rowEffect_same rfl rfl fun _ => rfl
  | oidcLogin next state nonce authorize =>
    simp only [view]
    unfold oidcLogin
    repeat' split
    all_goals exact rowEffect_refl s
  | oidcCallback error state code exchange id salt random => exact oidcCallback_rows error state code exchange id salt random r.now
  | usersBulk rows ids salt random =>
    refine rows_asDesigner fun _ => ?_
    rw [usersBulk]
    split
    · exact rowEffect_refl s
    · rename_i hcommit
      exact rowEffect_commit hcommit
  | userNew form id salt =>
    refine rows_asDesigner fun _ => ?_
    unfold userNew
    dsimp only
    repeat' split
    all_goals first | exact rowEffect_refl s | exact rowEffect_commit ‹_›
  | userEdit userId form salt =>
    refine rows_asDesigner fun _ => ?_
    unfold userEdit
    repeat' split
    all_goals first | exact rowEffect_refl s | exact rowEffect_commit ‹_›
  | userDelete userId => exact rows_asDesigner fun u => userDelete_rows u userId
  | userResetMfa userId =>
    refine rows_asDesigner fun _ => ?_
    unfold userResetMfa
    split
    all_goals exact rowEffect_same rfl rfl fun _ => rfl
  | tokens post raw id => exact rows_asStaff fun u hu => tokens_rows hu hcall
  | tokenRevoke tokenId => exact rows_asStaff fun u _ => tokenRevoke_rows u tokenId
  | setup form id salt => exact setup_rows form id salt worker
  | page endpoint => exact rowEffect_refl s
  | sweep => exact rowEffect_same rfl rfl (not_guessing hcall rfl)

/-- What any request does to the rows. -/
theorem respond_rows (env : Env κ) (s : State) (r : Request) : RowEffect env (currentUser env s r) r s (respond env s r).state := by
  have hseen : RowEffect env (currentUser env s r) r s (seen s r) := 
    rowEffect_same (seen_issued s r) (seen_tokens s r) fun _ => seen_hits s r
  rcases respond_cases env s r with ⟨response,h⟩ | ⟨response,h⟩ | h
  · rw [h]
    exact rowEffect_refl s
  · rw [h]
    exact hseen
  · obtain ⟨hissued,htokens,hhits⟩ := @view_rows κ env (seen s r) r (openCookie s r.cookie) (currentUser env s r) r.worker
    rw [h]
    refine ⟨hissued.trans hseen.issued,fun t ht => ?_,fun hcall => (hhits hcall).trans (seen_hits s r)⟩
    have hdescends := htokens t ht
    rwa [Descends,seen_tokens] at hdescends

end Rows

end Accounts
end Biggy
