import Biggy.Python

/-!
# The ID token of a sign-in

`verify_id_token` takes a token apart, checks its signature with a key of the provider and then its claims. What it
refuses it refuses by `OidcError`; other exceptions leave it where a part of the token is not what it is read as.
-/
namespace Biggy
namespace IdToken

/-- What is called of the libraries: `json.loads` of bytes, `int` of a text and the verification of a signature. -/
structure OidcLib (κ : Type*) where
  loads : List ℕ → Except PyError Json
  int : String → Option ℤ
  verify : κ → List ℕ → String → Bool

/-- The refusals of the module. -/
inductive OidcError
  | notConfigured
  | malformed
  | unexpectedAlg (alg : Json)
  | noKey
  | badSignature
  | issuerMismatch
  | audienceMismatch
  | expired
  | issuedInFuture
  | nonceMismatch

def OidcError.message (repr : Json → String) : OidcError → String
  | .notConfigured => "OIDC_ISSUER is not configured"
  | .malformed => "malformed id_token"
  | .unexpectedAlg alg => "unexpected alg "++repr alg
  | .noKey => "no matching signing key"
  | .badSignature => "bad signature"
  | .issuerMismatch => "issuer mismatch"
  | .audienceMismatch => "audience mismatch"
  | .expired => "token expired"
  | .issuedInFuture => "token issued in the future"
  | .nonceMismatch => "nonce mismatch"

inductive Failure
  | oidc (e : OidcError)
  | other (e : PyError)

/-! ### Reading the parts -/

/-- The value of a character of the base64 alphabets. -/
def sextet (c : Char) : Option ℕ :=
  if 'A' ≤ c ∧ c ≤ 'Z' then some (c.toNat - 65)
  else if 'a' ≤ c ∧ c ≤ 'z' then some (c.toNat - 71)
  else if '0' ≤ c ∧ c ≤ '9' then some (c.toNat + 4)
  else if c = '-' ∨ c = '+' then some 62
  else if c = '_' ∨ c = '/' then some 63
  else none

/-- `binascii.a2b_base64`, with the place in the quad, the bits that are left over and the padding so far. -/
def a2bBase64 : List Char → ℕ → ℕ → ℕ → Option (List ℕ)
  | [], quad, _, _ => if quad = 0 then some [] else none
  | c::cs, quad, left, pads =>
    if c = '=' then
      if 2 ≤ quad ∧ 4 ≤ quad+(pads+1) then some []
      else a2bBase64 cs quad left (if 2 ≤ quad then pads+1 else pads)
    else
      match sextet c with
      | none => a2bBase64 cs quad left pads
      | some x =>
        match quad with
        | 0 => a2bBase64 cs 1 x 0
        | 1 => (a2bBase64 cs 2 (x%16) 0).map fun bytes => (left*4+x/16)::bytes
        | 2 => (a2bBase64 cs 3 (x%4) 0).map fun bytes => (left*16+x/4)::bytes
        | _ => (a2bBase64 cs 0 0 0).map fun bytes => (left*64+x)::bytes

/-- `_b64url_decode`. -/
def b64urlDecode (s : String) : Except PyError (List ℕ) :=
  let padded := s.toList++List.replicate ((4-s.length%4)%4) '='
  if padded.any fun c => decide (128 ≤ c.toNat) then .error (.valueError "ordinal not in range(128)")
  else
    match a2bBase64 padded 0 0 0 with
    | none => .error (.valueError "Incorrect padding")
    | some bytes => .ok bytes

section Verify

variable {κ : Type*} (lib : OidcLib κ)

/-- `json.loads` of a part. -/
def loadPart (s : String) : Except PyError Json :=
  match b64urlDecode s with
  | .error e => .error e
  | .ok bytes => lib.loads bytes

/-- `int` of a claim. -/
def pyInt : Json → Except PyError ℤ
  | .bool b => .ok (if b then 1 else 0)
  | .int n => .ok n
  | .float (.finite q) => .ok (if 0 ≤ q then q.floor else q.ceil)
  | .float .nan => .error (.valueError "cannot convert float NaN to integer")
  | .float _ => .error .overflowError
  | .str s =>
    match lib.int s with
    | some n => .ok n
    | none => .error (.valueError "invalid literal for int() with base 10")
  | _ => .error .typeError

/-! ### Keys -/

/-- A well-formed key of a key set; only keys of the type RSA have numbers. -/
structure Jwk (κ : Type*) where
  kid : Option String
  rsa : Option κ

/-- The discovery document, the key set and the key set that is fetched again. -/
structure Provider (κ : Type*) where
  issuer : Option String
  keys : List (Jwk κ)
  refetched : List (Jwk κ)

/-- `kid is None or k.get("kid") == kid`. -/
def selects (kid : Json) (k : Jwk κ) : Bool :=
  match kid, k.kid with
  | .null, _ => true
  | .str s, some t => s == t
  | _, _ => false

/-- `_public_key`. -/
def publicKey (keys : List (Jwk κ)) (kid : Json) : Option κ :=
  keys.findSome? fun k => if selects kid k then k.rsa else none

/-- The settings of the client. -/
structure Settings where
  issuer : Option String
  clientId : Option String

def rstripSlash (s : String) : String := String.ofList (s.toList.rdropWhile (· == '/'))

/-- The issuer that the claims must name. -/
def issuerOf (settings : Settings) (provider : Provider κ) : String :=
  provider.issuer.getD (rstripSlash (settings.issuer.getD ""))

/-- `discovery` finds an issuer in the settings. -/
def configured (settings : Settings) : Bool := rstripSlash (settings.issuer.getD "") ≠ ""

/-! ### The checks -/

/-- `aud if isinstance(aud, list) else [aud]`. -/
def audiences (claims : List (String × Json)) : List Json :=
  match Json.get claims "aud" with
  | .arr auds => auds
  | aud => [aud]

/-- A text, or its absence, equals a value. -/
def isText (s : Option String) : Json → Bool
  | .str t => s == some t
  | .null => s.isNone
  | _ => false

def issuerOk (settings : Settings) (provider : Provider κ) (claims : List (String × Json)) : Bool :=
  isText (some (issuerOf settings provider)) (Json.get claims "iss")

def audienceOk (settings : Settings) (claims : List (String × Json)) : Bool :=
  (audiences claims).any (isText settings.clientId)

/-- `not nonce or claims.get("nonce") == nonce`. -/
def nonceOk (nonce : Option String) (claims : List (String × Json)) : Bool :=
  match nonce with
  | none => true
  | some n => n == "" || isText (some n) (Json.get claims "nonce")

/-- `claims.get(name, default)`. -/
def timeClaim (claims : List (String × Json)) (name : String) (default : ℤ) : Json := (claims.lookup name).getD (.int default)

variable (settings : Settings) (provider : Provider κ) (nonce : Option String) (now : ℤ)

/-- The checks of the claims. -/
def checkClaims (claims : Json) : Except Failure (List (String × Json)) :=
  match claims with
  | .obj claims =>
    if !issuerOk settings provider claims then .error (.oidc .issuerMismatch)
    else if !audienceOk settings claims then .error (.oidc .audienceMismatch)
    else
      match pyInt lib (timeClaim claims "exp" 0) with
      | .error e => .error (.other e)
      | .ok exp =>
        if exp < now-30 then .error (.oidc .expired)
        else
          match pyInt lib (timeClaim claims "iat" now) with
          | .error e => .error (.other e)
          | .ok iat =>
            if now+300 < iat then .error (.oidc .issuedInFuture)
            else if !nonceOk nonce claims then .error (.oidc .nonceMismatch)
            else .ok claims
  | _ => .error (.other .attributeError)

/-- The key by which the token is verified: one of the key set, or one that is fetched again. -/
def signingKey (kid : Json) : Option κ := (publicKey provider.keys kid).or (publicKey provider.refetched kid)

/-- What follows once the parts are read. -/
def verifyParts (first second : String) (header claims : Json) (sig : List ℕ) : Except Failure (List (String × Json)) :=
  match header with
  | .obj header =>
    if !isText (some "RS256") (Json.get header "alg") then .error (.oidc (.unexpectedAlg (Json.get header "alg")))
    else if !configured settings then .error (.oidc .notConfigured)
    else
      match signingKey provider (Json.get header "kid") with
      | none => .error (.oidc .noKey)
      | some key =>
        if !lib.verify key sig (first++"."++second) then .error (.oidc .badSignature)
        else checkClaims lib settings provider nonce now claims
  | _ => .error (.other .attributeError)

/-- `verify_id_token`. -/
def verifyIdToken (idToken : String) : Except Failure (List (String × Json)) :=
  match splitOn '.' idToken with
  | [first,second,third] =>
    match loadPart lib first with
    | .error e => .error (.other e)
    | .ok header =>
      match loadPart lib second with
      | .error e => .error (.other e)
      | .ok claims =>
        match b64urlDecode third with
        | .error e => .error (.other e)
        | .ok sig => verifyParts lib settings provider nonce now first second header claims sig
  | _ => .error (.oidc .malformed)

/-! ### What a token is verified to be -/

/-- The claims are those of the right issuer and audience, neither expired nor issued in the future, with the nonce. -/
structure ClaimsPass (claims : List (String × Json)) : Prop where
  issuer : issuerOk settings provider claims = true
  audience : audienceOk settings claims = true
  exp : ∃ exp, pyInt lib (timeClaim claims "exp" 0) = .ok exp ∧ now-30 ≤ exp
  iat : ∃ iat, pyInt lib (timeClaim claims "iat" now) = .ok iat ∧ iat ≤ now+300
  nonce : nonceOk nonce claims = true

/-- The signature verifies under a key that the token selects. -/
def SignedBy (first second : String) (header : List (String × Json)) (sig : List ℕ) : Prop :=
  ∃ k ∈ provider.keys++provider.refetched, selects (Json.get header "kid") k = true ∧
    ∃ key, k.rsa = some key ∧ lib.verify key sig (first++"."++second) = true

/-- The token has three parts, of which the first names RS256, the third is a signature of the first two and the second
holds the claims. -/
def Verified (idToken : String) (claims : List (String × Json)) : Prop :=
  ∃ first second third header sig, splitOn '.' idToken = [first,second,third] ∧ loadPart lib first = .ok (.obj header) ∧
    loadPart lib second = .ok (.obj claims) ∧ b64urlDecode third = .ok sig ∧
    isText (some "RS256") (Json.get header "alg") = true ∧ SignedBy lib provider first second header sig ∧
    ClaimsPass lib settings provider nonce now claims

/-- A result that satisfies the property, or a refusal by `OidcError`. -/
def Proper {α : Type*} (P : α → Prop) (r : Except Failure α) : Prop := (∃ a, r = .ok a ∧ P a) ∨ ∃ e, r = .error (.oidc e)

section Proper

variable {α : Type*} {P : α → Prop}

@[simp] theorem proper_ok (a : α) : Proper P (.ok a) ↔ P a := by simp [Proper]

@[simp] theorem proper_oidc (e : OidcError) : Proper P (.error (.oidc e)) := Or.inr ⟨e,rfl⟩

@[simp] theorem not_proper_other (e : PyError) : ¬Proper P (.error (.other e)) := by simp [Proper]

end Proper

/-! ### When nothing but `OidcError` leaves it -/

/-- The claims are an object, and as far as the checks come to them `exp` and `iat` are numbers. -/
def ClaimsReadable (claims : Json) : Prop :=
  ∃ members, claims = .obj members ∧ (issuerOk settings provider members = true → audienceOk settings members = true →
    ∃ exp, pyInt lib (timeClaim members "exp" 0) = .ok exp ∧
      (now-30 ≤ exp → ∃ iat, pyInt lib (timeClaim members "iat" now) = .ok iat))

/-- The parts of the token are base64 of JSON, the first of an object, and if the signature verifies the claims are
readable. -/
def Readable (idToken : String) : Prop :=
  ∀ first second third, splitOn '.' idToken = [first,second,third] → ∃ header claims sig,
    loadPart lib first = .ok (.obj header) ∧ loadPart lib second = .ok claims ∧ b64urlDecode third = .ok sig ∧
      (isText (some "RS256") (Json.get header "alg") = true → configured settings = true →
        (∃ key, signingKey provider (Json.get header "kid") = some key ∧ lib.verify key sig (first++"."++second) = true) →
          ClaimsReadable lib settings provider now claims)

theorem checkClaims_proper (claims : Json) :
    Proper (fun members => claims = .obj members ∧ ClaimsPass lib settings provider nonce now members)
      (checkClaims lib settings provider nonce now claims) ↔ ClaimsReadable lib settings provider now claims := by
  cases claims with
  | obj members =>
    simp only [checkClaims,ClaimsReadable,Json.obj.injEq,exists_eq_left']
    by_cases hissuer : issuerOk settings provider members
    swap
    · simp [hissuer]
    by_cases haudience : audienceOk settings members
    swap
    · simp [hissuer,haudience]
    simp only [hissuer,haudience,Bool.not_true,Bool.false_eq_true,if_false,forall_const]
    rcases hexp : pyInt lib (timeClaim members "exp" 0) with e | exp
    · simp
    by_cases hexpired : exp < now-30
    · simp only [hexpired,if_true,proper_oidc,true_iff,Except.ok.injEq,exists_eq_left']
      exact fun hlive => absurd hexpired (Int.not_lt.mpr hlive)
    have hlive : now-30 ≤ exp := Int.not_lt.mp hexpired
    rcases hiat : pyInt lib (timeClaim members "iat" now) with e | iat
    · simp only [hexpired,if_false]
      refine iff_of_false (by simp) ?_
      rintro ⟨exp',hsame,hread⟩
      obtain rfl := Except.ok.inj hsame
      obtain ⟨iat,hiat'⟩ := hread hlive
      cases hiat'
    by_cases hfuture : now+300 < iat
    · simp [hexpired,hfuture]
    by_cases hnonce : nonceOk nonce members
    swap
    · simp [hexpired,hfuture,hnonce]
    simp only [hexpired,hfuture,hnonce,Bool.not_true,Bool.false_eq_true,if_false,proper_ok]
    refine iff_of_true ⟨trivial,?_⟩ ⟨exp,rfl,fun _ => ⟨iat,rfl⟩⟩
    exact ⟨hissuer,haudience,⟨exp,hexp,hlive⟩,⟨iat,hiat,Int.not_lt.mp hfuture⟩,hnonce⟩
  | _ => simp [checkClaims,ClaimsReadable]

theorem publicKey_some {keys : List (Jwk κ)} {kid : Json} {key : κ} (h : publicKey keys kid = some key) :
    ∃ k ∈ keys, selects kid k = true ∧ k.rsa = some key := by
  obtain ⟨k,hk,hsome⟩ := List.exists_of_findSome?_eq_some h
  split at hsome
  · rename_i hselects
    exact ⟨k,hk,hselects,hsome⟩
  · cases hsome

/-- The key is one of those that the token selects. -/
theorem signedBy_of_key {first second : String} {header : List (String × Json)} {sig : List ℕ} {key : κ}
    (hkey : signingKey provider (Json.get header "kid") = some key)
    (hverify : lib.verify key sig (first++"."++second) = true) : SignedBy lib provider first second header sig := by
  rw [signingKey,Option.or_eq_some_iff] at hkey
  rcases hkey with hkey | ⟨-,hkey⟩
  · obtain ⟨k,hk,hselects,hrsa⟩ := publicKey_some hkey
    exact ⟨k,List.mem_append_left _ hk,hselects,key,hrsa,hverify⟩
  · obtain ⟨k,hk,hselects,hrsa⟩ := publicKey_some hkey
    exact ⟨k,List.mem_append_right _ hk,hselects,key,hrsa,hverify⟩

theorem verifyParts_proper {idToken first second third : String} {header claims : Json} {sig : List ℕ}
    (hsplit : splitOn '.' idToken = [first,second,third]) (hheader : loadPart lib first = .ok header)
    (hclaims : loadPart lib second = .ok claims) (hsig : b64urlDecode third = .ok sig) :
    Proper (Verified lib settings provider nonce now idToken)
      (verifyParts lib settings provider nonce now first second header claims sig) ↔
      ∃ members, header = .obj members ∧ (isText (some "RS256") (Json.get members "alg") = true → configured settings = true →
        (∃ key, signingKey provider (Json.get members "kid") = some key ∧ lib.verify key sig (first++"."++second) = true) →
          ClaimsReadable lib settings provider now claims) := by
  cases header with
  | obj members =>
    simp only [verifyParts,Json.obj.injEq,exists_eq_left']
    by_cases halg : isText (some "RS256") (Json.get members "alg")
    swap
    · simp [halg]
    by_cases hconfigured : configured settings
    swap
    · simp [halg,hconfigured]
    rcases hkey : signingKey provider (Json.get members "kid") with _ | key
    · simp [halg,hconfigured]
    by_cases hverify : lib.verify key sig (first++"."++second)
    swap
    · simp [halg,hconfigured,hverify]
    simp only [halg,hconfigured,hverify,Bool.not_true,Bool.false_eq_true,if_false,forall_const,Option.some.injEq,
      exists_eq_left']
    rw [← checkClaims_proper lib settings provider nonce now claims]
    have hsigned := signedBy_of_key lib provider hkey hverify
    refine or_congr_left (exists_congr fun result => and_congr_right fun _ => ?_)
    constructor
    · rintro ⟨first',second',third',header',sig',hsplit',-,hclaims',-,-,-,hpass⟩
      obtain ⟨rfl,rfl,rfl⟩ : first' = first ∧ second' = second ∧ third' = third := by
        simpa [eq_comm] using hsplit.symm.trans hsplit'
      exact ⟨Except.ok.inj (hclaims.symm.trans hclaims'),hpass⟩
    · rintro ⟨rfl,hpass⟩
      exact ⟨first,second,third,members,sig,hsplit,hheader,hclaims,hsig,halg,hsigned,hpass⟩
  | _ => simp [verifyParts]

/-- A token is verified or refused by `OidcError` exactly if its parts can be read, and its claims if it is signed. -/
theorem verify_proper_iff (idToken : String) : Proper (Verified lib settings provider nonce now idToken)
    (verifyIdToken lib settings provider nonce now idToken) ↔ Readable lib settings provider now idToken := by
  by_cases hparts : ∃ first second third, splitOn '.' idToken = [first,second,third]
  swap
  · have hmalformed : verifyIdToken lib settings provider nonce now idToken = .error (.oidc .malformed) := by
      rw [verifyIdToken]
      split
      · rename_i first second third hsplit
        exact absurd ⟨first,second,third,hsplit⟩ hparts
      · rfl
    rw [hmalformed]
    exact iff_of_true (proper_oidc _) fun first second third hsplit => absurd ⟨first,second,third,hsplit⟩ hparts
  obtain ⟨first,second,third,hsplit⟩ := hparts
  have hreadable : Readable lib settings provider now idToken ↔ ∃ header claims sig,
      loadPart lib first = .ok (.obj header) ∧ loadPart lib second = .ok claims ∧ b64urlDecode third = .ok sig ∧
        (isText (some "RS256") (Json.get header "alg") = true → configured settings = true →
          (∃ key, signingKey provider (Json.get header "kid") = some key ∧ lib.verify key sig (first++"."++second) = true) →
            ClaimsReadable lib settings provider now claims) := by
    refine ⟨fun h => h first second third hsplit,fun h first' second' third' hsplit' => ?_⟩
    obtain ⟨rfl,rfl,rfl⟩ : first' = first ∧ second' = second ∧ third' = third := by
      simpa [eq_comm] using hsplit.symm.trans hsplit'
    exact h
  rw [hreadable]
  simp only [verifyIdToken,hsplit]
  rcases hheader : loadPart lib first with e | header
  · simp
  rcases hclaims : loadPart lib second with e | claims
  · simp
  rcases hsig : b64urlDecode third with e | sig
  · simp
  refine (verifyParts_proper lib settings provider nonce now hsplit hheader hclaims hsig).trans ?_
  constructor
  · rintro ⟨members,rfl,h⟩
    exact ⟨members,claims,sig,rfl,rfl,rfl,h⟩
  · rintro ⟨members,_,_,hobj,hsame,hsame',h⟩
    obtain rfl := Except.ok.inj hsame
    obtain rfl := Except.ok.inj hsame'
    exact ⟨members,Except.ok.inj hobj,h⟩

end Verify

/-- A provider with one key, whose signatures all verify. -/
def openLib : OidcLib Unit := ⟨fun _ => .ok .null,fun _ => none,fun _ _ _ => true⟩

def oneKey : Provider Unit := ⟨some "https://idp",[⟨some "k",some ()⟩],[]⟩

def client : Settings := ⟨some "https://idp",some "biggy"⟩

/-- Three parts that are no base64 are not refused by `OidcError`. -/
theorem token_raises : verifyIdToken openLib client oneKey none 0 "a.b.c" = .error (.other (.valueError "Incorrect padding")) ∧
    ¬Proper (Verified openLib client oneKey none 0 "a.b.c") (verifyIdToken openLib client oneKey none 0 "a.b.c") := by
  have hraises : verifyIdToken openLib client oneKey none 0 "a.b.c" = .error (.other (.valueError "Incorrect padding")) := by rfl
  exact ⟨hraises,hraises ▸ not_proper_other _⟩

end IdToken
end Biggy
