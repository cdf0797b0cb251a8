import Biggy.Run
import Biggy.Keyed
import Biggy.Python

/-!
# Single sign-on

An identity of the provider is its subject. `_map_oidc_user` takes the account that is linked to the subject, links
the account with the claimed user name otherwise, and creates one where the settings allow it.
-/
namespace Biggy
namespace Oidc

open Run

structure AppUser where
  id : ℕ
  username : String
  oidcSubject : Option String
  isActive : Bool

variable (fold : String → String)

/-- The accounts. `fold` gives one text for all the texts that the collation of the database takes for equal; user names
and subjects are unique columns. -/
structure Users where
  rows : List AppUser
  idsNodup : (rows.map AppUser.id).Nodup
  namesUnique : ∀ u ∈ rows, ∀ v ∈ rows, fold u.username = fold v.username → u.id = v.id
  subjectsUnique : ∀ u ∈ rows, ∀ v ∈ rows, ∀ s t, u.oidcSubject = some s → v.oidcSubject = some t → fold s = fold t → u.id = v.id

/-- The verified claims, and the settings at the time of the sign-in. -/
structure SignIn where
  claims : List (String × String)
  usernameClaim : String
  provision : String

/-- `claims.get(name)`, where a blank text counts as none. -/
def SignIn.claim (i : SignIn) (name : String) : Option String := (i.claims.lookup name).filter fun s => decide (s ≠ "")

def SignIn.sub (i : SignIn) : Option String := i.claim "sub"

def SignIn.uname (i : SignIn) : Option String :=
  ((i.claim i.usernameClaim).or (i.claim "email")).or (i.claim "preferred_username")

variable {fold}

namespace Users

def bySubject (users : Users fold) (sub : String) : Option AppUser :=
  Keyed.find (fun u => u.oidcSubject.map fold) (some (fold sub)) users.rows

def byUsername (users : Users fold) (name : String) : Option AppUser :=
  Keyed.find (fun u => fold u.username) (fold name) users.rows

def freshId (users : Users fold) : ℕ := (users.rows.map AppUser.id).foldr max 0+1

/-- The account is linked to the subject. -/
def Linked (users : Users fold) (id : ℕ) (s : String) : Prop := ∃ u ∈ users.rows, u.id = id ∧ u.oidcSubject = some s

theorem eq_of_id {users : Users fold} {u v : AppUser} (hu : u ∈ users.rows) (hv : v ∈ users.rows) (h : u.id = v.id) : u = v := by
  have hfind := Keyed.find_of_mem users.idsNodup hu
  rw [h,Keyed.find_of_mem users.idsNodup hv] at hfind
  exact (Option.some.inj hfind).symm

theorem bySubject_none {users : Users fold} {sub : String} (h : users.bySubject sub = none) :
    ∀ u ∈ users.rows, ∀ s, u.oidcSubject = some s → fold s ≠ fold sub := by
  intro u hu s hs hfold
  exact Keyed.find_eq_none.mp h u hu (by rw [hs,Option.map_some,hfold])

theorem bySubject_some {users : Users fold} {sub : String} {u : AppUser} (h : users.bySubject sub = some u) :
    u ∈ users.rows ∧ ∃ s, u.oidcSubject = some s ∧ fold s = fold sub := by
  have hkey := Keyed.key_of_find h
  obtain ⟨s,hs,hfold⟩ := Option.map_eq_some_iff.mp hkey
  exact ⟨Keyed.mem_of_find h,s,hs,hfold⟩

theorem byUsername_none {users : Users fold} {name : String} (h : users.byUsername name = none) :
    ∀ u ∈ users.rows, fold u.username ≠ fold name := Keyed.find_eq_none.mp h

theorem byUsername_some {users : Users fold} {name : String} {u : AppUser} (h : users.byUsername name = some u) :
    u ∈ users.rows := Keyed.mem_of_find h

theorem lt_freshId {users : Users fold} {u : AppUser} (hu : u ∈ users.rows) : u.id < users.freshId := by
  have hmax : ∀ ids : List ℕ, ∀ id ∈ ids, id ≤ ids.foldr max 0 := by
    intro ids
    induction ids with
    | nil => simp
    | cons n ids ih =>
      intro id hid
      rw [List.foldr_cons]
      rcases List.mem_cons.mp hid with rfl | hid
      · omega
      · have := ih id hid
        omega
  have hle := hmax (users.rows.map AppUser.id) u.id (List.mem_map_of_mem hu)
  rw [freshId]
  omega

/-- `user.oidc_subject = sub` in the row of the account. -/
def relink (id : ℕ) (sub : String) (u : AppUser) : AppUser := if u.id = id then { u with oidcSubject := some sub } else u

@[simp] theorem relink_id (id : ℕ) (sub : String) (u : AppUser) : (relink id sub u).id = u.id := by
  rw [relink]
  split <;> rfl

@[simp] theorem relink_username (id : ℕ) (sub : String) (u : AppUser) : (relink id sub u).username = u.username := by
  rw [relink]
  split <;> rfl

theorem relink_subject {id : ℕ} {sub s : String} {u : AppUser} (h : (relink id sub u).oidcSubject = some s) :
    (u.id = id ∧ s = sub) ∨ u.oidcSubject = some s := by
  rw [relink] at h
  split at h
  · rename_i hid
    exact Or.inl ⟨hid,(Option.some.inj h).symm⟩
  · exact Or.inr h

/-- No other account has the subject, so the unique column takes it. -/
def link (users : Users fold) (id : ℕ) (sub : String) (hfree : users.bySubject sub = none) : Users fold where
  rows := users.rows.map (relink id sub)
  idsNodup := by
    rw [Keyed.map_key_map (relink_id id sub)]
    exact users.idsNodup
  namesUnique := by
    simp only [List.forall_mem_map,relink_id,relink_username]
    exact users.namesUnique
  subjectsUnique := by
    simp only [List.forall_mem_map,relink_id]
    intro u hu v hv s t hs ht hfold
    rcases relink_subject hs with ⟨hid,rfl⟩ | hs' <;> rcases relink_subject ht with ⟨hid',rfl⟩ | ht'
    · rw [hid,hid']
    · exact absurd hfold.symm (bySubject_none hfree v hv t ht')
    · exact absurd hfold (bySubject_none hfree u hu s hs')
    · exact users.subjectsUnique u hu v hv s t hs' ht' hfold

/-- The account that is created at the first sign-in. -/
def newUser (users : Users fold) (name sub : String) : AppUser := ⟨users.freshId,name,some sub,true⟩

/-- No account has the user name or the subject, so the unique columns take them. -/
def add (users : Users fold) (name sub : String) (hname : users.byUsername name = none) (hfree : users.bySubject sub = none) :
    Users fold where
  rows := users.rows++[users.newUser name sub]
  idsNodup := by
    rw [List.map_append,List.nodup_append]
    refine ⟨users.idsNodup,by simp,fun id hid id' hid' => ?_⟩
    obtain ⟨u,hu,rfl⟩ := List.mem_map.mp hid
    rw [List.map_singleton,List.mem_singleton] at hid'
    rw [hid']
    exact Nat.ne_of_lt (lt_freshId hu)
  namesUnique := by
    intro u hu v hv hfold
    rcases List.mem_append.mp hu with hu | hu <;> rcases List.mem_append.mp hv with hv | hv
    · exact users.namesUnique u hu v hv hfold
    · rw [List.mem_singleton.mp hv] at hfold
      exact absurd hfold (byUsername_none hname u hu)
    · rw [List.mem_singleton.mp hu] at hfold
      exact absurd hfold.symm (byUsername_none hname v hv)
    · rw [List.mem_singleton.mp hu,List.mem_singleton.mp hv]
  subjectsUnique := by
    intro u hu v hv s t hs ht hfold
    rcases List.mem_append.mp hu with hu | hu <;> rcases List.mem_append.mp hv with hv | hv
    · exact users.subjectsUnique u hu v hv s t hs ht hfold
    · rw [List.mem_singleton.mp hv] at ht
      obtain rfl := Option.some.inj ht
      exact absurd hfold (bySubject_none hfree u hu s hs)
    · rw [List.mem_singleton.mp hu] at hs
      obtain rfl := Option.some.inj hs
      exact absurd hfold.symm (bySubject_none hfree v hv t ht)
    · rw [List.mem_singleton.mp hu,List.mem_singleton.mp hv]

end Users

/-- `_map_oidc_user`: the account of the verified claims, and the accounts as they are then. -/
def mapOidcUser (users : Users fold) (i : SignIn) : Option AppUser × Users fold :=
  match i.sub with
  | none => (none,users)
  | some sub => match hfree : users.bySubject sub with
    | some user => (some user,users)
    | none => match i.uname with
      | none => (none,users)
      | some name => match hname : users.byUsername name with
        | some user => (some { user with oidcSubject := some sub },users.link user.id sub hfree)
        | none => if i.provision = "jit" then (some (users.newUser name sub),users.add name sub hname hfree) else (none,users)

def step (users : Users fold) (i : SignIn) : Users fold := (mapOidcUser users i).2

/-- The account that `oidc_callback` establishes the session of. -/
def establishSession (users : Users fold) (i : SignIn) : Option ℕ :=
  ((mapOidcUser users i).1.filter AppUser.isActive).map AppUser.id

/-- A sign-in leaves every account that is linked to another subject alone. -/
def Keeps (users : Users fold) (i : SignIn) : Prop :=
  ∀ id s, users.Linked id s → i.sub ≠ some s → (step users i).Linked id s ∧ establishSession users i ≠ some id

/-- A subject that the database does not tell apart from that of an active account is that very subject, and where no
account is linked to the subject, the account with the claimed user name is not linked to another one. -/
def Fits (users : Users fold) (i : SignIn) : Prop :=
  ∀ sub, i.sub = some sub →
    (∀ user, users.bySubject sub = some user → user.isActive = true → user.oidcSubject = some sub) ∧
      (users.bySubject sub = none → ∀ name, i.uname = some name → ∀ user, users.byUsername name = some user → user.oidcSubject = none)

section Cases

variable {users : Users fold} {i : SignIn} {sub name : String} {user : AppUser}

theorem map_known (hsub : i.sub = some sub) (hknown : users.bySubject sub = some user) : mapOidcUser users i = (some user,users) := by
  simp only [mapOidcUser,hsub]
  split
  · rename_i heq
    rw [hknown] at heq
    rw [Option.some.inj heq]
  · rename_i heq
    rw [hknown] at heq
    cases heq

theorem map_link (hsub : i.sub = some sub) (hfree : users.bySubject sub = none) (huname : i.uname = some name)
    (hnamed : users.byUsername name = some user) :
    mapOidcUser users i = (some { user with oidcSubject := some sub },users.link user.id sub hfree) := by
  simp only [mapOidcUser,hsub,huname]
  split
  · rename_i heq
    rw [hfree] at heq
    cases heq
  · split
    · rename_i heq
      rw [hnamed] at heq
      obtain rfl := Option.some.inj heq
      rfl
    · rename_i heq
      rw [hnamed] at heq
      cases heq

/-- Where neither the subject nor the user name has an account, the accounts stay and a new one may come to them. -/
theorem map_new (hnew : ∀ sub, i.sub = some sub → users.bySubject sub = none ∧
      ∀ name, i.uname = some name → users.byUsername name = none) :
    mapOidcUser users i = (none,users) ∨ ∃ new, (mapOidcUser users i).1 = some new ∧
      (∀ u ∈ users.rows, u.id ≠ new.id) ∧ (mapOidcUser users i).2.rows = users.rows++[new] := by
  unfold mapOidcUser
  split
  · exact Or.inl rfl
  · rename_i sub hsub
    split
    · rename_i heq
      rw [(hnew sub hsub).1] at heq
      cases heq
    · split
      · exact Or.inl rfl
      · rename_i name huname
        split
        · rename_i heq
          rw [(hnew sub hsub).2 name huname] at heq
          cases heq
        · split
          · exact Or.inr ⟨_,rfl,fun u hu => Nat.ne_of_lt (Users.lt_freshId hu),rfl⟩
          · exact Or.inl rfl

end Cases

/-- An account keeps its subject but where it is linked anew. -/
theorem linked_link {users : Users fold} {id id' : ℕ} {sub s : String} (hfree : users.bySubject sub = none)
    (h : users.Linked id s) (hid : id ≠ id') : (users.link id' sub hfree).Linked id s := by
  obtain ⟨u,hu,rfl,hs⟩ := h
  exact ⟨u,List.mem_map.mpr ⟨u,hu,if_neg hid⟩,rfl,hs⟩

/-- An account that is linked anew has the new subject only. -/
theorem not_linked_link {users : Users fold} {id : ℕ} {sub s : String} (hfree : users.bySubject sub = none) (hs : s ≠ sub) :
    ¬(users.link id sub hfree).Linked id s := by
  rintro ⟨u,hu,hid,hlinked⟩
  obtain ⟨v,hv,rfl⟩ := List.mem_map.mp hu
  rw [Users.relink_id] at hid
  rw [Users.relink,if_pos hid] at hlinked
  exact hs (Option.some.inj hlinked).symm

/-- A sign-in leaves the accounts with another subject alone exactly when it fits them. -/
theorem keeps_iff_fits (users : Users fold) (i : SignIn) : Keeps users i ↔ Fits users i := by
  constructor
  · intro hkeeps sub hsub
    refine ⟨fun user hknown hactive => ?_,fun hfree name huname user hnamed => ?_⟩
    · obtain ⟨hmem,s,hs,-⟩ := Users.bySubject_some hknown
      by_contra hother
      have hdiffer : i.sub ≠ some s := by
        rw [hsub,← hs]
        exact fun h => hother h.symm
      apply (hkeeps user.id s ⟨user,hmem,rfl,hs⟩ hdiffer).2
      rw [establishSession,map_known hsub hknown,Option.filter_some,if_pos hactive,Option.map_some]
    · cases hs : user.oidcSubject with
      | none => rfl
      | some s =>
        have hmem := Users.byUsername_some hnamed
        have hdiffer : s ≠ sub := by
          rintro rfl
          exact Users.bySubject_none hfree user hmem s hs rfl
        have hkept := (hkeeps user.id s ⟨user,hmem,rfl,hs⟩ (by rw [hsub]; exact fun h => hdiffer (Option.some.inj h).symm)).1
        rw [step,map_link hsub hfree huname hnamed] at hkept
        exact absurd hkept (not_linked_link hfree hdiffer)
  · intro hfits id s hlinked hdiffer
    obtain ⟨u,hu,rfl,hs⟩ := hlinked
    by_cases hnew : ∀ sub, i.sub = some sub → users.bySubject sub = none ∧ ∀ name, i.uname = some name → users.byUsername name = none
    · rcases map_new hnew with hmap | ⟨new,hnewUser,hfresh,hrows⟩
      · rw [step,establishSession,hmap]
        exact ⟨⟨u,hu,rfl,hs⟩,nofun⟩
      · refine ⟨⟨u,by rw [step,hrows]; exact List.mem_append_left _ hu,rfl,hs⟩,fun hsession => ?_⟩
        rw [establishSession,hnewUser] at hsession
        obtain ⟨v,hv,hid⟩ := Option.map_eq_some_iff.mp hsession
        obtain ⟨hv,-⟩ := Option.filter_eq_some_iff.mp hv
        obtain rfl := Option.some.inj hv
        exact hfresh u hu hid.symm
    · push Not at hnew
      obtain ⟨sub,hsub,hnew⟩ := hnew
      obtain ⟨hknownFits,hnamedFits⟩ := hfits sub hsub
      cases hfree : users.bySubject sub with
      | some user =>
        rw [step,establishSession,map_known hsub hfree]
        refine ⟨⟨u,hu,rfl,hs⟩,fun hsession => ?_⟩
        obtain ⟨v,hv,hid⟩ := Option.map_eq_some_iff.mp hsession
        obtain ⟨hv,hactive⟩ := Option.filter_eq_some_iff.mp hv
        obtain rfl := Option.some.inj hv
        obtain rfl := Users.eq_of_id (Users.bySubject_some hfree).1 hu hid
        rw [hknownFits user hfree hactive] at hs
        exact hdiffer (hsub.trans hs)
      | none =>
        obtain ⟨name,huname,hnamed⟩ := hnew hfree
        obtain ⟨user,hnamed⟩ := Option.ne_none_iff_exists'.mp hnamed
        have hunlinked := hnamedFits hfree name huname user hnamed
        have hid : u.id ≠ user.id := by
          intro hid
          obtain rfl := Users.eq_of_id hu (Users.byUsername_some hnamed) hid
          rw [hunlinked] at hs
          cases hs
        rw [step,establishSession,map_link hsub hfree huname hnamed]
        refine ⟨linked_link hfree ⟨u,hu,rfl,hs⟩ hid,fun hsession => ?_⟩
        obtain ⟨v,hv,hvid⟩ := Option.map_eq_some_iff.mp hsession
        obtain ⟨hv,-⟩ := Option.filter_eq_some_iff.mp hv
        obtain rfl := Option.some.inj hv
        exact hid hvid.symm

/-- A sign-in with the subject of an account finds that account, and changes none. -/
theorem linked_own {users : Users fold} {i : SignIn} {id : ℕ} {s : String} (h : users.Linked id s) (hsub : i.sub = some s) :
    (step users i).Linked id s := by
  obtain ⟨u,hu,hid,hs⟩ := h
  cases hknown : users.bySubject s with
  | none => exact absurd rfl (Users.bySubject_none hknown u hu s hs)
  | some user =>
    rw [step,map_known hsub hknown]
    exact ⟨u,hu,hid,hs⟩

theorem linked_exec {users : Users fold} {id : ℕ} {s : String} {is : List SignIn} (h : users.Linked id s)
    (hrun : Meets step Keeps users is) : (exec step users is).Linked id s := by
  refine invariant (fun users => Users.Linked users id s) (fun users i hlinked hkeeps => ?_) h hrun
  by_cases hsub : i.sub = some s
  · exact linked_own hlinked hsub
  · exact (hkeeps id s hlinked hsub).1

/-- Once an account is linked to a subject, no later sign-in with another one changes the link or gets the account. -/
def Permanent (users : Users fold) (is : List SignIn) : Prop :=
  ∀ before mid i after, is = before++(mid++i::after) → ∀ id s, (exec step users before).Linked id s → i.sub ≠ some s →
    (exec step users (before++(mid++[i]))).Linked id s ∧ establishSession (exec step users (before++mid)) i ≠ some id

theorem permanent_iff (users : Users fold) (is : List SignIn) : Permanent users is ↔ Meets step Fits users is := by
  rw [← meets_congr (fun _ => True) (fun _ _ _ => trivial) (fun users i _ => keeps_iff_fits users i) trivial is]
  constructor
  · intro hpermanent
    refine meets_iff_splits.mpr fun before i after hsplit id s hlinked hsub => ?_
    have h := hpermanent before [] i after hsplit id s hlinked hsub
    rw [List.nil_append,exec_append,List.append_nil] at h
    exact h
  · rintro hrun before mid i after rfl id s hlinked hsub
    obtain ⟨-,hrun⟩ := (meets_append _ _ _ _ _).mp hrun
    obtain ⟨hmid,hi,-⟩ := (meets_append _ _ _ _ _).mp hrun
    have hmidLinked := linked_exec hlinked hmid
    rw [exec_append,exec_append,exec_append]
    exact hi id s hmidLinked hsub

/-- One account that is linked. -/
def sampleUsers : Users id where
  rows := [⟨1,"ann@example.com",some "subject-1",true⟩]
  idsNodup := by simp
  namesUnique := by simp
  subjectsUnique := by simp

/-- Another identity with the user name of a linked account takes that account over. -/
theorem account_taken_over : ¬∀ (fold : String → String) (users : Users fold) (is : List SignIn), Permanent users is := by
  intro h
  have hkept := h id sampleUsers [⟨[("sub","subject-2"),("email","ann@example.com")],"email","link"⟩] [] []
    ⟨[("sub","subject-2"),("email","ann@example.com")],"email","link"⟩ [] rfl 1 "subject-1" ⟨_,List.mem_singleton_self _,rfl,rfl⟩
    (by decide)
  exact hkept.2 rfl

end Oidc
end Biggy
