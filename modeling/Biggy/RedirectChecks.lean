import Biggy.SafeNext

/-!
# Two checks of one destination

User mode has a `_safe_next` of its own, which looks at the first two characters of the text as it was sent. The login's
looks at every layer of it. They agree on the paths whose layers hide nothing, and on no others.
-/
namespace Biggy
namespace Redirect

/-- The library as far as both checks rest on it: a slash in front is decoded as a slash, and a path that begins with
one slash and has no control character has no scheme and no host. -/
structure SiteLib extends UrlLib where
  decode_slash : ∀ bytes, decode (47::bytes) = '/'::decode bytes
  urlsplit_path : ∀ s, localPath s = true → urlsplit s = some ("","")

/-- The fields of a request that a destination is read from. -/
structure Request where
  args : List (String × String)
  form : List (String × String)

/-- `request.args.get("next") or request.form.get("next")`. -/
def Request.next (request : Request) : Option String :=
  match request.args.lookup "next" with
  | none => request.form.lookup "next"
  | some nxt => if nxt = "" then request.form.lookup "next" else some nxt

/-- `_safe_next` of user mode. -/
def userSafeNext (default : Option String) (request : Request) : Option String :=
  match request.next with
  | none => default
  | some nxt => if nxt ≠ "" ∧ startsWith nxt "/" = true ∧ startsWith nxt "//" = false then some nxt else default

/-- User mode returns the destination, and not its default. -/
def UserReturns (request : Request) (s : String) : Prop := ∀ default, userSafeNext default request = some s

/-- The login returns the destination, and not the index page. -/
def LoginReturns (lib : UrlLib) (s : String) : Prop := ∀ index, safeNext lib index (some s) = s

/-- A single slash in front. -/
def SingleSlash (s : String) : Prop := startsWith s "/" = true ∧ startsWith s "//" = false

/-- A text that hides nothing: no second slash in front, no backslash and no control character. -/
structure Plain (s : String) : Prop where
  doubled : startsWith s "//" = false
  backslash : '\\' ∉ s.toList
  control : ∀ c ∈ s.toList, 32 ≤ c.toNat ∧ c.toNat ≠ 127

/-! ### User mode -/

theorem userReturns_iff (request : Request) (s : String) :
    UserReturns request s ↔ request.next = some s ∧ SingleSlash s := by
  constructor
  · intro h
    have hnone := h none
    rw [userSafeNext] at hnone
    rcases hnext : request.next with _ | nxt
    · rw [hnext] at hnone
      cases hnone
    · rw [hnext] at hnone
      dsimp only at hnone
      by_cases hpath : nxt ≠ "" ∧ startsWith nxt "/" = true ∧ startsWith nxt "//" = false
      · rw [if_pos hpath] at hnone
        obtain rfl := Option.some.inj hnone
        exact ⟨rfl,hpath.2⟩
      · rw [if_neg hpath] at hnone
        cases hnone
  · rintro ⟨hnext,hslash⟩ default
    have hne : s ≠ "" := by
      rintro rfl
      exact absurd hslash.1 (by decide)
    simp only [userSafeNext,hnext]
    exact if_pos ⟨hne,hslash⟩

/-- Every text with a single slash in front is what some request asks for and gets. -/
theorem userReturns_of_slash {s : String} (h : SingleSlash s) : UserReturns ⟨[("next",s)],[]⟩ s := by
  refine (userReturns_iff _ _).mpr ⟨?_,h⟩
  have hne : s ≠ "" := by
    rintro rfl
    exact absurd h.1 (by decide)
  simp [Request.next,hne]

/-! ### The login -/

theorem loginReturns_iff (lib : UrlLib) (s : String) : LoginReturns lib s ↔ follow lib s = true := by
  constructor
  · intro h
    by_contra hrefused
    have hindex (index : String) : index = s := by
      have hreturn := h index
      rwa [safeNext,if_neg hrefused] at hreturn
    exact absurd ((hindex "").trans (hindex "/").symm) (by decide)
  · intro h index
    rw [safeNext,if_pos h]

theorem slash_iff (s : String) : startsWith s "/" = true ↔ ∃ rest, s.toList = '/'::rest := by
  constructor
  · intro h
    rcases hchars : s.toList with _ | ⟨c,rest⟩
    · simp [startsWith,hchars] at h
    · obtain rfl : '/' = c := by simpa [startsWith,hchars] using h
      exact ⟨rest,rfl⟩
  · rintro ⟨rest,hchars⟩
    simp [startsWith,hchars]

theorem doubled_iff {s : String} {rest : List Char} (hchars : s.toList = '/'::rest) :
    startsWith s "//" = false ↔ rest.head? ≠ some '/' := by
  rcases rest with _ | ⟨c,rest⟩
  · simp [startsWith,hchars]
  · by_cases hc : '/' = c
    · simp [startsWith,hchars,← hc]
    · simp [startsWith,hchars,List.isPrefixOf,hc,Ne.symm hc]

theorem localPath_plain_iff (s : String) : localPath s = true ↔ startsWith s "/" = true ∧ Plain s := by
  simp only [localPath,Bool.and_eq_true,Bool.not_eq_true',List.any_eq_false,Bool.or_eq_true,decide_eq_true_eq,beq_iff_eq,
    not_or,not_lt,List.contains_eq_mem,decide_eq_false_iff_not]
  constructor
  · rintro ⟨⟨⟨hslash,hdouble⟩,hback⟩,hcontrol⟩
    exact ⟨hslash,hdouble,hback,hcontrol⟩
  · rintro ⟨hslash,hplain⟩
    exact ⟨⟨⟨hslash,hplain.doubled⟩,hplain.backslash⟩,hplain.control⟩

theorem passes_of_localPath {lib : UrlLib} {s : String} (h : LocalPath lib s) : passes lib s = true := by
  obtain ⟨rest,hchars,hhead⟩ := h.slash
  have hslash : startsWith s "/" = true := (slash_iff s).mpr ⟨rest,hchars⟩
  have hpath : localPath s = true :=
    (localPath_plain_iff s).mpr ⟨hslash,(doubled_iff hchars).mpr hhead,h.backslash,h.control⟩
  rw [passes,hpath,h.split]
  decide

/-- The loop accepts exactly the destinations whose every layer is a local path. -/
theorem follow_iff (lib : UrlLib) (s : String) : follow lib s = true ↔ ∀ n, LocalPath lib ((unquote lib)^[n] s) := by
  refine ⟨fun h n => layers_local h n,fun h => ?_⟩
  induction s using follow.induct lib with
  | case1 s hpasses hfixed => rw [follow,if_pos hpasses,if_pos hfixed]
  | case2 s hpasses hchanged ih =>
    rw [follow,if_pos hpasses,if_neg hchanged]
    exact ih fun n => h (n+1)
  | case3 s hrefused => exact absurd (passes_of_localPath (h 0)) hrefused

/-! ### Layers of a path -/

theorem unquote_slash (lib : SiteLib) {s : String} (h : startsWith s "/" = true) :
    startsWith (unquote lib.toUrlLib s) "/" = true := by
  obtain ⟨rest,hchars⟩ := (slash_iff s).mp h
  refine (slash_iff _).mpr ⟨lib.decode (unquoteToBytes (rest.takeWhile isAscii))++
    unquoteChars lib.toUrlLib (rest.dropWhile isAscii),?_⟩
  have hascii : isAscii '/' = true := by decide
  have hstep : unquoteToBytes ('/'::rest.takeWhile isAscii) = 47::unquoteToBytes (rest.takeWhile isAscii) := by
    rw [unquoteToBytes]
    · rfl
    · intro a b tail hpercent
      exact absurd hpercent (by decide)
  rw [unquote,String.toList_ofList,hchars,unquoteChars,if_pos hascii,hstep,lib.decode_slash,List.cons_append]

theorem layers_slash (lib : SiteLib) {s : String} (h : startsWith s "/" = true) (n : ℕ) :
    startsWith ((unquote lib.toUrlLib)^[n] s) "/" = true := by
  induction n generalizing s with
  | zero => exact h
  | succ n ih => exact ih (unquote_slash lib h)

theorem localPath_iff (lib : SiteLib) {s : String} (h : startsWith s "/" = true) : LocalPath lib.toUrlLib s ↔ Plain s := by
  obtain ⟨rest,hchars⟩ := (slash_iff s).mp h
  constructor
  · intro hlocal
    obtain ⟨rest',hchars',hhead⟩ := hlocal.slash
    obtain rfl : rest = rest' := (List.cons.inj (hchars.symm.trans hchars')).2
    exact ⟨(doubled_iff hchars).mpr hhead,hlocal.backslash,hlocal.control⟩
  · intro hplain
    have hpath : localPath s = true := (localPath_plain_iff s).mpr ⟨h,hplain⟩
    exact ⟨⟨rest,hchars,(doubled_iff hchars).mp hplain.doubled⟩,hplain.backslash,hplain.control,lib.urlsplit_path s hpath⟩

/-- A text with a slash in front gets through the login exactly when every layer of it is plain. -/
theorem follow_plain (lib : SiteLib) {s : String} (h : startsWith s "/" = true) :
    follow lib.toUrlLib s = true ↔ ∀ n, Plain ((unquote lib.toUrlLib)^[n] s) := by
  rw [follow_iff]
  exact forall_congr' fun n => localPath_iff lib (layers_slash lib h n)

/-! ### The two checks -/

/-- What user mode returns of a request gets through the login exactly when the text has no single slash in front, so
that user mode refuses it too, or every layer of it is plain. -/
theorem checks_agree_iff (lib : SiteLib) (s : String) :
    (∀ request, UserReturns request s → LoginReturns lib.toUrlLib s) ↔
      (¬ SingleSlash s ∨ ∀ n, Plain ((unquote lib.toUrlLib)^[n] s)) := by
  constructor
  · intro h
    by_cases hslash : SingleSlash s
    · have hfollow := (loginReturns_iff _ s).mp (h _ (userReturns_of_slash hslash))
      exact Or.inr ((follow_plain lib hslash.1).mp hfollow)
    · exact Or.inl hslash
  · rintro hplain request huser
    have hslash := ((userReturns_iff request s).mp huser).2
    rcases hplain with hrefused | hplain
    · exact absurd hslash hrefused
    · exact (loginReturns_iff _ s).mpr ((follow_plain lib hslash.1).mpr hplain)

/-- The library on paths: ASCII bytes as their characters, and the host that follows two slashes. -/
def pathLib : SiteLib where
  decode bytes := bytes.map fun byte => if byte < 128 then Char.ofNat byte else Char.ofNat 0xFFFD
  urlsplit s :=
    if startsWith s "//" then
      some ("",String.ofList ((s.toList.drop 2).takeWhile fun c => decide (c ∉ ['/','?','#'])))
    else some ("","")
  decode_length bytes := by rw [List.length_map]
  decode_ascii cs h := by
    rw [List.map_map]
    refine (List.map_congr_left fun c hc => ?_).trans (List.map_id cs)
    simp [h c hc]
  decode_slash _ := rfl
  urlsplit_path s h := by
    have hplain := ((localPath_plain_iff s).mp h).2
    rw [hplain.doubled]
    rfl

/-- A backslash behind the slash, which a browser reads as a second slash, gets through user mode alone. -/
theorem backslash_returned : UserReturns ⟨[("next","/\\evil.example")],[]⟩ "/\\evil.example" ∧
    ¬ LoginReturns pathLib.toUrlLib "/\\evil.example" := by
  refine ⟨userReturns_of_slash ⟨by decide,by decide⟩,fun h => ?_⟩
  have hfollow := (loginReturns_iff _ _).mp h
  have hplain := (follow_plain pathLib (by decide)).mp hfollow 0
  exact absurd hplain.backslash (by decide)

end Redirect
end Biggy
