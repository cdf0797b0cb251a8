import Biggy.Python
import Mathlib.Logic.Function.Iterate

/-!
# The destination after a login

`_safe_next` looks at a destination, decodes it and looks again, until decoding changes nothing. Decoding shortens what it
changes, so it ends, and every layer it has come by is a local path.
-/
namespace Biggy
namespace Redirect

/-- What is called of the library: UTF-8 decoding with replacement of malformed bytes, and the scheme and host of a URL
that splits. -/
structure UrlLib where
  decode : List ℕ → List Char
  urlsplit : String → Option (String × String)
  decode_length : ∀ bytes, (decode bytes).length ≤ bytes.length
  decode_ascii : ∀ cs : List Char, (∀ c ∈ cs, c.toNat < 128) → decode (cs.map Char.toNat) = cs

/-! ### Decoding -/

/-- The value of a hexadecimal digit. -/
def hexDigit (c : Char) : Option ℕ :=
  if '0' ≤ c ∧ c ≤ '9' then some (c.toNat - 48)
  else if 'a' ≤ c ∧ c ≤ 'f' then some (c.toNat - 87)
  else if 'A' ≤ c ∧ c ≤ 'F' then some (c.toNat - 55)
  else none

/-- `_hextobyte`. -/
def hexToByte (a b : Char) : Option ℕ :=
  match hexDigit a, hexDigit b with
  | some x, some y => some (16*x+y)
  | _, _ => none

/-- `unquote_to_bytes` of ASCII characters. -/
def unquoteToBytes : List Char → List ℕ
  | [] => []
  | '%'::a::b::rest =>
    match hexToByte a b with
    | some byte => byte::unquoteToBytes rest
    | none => 37::unquoteToBytes (a::b::rest)
  | c::rest => c.toNat::unquoteToBytes rest

def isAscii (c : Char) : Bool := decide (c.toNat < 128)

/-- `unquote`: the runs of ASCII characters are decoded, the others stay. -/
def unquoteChars (lib : UrlLib) : List Char → List Char
  | [] => []
  | c::cs =>
    if isAscii c then
      lib.decode (unquoteToBytes (c::cs.takeWhile isAscii))++unquoteChars lib (cs.dropWhile isAscii)
    else c::unquoteChars lib cs
termination_by cs => cs.length
decreasing_by
  · exact Nat.lt_succ_of_le (List.dropWhile_sublist _).length_le
  · exact Nat.lt_succ_self _

def unquote (lib : UrlLib) (s : String) : String := String.ofList (unquoteChars lib s.toList)

theorem unquoteToBytes_length (cs : List Char) :
    (unquoteToBytes cs).length ≤ cs.length ∧ ((unquoteToBytes cs).length = cs.length → unquoteToBytes cs = cs.map Char.toNat) := by
  induction cs using unquoteToBytes.induct with
  | case1 => exact ⟨le_rfl,fun _ => rfl⟩
  | case2 a b rest byte hbyte ih =>
    simp only [unquoteToBytes,hbyte,List.length_cons]
    exact ⟨by omega,fun h => by omega⟩
  | case3 a b rest hbyte ih =>
    simp only [unquoteToBytes,hbyte,List.length_cons] at ih ⊢
    refine ⟨by omega,fun h => ?_⟩
    rw [ih.2 (by omega)]
    rfl
  | case4 c rest hplain ih =>
    have hstep : unquoteToBytes (c::rest) = c.toNat::unquoteToBytes rest := by
      rw [unquoteToBytes]
      exact hplain
    rw [hstep,List.length_cons,List.length_cons]
    exact ⟨by omega,fun h => by rw [ih.2 (by omega)]; rfl⟩

/-- A run of ASCII characters gets no longer, and keeps its length only as it is. -/
theorem decode_run (lib : UrlLib) {run : List Char} (hascii : ∀ c ∈ run, isAscii c = true) :
    (lib.decode (unquoteToBytes run)).length ≤ run.length ∧
      ((lib.decode (unquoteToBytes run)).length = run.length → lib.decode (unquoteToBytes run) = run) := by
  have hdecoded := lib.decode_length (unquoteToBytes run)
  obtain ⟨hbytes,hplain⟩ := unquoteToBytes_length run
  refine ⟨hdecoded.trans hbytes,fun h => ?_⟩
  rw [hplain (by omega)]
  exact lib.decode_ascii run fun c hc => by simpa [isAscii] using hascii c hc

theorem unquoteChars_length (lib : UrlLib) (cs : List Char) : (unquoteChars lib cs).length ≤ cs.length ∧
    ((unquoteChars lib cs).length = cs.length → unquoteChars lib cs = cs) := by
  induction cs using unquoteChars.induct with
  | case1 =>
    rw [unquoteChars]
    exact ⟨le_rfl,fun _ => rfl⟩
  | case2 c cs hascii ih =>
    have hrun : ∀ x ∈ c::cs.takeWhile isAscii, isAscii x = true := by
      intro x hx
      rcases List.mem_cons.mp hx with rfl | hx
      · exact hascii
      · exact List.mem_takeWhile_imp hx
    obtain ⟨hle,hsame⟩ := decode_run lib hrun
    have hsplit : cs.takeWhile isAscii++cs.dropWhile isAscii = cs := List.takeWhile_append_dropWhile
    have hlength : (cs.takeWhile isAscii).length+(cs.dropWhile isAscii).length = cs.length := by
      rw [← List.length_append,hsplit]
    rw [unquoteChars,if_pos hascii,List.length_append]
    rw [List.length_cons] at hle hsame ⊢
    refine ⟨by omega,fun h => ?_⟩
    rw [hsame (by omega),ih.2 (by omega),List.cons_append,hsplit]
  | case3 c cs hascii ih =>
    rw [unquoteChars,if_neg hascii,List.length_cons,List.length_cons]
    exact ⟨by omega,fun h => by rw [ih.2 (by omega)]⟩

/-- Decoding shortens whatever it changes. -/
theorem unquote_shorter (lib : UrlLib) {s : String} (h : unquote lib s ≠ s) : (unquote lib s).length < s.length := by
  obtain ⟨hle,hsame⟩ := unquoteChars_length lib s.toList
  rw [unquote,String.length_ofList,← String.length_toList]
  refine lt_of_le_of_ne hle fun heq => h ?_
  rw [unquote,hsame heq,String.ofList_toList]

/-! ### Following the layers -/

/-- The tests on the text of a layer. -/
def localPath (candidate : String) : Bool :=
  startsWith candidate "/" && !startsWith candidate "//" && !candidate.toList.contains '\\' &&
    !candidate.toList.any fun c => decide (c.toNat < 32) || c.toNat == 127

/-- A layer passes: it is a local path without a scheme and a host. -/
def passes (lib : UrlLib) (candidate : String) : Bool :=
  localPath candidate && match lib.urlsplit candidate with
    | none => false
    | some (scheme,netloc) => scheme == "" && netloc == ""

/-- The loop of `_safe_next`: every layer passes. -/
def follow (lib : UrlLib) (candidate : String) : Bool :=
  if passes lib candidate then
    if unquote lib candidate = candidate then true else follow lib (unquote lib candidate)
  else false
termination_by candidate.length
decreasing_by exact unquote_shorter lib ‹_›

/-- `_safe_next`, with the URL of the index page. -/
def safeNext (lib : UrlLib) (index : String) : Option String → String
  | none => index
  | some destination => if follow lib destination then destination else index

/-- A local absolute path: a single slash in front, no backslash and no control character, no scheme and no host. -/
structure LocalPath (lib : UrlLib) (s : String) : Prop where
  slash : ∃ rest, s.toList = '/'::rest ∧ rest.head? ≠ some '/'
  backslash : '\\' ∉ s.toList
  control : ∀ c ∈ s.toList, 32 ≤ c.toNat ∧ c.toNat ≠ 127
  split : lib.urlsplit s = some ("","")

theorem localPath_of_passes {lib : UrlLib} {s : String} (h : passes lib s = true) : LocalPath lib s := by
  simp only [passes,localPath,Bool.and_eq_true,Bool.not_eq_true'] at h
  obtain ⟨⟨⟨⟨hslash,hdouble⟩,hback⟩,hcontrol⟩,hsplit⟩ := h
  refine ⟨?_,by simpa using hback,fun c hc => ?_,?_⟩
  · rcases hchars : s.toList with _ | ⟨c,rest⟩
    · simp [startsWith,hchars] at hslash
    · obtain rfl : '/' = c := by simpa [startsWith,hchars] using hslash
      refine ⟨rest,rfl,fun hhead => ?_⟩
      rcases rest with _ | ⟨d,rest⟩
      · cases hhead
      · obtain rfl := Option.some.inj hhead
        simp [startsWith,hchars] at hdouble
  · have hplain := List.any_eq_false.mp hcontrol c hc
    simp only [Bool.or_eq_true,decide_eq_true_eq,beq_iff_eq,not_or,not_lt] at hplain
    exact hplain
  · split at hsplit
    · cases hsplit
    · rename_i scheme netloc hurl
      obtain ⟨hscheme,hnetloc⟩ : scheme = "" ∧ netloc = "" := by simpa using hsplit
      rw [hurl,hscheme,hnetloc]

/-- Every layer of a destination that is followed to its end is a local path. -/
theorem layers_local {lib : UrlLib} {s : String} (h : follow lib s = true) (n : ℕ) : LocalPath lib ((unquote lib)^[n] s) := by
  induction s using follow.induct lib generalizing n with
  | case1 s hpasses hfixed =>
    rw [Function.iterate_fixed hfixed]
    exact localPath_of_passes hpasses
  | case2 s hpasses hchanged ih =>
    rw [follow,if_pos hpasses,if_neg hchanged] at h
    cases n with
    | zero => exact localPath_of_passes hpasses
    | succ n => exact ih h n
  | case3 s hrefused =>
    rw [follow,if_neg hrefused] at h
    cases h

/-- The destination is the index page, or one that is a local path however often it is decoded. -/
theorem safeNext_local (lib : UrlLib) (index : String) (destination : Option String) :
    safeNext lib index destination = index ∨ ∃ s, destination = some s ∧ safeNext lib index destination = s ∧
      ∀ n, LocalPath lib ((unquote lib)^[n] s) := by
  rcases destination with _ | s
  · exact Or.inl rfl
  · rw [safeNext]
    split
    · rename_i hfollow
      exact Or.inr ⟨s,rfl,rfl,layers_local hfollow⟩
    · exact Or.inl rfl

end Redirect
end Biggy
