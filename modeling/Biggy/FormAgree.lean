import Biggy.FormScript
import Biggy.FormTrust
import Mathlib.Data.List.Infix

/-!
# Where browser and server agree

Both engines run along an order of the references, so their states are read off solutions of
their rules; the solutions are the same when the leaves of the rules read alike.
-/
namespace Biggy
namespace FormRules

open Numerals Dependency

/-! ### Numbers -/

section Numbers

/-- The comparison of the digits when both numbers have one sign. -/
def compareDigits (a b : ScriptDecimal) : ℤ :=
  if a.magnitude ≠ b.magnitude then if b.magnitude < a.magnitude then 1 else -1
  else
    let n := max a.digits.length b.digits.length
    if pad n a.digits = pad n b.digits then 0 else if pad n b.digits < pad n a.digits then 1 else -1

variable {x y : Numeral}

theorem compareDigits_cases (hx : ∀ d ∈ x.digits, d < 10) (hy : ∀ d ∈ y.digits, d < 10) (hxs : x.significant ≠ [])
    (hys : y.significant ≠ []) :
    (x.magnitude < y.magnitude ∧ compareDigits (ofNumeral x) (ofNumeral y) = -1) ∨
      (x.magnitude = y.magnitude ∧ compareDigits (ofNumeral x) (ofNumeral y) = 0) ∨
        (y.magnitude < x.magnitude ∧ compareDigits (ofNumeral x) (ofNumeral y) = 1) := by
  have hpx : (ofNumeral x).magnitude = x.point := rfl
  have hpy : (ofNumeral y).magnitude = y.point := rfl
  have hdx : (ofNumeral x).digits = x.significant := rfl
  have hdy : (ofNumeral y).digits = y.significant := rfl
  simp only [compareDigits,hpx,hpy,hdx,hdy]
  rcases lt_trichotomy x.point y.point with hlt | heq | hgt
  · exact Or.inl ⟨magnitude_lt_of_point hx hys hlt,by rw [if_pos hlt.ne,if_neg hlt.not_gt]⟩
  · have hxn : x.significant.length ≤ max x.significant.length y.significant.length := le_max_left _ _
    have hyn : y.significant.length ≤ max x.significant.length y.significant.length := le_max_right _ _
    have hless := magnitude_lt_iff hx hy heq hxn hyn
    have hmore := magnitude_lt_iff hy hx heq.symm hyn hxn
    rw [if_neg (not_not_intro heq)]
    by_cases hsame : pad (max x.significant.length y.significant.length) x.significant =
        pad (max x.significant.length y.significant.length) y.significant
    · have hmag : x.magnitude = y.magnitude := by rw [magnitude_pad hxn,magnitude_pad hyn,hsame,heq]
      exact Or.inr (Or.inl ⟨hmag,by rw [if_pos hsame]⟩)
    · rw [if_neg hsame]
      by_cases hbelow : pad (max x.significant.length y.significant.length) y.significant <
          pad (max x.significant.length y.significant.length) x.significant
      · exact Or.inr (Or.inr ⟨hmore.mpr hbelow,by rw [if_pos hbelow]⟩)
      · have habove : pad (max x.significant.length y.significant.length) x.significant <
            pad (max x.significant.length y.significant.length) y.significant := by
          rcases lt_trichotomy (pad (max x.significant.length y.significant.length) x.significant)
            (pad (max x.significant.length y.significant.length) y.significant) with h | h | h
          · exact h
          · exact absurd h hsame
          · exact absurd h hbelow
        exact Or.inl ⟨hless.mpr habove,by rw [if_neg hbelow]⟩
  · exact Or.inr (Or.inr ⟨magnitude_lt_of_point hy hxs hgt,by rw [if_pos hgt.ne',if_pos hgt]⟩)

theorem compare_sign (a b : ScriptDecimal) : compare a b =
    if a.sign ≠ b.sign then (if b.sign < a.sign then 1 else -1)
    else if a.sign = 0 then 0 else compareDigits a b*a.sign := by
  simp only [compare,compareDigits]
  split_ifs <;> simp

/-- What the sign of a numeral says about its value. -/
theorem sign_cases (x : Numeral) : ((ofNumeral x).sign = 0 ∧ x.significant = [] ∧ x.toRat = 0) ∨
    ((ofNumeral x).sign = -1 ∧ x.significant ≠ [] ∧ x.toRat = -x.magnitude ∧ x.toRat < 0) ∨
      ((ofNumeral x).sign = 1 ∧ x.significant ≠ [] ∧ x.toRat = x.magnitude ∧ 0 < x.toRat) := by
  by_cases hs : x.significant = []
  · exact Or.inl ⟨by simp [ofNumeral,hs],hs,by simp [Numeral.toRat,magnitude_eq_zero hs]⟩
  · have hpos := magnitude_pos hs
    cases hneg : x.negative with
    | true => exact Or.inr (Or.inl ⟨by simp [ofNumeral,hs,hneg],hs,by simp [Numeral.toRat,hneg],
        by simpa [Numeral.toRat,hneg] using hpos⟩)
    | false => exact Or.inr (Or.inr ⟨by simp [ofNumeral,hs,hneg],hs,by simp [Numeral.toRat,hneg],
        by simpa [Numeral.toRat,hneg] using hpos⟩)

/-- The script compares numerals like their values. -/
theorem compare_cases (hx : ∀ d ∈ x.digits, d < 10) (hy : ∀ d ∈ y.digits, d < 10) :
    (x.toRat < y.toRat ∧ compare (ofNumeral x) (ofNumeral y) < 0) ∨
      (x.toRat = y.toRat ∧ compare (ofNumeral x) (ofNumeral y) = 0) ∨
        (y.toRat < x.toRat ∧ 0 < compare (ofNumeral x) (ofNumeral y)) := by
  rw [compare_sign]
  rcases sign_cases x with ⟨hsx,-,hvx⟩ | ⟨hsx,hnx,hvx,hx0⟩ | ⟨hsx,hnx,hvx,hx0⟩ <;>
    rcases sign_cases y with ⟨hsy,-,hvy⟩ | ⟨hsy,hny,hvy,hy0⟩ | ⟨hsy,hny,hvy,hy0⟩ <;>
    rw [hsx,hsy]
  · exact Or.inr (Or.inl ⟨by rw [hvx,hvy],by simp⟩)
  · exact Or.inr (Or.inr ⟨by rw [hvx]; exact hy0,by simp⟩)
  · exact Or.inl ⟨by rw [hvx]; exact hy0,by simp⟩
  · exact Or.inl ⟨by rw [hvy]; exact hx0,by simp⟩
  · rcases compareDigits_cases hx hy hnx hny with ⟨h,hc⟩ | ⟨h,hc⟩ | ⟨h,hc⟩
    · exact Or.inr (Or.inr ⟨by rw [hvx,hvy]; exact neg_lt_neg h,by simp [hc]⟩)
    · exact Or.inr (Or.inl ⟨by rw [hvx,hvy,h],by simp [hc]⟩)
    · exact Or.inl ⟨by rw [hvx,hvy]; exact neg_lt_neg h,by simp [hc]⟩
  · exact Or.inl ⟨hx0.trans hy0,by simp⟩
  · exact Or.inr (Or.inr ⟨by rw [hvy]; exact hx0,by simp⟩)
  · exact Or.inr (Or.inr ⟨hy0.trans hx0,by simp⟩)
  · rcases compareDigits_cases hx hy hnx hny with ⟨h,hc⟩ | ⟨h,hc⟩ | ⟨h,hc⟩
    · exact Or.inl ⟨by rw [hvx,hvy]; exact h,by simp [hc]⟩
    · exact Or.inr (Or.inl ⟨by rw [hvx,hvy,h],by simp [hc]⟩)
    · exact Or.inr (Or.inr ⟨by rw [hvx,hvy]; exact h,by simp [hc]⟩)

theorem test_compare (hx : ∀ d ∈ x.digits, d < 10) (hy : ∀ d ∈ y.digits, d < 10) (op : Op) :
    op.test (compare (ofNumeral x) (ofNumeral y)) 0 = op.test x.toRat y.toRat := by
  rcases compare_cases hx hy with ⟨h,hc⟩ | ⟨h,hc⟩ | ⟨h,hc⟩
  · cases op <;> simp [Op.test,h,hc,h.ne,hc.ne,h.not_gt,hc.not_gt]
  · cases op <;> simp [Op.test,h,hc]
  · cases op <;> simp [Op.test,h,hc,h.ne',hc.ne',h.not_gt,hc.not_gt]

/-- The number that the script reads in a text. -/
def scriptNumber (s : String) : Option ℚ := (parse asciiDigit (trim s)).map Numeral.toRat

theorem scriptNumber_empty : scriptNumber "" = none := rfl

/-- Numbers of the script compare like those of the texts. -/
theorem scriptTest_number {op : Op} (hop : op ≠ .empty ∧ op ≠ .notEmpty ∧ op ≠ .contains) (a b : String) :
    scriptTest true op a b = op.testNumbers (scriptNumber a) (scriptNumber b) := by
  have hnumeric : scriptTest true op a b =
      if a = "" ∨ b = "" then false
      else ((scriptDecimal a).bind fun x => (scriptDecimal b).map fun y => op.test (compare x y) 0).getD false := by
    cases op with
    | empty => exact absurd rfl hop.1
    | notEmpty => exact absurd rfl hop.2.1
    | contains => exact absurd rfl hop.2.2
    | _ =>
      simp only [scriptTest,if_true]
      cases scriptDecimal a <;> cases scriptDecimal b <;> rfl
  rw [hnumeric]
  by_cases hempty : a = "" ∨ b = ""
  · rw [if_pos hempty]
    rcases hempty with rfl | rfl
    · rw [scriptNumber_empty,Op.testNumbers]
      simp
    · rw [scriptNumber_empty]
      cases scriptNumber a <;> rfl
  · rw [if_neg hempty]
    cases ha : parse asciiDigit (trim a) with
    | none => simp [scriptNumber,scriptDecimal,ha,Op.testNumbers]
    | some x =>
      cases hb : parse asciiDigit (trim b) with
      | none => simp [scriptNumber,scriptDecimal,ha,hb,Op.testNumbers]
      | some y =>
        simp only [scriptNumber,scriptDecimal,ha,hb,Option.map_some,Option.bind_some,Option.getD_some]
        exact test_compare (parse_lt ha) (parse_lt hb) op

end Numbers

/-! ### Texts -/

section Texts

theorem any_tails_iff {α : Type*} [BEq α] [LawfulBEq α] {xs ys : List α} :
    (ys.tails.any fun suffix => xs.isPrefixOf suffix) = true ↔ xs <:+: ys := by
  rw [List.any_eq_true,List.infix_iff_prefix_suffix]
  constructor
  · rintro ⟨suffix,hmem,hpre⟩
    exact ⟨suffix,List.isPrefixOf_iff_prefix.mp hpre,(List.mem_tails _ _).mp hmem⟩
  · rintro ⟨suffix,hpre,hsuffix⟩
    exact ⟨suffix,(List.mem_tails _ _).mpr hsuffix,List.isPrefixOf_iff_prefix.mpr hpre⟩

/-- `includes` is `in`. -/
theorem includes_eq (a b : String) : includes a b = isIn b a := by
  rw [Bool.eq_iff_iff,includes,isIn,any_tails_iff,any_tails_iff]
  exact Utf16.encode_infix

/-- The units of two texts are in the order of their characters. -/
def SameOrder (a b : String) : Prop :=
  (a < b ↔ Utf16.encode a.toList < Utf16.encode b.toList) ∧ (b < a ↔ Utf16.encode b.toList < Utf16.encode a.toList)

theorem encode_eq_iff {a b : String} : Utf16.encode a.toList = Utf16.encode b.toList ↔ a = b :=
  ⟨fun h => String.toList_injective (Utf16.encode_injective h),fun h => h ▸ rfl⟩

theorem test_encode {op : Op} {a b : String} (h : ordering op = true → SameOrder a b) :
    op.test (Utf16.encode a.toList) (Utf16.encode b.toList) = op.test a b := by
  cases op with
  | eq => exact decide_eq_decide.mpr encode_eq_iff
  | ne => exact decide_eq_decide.mpr encode_eq_iff.not
  | gt => exact decide_eq_decide.mpr (h rfl).2.symm
  | gte => exact decide_eq_decide.mpr (h rfl).1.not.symm
  | lt => exact decide_eq_decide.mpr (h rfl).1.symm
  | lte => exact decide_eq_decide.mpr (h rfl).2.not.symm
  | _ => rfl

end Texts

/-! ### Leaves -/

section Leaves

variable (lib : FormLib String) (js : ScriptLib)

/-- The two engines read a leaf alike for a text of its field: as a number, the text and the
value are the same number or none; as a text, the value is the same text, and the order of
the characters that of the units. -/
def LeafAlike (isNumeric : Bool) (l : Leaf) (left : String) : Prop :=
  match l.op with
  | .empty | .notEmpty => True
  | .contains => literalText lib l.value = scriptLiteral js l.value
  | op =>
    if isNumeric then
      number lib left = scriptNumber left ∧ number lib (literalText lib l.value) = scriptNumber (scriptLiteral js l.value)
    else literalText lib l.value = scriptLiteral js l.value ∧
      (ordering op = true → SameOrder left (literalText lib l.value))

variable {lib js}

/-- A leaf that is read alike is tested alike. -/
theorem scriptTest_eq {isNumeric : Bool} {l : Leaf} {left : String} (h : LeafAlike lib js isNumeric l left) :
    scriptTest isNumeric l.op left (scriptLiteral js l.value) = testLeaf lib isNumeric l.op left (literalText lib l.value) := by
  obtain ⟨field,op,value⟩ := l
  cases op with
  | empty => rfl
  | notEmpty => rfl
  | contains =>
    simp only [LeafAlike] at h
    simp only [scriptTest,testLeaf,includes_eq,h]
  | _ =>
    cases isNumeric with
    | true =>
      simp only [LeafAlike,if_true] at h
      rw [scriptTest_number (by simp),← h.1,← h.2]
      simp only [testLeaf,if_true]
    | false =>
      simp only [LeafAlike,Bool.false_eq_true,if_false] at h
      simp only [scriptTest,testLeaf,Bool.false_eq_true,if_false,← h.1]
      exact test_encode h.2

/-- A text on which the two grammars of numbers are one: no underscores, the same white space
around it, the digits of ASCII only, and a numeral that `Decimal` can hold. -/
structure PlainText (lib : FormLib String) (s : String) : Prop where
  solid : '_' ∉ trim s
  trimmed : (strip s).toList = trim s
  digits : ∀ c ∈ trim s, lib.digit c = asciiDigit c
  fits : ∀ x, parse asciiDigit (trim s) = some x → lib.fits (natOf x.digits) (x.exponent-x.scale) = true

/-- The letters with which a special value starts. -/
theorem letter_spec {c : Char} (h : c.toLower = 'i' ∨ c.toLower = 'n' ∨ c.toLower = 's') :
    asciiDigit c = none ∧ c ≠ '.' := by
  have hsame : c.toNat < 65 → c.toLower = c := by
    intro hlow
    have hval : ¬(c.val ≥ 'A'.val ∧ c.val ≤ 'Z'.val) := by
      rintro ⟨hle,-⟩
      have hnat : 65 ≤ c.toNat := UInt32.le_iff_toNat_le.mp hle
      omega
    delta Char.toLower
    exact dif_neg hval
  have hrange : ¬c.toNat < 65 := by
    intro hlow
    rw [hsame hlow] at h
    rcases h with rfl | rfl | rfl <;> revert hlow <;> decide
  constructor
  · have hdigit : ¬(48 ≤ c.toNat ∧ c.toNat ≤ 57) := by omega
    rw [asciiDigit,if_neg hdigit]
  · rintro rfl
    exact hrange (by decide)

/-- A special value starts with a letter, which no numeral does. -/
theorem special_spec {negative : Bool} {cs : List Char} {d : PyDecimal}
    (h : special lib negative (lower (String.ofList cs)) = some d) :
    d.toRat = none ∧ takeDigits asciiDigit cs = ([],cs) ∧ takeFraction asciiDigit cs = ([],cs) := by
  have hlist : (lower (String.ofList cs)).toList = cs.map Char.toLower := by simp [lower]
  have hletter : d.toRat = none ∧ ∃ c rest, cs = c::rest ∧ (c.toLower = 'i' ∨ c.toLower = 'n' ∨ c.toLower = 's') := by
    simp only [special,startsWith,hlist] at h
    cases cs with
    | nil =>
      have hempty : lower (String.ofList []) = "" := rfl
      simp [hempty] at h
    | cons c cs =>
      split_ifs at h with hinf hs hnan hnan
      · obtain rfl := Option.some.inj h
        refine ⟨rfl,c,cs,rfl,Or.inl ?_⟩
        rcases hinf with hinf | hinf
        · have hchars := congrArg String.toList hinf
          rw [hlist] at hchars
          exact (List.cons.inj hchars).1
        · have hchars := congrArg String.toList hinf
          rw [hlist] at hchars
          exact (List.cons.inj hchars).1
      · obtain rfl := Option.some.inj h
        obtain ⟨rest,hrest⟩ := List.isPrefixOf_iff_prefix.mp hs
        exact ⟨rfl,c,cs,rfl,Or.inr (Or.inr (List.cons.inj hrest).1.symm)⟩
      · obtain rfl := Option.some.inj h
        have hhead : c.toLower = 'n' := (List.cons.inj hnan.1).1
        exact ⟨rfl,c,cs,rfl,Or.inr (Or.inl hhead)⟩
  obtain ⟨hd,c,rest,rfl,hc⟩ := hletter
  obtain ⟨hdigit,hdot⟩ := letter_spec hc
  exact ⟨hd,by simp [takeDigits,hdigit],by simp [takeFraction,hdot]⟩

/-- Both engines read one number in a plain text. -/
theorem number_plain {s : String} (h : PlainText lib s) : number lib s = scriptNumber s := by
  have hkept : (strip s).toList.filter (fun c => decide (c ≠ '_')) = trim s := by
    rw [h.trimmed]
    apply List.filter_eq_self.mpr
    intro c hc
    have hne : c ≠ '_' := fun heq => h.solid (heq ▸ hc)
    simpa using hne
  have hparse : parse lib.digit (trim s) = parse asciiDigit (trim s) := parse_congr h.digits
  delta number decimal
  simp only [hkept,hparse,scriptNumber]
  cases hspecial : special lib (takeSign (trim s)).1 (lower (String.ofList (takeSign (trim s)).2)) with
  | some d =>
    obtain ⟨hd,hdigits,hfraction⟩ := special_spec hspecial
    have hnone : parse asciiDigit (trim s) = none := by simp [parse,hdigits,hfraction]
    simp [hnone,hd]
  | none =>
    cases hx : parse asciiDigit (trim s) with
    | none => rfl
    | some x =>
      simp only [h.fits x hx,if_true,Option.bind_some,Option.map_some]
      rfl

end Leaves

/-! ### The run of the script -/

section Run

variable {js : ScriptLib} {arrangement : Arrangement} {config : FormConfig}
  {values trusted : String → Option (FieldData String)}

/-- The references that the script visits: those on the form. -/
def visited (arrangement : Arrangement) (config : FormConfig) (name : String) : List String :=
  (arrangement.arrange (config.scriptDependencies name)).filter fun d => decide (d ∉ inherited)

theorem mem_visited (hown : ∀ name ∈ config.names, name ∉ inherited) (name d : String) :
    d ∈ visited arrangement config name ↔ d ∈ config.dependencies name := by
  simp only [visited,List.mem_filter,arrangement.mem_arrange,FormConfig.scriptDependencies,FormConfig.dependencies,
    decide_eq_true_eq]
  constructor
  · rintro ⟨⟨hrefs,hin⟩,hout⟩
    exact ⟨hrefs,hin.resolve_right hout⟩
  · rintro ⟨hrefs,hin⟩
    exact ⟨⟨hrefs,Or.inl hin⟩,hown d hin⟩

/-- What a run has results for. -/
theorem run_done {S : System String (Option (FieldData String)) FieldState} {l : List String}
    {init : String → Option (FieldData String)} {name : String} :
    ((S.run l init).2.lookup name).isSome = true ↔ name ∈ l := by
  have hnames : (S.run l init).2.map Prod.fst = l := System.run_names l
  rw [List.lookup_isSome_iff]
  constructor
  · rintro ⟨p,hp,heq⟩
    have hmem := List.mem_map_of_mem (f := Prod.fst) hp
    rwa [hnames,← eq_of_beq heq] at hmem
  · intro hmem
    rw [← hnames] at hmem
    obtain ⟨p,hp,rfl⟩ := List.mem_map.mp hmem
    exact ⟨p,hp,beq_self_eq_true _⟩

section Visit

variable {init : String → Option (FieldData String)} {fuel : ℕ} {active l l' : List String} {name : String}

variable (js arrangement config trusted init) in
/-- A visit of the script that runs the rules along the visit of the references. -/
def Follows (fuel : ℕ) (active : List String) : Prop := ∀ (l l' : List String) (name : String), name ∉ inherited →
  Ordered (visited arrangement config) l → (∀ a ∈ active, a ∉ l) →
    visit (visited arrangement config) fuel active l name = .ok l' →
      scriptVisit js arrangement config trusted fuel active ((scriptRules js config trusted).run l init) name =
        .ok ((scriptRules js config trusted).run l' init)

/-- What is inherited counts as done, so only the fields of the form are visited. -/
theorem Follows.visits (h : Follows js arrangement config trusted init fuel active) {ds : List String}
    (hl : Ordered (visited arrangement config) l) (hactive : ∀ a ∈ active, a ∉ l)
    (hvisits : (ds.filter fun d => decide (d ∉ inherited)).foldlM (visit (visited arrangement config) fuel active) l =
      .ok l') :
    ds.foldlM (scriptVisit js arrangement config trusted fuel active) ((scriptRules js config trusted).run l init) =
      .ok ((scriptRules js config trusted).run l' init) := by
  induction ds generalizing l with
  | nil =>
    obtain rfl := Except.ok.inj hvisits
    rfl
  | cons d ds ih =>
    rw [List.foldlM_cons]
    by_cases hd : d ∈ inherited
    · rw [List.filter_cons_of_neg (by simpa using hd)] at hvisits
      rw [scriptVisit.eq_def,if_pos (Or.inr hd)]
      exact ih hl hactive hvisits
    · rw [List.filter_cons_of_pos (by simpa using hd),List.foldlM_cons] at hvisits
      cases hfirst : visit (visited arrangement config) fuel active l d with
      | error e =>
        rw [hfirst] at hvisits
        cases hvisits
      | ok next =>
        rw [hfirst] at hvisits
        obtain ⟨hnext,-⟩ := visit_ok hl hactive hfirst
        rw [h l next d hd hl hactive hfirst]
        exact ih hnext.ordered hnext.inactive hvisits

theorem follows (fuel : ℕ) : ∀ active : List String, Follows js arrangement config trusted init fuel active := by
  induction fuel with
  | zero =>
    intro active l l' name _ _ _ h
    cases h
  | succ fuel ih =>
    intro active l l' name hname hl hactive h
    rw [visit] at h
    by_cases hcycle : name ∈ active
    · rw [if_pos hcycle] at h
      cases h
    rw [if_neg hcycle] at h
    rw [scriptVisit]
    by_cases hin : name ∈ l
    · rw [if_pos hin] at h
      obtain rfl := Except.ok.inj h
      rw [if_pos (Or.inl (run_done.mpr hin))]
    have hopen : ¬((((scriptRules js config trusted).run l init).2.lookup name).isSome = true ∨ name ∈ inherited) := by
      rintro (hdone | hinherited)
      · exact hin (run_done.mp hdone)
      · exact hname hinherited
    rw [if_neg hin] at h
    rw [if_neg hopen,if_neg hcycle]
    cases hdeps : (visited arrangement config name).foldlM
        (visit (visited arrangement config) fuel (name::active)) l with
    | error e =>
      rw [hdeps] at h
      cases h
    | ok last =>
      rw [hdeps] at h
      obtain rfl := Except.ok.inj h
      have hout : ∀ a ∈ name::active, a ∉ l := by
        intro a ha
        rcases List.mem_cons.mp ha with rfl | ha
        · exact hin
        · exact hactive a ha
      simp only [(ih (name::active)).visits hl hout hdeps]
      rw [System.run_snoc]
      rfl

end Visit

theorem scriptLeaf_reads {types : String → Bool} : ReadsField (scriptLeaf js types) := by
  intro env env' l h
  unfold scriptLeaf inObject property
  rw [h]

/-- The script's states are read off a solution of its rules. -/
theorem scriptStates_solved (js : ScriptLib) (arrangement : Arrangement) (hacyclic : config.Acyclic)
    (hown : ∀ name ∈ config.names, name ∉ inherited) (values trusted : String → Option (FieldData String)) :
    ∃ script env, scriptStates js arrangement config values trusted = .ok script ∧
      (testSystem config (scriptLeaf js config.numericNames) (scriptStored trusted)).Solves config.names values env ∧
        ∀ name, script.lookup name = if name ∈ config.names then some (scriptState js config name env) else none := by
  have hdeps : ∀ name d, d ∈ visited arrangement config name ↔ d ∈ config.dependencies name := mem_visited hown
  obtain ⟨names,hvisits,hordered,hnames⟩ := visits_config hacyclic hdeps
  obtain ⟨env,hsolves,hlookup⟩ := run_solved scriptLeaf_reads (scriptStored trusted) values hdeps hordered hnames
  refine ⟨_,env,?_,hsolves,hlookup⟩
  have hfilter : config.names.filter (fun d => decide (d ∉ inherited)) = config.names :=
    List.filter_eq_self.mpr fun d hd => by simpa using hown d hd
  have hfollows : Follows js arrangement config trusted (withLocked config (scriptStored trusted) values)
      (config.names.length+1) [] := follows _ _
  have hlisted : (config.names.filter fun d => decide (d ∉ inherited)).foldlM
      (visit (visited arrangement config) (config.names.length+1) []) [] = .ok names := by
    rw [hfilter]
    exact hvisits
  have hrun := hfollows.visits .nil (fun a ha => by cases ha) hlisted
  have hstart : (withLocked config (scriptStored trusted) values,[]) =
      (scriptRules js config trusted).run [] (withLocked config (scriptStored trusted) values) := rfl
  rw [scriptStates,hstart,hrun]
  rfl

/-- Strings, booleans and null. -/
def FieldData.Plain : FieldData String → Prop
  | .other _ => False
  | _ => True

variable {lib : FormLib String}

/-- A field that can be hidden or locked. -/
def Item.keeps (item : Item) : Bool := item.locked || item.rules.shown.isSome || item.rules.readonly.isSome

theorem keeps_of_kept {item : Item} {test : Leaf → Bool} (h : (item.state test).kept = true) : item.keeps = true := by
  cases hshown : item.rules.shown with
  | some node => simp [Item.keeps,hshown]
  | none =>
    cases hreadonly : item.rules.readonly with
    | some node => simp [Item.keeps,hreadonly]
    | none => simpa [FieldState.kept,Item.state,Item.keeps,hshown,hreadonly] using h

theorem item_of_not_mem {name : String} (h : name ∉ config.names) : config.item name = {} := by
  have hlookup : config.items.lookup name = none := by
    apply List.lookup_eq_none_iff.mpr
    intro p hp
    have hne : name ≠ p.1 := fun heq => h (heq ▸ List.mem_map_of_mem (f := Prod.fst) hp)
    simpa using hne
  simp [FormConfig.item,hlookup]

/-- What the two engines must read alike: no field of the form is named like an inherited
property, a rule on such a name finds a value for it, and each leaf reads alike for what is
submitted for a field that is not locked and for what is stored for one that can be. -/
structure Alike (lib : FormLib String) (js : ScriptLib) (config : FormConfig)
    (values trusted : String → Option (FieldData String)) : Prop where
  own : ∀ name ∈ config.names, name ∉ inherited
  present : ∀ name ∈ config.names, ∀ tree ∈ (config.item name).rules.trees, ∀ l ∈ tree.leaves,
    l.field ∈ inherited → (values l.field).isSome = true
  leaves : ∀ name ∈ config.names, ∀ tree ∈ (config.item name).rules.trees, ∀ l ∈ tree.leaves, ∀ data,
    ((config.item l.field).locked = false ∧ values l.field = some data ∨
      l.field ∈ config.names ∧ (config.item l.field).keeps = true ∧ stored trusted l.field = some data) →
        LeafAlike lib js (config.numericNames l.field) l (dataText lib data)

theorem scriptText_plain {data : FieldData String} (h : data.Plain) : scriptText js data = dataText lib data := by
  cases data with
  | other o => exact h.elim
  | _ => rfl

theorem scriptStored_own {name : String} (h : name ∉ inherited) : scriptStored trusted name = stored trusted name := by
  simp only [scriptStored,stored,property]
  cases trusted name <;> simp [h]

/-- A value of a solution is the submitted one of a field that is not locked, or the stored one
of a field that can be. -/
theorem value_cases {test : (String → Option (FieldData String)) → Leaf → Bool}
    {store env : String → Option (FieldData String)} (h : (testSystem config test store).Solves config.names values env)
    (name : String) : ((config.item name).locked = false ∧ env name = values name) ∨
      name ∈ config.names ∧ (config.item name).keeps = true ∧ env name = store name := by
  by_cases hname : name ∈ config.names
  · have hvalue := solves_inside h hname
    by_cases hkept : ((config.item name).state (test env)).kept = true
    · rw [if_pos hkept] at hvalue
      exact Or.inr ⟨hname,keeps_of_kept hkept,hvalue⟩
    · rw [if_neg hkept] at hvalue
      exact Or.inl ⟨open_of_not_kept hkept,hvalue⟩
  · exact Or.inl ⟨by rw [item_of_not_mem hname],h.outside name hname⟩

/-- On a solution of the script the leaves are tested alike. -/
theorem scriptLeaf_eq (hvalues : ∀ name data, values name = some data → data.Plain)
    (htrusted : ∀ name data, trusted name = some data → data.Plain) (halike : Alike lib js config values trusted)
    {env : String → Option (FieldData String)}
    (h : (testSystem config (scriptLeaf js config.numericNames) (scriptStored trusted)).Solves config.names values env)
    {name : String} (hname : name ∈ config.names) {tree : Node} (htree : tree ∈ (config.item name).rules.trees)
    {l : Leaf} (hl : l ∈ tree.leaves) :
    scriptLeaf js config.numericNames env l = leafMatches lib config.numericNames env l := by
  cases hvalue : env l.field with
  | none =>
    have hout : l.field ∉ inherited := by
      intro hinherited
      have hsome := halike.present name hname tree htree l hl hinherited
      rw [← h.outside l.field fun hin => halike.own l.field hin hinherited,hvalue] at hsome
      cases hsome
    simp [scriptLeaf,leafMatches,inObject,hvalue,hout]
  | some data =>
    have hsource : (config.item l.field).locked = false ∧ values l.field = some data ∨
        l.field ∈ config.names ∧ (config.item l.field).keeps = true ∧ stored trusted l.field = some data := by
      rcases value_cases h l.field with ⟨hopen,heq⟩ | ⟨hin,hkeeps,heq⟩
      · exact Or.inl ⟨hopen,heq.symm.trans hvalue⟩
      · rw [scriptStored_own (halike.own l.field hin)] at heq
        exact Or.inr ⟨hin,hkeeps,heq.symm.trans hvalue⟩
    have hplain : data.Plain := by
      rcases hsource with ⟨-,heq⟩ | ⟨-,-,heq⟩
      · exact hvalues _ _ heq
      · obtain rfl : (trusted l.field).getD .none = data := Option.some.inj heq
        cases hstored : trusted l.field with
        | none => trivial
        | some v => exact htrusted _ _ hstored
    have htest := scriptTest_eq (halike.leaves name hname tree htree l hl data hsource)
    simp only [scriptLeaf,leafMatches,inObject,property,hvalue,Option.isSome_some,Bool.true_or,if_true]
    have htext : scriptText js data = dataText lib data := scriptText_plain hplain
    rw [htext]
    exact htest

end Run

/-- Browser and server compute the same states for what they read alike. -/
theorem scriptStates_eq (lib : FormLib String) (js : ScriptLib) (config : FormConfig) (hacyclic : config.Acyclic)
    (first second : Arrangement) (values trusted : String → Option (FieldData String))
    (hvalues : ∀ name data, values name = some data → data.Plain)
    (htrusted : ∀ name data, trusted name = some data → data.Plain) (halike : Alike lib js config values trusted) :
    ∃ result script, states first lib config values trusted = .ok result ∧
      scriptStates js second config values trusted = .ok script ∧ ∀ name, script.lookup name = result.lookup name := by
  obtain ⟨result,env,hresult,hsolves,hlookup⟩ := states_solved first lib hacyclic values trusted
  obtain ⟨script,env',hscript,hsolves',hlookup'⟩ := scriptStates_solved js second hacyclic halike.own values trusted
  refine ⟨result,script,hresult,hscript,?_⟩
  have hstate : ∀ name ∈ config.names, scriptState js config name env' = fieldState lib config name env' :=
    fun name hname => state_congr fun tree htree l hl => scriptLeaf_eq hvalues htrusted halike hsolves' hname htree hl
  -- the script's solution solves the server's rules
  have hsame : (testSystem config (leafMatches lib config.numericNames) (stored trusted)).Solves config.names values env' := by
    constructor
    · intro name hname
      have hvalue : env' name =
          if (scriptState js config name env').kept then scriptStored trusted name else values name :=
        solves_inside hsolves' hname
      rw [hstate name hname,scriptStored_own (halike.own name hname)] at hvalue
      exact hvalue
    · exact hsolves'.outside
  obtain rfl := solution_unique leafMatches_reads hacyclic hsame hsolves
  intro name
  rw [hlookup,hlookup']
  by_cases hname : name ∈ config.names
  · rw [if_pos hname,if_pos hname,hstate name hname]
  · rw [if_neg hname,if_neg hname]

/-! ### A number and an inherited name -/

/-- The names that `validate_identifier` returns. -/
def identifier (name : String) : Bool :=
  match name.toList with
  | [] => false
  | c::cs => c.isLower && cs.all (fun c => c.isLower || c.isDigit || c = '_') && name.length ≤ 60 &&
      !(startsWith name "app_" || startsWith name "j_")

/-- The only inherited property that a field can be named after. -/
theorem eq_constructor : ∀ name ∈ inherited, identifier name = true → name = "constructor" := by
  decide

/-- A form of fields of a table, with rules that `validate` accepts. -/
structure FormConfig.Accepted (config : FormConfig) (lib : FormLib String) (fields : List MetaField) : Prop where
  named : ∀ name ∈ config.names, identifier name = true
  typed : ∀ p ∈ config.items, (Keyed.find MetaField.physName p.1 fields).map MetaField.dataType = some p.2.type
  validated : ∀ p ∈ config.items, ∃ raw, validate lib raw fields p.1 = .ok p.2.rules

def plainScript : ScriptLib where
  ofInt := toString
  ofFloat := fun _ => ""
  ofProperty := fun _ => "function Object() \x7b [native code] \x7d"

/-- The field `b` that is required when the number `a` is above 10. -/
def amountConfig : FormConfig where
  items := [("a",{ type := .integer }),("b",{ rules := { require := some (.leaf ⟨"a",.gt,.int 10⟩) } })]
  nodup := by decide

theorem plainText_digits {s : String} (hsolid : '_' ∉ trim s) (htrim : (strip s).toList = trim s) : PlainText plainLib s :=
  ⟨hsolid,htrim,fun _ _ => rfl,fun _ _ => rfl⟩

theorem alike_amountConfig : Alike plainLib plainScript amountConfig (submit "012") fun _ => none := by
  have hleaf : ∀ name ∈ amountConfig.names, ∀ tree ∈ (amountConfig.item name).rules.trees, ∀ l ∈ tree.leaves,
      l = ⟨"a",.gt,.int 10⟩ := by
    intro name hname tree htree l hl
    rcases List.mem_cons.mp hname with rfl | hname
    · cases htree
    · obtain rfl := List.mem_singleton.mp hname
      obtain rfl := List.mem_singleton.mp htree
      exact List.mem_singleton.mp hl
  refine ⟨by decide,?_,?_⟩
  · intro name hname tree htree l hl hin
    obtain rfl := hleaf name hname tree htree l hl
    exact absurd hin (by decide)
  · intro name hname tree htree l hl data hdata
    obtain rfl := hleaf name hname tree htree l hl
    rcases hdata with ⟨-,hdata⟩ | ⟨-,hkeeps,-⟩
    · obtain rfl : .text "012" = data := Option.some.inj hdata
      exact ⟨number_plain (plainText_digits (by decide) (by decide)),number_plain (plainText_digits (by decide) (by decide))⟩
    · cases hkeeps

/-- Both engines see that 012 is above 10. -/
theorem scriptStates_amountConfig : ∃ result script,
    states ⟨id,fun _ _ => Iff.rfl⟩ plainLib amountConfig (submit "012") (fun _ => none) = .ok result ∧
      scriptStates plainScript ⟨id,fun _ _ => Iff.rfl⟩ amountConfig (submit "012") (fun _ => none) = .ok script ∧
        ∀ name, script.lookup name = result.lookup name := by
  have hacyclic : amountConfig.Acyclic := acyclic_of_rank (fun name => if name = "b" then 1 else 0) (by decide)
  have hvalues : ∀ name data, submit "012" name = some data → data.Plain := by
    intro name data h
    simp only [submit] at h
    split at h
    · obtain rfl := Option.some.inj h
      trivial
    · cases h
  exact scriptStates_eq plainLib plainScript amountConfig hacyclic ⟨id,fun _ _ => Iff.rfl⟩ ⟨id,fun _ _ => Iff.rfl⟩
    (submit "012") (fun _ => none) hvalues (fun _ _ h => by cases h) alike_amountConfig

/-- A form with one field. -/
def constructorConfig : FormConfig where
  items := [("constructor",{})]
  nodup := by decide

/-- The script has no state for a field that is named after an inherited property. -/
theorem scriptStates_ne : ¬∀ (lib : FormLib String) (js : ScriptLib) (fields : List MetaField) (config : FormConfig)
    (first second : Arrangement) (values trusted : String → Option (FieldData String)),
    config.Acyclic → config.Accepted lib fields → (∀ name data, values name = some data → data.Plain) →
      (∀ name data, trusted name = some data → data.Plain) →
        ∃ result script, states first lib config values trusted = .ok result ∧
          scriptStates js second config values trusted = .ok script ∧
            ∀ name ∈ config.names, script.lookup name = result.lookup name := by
  intro hall
  have hacyclic : constructorConfig.Acyclic := acyclic_of_rank (fun _ => 0) (by decide)
  have haccepted : constructorConfig.Accepted plainLib [⟨1,"constructor","Builder",.string,true,none,none,none,none,none,
      none,none,none⟩] := by
    constructor
    · decide
    · decide
    · intro p hp
      obtain rfl := List.mem_singleton.mp hp
      exact ⟨.obj [],rfl⟩
  obtain ⟨result,script,hresult,hscript,hsame⟩ := hall plainLib plainScript _ constructorConfig
    ⟨id,fun _ _ => Iff.rfl⟩ ⟨id,fun _ _ => Iff.rfl⟩ (fun _ => none) (fun _ => none) hacyclic haccepted
    (fun _ _ h => by cases h) (fun _ _ h => by cases h)
  obtain rfl : [("constructor",⟨true,false,false⟩)] = result := Except.ok.inj hresult
  obtain rfl : [] = script := Except.ok.inj hscript
  have hstate := hsame "constructor" (by decide)
  cases hstate

end FormRules
end Biggy
