import Biggy.AuditComplete
import Biggy.ExportImport
import Biggy.Inbound

/-!
# A payload that comes twice

A record that an inbound payload has created is found again by its key, but what the payload leaves blank is filled in for a
new record only. `idempotent_iff` says when the second delivery takes it away again.
-/
namespace Biggy
namespace Inbound

open Commits Commits.Prog Database Database.Site Importer Pull
open AuditReplay (inserted insertedKey updated statement_run statement_stop insertRow_run insertRow_stop newRow_key)
open Related (rowOf createStamp)

/-- The key columns of a source. -/
def Source.keys (s : Source) : List String := ((splitOn ',' (s.matchField.getD "")).map strip).filter (· ≠ "")

/-- The columns that are computed or stamped. -/
def Kept (site : Site) (name c : String) : Prop := site.Computed name c ∨ site.Stamped name c

section Statement

variable (H : Hub) (t : MetaTable) (s : Source) (payload : Json)

/-- `lower` and `trim` of the database agree with those of Python on a text, and other values compare equal to themselves. -/
def Agrees : Value → Prop
  | .text s => H.engine.eq (H.engine.lowerTrim (.text s)) (.text (H.lib.lowercase (strip s))) = true
  | v => H.engine.eq v v = true

/-- The payload gives a value to every column of the upsert key, and the database stores it as it is. -/
structure KeyGiven : Prop where
  mode : s.mode = .upsert
  named : s.keys ≠ []
  given : ∀ values, mapped H t s payload = .ok values → ∀ k ∈ s.keys,
    ∃ v, values.lookup k = some v ∧ v.blank = false ∧ H.site.cast t.physName k v = v ∧ Agrees H v

/-- The second delivery updates the record and creates none, and all columns that it maps stay as they are. -/
def Repeats (j : Moment) (db : Tables) (pk : Value) : Prop :=
  Alike (Kept H.site) db (deliver H t s payload j db).1 ∧
    ∀ r, (deliver H t s payload j db).2 = .ok r → r = (.update,H.site.key t pk)

/-- What a payload has written is not changed when it comes again. -/
def Idempotent (i j : Moment) (db : Tables) : Prop :=
  ∀ db' action pk, deliver H t s payload i db = (db',.ok (action,pk)) → Repeats H t s payload j db' pk

/-- What `_apply_generated` puts where the payload has a blank. -/
def generatedFor (i : Moment) (f : MetaField) : Option Value :=
  if f.dataType = .autonumber then some (.text (f.defaultValue.getD "" ++ ApiWrites.fourDigits (i.next f.id)))
  else if token H f ∈ ApiWrites.defaultTokens then evalDefaultToken H s.userId i f
  else none

/-- What a new record gets where the payload has a blank. -/
def fillOf (i : Moment) (f : MetaField) : Option Value :=
  if companyField t = some f ∧ (generatedFor H s i f).all Value.blank = true then
    (creatorCompany H s.userId).or (generatedFor H s i f)
  else generatedFor H s i f

/-- A field is mapped to a blank that is filled in for a new record. -/
def Refilled (i : Moment) (values : Values) : Prop :=
  ∃ f ∈ t.fields, f.dataType ≠ .formula ∧ f.physName ∈ H.site.columns t.physName ∧ f.physName ≠ t.pkCol ∧
    ∃ v w, values.lookup f.physName = some v ∧ v.blank = true ∧ fillOf H t s i f = some w ∧
      H.site.cast t.physName f.physName w ≠ H.site.cast t.physName f.physName v

/-- The database accepts the values for the record. -/
def Accepts (j : Moment) (values : Values) (db : Tables) (pk : Value) : Prop :=
  H.site.Admitted (updated H.site t pk (H.site.written t pk values s.userId j.now db) db)

/-- The delivery creates a record with a field filled in, and the database accepts it without. -/
def Erases (i j : Moment) (db : Tables) : Prop :=
  ∃ values db' pk, mapped H t s payload = .ok values ∧ deliver H t s payload i db = (db',.ok (.create,pk)) ∧
    Refilled H t s i values ∧ Accepts H t s j values db' (H.site.key t pk)

end Statement

section Values

variable {H : Hub} {t : MetaTable} {s : Source} {payload : Json} {values : Values} {c : String} {v : Value}

/-! ### Where values come from -/

/-- A value that the field takes. -/
def Coerced (lib : PullLib) (fields : List MetaField) (c : String) (v : Value) : Prop :=
  ∃ f ∈ fields, f.physName = c ∧ ∃ raw, coerceValue lib.toCoerceLib f none raw = .ok v

theorem coerced_update {lib : PullLib} {fields : List MetaField} {rest : Except PyError Values} {f : MetaField}
    {raw : Option String} {w : Value} (hf : f ∈ fields) (hw : coerceValue lib.toCoerceLib f none raw = .ok w)
    (h : (rest.map fun values => Values.update [(f.physName,w)] values) = .ok values) (hv : values.lookup c = some v)
    (hrest : ∀ values, rest = .ok values → values.lookup c = some v → Coerced lib fields c v) : Coerced lib fields c v := by
  cases rest with
  | error e => cases h
  | ok values' =>
    obtain rfl := Except.ok.inj h
    rw [Values.lookup_update] at hv
    cases hlater : values'.lookup c with
    | some v' =>
      rw [hlater,Option.some_or] at hv
      exact hrest values' rfl (hlater.trans hv)
    | none =>
      rw [hlater,Option.none_or,Values.lookup_singleton] at hv
      split at hv
      · rename_i hc
        obtain rfl := Option.some.inj hv
        exact ⟨f,hf,hc.symm,raw,hw⟩
      · cases hv

theorem mapPayload_coerced {lib : PullLib} {fields : List MetaField} {ms : List Feeds.Mapping}
    (h : mapPayload lib payload fields ms = .ok values) (hv : values.lookup c = some v) : Coerced lib fields c v := by
  induction ms generalizing values with
  | nil =>
    obtain rfl := Except.ok.inj h
    cases hv
  | cons m ms ih =>
    rw [mapPayload] at h
    split at h
    · exact ih h hv
    · rename_i field hfield
      obtain ⟨target,-,hfound⟩ := Option.bind_eq_some_iff.mp hfield
      split at h
      · exact ih h hv
      · split at h
        · cases h
        · rename_i hw
          exact coerced_update (Keyed.mem_of_find hfound) hw h hv fun values' h' hv' => ih h' hv'

theorem mapRecord_coerced {lib : PullLib} {fields : List MetaField} {transforms : List (String × Transform)}
    {ms : List Feeds.Mapping} (h : mapRecord lib payload fields transforms ms = .ok values) (hv : values.lookup c = some v) : Coerced lib fields c v := by
  induction ms generalizing values with
  | nil =>
    obtain rfl := Except.ok.inj h
    cases hv
  | cons m ms ih =>
    rw [mapRecord] at h
    split at h
    · exact ih h hv
    · split at h
      · exact ih h hv
      · rename_i field hfound
        dsimp only at h
        split at h
        · exact ih h hv
        · split at h
          · cases h
          · rename_i hw
            obtain rfl := Keyed.key_of_find hfound
            exact coerced_update (Keyed.mem_of_find hfound) hw h hv fun values' h' hv' => ih h' hv'

theorem mapped_coerced (h : mapped H t s payload = .ok values) (hv : values.lookup c = some v) : Coerced H.lib t.fields c v := by
  rw [mapped] at h
  split at h
  · exact mapPayload_coerced h hv
  · exact mapRecord_coerced h hv

/-- Formulas take nothing but a blank. -/
theorem Coerced.plain {lib : PullLib} {fields : List MetaField} (h : Coerced lib fields c v) (hv : v.blank = false) :
    ∃ f ∈ fields, f.physName = c ∧ f.dataType ≠ .formula := by
  obtain ⟨f,hf,hc,raw,hcoerce⟩ := h
  refine ⟨f,hf,hc,fun hformula => ?_⟩
  simp only [coerceValue,coerceTyped,hformula] at hcoerce
  split at hcoerce
  · rw [← Except.ok.inj hcoerce] at hv
    cases hv
  · cases hcoerce

end Values

section Search

variable {H : Hub} {t : MetaTable} {s : Source} {payload : Json} {values : Values} {db db' : Tables} {row row' : Row} {pk : Value}

/-! ### Which rows the key finds -/

/-- The row has the mapped key. -/
def matching (H : Hub) (s : Source) (values : Values) (row : Row) : Bool :=
  (s.keys.map fun k => (k,(values.lookup k).getD .null)).all (matchClause H.lib.toCoerceLib H.engine true row)

theorem matchClause_congr {k : String} (h : row' k = row k) (v : Value) :
    matchClause H.lib.toCoerceLib H.engine true row' (k,v) = matchClause H.lib.toCoerceLib H.engine true row (k,v) := by
  simp only [matchClause,h]

theorem matching_iff : matching H s values row = true ↔
    ∀ k ∈ s.keys, matchClause H.lib.toCoerceLib H.engine true row (k,(values.lookup k).getD .null) = true := by
  rw [matching,List.all_map,List.all_eq_true]
  exact Iff.rfl

theorem matching_congr (h : ∀ k ∈ s.keys, row' k = row k) : matching H s values row' = matching H s values row := by
  rw [Bool.eq_iff_iff,matching_iff,matching_iff]
  refine forall₂_congr fun k hk => ?_
  rw [matchClause_congr (h k hk)]

theorem matchClause_own {k : String} {v : Value} (hrow : row k = v) (hv : Agrees H v) :
    matchClause H.lib.toCoerceLib H.engine true row (k,v) = true := by
  cases v <;> simp only [matchClause,hrow] <;> exact hv

/-- A row that stores the mapped values in the key columns has the key. -/
theorem matching_own (hkey : KeyGiven H t s payload) (hmapped : mapped H t s payload = .ok values)
    (h : ∀ k ∈ s.keys, ∀ v, values.lookup k = some v → H.site.cast t.physName k v = v → row k = v ∨
      matchClause H.lib.toCoerceLib H.engine true row (k,v) = true) : matching H s values row = true := by
  rw [matching_iff]
  intro k hk
  obtain ⟨v,hv,-,hstored,hagrees⟩ := hkey.given values hmapped k hk
  rw [hv,Option.getD_some]
  rcases h k hk v hv hstored with hrow | hclause
  · exact matchClause_own hrow hagrees
  · exact hclause

/-- The key columns are neither computed nor stamped. -/
theorem key_plain (ht : t ∈ H.site.tables) (hkey : KeyGiven H t s payload) (hmapped : mapped H t s payload = .ok values)
    {k : String} (hk : k ∈ s.keys) : ¬Kept H.site t.physName k := by
  obtain ⟨v,hv,hblank,-⟩ := hkey.given values hmapped k hk
  obtain ⟨f,hf,rfl,htype⟩ := (mapped_coerced hmapped hv).plain hblank
  exact not_or.mpr (field_plain ht hf htype)

/-- The search comes down to the rows with the key. -/
theorem existing_eq (hkey : KeyGiven H t s payload) (hmapped : mapped H t s payload = .ok values) (db : Tables) :
    existing H t s values db = findIdBy H.lib.toCoerceLib H.engine (view H t db)
      (s.keys.map fun k => (k,(values.lookup k).getD .null)) true
      (H.lib.repr (s.keys.map fun k => (values.lookup k).getD .null)) (H.lib.repr (s.keys.map .text)) := by
  have hfield : s.matchField.getD "" ≠ "" := by
    intro hempty
    apply hkey.named
    rw [Source.keys,hempty]
    decide
  have hgiven : ¬(s.keys = [] ∨ (s.keys.any fun k => ((values.lookup k).getD .null).blank) = true) := by
    rintro (hnil | hblank)
    · exact hkey.named hnil
    · obtain ⟨k,hk,hblank⟩ := List.any_eq_true.mp hblank
      obtain ⟨v,hv,hv',-⟩ := hkey.given values hmapped k hk
      rw [hv,Option.getD_some,hv'] at hblank
      cases hblank
  rw [existing,if_pos ⟨hkey.mode,hfield⟩,findIdByKey]
  exact if_neg hgiven

theorem findIdBy_ok_iff {lib : CoerceLib} {E : Engine} {p : Physical} {parts : List (String × Value)} {normalize : Bool}
    {value columns : String} {found : Option Value} : findIdBy lib E p parts normalize value columns = .ok found ↔
      (parts.find? fun part => !p.columns.contains part.1) = none ∧
        (p.rows.filter fun row => parts.all (matchClause lib E normalize row)).map p.keyOf = found.toList := by
  rw [findIdBy]
  cases parts.find? fun part => !p.columns.contains part.1 with
  | some part => simp
  | none =>
    cases (p.rows.filter fun row => parts.all (matchClause lib E normalize row)).map p.keyOf with
    | nil => cases found <;> simp
    | cons pk pks => cases pks <;> cases found <;> simp

theorem columns_iff {columns : List String} {parts : List (String × Value)} :
    (parts.find? fun part => !columns.contains part.1) = none ↔ ∀ part ∈ parts, part.1 ∈ columns := by
  simp

theorem existing_ok_iff (hkey : KeyGiven H t s payload) (hmapped : mapped H t s payload = .ok values) {found : Option Value} :
    existing H t s values db = .ok found ↔ (∀ k ∈ s.keys, k ∈ H.site.columns t.physName) ∧
      ((db t.physName).filter (matching H s values)).map (fun row => row t.pkCol) = found.toList := by
  have hcolumns := @columns_iff (H.site.columns t.physName) (s.keys.map fun k => (k,(values.lookup k).getD .null))
  rw [List.forall_mem_map] at hcolumns
  rw [existing_eq hkey hmapped,findIdBy,← hcolumns]
  exact findIdBy_ok_iff

/-- Where formulas and stamps are all that changes the search finds the same. -/
theorem existing_alike (ht : t ∈ H.site.tables) (hkey : KeyGiven H t s payload) (hmapped : mapped H t s payload = .ok values)
    (h : Alike H.site.Computed db db') {found : Option Value} (hfound : existing H t s values db = .ok found) :
    existing H t s values db' = .ok found := by
  rw [existing_ok_iff hkey hmapped] at hfound ⊢
  refine ⟨hfound.1,?_⟩
  have hpairs := Paired.filter (p:=matching H s values) (q:=matching H s values) (fun row row' hsame =>
    (matching_congr fun k hk => hsame k fun hc => key_plain ht hkey hmapped hk (Or.inl hc)).symm) (h t.physName)
  rw [← hfound.2]
  exact (Paired.map_eq (fun row row' hsame => (hsame t.pkCol (pk_plain ht).1).symm) hpairs).symm

end Search

section Writes

variable {site : Site} {t : MetaTable} {values : Values} {key pk : Value} {userId : Option ℕ} {now : ℤ} {db : Tables}

/-! ### What the writes leave -/

/-- The values with which a record is created. -/
def createdValues (site : Site) (t : MetaTable) (values : Values) (userId : Option ℕ) (now : ℤ) (db : Tables) : Values :=
  stamped t (site.withFormulas t values (rowOf values) db) (createStamp userId now)

/-- What follows the write of a new record keeps what the ripple keeps. -/
theorem keeps_created {R : Tables → Tables → Prop} (hrefl : ∀ db, R db db) (htrans : ∀ a b c, R a b → R b c → R a c)
    (hquiet : site.Quiet) (changes : List (String × Value × Value)) (context : Row) (hripple : ∀ row, Keeps R (site.ripple t row)) :
    Keeps R (do
      site.log t pk .create userId changes
      site.fired t .create pk none userId
      site.ripple t context
      pure pk : Site.Service Value) :=
  keeps_bind htrans (keeps_log hrefl _ _ _ _ _) fun _ => keeps_bind htrans (keeps_fired hrefl hquiet _ _ _ _ _) fun _ =>
    keeps_bind htrans (hripple context) fun _ => keeps_pure hrefl _

/-- A creation that comes to its end has stored its row, and what follows touches formulas only. -/
theorem create_ends (hquiet : site.Quiet) (h : (site.create t values key userId now db).result = .ok pk) :
    site.Admitted (inserted site t (createdValues site t values userId now db) key db) ∧
      pk = insertedKey site t (createdValues site t values userId now db) key ∧
      Alike site.Computed (inserted site t (createdValues site t values userId now db) key db)
        (site.create t values key userId now db).state ∧ site.Admitted (site.create t values key userId now db).state := by
  simp only [create,withState_apply] at h ⊢
  by_cases hafter : site.Admitted (inserted site t (createdValues site t values userId now db) key db)
  · have hrun := insertRow_run hafter
    rw [createdValues] at hrun
    rw [bind_run hrun] at h ⊢
    obtain ⟨-,-,h',-⟩ := bind_ok h
    obtain ⟨-,-,h'',-⟩ := bind_ok h'
    obtain ⟨-,-,hend,-⟩ := bind_ok h''
    refine ⟨hafter,(Except.ok.inj hend).symm,?_,?_⟩
    · exact keeps_created (Alike.refl _) (fun _ _ _ => Alike.trans) hquiet _ _ (alike_ripple t) _
    · exact keeps_created (R := fun a b => site.Admitted a → site.Admitted b) (fun _ => id) (fun _ _ _ hab hbc => hbc ∘ hab)
        hquiet _ _ (fun row => admitted_ripple t row) _ hafter
  · have hstop := insertRow_stop hafter
    rw [createdValues] at hstop
    rw [bind_stop hstop] at h
    cases h

/-- An update that the database refuses changes nothing. -/
theorem update_refused (h : ¬site.Admitted (updated site t pk (site.written t pk values userId now db) db)) :
    site.update t pk values userId now db = ⟨db,[],.error .integrity⟩ := by
  simp only [update,withState_apply]
  exact bind_stop (statement_stop h) _

/-- What follows the write of an update touches formulas only. -/
theorem update_accepted (hquiet : site.Quiet) (h : site.Admitted (updated site t pk (site.written t pk values userId now db) db)) :
    Alike site.Computed (updated site t pk (site.written t pk values userId now db) db)
      (site.update t pk values userId now db).state := by
  have hrun : site.updateRow t pk (site.written t pk values userId now db) db =
      ⟨updated site t pk (site.written t pk values userId now db) db,[],.ok ()⟩ := statement_run h
  simp only [update,withState_apply]
  rw [bind_run hrun]
  exact keeps_updated (Alike.refl _) (fun _ _ _ => Alike.trans) hquiet _ _ _ _ (alike_ripple t) _

end Writes

section Generated

variable {H : Hub} {t : MetaTable} {s : Source} {i : Moment} {values vs : Values} {f : MetaField} {v : Value}

/-! ### What is filled in -/

theorem filled_of_lookup {name : String} (h : values.lookup name = some v) : ApiWrites.filled values name = !v.blank := by
  rw [ApiWrites.filled,h,Option.any_some]

theorem generate_other {c : String} (h : generate H s.userId i values f = .ok vs) (hc : c ≠ f.physName) :
    vs.lookup c = values.lookup c := by
  have hbound : ∀ o : Option Value, (values.update (o.toList.map fun v => (f.physName,v))).lookup c = values.lookup c := by
    intro o
    cases o with
    | none => rfl
    | some w =>
      rw [Values.lookup_update,Option.toList_some,List.map_singleton,Values.lookup_singleton,if_neg hc,Option.none_or]
  rw [generate] at h
  split_ifs at h
  · rw [Except.ok.inj h]
  · rw [← Except.ok.inj h]
    exact hbound (some _)
  · rw [← Except.ok.inj h]
    exact hbound _
  · cases hdefault : coerceValue H.lib.toCoerceLib f none f.defaultValue with
    | error e =>
      rw [hdefault] at h
      cases h
    | ok w =>
      rw [hdefault] at h
      rw [← Except.ok.inj h]
      exact hbound (some w)
  · rw [Except.ok.inj h]

theorem generate_own (h : generate H s.userId i values f = .ok vs) (hv : values.lookup f.physName = some v) :
    vs.lookup f.physName = some (if v.blank then (generatedFor H s i f).getD v else v) := by
  have hbound : ∀ o : Option Value,
      (values.update (o.toList.map fun v => (f.physName,v))).lookup f.physName = some (o.getD v) := by
    intro o
    cases o with
    | none => exact hv
    | some w =>
      rw [Values.lookup_update,Option.toList_some,List.map_singleton,Values.lookup_singleton,if_pos rfl]
      rfl
  have hmapped : values.lookup f.physName ≠ none := by
    rw [hv]
    exact Option.some_ne_none v
  rw [generate,filled_of_lookup hv] at h
  rw [generatedFor]
  cases hblank : v.blank with
  | false =>
    rw [hblank] at h
    rw [← Except.ok.inj h,hv]
    rfl
  | true =>
    rw [hblank] at h
    simp only [Bool.not_true,Bool.false_eq_true,if_false,hmapped,false_and] at h
    rw [if_pos rfl]
    split_ifs at h ⊢
    · rw [← Except.ok.inj h]
      exact hbound (some _)
    · rw [← Except.ok.inj h]
      exact hbound _
    · rw [← Except.ok.inj h,hv]
      rfl

/-- What a new record stores for a field that the payload maps. -/
theorem generated_lookup (h : generated H t s.userId i values = .ok vs) (hf : f ∈ t.fields)
    (hv : values.lookup f.physName = some v) : vs.lookup f.physName = some (if v.blank then (fillOf H t s i f).getD v else v) := by
  rw [generated,applyGenerated] at h
  obtain ⟨values',hloop,rfl⟩ := Outcome.map_ok h
  obtain ⟨before,after,hturn,hbefore,hafter⟩ := ApiWrites.fold_turn (fun _ _ _ _ hstep hne => generate_other hstep hne)
    t.namesNodup hloop hf
  have hown := hafter.trans (generate_own hturn (hbefore.trans hv))
  simp only [applyCompanyDefault,fillOf]
  cases hcompany : companyField t with
  | none =>
    simp only [reduceCtorEq,false_and,if_false]
    exact hown
  | some cf =>
    have hbound : ∀ o : Option Value, (values'.update (o.toList.map fun company => (cf.physName,company))).lookup f.physName =
        (if cf = f then o else none).or (values'.lookup f.physName) := by
      intro o
      cases o with
      | none => simp
      | some w =>
        rw [Values.lookup_update,Option.toList_some,List.map_singleton,Values.lookup_singleton]
        by_cases hcf : cf = f
        · rw [if_pos hcf,if_pos (congrArg MetaField.physName hcf.symm)]
        · have hname : f.physName ≠ cf.physName := fun hname =>
            hcf (t.field_unique (List.mem_of_find?_eq_some hcompany) hf hname.symm)
          rw [if_neg hcf,if_neg hname]
    by_cases hcf : cf = f
    · subst hcf
      simp only [filled_of_lookup hown,true_and]
      cases hblank : v.blank with
      | false =>
        rw [hblank] at hown
        simpa [hblank] using hown
      | true =>
        rw [hblank,if_pos rfl] at hown
        simp only [if_true]
        cases hgenerated : generatedFor H s i cf with
        | none =>
          rw [hgenerated,Option.getD_none] at hown
          simp only [Option.getD_none,hblank,Bool.not_true,Bool.false_eq_true,if_false,Option.all_none,if_true]
          rw [hbound,if_pos rfl,hown]
          cases creatorCompany H s.userId <;> rfl
        | some w =>
          rw [hgenerated,Option.getD_some] at hown
          cases hw : w.blank with
          | false => simpa [hw] using hown
          | true =>
            simp only [Option.getD_some,hw,Bool.not_true,Bool.false_eq_true,if_false,Option.all_some,if_true]
            rw [hbound,if_pos rfl,hown]
            cases creatorCompany H s.userId <;> rfl
    · simp only [Option.some.injEq,hcf,false_and,if_false]
      split
      · exact hown
      · rw [hbound,if_neg hcf,Option.none_or]
        exact hown

end Generated

section Deliveries

variable {H : Hub} {t : MetaTable} {s : Source} {payload : Json} {values : Values} {i j : Moment} {db db' : Tables}
  {pk k : Value} {row : Row}

/-! ### The first delivery -/

/-- A delivery that comes to its end has written what it has mapped. -/
theorem deliver_ok {r : Action × Value} (h : deliver H t s payload i db = (db',.ok r)) :
    ∃ values found, mapped H t s payload = .ok values ∧ existing H t s values db = .ok found ∧
      (store H t s.userId i values found db).result = .ok r ∧ (store H t s.userId i values found db).state = db' := by
  rcases deliver_cases H t s payload i db with ⟨trouble,hfail⟩ | ⟨values,found,hmapped,hfound,hwrite⟩
  · rw [hfail] at h
    cases (Prod.mk.inj h).2
  · rw [hwrite] at h
    obtain ⟨hstate,hresult⟩ := Prod.mk.inj h
    exact ⟨values,found,hmapped,hfound,Outcome.mapError_ok hresult,hstate⟩

/-- The delivery of a payload whose record is there is an update. -/
theorem deliver_found (hkey : KeyGiven H t s payload) (hmapped : mapped H t s payload = .ok values)
    (hfound : existing H t s values db = .ok (some k)) :
    (deliver H t s payload j db).1 = (H.site.update t k values s.userId j.now db).state ∧
      ∀ r, (deliver H t s payload j db).2 = .ok r → r = (.update,k) := by
  obtain ⟨name,hname⟩ := List.exists_mem_of_ne_nil _ hkey.named
  obtain ⟨v,hv,-⟩ := hkey.given values hmapped name hname
  have hne : values ≠ [] := by
    rintro rfl
    cases hv
  rw [deliver_eq hmapped hne hfound,store]
  dsimp only
  cases hupdate : (H.site.update t k values s.userId j.now db).result with
  | error e =>
    rw [bind_of_error hupdate]
    exact ⟨rfl,fun r hr => by cases hr⟩
  | ok u =>
    rw [bind_of_ok hupdate]
    exact ⟨rfl,fun r hr => (Except.ok.inj hr).symm⟩

/-! ### The second delivery -/

/-- The row holds what the payload says, except in the columns that are computed or stamped. -/
def Holds (H : Hub) (t : MetaTable) (values : Values) (row : Row) : Prop :=
  ∀ c ∈ H.site.columns t.physName, c ≠ t.pkCol → ¬Kept H.site t.physName c → ∀ v, values.lookup c = some v →
    row c = H.site.cast t.physName c v

/-- A column that an update of the row writes. -/
theorem lookup_written (ht : t ∈ H.site.tables) {c : String} (hplain : ¬Kept H.site t.physName c) {userId : Option ℕ} {now : ℤ} :
    (H.site.stored t (H.site.written t k values userId now db)).lookup c =
      if c ∈ H.site.columns t.physName ∧ c ≠ t.pkCol then (values.lookup c).map (H.site.cast t.physName c) else none := by
  obtain ⟨hcomputed,hstamped⟩ := not_or.mp hplain
  rw [lookup_stored,Site.written,lookup_updated ht hcomputed (Related.auditStamp_unmanaged (unstamped ht hstamped))]

theorem typed_key (hdb : H.site.Admitted db) (hrow : row ∈ db t.physName) : H.site.key t (row t.pkCol) = row t.pkCol :=
  (H.site.sound db hdb).typed t.physName row hrow t.pkCol

/-- An update that writes the values to a row leaves it alone when it holds them. -/
theorem alike_updated_iff (ht : t ∈ H.site.tables) (hdb : H.site.Admitted db) (hrow : row ∈ db t.physName)
    {userId : Option ℕ} {now : ℤ} : Alike (Kept H.site) db
      (updated H.site t (row t.pkCol) (H.site.written t (row t.pkCol) values userId now db) db) ↔ Holds H t values row := by
  have hkey := typed_key hdb hrow
  constructor
  · intro halike c hcol hpk hplain v hv
    have hpairs := halike t.physName
    rw [updated,rewritten,Function.update_self,List.forall₂_map_right_iff,List.forall₂_same] at hpairs
    have hcell := hpairs row hrow c hplain
    have hself : H.site.equals t.physName t.pkCol (row t.pkCol) row = true := decide_eq_true hkey.symm
    rw [if_pos hself,Row.write,lookup_written ht hplain,if_pos ⟨hcol,hpk⟩,hv] at hcell
    exact hcell.symm
  · intro hholds name
    by_cases hname : name = t.physName
    · subst hname
      rw [updated,rewritten,Function.update_self,List.forall₂_map_right_iff,List.forall₂_same]
      intro row' hrow' c hplain
      split
      · rename_i hequals
        have hsame : row' = row := List.inj_on_of_nodup_map ((H.site.sound db hdb).keysNodup t ht) hrow' hrow
          ((of_decide_eq_true hequals).trans hkey)
        subst hsame
        rw [Row.write,lookup_written ht hplain]
        split
        · rename_i hcol
          cases hv : values.lookup c with
          | none => rfl
          | some v => exact (hholds c hcol.1 hcol.2 hplain v hv).symm
        · rfl
      · rfl
    · rw [updated,rewritten,Function.update_of_ne hname]
      exact List.forall₂_same.mpr fun _ _ _ _ => rfl

/-- A delivery for a record that is there repeats what it says, or the database refuses it. -/
theorem repeats_iff (hquiet : H.site.Quiet) (ht : t ∈ H.site.tables) (hdb : H.site.Admitted db) (hkey : KeyGiven H t s payload)
    (hmapped : mapped H t s payload = .ok values) (hfound : existing H t s values db = .ok (some (H.site.key t pk)))
    (hrow : row ∈ db t.physName) (hpk : row t.pkCol = H.site.key t pk) :
    Repeats H t s payload j db pk ↔ (Accepts H t s j values db (H.site.key t pk) → Holds H t values row) := by
  obtain ⟨hstate,hresult⟩ := deliver_found (j:=j) hkey hmapped hfound
  rw [Repeats,hstate,← hpk]
  rw [← hpk] at hresult
  have hkept : ∀ name c, H.site.Computed name c → Kept H.site name c := fun _ _ => Or.inl
  by_cases haccepts : Accepts H t s j values db (row t.pkCol)
  · have hafter := Alike.mono hkept (update_accepted hquiet haccepts)
    rw [← @alike_updated_iff H t values db row ht hdb hrow s.userId j.now]
    constructor
    · exact fun hrepeats _ => hrepeats.1.trans hafter.symm
    · exact fun hholds => ⟨(hholds haccepts).trans hafter,hresult⟩
  · rw [update_refused haccepts]
    exact ⟨fun _ haccepts' => absurd haccepts' haccepts,fun _ => ⟨Alike.refl _ _,hresult⟩⟩

/-! ### Where the first delivery leaves the record -/

/-- What a delivery leaves of its record: the key finds it, and it holds the mapped values, or those filled in. -/
structure Left (H : Hub) (t : MetaTable) (s : Source) (values : Values) (db : Tables) (pk : Value) (row : Row) : Prop where
  admitted : H.site.Admitted db
  found : existing H t s values db = .ok (some (H.site.key t pk))
  mem : row ∈ db t.physName
  key : row t.pkCol = H.site.key t pk

/-- The ripple leaves the record where it was. -/
theorem Left.alike (ht : t ∈ H.site.tables) (hkey : KeyGiven H t s payload) (hmapped : mapped H t s payload = .ok values)
    (h : Left H t s values db pk row) (halike : Alike H.site.Computed db db') (hadmitted : H.site.Admitted db') :
    ∃ row', Left H t s values db' pk row' ∧ ∀ c, ¬H.site.Computed t.physName c → row' c = row c := by
  obtain ⟨row',hrow',hsame⟩ := Paired.mem_right (halike t.physName) h.mem
  exact ⟨row',⟨hadmitted,existing_alike ht hkey hmapped halike h.found,hrow',(hsame t.pkCol (pk_plain ht).1).trans h.key⟩,hsame⟩

/-- A column of a new record that the payload maps. -/
theorem newRow_mapped (ht : t ∈ H.site.tables) {vs : Values} (hgenerated : generated H t s.userId i values = .ok vs) {f : MetaField}
    (hf : f ∈ t.fields) (htype : f.dataType ≠ .formula) (hcol : f.physName ∈ H.site.columns t.physName) {v : Value}
    (hv : values.lookup f.physName = some v) {key : Value} :
    H.site.newRow t (createdValues H.site t vs s.userId i.now db) key f.physName =
      H.site.cast t.physName f.physName (if v.blank then (fillOf H t s i f).getD v else v) := by
  obtain ⟨hcomputed,hstamped⟩ := field_plain ht hf htype
  rw [Site.newRow,if_pos hcol,createdValues,
    lookup_updated ht hcomputed (Related.createStamp_unmanaged (unstamped ht hstamped)),generated_lookup hgenerated hf hv,
    Option.getD_some]

theorem left_created (ht : t ∈ H.site.tables) (hkey : KeyGiven H t s payload) (hmapped : mapped H t s payload = .ok values)
    (hnone : existing H t s values db = .ok none) {vs : Values} (hgenerated : generated H t s.userId i values = .ok vs)
    (hafter : H.site.Admitted (inserted H.site t (createdValues H.site t vs s.userId i.now db) i.newKey db)) :
    Left H t s values (inserted H.site t (createdValues H.site t vs s.userId i.now db) i.newKey db)
      (insertedKey H.site t (createdValues H.site t vs s.userId i.now db) i.newKey)
      (H.site.newRow t (createdValues H.site t vs s.userId i.now db) i.newKey) := by
  obtain ⟨hcolumns,hempty⟩ := (existing_ok_iff hkey hmapped).mp hnone
  rw [Option.toList_none,List.map_eq_nil_iff] at hempty
  have hpk := newRow_key ht hafter
  have hmatches : matching H s values (H.site.newRow t (createdValues H.site t vs s.userId i.now db) i.newKey) = true := by
    refine matching_own hkey hmapped fun k hk v hv hstored => Or.inl ?_
    obtain ⟨v',hv',hblank,-⟩ := hkey.given values hmapped k hk
    obtain rfl := Option.some.inj (hv.symm.trans hv')
    obtain ⟨f,hf,rfl,htype⟩ := (mapped_coerced hmapped hv).plain hblank
    rw [newRow_mapped ht hgenerated hf htype (hcolumns _ hk) hv,hblank]
    exact hstored
  refine ⟨hafter,(existing_ok_iff hkey hmapped).mpr ⟨hcolumns,?_⟩,?_,hpk⟩
  · rw [inserted,Function.update_self,List.filter_append,hempty,List.nil_append,List.filter_cons_of_pos hmatches,List.filter_nil,
      List.map_singleton,hpk,Option.toList_some]
  · rw [inserted,Function.update_self]
    exact List.mem_append_right _ List.mem_cons_self

theorem left_updated (ht : t ∈ H.site.tables) (hdb : H.site.Admitted db) (hkey : KeyGiven H t s payload)
    (hmapped : mapped H t s payload = .ok values) (hsome : existing H t s values db = .ok (some k))
    (hafter : Accepts H t s i values db k) : ∃ row,
      Left H t s values (updated H.site t k (H.site.written t k values s.userId i.now db) db) k row ∧ Holds H t values row := by
  obtain ⟨hcolumns,hfound⟩ := (existing_ok_iff hkey hmapped).mp hsome
  obtain ⟨row,hrow,hpk⟩ := List.map_eq_singleton_iff.mp hfound
  have hmem : row ∈ (db t.physName).filter (matching H s values) := hrow ▸ List.mem_cons_self
  obtain ⟨hmem,hmatches⟩ := List.mem_filter.mp hmem
  have htyped : H.site.key t k = k := hpk ▸ typed_key hdb hmem
  have hself : H.site.equals t.physName t.pkCol k row = true := decide_eq_true (hpk.trans htyped.symm)
  let vs := H.site.stored t (H.site.written t k values s.userId i.now db)
  have hmatches' : matching H s values (row.write vs) = true := by
    refine matching_own hkey hmapped fun c hc v hv hstored => ?_
    have hplain := key_plain ht hkey hmapped hc
    by_cases hpkcol : c = t.pkCol
    · right
      subst hpkcol
      have hclause := matching_iff.mp hmatches _ hc
      rwa [hv,Option.getD_some,← matchClause_congr (write_stored_pk t row _)] at hclause
    · left
      rw [Row.write,lookup_written ht hplain,if_pos ⟨hcolumns c hc,hpkcol⟩,hv]
      exact hstored
  have hkept : ∀ row' ∈ db t.physName,
      matching H s values (if H.site.equals t.physName t.pkCol k row' then row'.write vs else row') = matching H s values row' := by
    intro row' hrow'
    split
    · rename_i hequals
      have hsame : row' = row := List.inj_on_of_nodup_map ((H.site.sound db hdb).keysNodup t ht) hrow' hmem
        ((of_decide_eq_true hequals).trans (of_decide_eq_true hself).symm)
      rw [hsame,hmatches,hmatches']
    · rfl
  refine ⟨row.write vs,⟨hafter,(existing_ok_iff hkey hmapped).mpr ⟨hcolumns,?_⟩,?_,?_⟩,?_⟩
  · have hfilter := (List.filter_congr hkept).trans hrow
    have hpk' : row.write vs t.pkCol = H.site.key t k := (write_stored_pk t row _).trans (hpk.trans htyped.symm)
    rw [updated,rewritten,Function.update_self,List.filter_map]
    refine (congrArg _ (congrArg _ hfilter)).trans ?_
    rw [List.map_singleton,List.map_singleton,if_pos hself,hpk',Option.toList_some]
  · rw [updated,rewritten,Function.update_self]
    exact List.mem_map.mpr ⟨row,hmem,if_pos hself⟩
  · exact (write_stored_pk t row _).trans (hpk.trans htyped.symm)
  · intro c hcol hne hplain v hv
    rw [Row.write,lookup_written ht hplain,if_pos ⟨hcol,hne⟩,hv]
    rfl

/-- A new record holds the mapped values where no blank is filled in. -/
theorem holds_created_iff (ht : t ∈ H.site.tables) (hmapped : mapped H t s payload = .ok values) {vs : Values}
    (hgenerated : generated H t s.userId i values = .ok vs) {db₀ : Tables} {key : Value}
    (hrow : ∀ c, ¬H.site.Computed t.physName c → row c = H.site.newRow t (createdValues H.site t vs s.userId i.now db₀) key c) :
    Holds H t values row ↔ ¬Refilled H t s i values := by
  constructor
  · rintro hholds ⟨f,hf,htype,hcol,hpk,v,w,hv,hblank,hfill,hne⟩
    have hplain := field_plain ht hf htype
    have hcell := hholds f.physName hcol hpk (not_or.mpr hplain) v hv
    rw [hrow _ hplain.1,newRow_mapped ht hgenerated hf htype hcol hv,hblank,if_pos rfl,hfill,Option.getD_some] at hcell
    exact hne hcell
  · intro hfresh c hcol hpk hplain v hv
    obtain ⟨f,hf,rfl,-⟩ := mapped_coerced hmapped hv
    have hcomputed := (not_or.mp hplain).1
    have htype : f.dataType ≠ .formula := fun hformula => hcomputed ((computed_iff ht).mpr ⟨f,hf,hformula,rfl⟩)
    rw [hrow _ hcomputed,newRow_mapped ht hgenerated hf htype hcol hv]
    split
    · rename_i hblank
      cases hfill : fillOf H t s i f with
      | none => rfl
      | some w =>
        by_contra hne
        exact hfresh ⟨f,hf,htype,hcol,hpk,v,w,hv,hblank,hfill,hne⟩
    · rfl

/-- What the first delivery leaves. -/
theorem delivered (hquiet : H.site.Quiet) (ht : t ∈ H.site.tables) (hdb : H.site.Admitted db) (hkey : KeyGiven H t s payload)
    {action : Action} (h : deliver H t s payload i db = (db',.ok (action,pk))) :
    ∃ values row, mapped H t s payload = .ok values ∧ Left H t s values db' pk row ∧
      (action = .update ∧ Holds H t values row ∨ action = .create ∧ (Holds H t values row ↔ ¬Refilled H t s i values)) := by
  obtain ⟨values,found,hmapped,hfound,hresult,rfl⟩ := deliver_ok h
  cases found with
  | some k =>
    rw [store] at hresult ⊢
    obtain ⟨_,hupdate,hpure,hstate,-⟩ := bind_ok hresult
    have hpair := Except.ok.inj hpure
    obtain rfl : k = pk := congrArg Prod.snd hpair
    have haccepts : Accepts H t s i values db k := by
      by_contra hrefused
      rw [update_refused hrefused] at hupdate
      cases hupdate
    obtain ⟨row,hleft,hholds⟩ := left_updated ht hdb hkey hmapped hfound haccepts
    obtain ⟨row',hleft',hsame⟩ := hleft.alike ht hkey hmapped (update_accepted hquiet haccepts)
      (admitted_update hquiet _ _ _ _ _ db hdb)
    rw [hstate]
    exact ⟨values,row',hmapped,hleft',Or.inl ⟨(congrArg Prod.fst hpair).symm,fun c hcol hne hplain v hv =>
      (hsame c (not_or.mp hplain).1).trans (hholds c hcol hne hplain v hv)⟩⟩
  | none =>
    cases hgenerated : generated H t s.userId i values with
    | error e =>
      simp only [store,hgenerated] at hresult
      cases hresult
    | ok vs =>
      simp only [store,hgenerated] at hresult ⊢
      obtain ⟨pk',hcreate,hpure,hstate,-⟩ := bind_ok hresult
      have hpair := Except.ok.inj hpure
      obtain rfl : pk' = pk := congrArg Prod.snd hpair
      obtain ⟨hafter,rfl,halike,hadmitted⟩ := create_ends hquiet hcreate
      obtain ⟨row,hleft,hsame⟩ := (left_created ht hkey hmapped hfound hgenerated hafter).alike ht hkey hmapped halike hadmitted
      rw [hstate]
      exact ⟨values,row,hmapped,hleft,Or.inr ⟨(congrArg Prod.fst hpair).symm,holds_created_iff ht hmapped hgenerated hsame⟩⟩

/-- A payload that comes again changes nothing, unless its first delivery has filled in a field of a new record that the second one
empties. -/
theorem idempotent_iff (H : Hub) (t : MetaTable) (s : Source) (payload : Json) (i j : Moment) (db : Tables) (hquiet : H.site.Quiet)
    (ht : t ∈ H.site.tables) (hdb : H.site.Admitted db) (hkey : KeyGiven H t s payload) :
    Idempotent H t s payload i j db ↔ ¬Erases H t s payload i j db := by
  constructor
  · rintro hidempotent ⟨values,db',pk,hmapped,hfirst,hrefilled,haccepts⟩
    obtain ⟨values',row,hmapped',hleft,hholds⟩ := delivered hquiet ht hdb hkey hfirst
    obtain rfl := Except.ok.inj (hmapped.symm.trans hmapped')
    have hrepeats := hidempotent db' .create pk hfirst
    rw [repeats_iff hquiet ht hleft.admitted hkey hmapped hleft.found hleft.mem hleft.key] at hrepeats
    rcases hholds with ⟨hupdate,-⟩ | ⟨-,hholds⟩
    · cases hupdate
    · exact hholds.mp (hrepeats haccepts) hrefilled
  · intro hkept db' action pk hfirst
    obtain ⟨values,row,hmapped,hleft,hholds⟩ := delivered hquiet ht hdb hkey hfirst
    rw [repeats_iff hquiet ht hleft.admitted hkey hmapped hleft.found hleft.mem hleft.key]
    intro haccepts
    rcases hholds with ⟨-,hholds⟩ | ⟨rfl,hholds⟩
    · exact hholds
    · exact hholds.mpr fun hrefilled => hkept ⟨values,db',pk,hmapped,hfirst,hrefilled,haccepts⟩

end Deliveries

/-! ### A ticket whose number comes blank -/

def codeField : MetaField where
  id := 1
  physName := "code"
  label := "Code"
  dataType := .string

def numberField : MetaField where
  id := 2
  physName := "number"
  label := "Number"
  dataType := .autonumber
  defaultValue := some "T"

def tickets : MetaTable where
  id := 1
  physName := "tickets"
  label := "Tickets"
  fields := [codeField,numberField]
  idsNodup := by decide
  namesNodup := by decide
  namesFree := by decide

def desk : Hub where
  site := Site.plain { tables := [tickets], relations := [] } (fun _ => ["id","code","number"]) (fun _ _ => true)
    (fun _ => "") (fun _ => true) (by decide) (by decide) (by decide) (by decide) (by decide) (by decide) (by decide) (by decide)
  engine := textEngine
  lib := ApiWrites.digitLib
  username := fun _ => none
  company := fun _ => none

/-- A webhook that maps both fields, with the code as the upsert key. -/
def hook : Source where
  kind := .webhook
  fieldMap := [⟨some "code",some "code"⟩,⟨some "number",some "number"⟩]
  mode := .upsert
  matchField := some "code"
  userId := none

def ticket (number : Json) : Json := .obj [("code",.str "A1"),("number",number)]

def moment : Moment := ⟨0,0,fun _ => 1,.int 1⟩

def noTickets : Tables := fun _ => []

theorem desk_quiet : desk.site.Quiet := fun _ _ _ _ _ _ => rfl

theorem hook_keyed {number : Json} {v : Value}
    (h : mapped desk tickets hook (ticket number) = .ok [("number",v),("code",.text "A1")]) :
    KeyGiven desk tickets hook (ticket number) where
  mode := rfl
  named := by decide
  given := by
    intro values hmapped k hk
    obtain rfl := Except.ok.inj (h.symm.trans hmapped)
    have hkeys : hook.keys = ["code"] := by decide
    obtain rfl := List.mem_singleton.mp (hkeys ▸ hk)
    exact ⟨.text "A1",rfl,rfl,rfl,rfl⟩

theorem idempotent_numbered : Idempotent desk tickets hook (ticket (.str "T7")) moment moment noTickets := by
  have hmapped : mapped desk tickets hook (ticket (.str "T7")) = .ok [("number",.text "T7"),("code",.text "A1")] := rfl
  refine (idempotent_iff desk tickets hook _ moment moment noTickets desk_quiet List.mem_cons_self rfl (hook_keyed hmapped)).mpr ?_
  rintro ⟨values,db',pk,hvalues,-,⟨f,hf,-,-,-,v,w,hv,hblank,-⟩,-⟩
  obtain rfl := Except.ok.inj (hmapped.symm.trans hvalues)
  rcases List.mem_cons.mp hf with rfl | hf
  · obtain rfl : Value.text "A1" = v := Option.some.inj hv
    cases hblank
  · obtain rfl := List.mem_singleton.mp hf
    obtain rfl : Value.text "T7" = v := Option.some.inj hv
    cases hblank

/-- The second delivery takes the number that the first one has got. -/
theorem number_erased : ¬∀ (H : Hub) (t : MetaTable) (s : Source) (payload : Json) (i j : Moment) (db : Tables), H.site.Quiet →
    t ∈ H.site.tables → H.site.Admitted db → KeyGiven H t s payload → Idempotent H t s payload i j db := by
  intro hall
  have hmapped : mapped desk tickets hook (ticket (.str "")) = .ok [("number",.null),("code",.text "A1")] := rfl
  have hrepeats := hall desk tickets hook (ticket (.str "")) moment moment noTickets desk_quiet List.mem_cons_self rfl
    (hook_keyed hmapped) (deliver desk tickets hook (ticket (.str "")) moment noTickets).1 .create (.int 1) rfl
  have hplain : ¬Kept desk.site tickets.physName numberField.physName :=
    not_or.mpr (field_plain List.mem_cons_self (List.mem_cons_of_mem _ List.mem_cons_self) (by decide))
  have hnumbers := Paired.map_eq (f:=fun row : Row => row "number") (g:=fun row : Row => row "number")
    (fun row row' hsame => (hsame "number" hplain).symm) (hrepeats.1 "tickets")
  exact absurd hnumbers (by decide)

end Inbound
end Biggy
