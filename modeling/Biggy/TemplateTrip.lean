import Biggy.TemplateMapping
import Biggy.FormTrust

/-!
# Capturing a form and setting it up again

A template that is set up on the form it was captured from should give the same items. `round_trip_iff` says when it does:
where each relation is used once and every dependent dropdown has its parent on the form and one match field.
-/
namespace Biggy
namespace FormTemplates

open FormRules FormDesign

section Trip

variable {ω : Type*} {lib : DesignLib ω} {S : Schema} {items : List Json} {item : Json}

/-! ### The items before and after their normalisation -/

theorem onForm_normal {f : MetaField} : OnForm S (items.map (normalItem lib)) f ↔ OnForm S items f := by
  constructor
  · rintro ⟨item,hitem,hfield,hf⟩
    obtain ⟨source,hsource,rfl⟩ := List.mem_map.mp hitem
    rw [(isField_normal source).1] at hfield
    rw [entry_normal (by decide)] at hf
    exact ⟨source,hsource,hfield,hf⟩
  · rintro ⟨item,hitem,hfield,hf⟩
    refine ⟨normalItem lib item,List.mem_map_of_mem hitem,?_,?_⟩
    · rw [(isField_normal item).1]
      exact hfield
    · rw [entry_normal (by decide)]
      exact hf

theorem relationIds_normal : relationIds (items.map (normalItem lib)) = relationIds items := by
  induction items with
  | nil => rfl
  | cons item items ih =>
    rw [relationIds,relationIds] at ih
    rw [List.map_cons,relationIds,relationIds,List.filter_cons,List.filter_cons,(isField_normal item).2]
    split
    · rw [List.map_cons,List.map_cons,ih,entry_normal (by decide)]
    · exact ih

theorem identity_normal {mapped : List (String × MetaField)} (h : Identity S (items.map (normalItem lib)) mapped) :
    Identity S items mapped where
  nodup := h.nodup
  own q hq := ⟨(h.own q hq).1,onForm_normal.mp (h.own q hq).2⟩
  cover f hf := h.cover f (onForm_normal.mpr hf)

/-! ### Accepted items -/

theorem itemOk_of_accepted {used : List MetaField} {entries : List (List (String × FormRules.Item))}
    (h : Accepted lib S items used entries) (hreads : ∀ item ∈ items, ReadsBack lib item) (hitem : item ∈ items) :
    ItemOk lib S used item := by
  obtain ⟨t,t',hchecked⟩ := Outcome.foldlM_mem h.fold hitem
  obtain ⟨e,he⟩ := Outcome.mapM_mem h.rules hitem
  exact ⟨checkItem_ok hchecked he,⟨e,he⟩,hreads item hitem⟩

/-- The fields that the check has gone through are those of the form. -/
theorem used_onForm {used : List MetaField} (h : items.foldlM (checkItem S.toSite) [] = .ok used) :
    ∀ g ∈ used, OnForm S items g := by
  refine Outcome.foldlM_invariant (fun used => ∀ g ∈ used, OnForm S items g) (fun t t' item hitem ht hstep g hg => ?_)
    (fun g hg => by cases hg) h
  rw [checkItem] at hstep
  split at hstep
  · cases hstep
  rename_i members kind hshape
  obtain ⟨rfl,hkind,-,-⟩ := checkShape_ok hshape
  rw [checkTarget] at hstep
  split_ifs at hstep with hfield hrelation
  · split at hstep
    · cases hstep
    rename_i f hf
    split_ifs at hstep
    obtain rfl := Except.ok.inj hstep
    rcases List.mem_append.mp hg with hg | hg
    · exact ht g hg
    · obtain rfl := List.mem_singleton.mp hg
      exact ⟨_,hitem,(isField_kind hkind).1.mpr hfield,hf⟩
  · split at hstep
    · cases hstep
    split_ifs at hstep
    obtain rfl := Except.ok.inj hstep
    exact ht g hg
  · obtain rfl := Except.ok.inj hstep
    exact ht g hg

/-- The relations of the items can be chosen. -/
theorem relations_ok {used : List MetaField} (h : items.foldlM (checkItem S.toSite) [] = .ok used) :
    ∀ id ∈ relationIds items, (∃ n : ℤ, id = .int n) ∧ checkRelation S id = .ok () := by
  intro id hid
  obtain ⟨item,hitem,rfl⟩ := List.mem_map.mp hid
  obtain ⟨hitem,hrelation⟩ := List.mem_filter.mp hitem
  obtain ⟨t,t',hchecked⟩ := Outcome.foldlM_mem h hitem
  rw [checkItem] at hchecked
  split at hchecked
  · cases hchecked
  rename_i members kind hshape
  obtain ⟨rfl,hkind,-,-⟩ := checkShape_ok hshape
  have hname := (isField_kind hkind).2.mp hrelation
  subst hname
  rw [checkTarget,if_neg (by decide),if_pos rfl] at hchecked
  split at hchecked
  · cases hchecked
  rename_i rel hrel
  split_ifs at hchecked with hbad
  rw [entry_obj]
  cases hvalue : Json.get members "relation_id" with
  | int n =>
    rw [hvalue] at hrel
    have hfound : S.relation n = some rel := hrel
    refine ⟨⟨n,rfl⟩,?_⟩
    rw [checkRelation,hfound]
    exact if_neg hbad
  | _ =>
    rw [hvalue] at hrel
    cases hrel

/-! ### The relations of the identity mapping -/

theorem lookup_zipIdx (ids : List Json) (start n : ℕ) :
    ((ids.zipIdx start).map fun p => (relationKey p.2,p.1)).lookup (relationKey (start+n)) = ids[n]? := by
  induction ids generalizing start n with
  | nil => rfl
  | cons id ids ih =>
    rw [List.zipIdx_cons,List.map_cons,List.lookup_cons]
    cases n with
    | zero => simp
    | succ n =>
      have hne : (relationKey (start+(n+1)) == relationKey start) = false := by
        rw [beq_eq_false_iff_ne]
        intro h
        have hsame := relationKey_injective h
        omega
      have hnext := ih (start+1) n
      rw [hne,show start+(n+1) = start+1+n by omega,hnext]
      rfl

theorem lookup_identityRelations {n : ℕ} : (identityRelations items).lookup (relationKey n) = (relationIds items)[n]? := by
  have h := lookup_zipIdx (relationIds items) 0 n
  rwa [Nat.zero_add] at h

theorem keys_identityRelations : (identityRelations items).map Prod.fst =
    (List.range (relationIds items).length).map relationKey := by
  rw [identityRelations,List.map_map,List.range_eq_range',← List.zipIdx_map_snd 0 (relationIds items),List.map_map]
  rfl

theorem values_identityRelations : (identityRelations items).map Prod.snd = relationIds items := by
  rw [identityRelations,List.map_map]
  exact List.zipIdx_map_fst 0 (relationIds items)

theorem sameNames_self {names names' : List String} (h : names = names') : sameNames names names' = true := by
  subst h
  rw [sameNames,Bool.and_self,List.all_eq_true]
  exact fun name hname => decide_eq_true hname

theorem pairwise_ids {ids : List Json} (hints : ∀ id ∈ ids, ∃ n : ℤ, id = .int n) :
    ids.Pairwise (fun a b => equal a b = false) ↔ ids.Nodup := by
  have hne : ∀ a ∈ ids, ∀ b ∈ ids, (equal a b = false ↔ a ≠ b) := by
    intro a ha b hb
    obtain ⟨m,rfl⟩ := hints a ha
    obtain ⟨n,rfl⟩ := hints b hb
    simp [equal,number]
  rw [List.Nodup]
  constructor
  · exact fun h => h.imp_of_mem fun ha hb hab => (hne _ ha _ hb).mp hab
  · exact fun h => h.imp_of_mem fun ha hb hab => (hne _ ha _ hb).mpr hab

/-! ### The settings -/

/-- The form's own settings are ones that a configuration may have. -/
structure LiveSettings (form : MetaForm) : Prop where
  title : shortText 160 (form.columns "title") = true
  titled : (form.columns "title").truthy = true
  group : shortText 80 (form.columns "catalog_group") = true
  catalog : isBool (form.columns "in_catalog") = true

theorem get_settled (form : MetaForm) (template : Template) (results : List Json) :
    Json.get (settled form template results) "title" = form.columns "title" ∧
      Json.get (settled form template results) "description" = template.description ∧
      Json.get (settled form template results) "purpose" = template.purpose ∧
      Json.get (settled form template results) "in_catalog" = form.columns "in_catalog" ∧
      Json.get (settled form template results) "catalog_group" = form.columns "catalog_group" ∧
      Json.get (settled form template results) "items" = .arr results :=
  ⟨rfl,rfl,rfl,rfl,rfl,rfl⟩

theorem hasKeys_settled (form : MetaForm) (template : Template) (results : List Json) :
    hasKeys (settled form template results) = true := rfl

theorem settled_iff {form : MetaForm} {template : Template} {results : List Json} {config : Json}
    (hsettings : checkSettings (membersOf config) = .ok ()) (hdescription : template.description = entry config "description")
    (hpurpose : template.purpose = entry config "purpose") :
    checkSettings (settled form template results) = .ok () ↔ LiveSettings form := by
  obtain ⟨htitle,hdesc,hpurp,hcatalog,hgroup,-⟩ := get_settled form template results
  obtain ⟨-,hdescription',-,-,hpurpose',-⟩ := checkSettings_iff.mp hsettings
  rw [checkSettings_iff,htitle,hdesc,hpurp,hcatalog,hgroup,hdescription,hpurpose]
  constructor
  · rintro ⟨htitle,-,hgroup,htitled,-,hcatalog⟩
    exact ⟨htitle,htitled,hgroup,hcatalog⟩
  · exact fun h => ⟨h.title,hdescription',h.group,h.titled,hpurpose',h.catalog⟩

/-! ### The whole form -/

/-- The template that was captured, set up on the same form without any choice, gives the same items. -/
def RoundTrips (lib : DesignLib ω) (S : Schema) (form : MetaForm) (items : List Json) (template : Template) : Prop :=
  ∃ config issues, mapConfig lib S form template (.obj (identityFields S template)) (.obj (identityRelations items)) (.obj []) =
    .ok (config,issues) ∧ List.Forall₂ (SameItem lib) items (itemsOf config)

/-- What a form needs for the round trip. -/
structure PortableForm (lib : DesignLib ω) (S : Schema) (form : MetaForm) (items : List Json) : Prop where
  settings : LiveSettings form
  options : ∀ f, OnForm S items f → Comparable lib f
  once : (relationIds items).Nodup
  items : ∀ item ∈ items, Portable S items item

/-- What a template has of an accepted form. -/
structure CapturedForm (lib : DesignLib ω) (S : Schema) (items : List Json) (template : Template) : Prop where
  version : template.version = 1
  fields : ∃ c, (items.map (normalItem lib)).foldlM (captureItem lib S) {} = .ok c ∧ template.fields = c.fields
  relations : template.relations.map Prod.fst = (List.range (relationIds items).length).map relationKey
  rows : List.Forall₂ (fun item row => Row S (relationIds items) (normalItem lib item) row) items template.items

theorem captured_of_capture {config : Json} {template : Template} (h : capture lib S config = .ok template) :
    checkSettings (membersOf config) = .ok () ∧ (∃ used entries, Accepted lib S (itemsOf config) used entries) ∧
      template.description = entry config "description" ∧ template.purpose = entry config "purpose" ∧
      CapturedForm lib S (itemsOf config) template := by
  rw [capture] at h
  split at h
  · cases h
  rename_i config' issues hvalid
  obtain ⟨rfl,hsettings,haccepted⟩ := accepted_of_validate hvalid
  split at h
  · cases h
  rename_i c hfold
  obtain rfl := Except.ok.inj h
  rw [itemsOf_normalise] at hfold
  obtain ⟨⟨rows,hrows,hall⟩,hnumbered,hlength⟩ := rows_of_fold [] hfold (show Numbered {} from rfl) rfl
  rw [List.nil_append,relationIds_normal] at hall hlength
  have hitems : c.items = rows := hrows
  refine ⟨hsettings,haccepted,entry_normalise lib (by decide) config,entry_normalise lib (by decide) config,rfl,⟨c,hfold,rfl⟩,?_,?_⟩
  · rw [← hlength]
    exact hnumbered
  · rw [List.forall₂_map_left_iff] at hall
    exact hitems ▸ hall

/-- The fields of the form are mapped to themselves when their options can be compared. -/
theorem mapped_iff {template : Template} (h : CapturedForm lib S items template) :
    (∃ mapped, template.fields.mapM (mapField lib S (identityFields S template)) = .ok mapped) ↔
      ∀ f, OnForm S items f → Comparable lib f := by
  obtain ⟨c,hfold,hfields⟩ := h.fields
  obtain ⟨-,hdescribed⟩ := fields_of_fold hfold
  constructor
  · rintro ⟨mapped,hmapped⟩ f hf
    obtain ⟨p,hp,hname⟩ := List.mem_map.mp (fields_cover hfold (onForm_normal.mpr hf))
    obtain ⟨g,hg,hdescribes⟩ := hdescribed p hp
    obtain rfl := S.table.field_unique (onForm_mem hf) (onForm_mem hg) (hname.symm.trans hdescribes.1)
    rw [← hfields] at hp
    obtain ⟨q,hq⟩ := Outcome.mapM_mem hmapped hp
    exact ((mapField_identity hp (onForm_mem hf) hdescribes).mp hq).2
  · intro hall
    refine Outcome.mapM_total fun p hp => ?_
    obtain ⟨f,hf,hdescribes⟩ := hdescribed p (hfields ▸ hp)
    exact ⟨_,(mapField_identity hp (onForm_mem hf) hdescribes).mpr ⟨rfl,hall f (onForm_normal.mp hf)⟩⟩

theorem identity_of_captured {template : Template} (h : CapturedForm lib S items template) {mapped : List (String × MetaField)}
    (hmapped : template.fields.mapM (mapField lib S (identityFields S template)) = .ok mapped) : Identity S items mapped := by
  obtain ⟨c,hfold,hfields⟩ := h.fields
  exact identity_normal (identity_of_fold hfold hfields hmapped)

/-- The steps of the mapping, of which those for the identity cannot fail are left out. -/
theorem mapConfig_iff {form : MetaForm} {template : Template} (h : CapturedForm lib S items template)
    (hrelations : ∀ id ∈ relationIds items, (∃ n : ℤ, id = .int n) ∧ checkRelation S id = .ok ()) {result : Json × List Issue} :
    mapConfig lib S form template (.obj (identityFields S template)) (.obj (identityRelations items)) (.obj []) = .ok result ↔
      ∃ mapped results, template.fields.mapM (mapField lib S (identityFields S template)) = .ok mapped ∧
        (relationIds items).Nodup ∧ template.items.mapM (mapItem lib S mapped (identityRelations items) []) = .ok results ∧
        validateConfig lib S.toSite (.obj (settled form template results)) = .ok result := by
  have hnames : sameNames ((identityFields S template).map Prod.fst) (template.fields.map Prod.fst) = true := by
    refine sameNames_self ?_
    rw [identityFields,List.map_map]
    rfl
  have hkeys : sameNames ((identityRelations items).map Prod.fst) (template.relations.map Prod.fst) = true :=
    sameNames_self (keys_identityRelations.trans h.relations.symm)
  have hhash : ((identityRelations items).all fun p => hashable p.2) = true := by
    rw [List.all_eq_true]
    intro p hp
    have hvalue : p.2 ∈ relationIds items := (@values_identityRelations items) ▸ List.mem_map_of_mem hp
    obtain ⟨n,hn⟩ := (hrelations _ hvalue).1
    rw [hn]
    rfl
  obtain ⟨checks,hchecks⟩ : ∃ checks, (relationIds items).mapM (checkRelation S) = .ok checks :=
    Outcome.mapM_total fun id hid => ⟨(),(hrelations id hid).2⟩
  have hpairs := pairwise_ids fun id hid => (hrelations id hid).1
  rw [mapConfig,if_neg (not_not.mpr h.version),mapMembers,if_neg (not_not.mpr ⟨hnames,hkeys⟩),values_identityRelations]
  cases hmapped : template.fields.mapM (mapField lib S (identityFields S template)) with
  | error e => simp
  | ok mapped =>
    have hids := (identity_of_captured h hmapped).ids_nodup
    dsimp only
    rw [if_neg (not_not.mpr hids),if_neg (not_not.mpr hhash),hchecks]
    by_cases honce : (relationIds items).Nodup
    · rw [if_neg (not_not.mpr (hpairs.mpr honce))]
      cases hresults : template.items.mapM (mapItem lib S mapped (identityRelations items) []) with
      | error e => simp [hresults]
      | ok results => simp [hresults,honce]
    · rw [if_pos fun hdistinct => honce (hpairs.mp hdistinct)]
      simp [honce]

theorem forall₂_both {α β : Type*} {R T : α → β → Prop} {p : α → Prop} {xs : List α} {ys : List β} (h : List.Forall₂ R xs ys)
    (h' : List.Forall₂ T xs ys) (hp : ∀ x y, R x y → T x y → p x) : ∀ x ∈ xs, p x := by
  induction h with
  | nil => exact List.forall_mem_nil _
  | cons hxy _ ih =>
    cases h' with
    | cons hxy' hrest => exact List.forall_mem_cons.mpr ⟨hp _ _ hxy hxy',ih hrest⟩

theorem forall₂_comp {α β γ : Type*} {R : α → β → Prop} {T : β → γ → Prop} {U : α → γ → Prop} {xs : List α} {ys : List β}
    {zs : List γ} (h : List.Forall₂ R xs ys) (h' : List.Forall₂ T ys zs) (hcomp : ∀ x y z, R x y → T y z → U x z) :
    List.Forall₂ U xs zs := by
  induction h generalizing zs with
  | nil =>
    cases h'
    exact .nil
  | cons hxy _ ih =>
    cases h' with
    | cons hyz hrest => exact .cons (hcomp _ _ _ hxy hyz) (ih hrest)

theorem mapM_of_pairs {α β : Type*} {R : α → β → Prop} {Q : α → Members → Prop} {f : β → Except PyError Json} {xs : List α}
    {ys : List β} (h : List.Forall₂ R xs ys) (hstep : ∀ x y, R x y → ∃ members, f y = .ok (.obj members) ∧ Q x members) :
    ∃ results, ys.mapM f = .ok (results.map .obj) ∧ List.Forall₂ Q xs results := by
  induction h with
  | nil => exact ⟨[],rfl,.nil⟩
  | cons hxy _ ih =>
    obtain ⟨members,hf,hq⟩ := hstep _ _ hxy
    obtain ⟨results,hmap,hall⟩ := ih
    refine ⟨members::results,?_,.cons hq hall⟩
    rw [List.mapM_cons,hf,hmap]
    rfl

theorem itemsOf_settled (form : MetaForm) (template : Template) (results : List Json) :
    itemsOf (normalise lib (.obj (settled form template results))) = results.map (normalItem lib) := by
  rw [itemsOf_normalise]
  rfl

variable (lib S)

/-- A captured form is given back exactly when it is portable: its own settings pass the check, no relation is used twice,
the parent of every dependent dropdown is on the form and its match field is a candidate, or the only one if it is open. -/
theorem round_trip_iff (form : MetaForm) (config : Json) (template : Template) (hcapture : capture lib S config = .ok template)
    (hreads : ∀ item ∈ itemsOf config, ReadsBack lib item) :
    RoundTrips lib S form (itemsOf config) template ↔ PortableForm lib S form (itemsOf config) := by
  obtain ⟨hsettings,⟨used,entries,haccepted⟩,hdescription,hpurpose,hcaptured⟩ := captured_of_capture hcapture
  have hok : ∀ item ∈ itemsOf config, ItemOk lib S used item := fun item hitem => itemOk_of_accepted haccepted hreads hitem
  have hrelations := relations_ok haccepted.fold
  have hmaps : ∀ mapped, template.fields.mapM (mapField lib S (identityFields S template)) = .ok mapped →
      List.Forall₂ (fun item row => (item ∈ itemsOf config) ∧ Maps lib S mapped (identityRelations (itemsOf config)) (itemsOf config) item row)
        (itemsOf config) template.items := by
    intro mapped hmapped
    have hidentity := identity_of_captured hcaptured hmapped
    have hused : ∀ g ∈ used, mapped.lookup g.physName = some g :=
      fun g hg => (hidentity.lookup_iff (onForm_mem (used_onForm haccepted.fold g hg))).mpr (used_onForm haccepted.fold g hg)
    refine List.Forall₂.imp (fun item row h => ⟨h.1,?_⟩)
      ((List.forall₂_and_left (p:=fun item => item ∈ itemsOf config) _ _).mpr ⟨fun item hitem => hitem,hcaptured.rows⟩)
    exact maps_row (hok item h.1) h.1 hidentity hused (fun n => lookup_identityRelations) h.2
  constructor
  · rintro ⟨result,issues,hmap,hsame⟩
    obtain ⟨mapped,results,hmapped,honce,hresults,hvalid⟩ := (mapConfig_iff hcaptured hrelations).mp hmap
    obtain ⟨hresult,hset,-⟩ := accepted_of_validate hvalid
    dsimp only at hresult
    subst hresult
    rw [itemsOf_settled,List.forall₂_map_right_iff] at hsame
    refine ⟨(settled_iff hsettings hdescription hpurpose).mp hset,(mapped_iff hcaptured).mp ⟨mapped,hmapped⟩,honce,?_⟩
    have hpairs : List.Forall₂ (fun item result => item ∈ itemsOf config ∧ ∃ members, result = .obj members ∧
        Mirrors lib item members ∧ (SameRefs item members → Portable S (itemsOf config) item)) (itemsOf config) results :=
      forall₂_comp (hmaps mapped hmapped) (Outcome.mapM_ok hresults)
        fun item row result hrow hrun => ⟨hrow.1,hrow.2.mirrors result hrun⟩
    refine forall₂_both hpairs hsame fun item result hpair hback => ?_
    obtain ⟨hmem,members,rfl,hmirrors,hportable⟩ := hpair
    have hitem := hok item hmem
    exact hportable ((same_iff_refs hmirrors hitem.reads hitem.checked.rules).mp hback)
  · intro h
    obtain ⟨mapped,hmapped⟩ := (mapped_iff hcaptured).mpr h.options
    have hgiven : ∀ item row, (item ∈ itemsOf config ∧
        Maps lib S mapped (identityRelations (itemsOf config)) (itemsOf config) item row) →
        ∃ members, mapItem lib S mapped (identityRelations (itemsOf config)) [] row = .ok (.obj members) ∧
          (Mirrors lib item members ∧ ReadsBack lib item) ∧ SameItem lib item (normalItem lib (.obj members)) := by
      rintro item row ⟨hmem,hrow⟩
      obtain ⟨members,hmap,hrefs⟩ := hrow.returns (h.items item hmem)
      obtain ⟨members',heq,hmirrors,-⟩ := hrow.mirrors _ hmap
      obtain rfl := Json.obj.inj heq
      have hitem := hok item hmem
      exact ⟨members,hmap,⟨hmirrors,hitem.reads⟩,(same_iff_refs hmirrors hitem.reads hitem.checked.rules).mpr hrefs⟩
    obtain ⟨results,hresults,hall⟩ := mapM_of_pairs (hmaps mapped hmapped) hgiven
    have hmirrored := accepted_mirrors haccepted (hall.imp fun _ _ hq => hq.1)
    have hset : checkSettings (settled form template (results.map .obj)) = .ok () :=
      (settled_iff hsettings hdescription hpurpose).mpr h.settings
    have hvalid := validate_of_accepted (hasKeys_settled form template (results.map .obj)) hset rfl hmirrored
    refine ⟨_,_,(mapConfig_iff hcaptured hrelations).mpr ⟨mapped,_,hmapped,h.once,hresults,hvalid⟩,?_⟩
    rw [itemsOf_settled,List.map_map,List.forall₂_map_right_iff]
    exact hall.imp fun _ _ hq => hq.2

end Trip

/-! ### A relation that is shown twice -/

/-- The only rules there are. -/
def oneRule : Members := [("require",.obj [("field",.str "choice"),("op",.str "eq"),("value",.str "yes")])]

def ruleText : String := "\x7b\"require\":\x7b\"field\":\"choice\",\"op\":\"eq\",\"value\":\"yes\"\x7d\x7d"

theorem ruleText_ne : ruleText ≠ "" := by decide

theorem oneRule_ne : oneRule ≠ [] := List.cons_ne_nil _ _

theorem oneRule_tops : ∀ p ∈ oneRule, p.1 ∈ ["show","require","readonly"] := by decide

theorem mem_listed (names : List String) (name : String) : name ∈ id names ↔ name ∈ names := Iff.rfl

def templateLib : DesignLib String where
  toFormLib := { plainLib with
    loads := fun s => if s = ruleText then .ok (.obj oneRule) else .error (.valueError "Expecting value") }
  dump := fun _ => ruleText
  digest := fun _ => ""
  arrangement := ⟨id,mem_listed⟩
  dump_rules := fun _ _ _ => ⟨ruleText_ne,oneRule,rfl,oneRule_ne,oneRule_tops,rfl⟩

def choice : MetaField where
  id := 1
  physName := "choice"
  label := "Choice"
  dataType := .string

def detail : MetaField where
  id := 2
  physName := "detail"
  label := "Detail"
  dataType := .string

def sourceTable : MetaTable where
  id := 1
  physName := "template_source"
  label := "Source"
  fields := [choice,detail]
  idsNodup := by decide
  namesNodup := by decide
  namesFree := by decide

/-- The table with one many-to-many relation. -/
def sourceSchema : Schema where
  table := sourceTable
  tableColumns := .null
  schema := .null
  relation := fun n => if n = 7 then some ⟨"mn",1,2⟩ else none
  check := fun _ => []
  tableAt := fun id => if id = 1 then some sourceTable else none
  relationName := fun _ => "Job parents"
  idsPositive := by
    intro id t ht
    split_ifs at ht
    obtain rfl := Option.some.inj ht
    decide

def sourceForm : MetaForm where
  id := 1
  columns := fun key =>
    if key = "title" then .str "Source form"
    else if key = "purpose" then .str "data"
    else if key = "in_catalog" then .bool false
    else .null
  items := []

def fieldItemOf (id : ℤ) (rules : Json) : Json :=
  .obj [("kind",.str "field"),("field_id",.int id),("relation_id",.null),("parent_field_id",.null),("filter_field_id",.null),
    ("label_override",.null),("help_text",.null),("required",.bool false),("readonly",.bool false),("rules_json",rules),
    ("widget",.null)]

def relationItem : Json :=
  .obj [("kind",.str "relation"),("field_id",.null),("relation_id",.int 7),("parent_field_id",.null),("filter_field_id",.null),
    ("label_override",.null),("help_text",.null),("required",.bool false),("readonly",.bool false),("rules_json",.null),
    ("widget",.null)]

def configOf (items : List Json) : Json :=
  .obj [("title",.str "Source form"),("description",.null),("purpose",.str "data"),("in_catalog",.bool false),
    ("catalog_group",.null),("items",.arr items)]

/-- A choice, a detail that is required for one answer and a relation. -/
def sourceItems : List Json := [fieldItemOf 1 .null,fieldItemOf 2 (.str ruleText),relationItem]

theorem readsBack_plain {item : Json} (h : entry item "rules_json" = .null) : ReadsBack templateLib item := by
  intro rules rules' hne hparse _
  rw [h] at hparse
  exact absurd (Except.ok.inj hparse).symm hne

theorem readsBack_source : ∀ item ∈ sourceItems, ReadsBack templateLib item := by
  refine List.forall_mem_cons.mpr ⟨readsBack_plain rfl,List.forall_mem_cons.mpr ⟨?_,List.forall_mem_singleton.mpr (readsBack_plain rfl)⟩⟩
  intro rules rules' _ hparse hloads
  obtain rfl : oneRule = rules := Except.ok.inj hparse
  obtain rfl : oneRule = rules' := Json.obj.inj (Except.ok.inj hloads)
  exact same_refl _

theorem portable_fieldItem {id : ℤ} {rules : Json} : Portable sourceSchema sourceItems (fieldItemOf id rules) where
  unfielded h := by cases h
  unrelated _ := rfl
  unparented _ _ := rfl
  dropdown _ f parent _ hp := by cases hp

theorem portable_relationItem : Portable sourceSchema sourceItems relationItem where
  unfielded _ := ⟨rfl,rfl,rfl⟩
  unrelated h := by cases h
  unparented h := by cases h
  dropdown h := by cases h

theorem portable_source : PortableForm templateLib sourceSchema sourceForm sourceItems where
  settings := ⟨rfl,rfl,rfl,rfl⟩
  options := by
    intro f hf henum
    have hmem : f ∈ [choice,detail] := onForm_mem hf
    rcases List.mem_pair.mp hmem with rfl | rfl <;> cases henum
  once := List.nodup_singleton _
  items := List.forall_mem_cons.mpr ⟨portable_fieldItem,List.forall_mem_cons.mpr ⟨portable_fieldItem,
    List.forall_mem_singleton.mpr portable_relationItem⟩⟩

theorem round_trip_source : ∃ template, capture templateLib sourceSchema (configOf sourceItems) = .ok template ∧
    RoundTrips templateLib sourceSchema sourceForm sourceItems template := by
  obtain ⟨template,hcapture⟩ : ∃ template, capture templateLib sourceSchema (configOf sourceItems) = .ok template := ⟨_,rfl⟩
  exact ⟨template,hcapture,(round_trip_iff templateLib sourceSchema sourceForm (configOf sourceItems) template hcapture
    readsBack_source).mpr portable_source⟩

/-- A form that shows a relation twice is captured, but its template cannot be set up on it. -/
theorem trip_lost : ¬∀ (lib : DesignLib String) (S : Schema) (form : MetaForm) (config : Json) (template : Template),
    capture lib S config = .ok template → (∀ item ∈ itemsOf config, ReadsBack lib item) →
    RoundTrips lib S form (itemsOf config) template := by
  intro h
  obtain ⟨template,hcapture,hrefused⟩ : ∃ template, capture templateLib sourceSchema (configOf [relationItem,relationItem]) = .ok template ∧
      mapConfig templateLib sourceSchema sourceForm template (.obj (identityFields sourceSchema template))
        (.obj (identityRelations [relationItem,relationItem])) (.obj []) =
      .error (.valueError "Map each relationship to a different target relationship.") := ⟨_,rfl,rfl⟩
  obtain ⟨config,issues,hmap,-⟩ := h templateLib sourceSchema sourceForm _ template hcapture
    (List.forall_mem_cons.mpr ⟨readsBack_plain rfl,List.forall_mem_singleton.mpr (readsBack_plain rfl)⟩)
  cases hrefused.symm.trans hmap

end FormTemplates
end Biggy
