import Biggy.Studio
import Biggy.FormTrust

/-!
# The version of a draft

Each success of an action carries the version of the draft and raises it by one, so that nobody
overwrites what they have not seen. A failure leaves the draft and the live form alone, but for
one case: `reset` takes over the live form unread, and its answer can fail on the rules of it.
-/
namespace Biggy
namespace Studio

open FormDesign FormRules Run

/-! ### Snapshots -/

section Snapshots

variable {ω : Type*} {lib : StudioLib ω}

theorem written_sorted (form : MetaForm) (config : Json) :
    (written lib form config).items.Pairwise fun a b => itemLe a b := by
  rw [List.pairwise_iff_getElem]
  intro i j hi hj hij
  simp only [written,List.getElem_mapIdx,itemLe,Bool.or_eq_true,decide_eq_true_eq,Bool.and_eq_true]
  exact Or.inl (by exact_mod_cast hij)

/-- The items that `publish` writes stand in the order of the configuration. -/
theorem snapshot_written (form : MetaForm) (config : Json) : snapshot (written lib form config) = complete config := by
  have hitems : (written lib form config).items.map (fun item => Json.obj item.members) =
      (itemsOf config).map fun item => .obj (itemKeys.map fun key => (key,entry item key)) := by
    apply List.ext_getElem
    · simp [written]
    · intro i hi hi'
      simp [written,MetaFormField.members]
  rw [snapshot,complete,List.mergeSort_of_pairwise (written_sorted form config),hitems]
  rfl

theorem itemsOf_settings (columns : String → Json) (items : List Json) :
    itemsOf (.obj ((formKeys.map fun key => (key,columns key))++[("items",.arr items)])) = items := rfl

theorem entry_members {key : String} (hkey : key ∈ itemKeys) (columns : String → Json) :
    entry (.obj (itemKeys.map fun key => (key,columns key))) key = columns key := by
  simp only [itemKeys,List.mem_cons,List.not_mem_nil,or_false] at hkey
  rcases hkey with rfl | rfl | rfl | rfl | rfl | rfl | rfl | rfl | rfl | rfl | rfl <;> rfl

theorem readable_complete {config : Json} (h : Readable lib.toDesignLib config) :
    Readable lib.toDesignLib (complete config) := by
  intro item hitem e herror
  rw [complete,itemsOf_settings] at hitem
  obtain ⟨source,hsource,rfl⟩ := List.mem_map.mp hitem
  rw [entry_members (by decide)] at herror
  exact h source hsource e herror

/-- The rules of every item of the live form can be read, or are refused with an error that is caught. -/
def LiveReadable (lib : StudioLib ω) (form : MetaForm) : Prop :=
  ∀ item ∈ form.items, ∀ e, parseRules lib.toFormLib (item.columns "rules_json") = .error e → caught e

theorem readable_snapshot {form : MetaForm} (h : LiveReadable lib form) : Readable lib.toDesignLib (snapshot form) := by
  intro item hitem e herror
  rw [snapshot,itemsOf_settings] at hitem
  obtain ⟨source,hsource,rfl⟩ := List.mem_map.mp hitem
  rw [MetaFormField.members,entry_members (by decide)] at herror
  exact h source (List.mem_mergeSort.mp hsource) e herror

end Snapshots

/-! ### What an action commits -/

section Commits

variable {ω : Type*} {lib : StudioLib ω} {s s' : State} {draft : FormDraft} {user : ℕ} {body : Members}

theorem lockDraft_ok {value : Json} (h : lockDraft s value = .ok draft) :
    s.draft = some draft ∧ value = .int draft.version := by
  unfold lockDraft at h
  split at h
  · rename_i hdraft
    split_ifs at h with hversion
    obtain rfl := Except.ok.inj h
    exact ⟨hdraft,by rw [hversion]⟩
  · cases h

theorem save_ok (h : save lib s draft user body = .ok s') :
    ∃ config, s' = { s with draft := some { draft with
        config := normalise lib.toDesignLib config
        version := draft.version+1
        testedHash := none
        updatedBy := some user } } ∧ Checked lib.toDesignLib s.site config := by
  rw [save] at h
  split at h
  · cases h
  · rename_i hvalidate
    obtain ⟨rfl,-,hchecked⟩ := validateConfig_ok hvalidate
    exact ⟨_,(Except.ok.inj h).symm,hchecked⟩

theorem previewDraft_ok (h : previewDraft lib s draft body = .ok s') :
    ∃ valid, lib.preview s.site s.form (normalise lib.toDesignLib draft.config) body = .ok valid ∧
      s' = { s with draft := some { draft with
        version := draft.version+1
        testedHash := if valid && !((s.site.check (normalise lib.toDesignLib draft.config)).any fun i => i.level = "error") then
          some (lib.digest (normalise lib.toDesignLib draft.config)) else none } } ∧
      Checked lib.toDesignLib s.site draft.config := by
  rw [previewDraft] at h
  split at h
  · cases h
  rename_i hvalidate
  obtain ⟨rfl,rfl,hchecked⟩ := validateConfig_ok hvalidate
  split at h
  · cases h
  · rename_i hpreview
    exact ⟨_,hpreview,(Except.ok.inj h).symm,hchecked⟩

theorem restore_ok (h : restore lib s draft body = .ok s') :
    ∃ revision, revisionOf s body = .ok revision ∧
      s' = rebase lib s draft (normalise lib.toDesignLib revision.config) ∧
      Checked lib.toDesignLib s.site revision.config := by
  rw [restore] at h
  split at h
  · cases h
  rename_i revision hrevision
  split at h
  · cases h
  · rename_i hvalidate
    obtain ⟨rfl,-,hchecked⟩ := validateConfig_ok hvalidate
    exact ⟨revision,hrevision,(Except.ok.inj h).symm,hchecked⟩

/-- What a publication has checked, and what it leaves. -/
structure Published (lib : StudioLib ω) (s : State) (draft : FormDraft) (user : ℕ) (s' : State) : Prop where
  based : draft.baseHash = liveHash lib.toDesignLib s.site s.form
  tested : draft.testedHash = some (lib.digest (normalise lib.toDesignLib draft.config))
  checked : Checked lib.toDesignLib s.site draft.config
  live : held lib (written lib s.form (normalise lib.toDesignLib draft.config)) = some s'.form
  site : s'.site = s.site
  revisions : s'.revisions = s.revisions++
    [⟨nextId s.revisions,s.form.id,snapshot s.form,user,"Before publication"⟩,
      ⟨nextId s.revisions+1,s.form.id,content lib.toDesignLib draft.config,user,"Published"⟩]
  draft : s'.draft = some { draft with
    config := content lib.toDesignLib draft.config
    baseHash := liveHash lib.toDesignLib s.site (written lib s.form (normalise lib.toDesignLib draft.config))
    version := draft.version+1
    testedHash := none }

theorem publish_ok (h : publish lib s draft user = .ok s') : Published lib s draft user s' := by
  rw [publish] at h
  split at h
  · cases h
  rename_i hbased
  split at h
  · cases h
  rename_i hvalidate
  obtain ⟨rfl,-,hchecked⟩ := validateConfig_ok hvalidate
  split at h
  · cases h
  split at h
  · cases h
  rename_i htested
  simp only [snapshot_written] at h
  split at h
  · cases h
  · rename_i hheld
    obtain rfl := Except.ok.inj h
    exact ⟨not_not.mp hbased,not_not.mp htested,hchecked,hheld,rfl,rfl,rfl⟩

/-- What is committed is a draft of the next version. -/
theorem commit_version {name : ActionName} (h : commit lib s draft user body name = .ok s') :
    version s' = draft.version+1 := by
  cases name with
  | save =>
    obtain ⟨config,rfl,-⟩ := save_ok h
    rfl
  | preview =>
    obtain ⟨valid,-,rfl,-⟩ := previewDraft_ok h
    rfl
  | publish => rw [version,(publish_ok h).draft]; rfl
  | reset =>
    obtain rfl := Except.ok.inj h
    rfl
  | restore =>
    obtain ⟨revision,-,rfl,-⟩ := restore_ok h
    rfl
  | other => cases h

theorem responseData_ok (hdraft : s.draft = some draft) (hread : Readable lib.toDesignLib draft.config) :
    ∃ answer, responseData lib s = .ok answer := by
  rw [responseData,hdraft]
  dsimp only
  split
  · exact ⟨_,rfl⟩
  · rename_i herror
    rw [if_pos (validateConfig_caught hread herror)]
    exact ⟨_,rfl⟩

/-- What is committed is answered, when `reset` meets rules that can be read. -/
theorem commit_answered {name : ActionName} (hreset : name = .reset → LiveReadable lib s.form)
    (h : commit lib s draft user body name = .ok s') : ∃ answer, responseData lib s' = .ok answer := by
  cases name with
  | save =>
    obtain ⟨config,rfl,hchecked⟩ := save_ok h
    exact responseData_ok rfl (readable_normalise hchecked)
  | preview =>
    obtain ⟨valid,-,rfl,hchecked⟩ := previewDraft_ok h
    exact responseData_ok rfl (readable_of_checked hchecked)
  | publish =>
    have hpublished := publish_ok h
    exact responseData_ok hpublished.draft (readable_complete (readable_normalise hpublished.checked))
  | reset =>
    obtain rfl := Except.ok.inj h
    exact responseData_ok rfl (readable_snapshot (hreset rfl))
  | restore =>
    obtain ⟨revision,-,rfl,hchecked⟩ := restore_ok h
    exact responseData_ok rfl (readable_normalise hchecked)
  | other => cases h

theorem applyTemplate_ok {key : String} {request : Json} {reviewed : Option Stamp}
    (h : applyTemplate lib s user key request reviewed = .ok s') :
    (∃ stamp, reviewed = some stamp ∧ stamp.draft = version s) ∧ version s' = version s+1 ∧
      ∃ draft, s'.draft = some draft ∧ draft.testedHash = none := by
  unfold applyTemplate at h
  split at h
  · cases h
  · split at h
    · cases h
    split at h
    · cases h
    dsimp only at h
    split at h
    · cases h
    rename_i reviewed
    split at h
    · cases h
    rename_i hstamp
    have hdraft : reviewed.draft = version s := by rw [not_not.mp hstamp]
    refine ⟨⟨reviewed,rfl,hdraft⟩,?_⟩
    split at h
    · rename_i hnone
      obtain rfl := Except.ok.inj h
      exact ⟨by simp [version,hnone],_,rfl,rfl⟩
    · rename_i draft hsome
      split at h
      · cases h
      · obtain rfl := Except.ok.inj h
        exact ⟨by simp [version,hsome],_,rfl,rfl⟩
  · cases h

end Commits

/-! ### Runs -/

section Runs

variable {ω : Type*} {lib : StudioLib ω}

/-- The actions on the draft. -/
def Event.acts : Event → Bool
  | .action _ _ _ => true
  | .apply _ _ _ _ => true
  | _ => false

/-- The version that an action carries; that of `apply` is in the stamp of the review. -/
def Event.carried : Event → Option ℤ
  | .action _ _ body => match entry body "version" with
    | .int n => some n
    | _ => none
  | .apply _ _ _ reviewed => reviewed.map Stamp.draft
  | _ => none

def Succeeds (lib : StudioLib ω) (s : State) (e : Event) : Prop := ∃ answer, (perform lib s e).1 = .ok answer

/-- An action that succeeds carries the version of the draft and raises it by one; one that fails changes
neither the draft nor the live form. -/
def Follows (lib : StudioLib ω) (s : State) (e : Event) : Prop :=
  e.acts = true → (Succeeds lib s e → e.carried = some (version s) ∧ version (step lib s e) = version s+1) ∧
    (¬Succeeds lib s e → (step lib s e).draft = s.draft ∧ (step lib s e).form = s.form)

/-- A `reset` meets a live form whose rules can be read, or are refused with an error that is caught. -/
def ResetsReadable (lib : StudioLib ω) (s : State) : Event → Prop
  | .action _ .reset _ => LiveReadable lib s.form
  | _ => True

/-- What an action on the draft does. -/
theorem action_cases (s : State) (user : ℕ) (name : ActionName) (body : Json) :
    (∃ e, action lib s user name body = (.error e,s)) ∨
    ∃ members draft s', body = .obj members ∧ s.draft = some draft ∧ Json.get members "version" = .int draft.version ∧
      commit lib s draft user members name = .ok s' ∧ action lib s user name body = (responseData lib s',s') := by
  cases body with
  | obj members =>
    simp only [action]
    split
    · exact Or.inl ⟨_,rfl⟩
    · rename_i draft hlock
      obtain ⟨hdraft,hversion⟩ := lockDraft_ok hlock
      split
      · exact Or.inl ⟨_,rfl⟩
      · rename_i s' hcommit
        exact Or.inr ⟨members,draft,s',rfl,hdraft,hversion,hcommit,rfl⟩
  | _ => exact Or.inl ⟨_,rfl⟩

theorem apply_cases (s : State) (user : ℕ) (key : String) (body : Json) (reviewed : Option Stamp) :
    (∃ e, apply lib s user key body reviewed = (.error e,s)) ∨
    ∃ s', applyTemplate lib s user key body reviewed = .ok s' ∧
      apply lib s user key body reviewed = (.ok ⟨version s',[],false⟩,s') := by
  rw [apply]
  split
  · exact Or.inl ⟨_,rfl⟩
  · rename_i s' happly
    exact Or.inr ⟨s',happly,rfl⟩

theorem version_of_draft {s : State} {draft : FormDraft} (h : s.draft = some draft) : version s = draft.version := by
  rw [version,h]
  rfl

/-- One action. -/
theorem follows_of_readable {s : State} {e : Event} (hreset : ResetsReadable lib s e) : Follows lib s e := by
  intro hacts
  have hfails : ∀ {result : Except Failure Answer × State} {failure : Failure}, perform lib s e = result →
      result = (.error failure,s) → ¬Succeeds lib s e ∧ (step lib s e).draft = s.draft ∧ (step lib s e).form = s.form := by
    rintro result failure hperform rfl
    refine ⟨?_,by rw [step,hperform],by rw [step,hperform]⟩
    rintro ⟨answer,hanswer⟩
    rw [hperform] at hanswer
    cases hanswer
  cases e with
  | action user name body =>
    rcases @action_cases _ lib s user name body with ⟨failure,haction⟩ | ⟨members,draft,s',rfl,hdraft,hversion,hcommit,haction⟩
    · obtain ⟨hno,hsame⟩ := hfails haction rfl
      exact ⟨fun hyes => absurd hyes hno,fun _ => hsame⟩
    · have hread : name = .reset → LiveReadable lib s.form := by
        rintro rfl
        exact hreset
      obtain ⟨answer,hanswer⟩ := commit_answered hread hcommit
      refine ⟨fun _ => ⟨?_,?_⟩,fun hno => absurd ⟨answer,?_⟩ hno⟩
      · simp only [Event.carried,entry_obj,hversion,version_of_draft hdraft]
      · rw [step,perform,haction,version_of_draft hdraft]
        exact commit_version hcommit
      · rw [perform,haction]
        exact hanswer
  | apply user key body reviewed =>
    rcases @apply_cases _ lib s user key body reviewed with ⟨failure,hfail⟩ | ⟨s',hok,happly⟩
    · obtain ⟨hno,hsame⟩ := hfails hfail rfl
      exact ⟨fun hyes => absurd hyes hno,fun _ => hsame⟩
    · obtain ⟨⟨stamp,rfl,hstamp⟩,hnext,-⟩ := applyTemplate_ok hok
      refine ⟨fun _ => ⟨?_,?_⟩,fun hno => absurd ⟨⟨version s',[],false⟩,?_⟩ hno⟩
      · simp only [Event.carried,Option.map_some,hstamp]
      · rw [step,perform,happly]
        exact hnext
      · rw [perform,happly]
  | builder => cases hacts
  | change => cases hacts

/-- No event lowers the version. -/
theorem version_le_step (s : State) (e : Event) : version s ≤ version (step lib s e) := by
  cases e with
  | action user name body =>
    rcases @action_cases _ lib s user name body with ⟨failure,haction⟩ | ⟨members,draft,s',rfl,hdraft,-,hcommit,haction⟩
    · rw [step,perform,haction]
    · rw [step,perform,haction,version_of_draft hdraft,commit_version hcommit]
      omega
  | apply user key body reviewed =>
    rcases @apply_cases _ lib s user key body reviewed with ⟨failure,hfail⟩ | ⟨s',hok,happly⟩
    · rw [step,perform,hfail]
    · rw [step,perform,happly,(applyTemplate_ok hok).2.1]
      omega
  | builder user =>
    show version s ≤ version (getDraft lib s user)
    rw [getDraft]
    split
    · exact le_refl _
    · rename_i hnone
      simp [version,hnone]
  | change => exact le_refl _

theorem version_le_exec (s : State) (es : List Event) : version s ≤ version (exec (step lib) s es) :=
  invariant_all (fun t => version s ≤ version t) (fun _ e h => h.trans (version_le_step _ e)) (le_refl _) es

/-- In every run in which each `reset` meets rules that can be read, a success carries the version of the draft
and raises it by one, a failure changes nothing, and what succeeds after a success has seen it. -/
theorem versions_follow {s : State} {es : List Event} (hrun : Meets (step lib) (ResetsReadable lib) s es) :
    Meets (step lib) (Follows lib) s es ∧
      ∀ before e between e' after, es = before++e::(between++e'::after) → e.acts = true → e'.acts = true →
        Succeeds lib (exec (step lib) s before) e → Succeeds lib (exec (step lib) s (before++e::between)) e' →
        ∃ n, e'.carried = some n ∧ version (step lib (exec (step lib) s before) e) ≤ n := by
  have hfollows : Meets (step lib) (Follows lib) s es :=
    meets_of_invariant (fun _ => True) (fun _ _ _ _ => trivial) (fun _ _ _ h => follows_of_readable h) trivial hrun
  refine ⟨hfollows,?_⟩
  rintro before e between e' after rfl - hacts' - hok'
  have hsplit : Meets (step lib) (Follows lib) s ((before++e::between)++e'::after) := by simpa using hfollows
  refine ⟨_,((meets_at hsplit hacts').1 hok').1,?_⟩
  rw [exec_append,exec_cons]
  exact version_le_exec _ between

end Runs

/-! ### A live form that cannot be read -/

def brackets (n : ℕ) : String := String.ofList (List.replicate n '[')

theorem length_brackets (n : ℕ) : (brackets n).length = n := by
  rw [brackets,String.length_ofList,List.length_replicate]

/-- A text that is nested too deeply for `json.loads`. -/
def deep : String := brackets 100000

theorem deep_ne {s : String} (hlength : s.length ≠ 100000) : deep ≠ s := by
  intro h
  rw [← h] at hlength
  exact hlength (length_brackets 100000)

mutual

/-- A text of a JSON value, in the place of its hash. -/
def write : Json → String
  | .null => "null"
  | .bool b => if b then "true" else "false"
  | .int n => toString n
  | .float _ => "float"
  | .str s => "\""++s++"\""
  | .arr items => "["++writeItems items++"]"
  | .obj members => "("++writeMembers members++")"

def writeItems : List Json → String
  | [] => ""
  | item::items => write item++","++writeItems items

def writeMembers : List (String × Json) → String
  | [] => ""
  | (key,value)::members => "\""++key++"\":"++write value++","++writeMembers members

end

/-- A text column holds a boolean as a digit. -/
def storeColumn (key : String) : Json → Option Json
  | .bool b => if columnType key = .boolean then some (.bool b) else some (.str (if b then "1" else "0"))
  | value => if fitsColumn (columnType key) value then some value else none

theorem storeColumn_fits (key : String) (value held : Json) (h : storeColumn key value = some held)
    (hfits : fitsColumn (columnType key) value = true) : held = value := by
  cases value with
  | bool b =>
    cases htype : columnType key with
    | boolean =>
      simp only [storeColumn,htype] at h
      exact (Option.some.inj h).symm
    | _ =>
      rw [htype] at hfits
      cases hfits
  | _ =>
    simp only [storeColumn,hfits] at h
    exact (Option.some.inj h).symm

def studioLib : StudioLib String where
  toFormLib := { plainLib with
    loads := fun s =>
      if s = "\x7b\"show\":null\x7d" then .ok (.obj [("show",.null)])
      else if s = deep then .error .recursionError
      else .error (.valueError "Expecting value") }
  dump := fun _ => "\x7b\"show\":null\x7d"
  digest := write
  arrangement := ⟨id,fun _ _ => Iff.rfl⟩
  dump_rules := fun _ _ _ => ⟨by decide,[("show",.null)],rfl,by decide,by decide,rfl⟩
  columns := ⟨storeColumn,fun _ pos => pos+1,storeColumn_fits⟩
  preview := fun _ _ _ _ => .ok true
  same := fun _ _ => false

def settings : Members :=
  [("title",.str "Request"),("description",.null),("purpose",.str "data"),("in_catalog",.bool false),("catalog_group",.null)]

/-- A section with the given rules. -/
def section_ (rules : Json) : Members :=
  [("kind",.str "section"),("field_id",.null),("relation_id",.null),("parent_field_id",.null),("filter_field_id",.null),
    ("label_override",.str "Details"),("help_text",.null),("required",.bool false),("readonly",.bool false),
    ("rules_json",rules),("widget",.null)]

def emptySite : Site where
  table := ⟨1,"request","Request",[],"id",false,false,false,List.nodup_nil,List.nodup_nil,unmanaged_fields⟩
  tableColumns := .null
  schema := .null
  relation := fun _ => none
  check := fun _ => []

/-- A form with the given items, whose draft has been opened. -/
def opened (items : List MetaFormField) : State :=
  getDraft studioLib ⟨⟨1,Json.get settings,items⟩,none,[],emptySite,⟨fun _ => none,fun _ _ => .error .typeError,""⟩⟩ 1

def versioned (n : ℤ) : Json := .obj [("version",.int n)]

theorem liveReadable_nil {form : MetaForm} (h : form.items = []) : LiveReadable studioLib form := by
  intro item hitem
  rw [h] at hitem
  cases hitem

theorem versions_follow_resets : Meets (step studioLib) (Follows studioLib) (opened [])
    [.action 1 .reset (versioned 1),.action 2 .reset (versioned 1),.action 2 .reset (versioned 2)] :=
  have hresets : Meets (step studioLib) (ResetsReadable studioLib) (opened [])
      [.action 1 .reset (versioned 1),.action 2 .reset (versioned 1),.action 2 .reset (versioned 2)] :=
    ⟨liveReadable_nil rfl,liveReadable_nil rfl,liveReadable_nil rfl,trivial⟩
  (versions_follow hresets).1

/-- The live form with a section of unreadable rules. -/
def unreadable (text : String) : State := opened [⟨1,0,Json.get (section_ (.str text))⟩]

section Unreadable

variable {text : String}

theorem parseRules_deep (h : text = deep) : parseRules studioLib.toFormLib (.str text) = .error .recursionError := by
  have hempty : text ≠ "" := by
    rw [h]
    exact deep_ne (by decide)
  have hother : text ≠ "\x7b\"show\":null\x7d" := by
    rw [h]
    exact deep_ne (by decide)
  have hloads : studioLib.loads text = .error .recursionError := by simp only [studioLib,if_neg hother,if_pos h]
  simp only [parseRules,if_neg hempty,hloads]

theorem snapshot_unreadable :
    snapshot (unreadable text).form = .obj (settings++[("items",.arr [.obj (section_ (.str text))])]) := by
  have hsort : (unreadable text).form.items.mergeSort itemLe = (unreadable text).form.items := List.mergeSort_singleton _
  rw [snapshot,hsort]
  rfl

theorem validate_deep (h : text = deep) :
    validateConfig studioLib.toDesignLib emptySite (snapshot (unreadable text).form) = .error .recursionError := by
  have hrules : ∀ used, checkRules studioLib.toDesignLib emptySite used (.obj (section_ (.str text))) =
      .error .recursionError := by
    intro used
    have hget : Json.get (section_ (.str text)) "rules_json" = .str text := rfl
    rw [checkRules,hget,parseRules_deep h]
  have hitem : checkItem emptySite [] (.obj (section_ (.str text))) = .ok [] := rfl
  have hitems : checkItems studioLib.toDesignLib emptySite [.obj (section_ (.str text))] = .error .recursionError := by
    rw [checkItems,Outcome.foldlM_cons,hitem]
    simp only [Except.bind,List.foldlM_nil,List.mapM_cons,hrules]
    rfl
  rw [snapshot_unreadable]
  have hsettings : checkSettings (settings++[("items",.arr [.obj (section_ (.str text))])]) = .ok () := rfl
  have hkeys : hasKeys (settings++[("items",.arr [.obj (section_ (.str text))])]) = true := rfl
  have hget : Json.get (settings++[("items",.arr [.obj (section_ (.str text))])]) "items" =
      .arr [.obj (section_ (.str text))] := rfl
  simp only [validateConfig,hkeys,hsettings,hget,hitems]
  rfl

theorem responseData_deep (h : text = deep) :
    responseData studioLib (step studioLib (unreadable text) (.action 1 .reset (versioned 1))) =
      .error (.python .recursionError) := by
  have hdraft : (step studioLib (unreadable text) (.action 1 .reset (versioned 1))).draft =
      some ⟨snapshot (unreadable text).form,liveHash studioLib.toDesignLib emptySite (unreadable text).form,2,none,some 1⟩ := rfl
  have hsite : (step studioLib (unreadable text) (.action 1 .reset (versioned 1))).site = emptySite := rfl
  rw [responseData,hdraft,hsite]
  simp only [validate_deep h]
  rfl

/-- The answer fails, and the draft has its next version. -/
theorem unreadable_fails (h : text = deep) : ¬Follows studioLib (unreadable text) (.action 1 .reset (versioned 1)) := by
  intro hfollows
  have hfail : ¬Succeeds studioLib (unreadable text) (.action 1 .reset (versioned 1)) := by
    rintro ⟨answer,hanswer⟩
    have hsame : (perform studioLib (unreadable text) (.action 1 .reset (versioned 1))).1 =
        responseData studioLib (step studioLib (unreadable text) (.action 1 .reset (versioned 1))) := rfl
    rw [hsame,responseData_deep h] at hanswer
    cases hanswer
  have hversion := congrArg (Option.map FormDraft.version) ((hfollows rfl).2 hfail).1
  exact absurd (show some (2 : ℤ) = some 1 from hversion) (by decide)

end Unreadable

/-- Somebody resets the draft of a form whose section has rules nested too deeply. -/
theorem reset_unanswered : ¬∀ (s : State) (es : List Event), Meets (step studioLib) (Follows studioLib) s es :=
  fun hall => unreadable_fails rfl (hall (unreadable deep) [.action 1 .reset (versioned 1)]).1

end Studio
end Biggy
