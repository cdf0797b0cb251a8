import Biggy.DraftVersions

/-!
# The gate of a publication

What is published has passed a preview as it is, on a live form and a table that have not
changed since the draft was based on them. The live form then has the content of the draft,
unless a section or a relation carries rules that are no text.
-/
namespace Biggy
namespace Studio

open FormDesign FormRules Run

/-! ### What the database holds -/

section Held

variable {ω : Type*} {lib : StudioLib ω}

theorem heldColumns_fits {keys : List String} {values : String → Json} (hheld : holdable lib keys values = true)
    (hfits : ∀ key ∈ keys, fitsColumn (columnType key) (values key)) :
    ∀ key ∈ keys, heldColumns lib values key = values key := by
  intro key hkey
  obtain ⟨value,hvalue⟩ := Option.isSome_iff_exists.mp (List.all_eq_true.mp hheld key hkey)
  rw [heldColumns,hvalue]
  exact lib.columns.hold_fits key _ value hvalue (hfits key hkey)

theorem map_entries {keys : List String} {values values' : String → Json} (h : ∀ key ∈ keys, values key = values' key) :
    (keys.map fun key => (key,values key)) = keys.map fun key => (key,values' key) :=
  List.map_congr_left fun key hkey => by rw [h key hkey]

/-- A form whose values fit its columns is held as it is. -/
theorem snapshot_held {form live : MetaForm} (hsettings : ∀ key ∈ formKeys, fitsColumn (columnType key) (form.columns key))
    (hitems : ∀ item ∈ form.items, ∀ key ∈ itemKeys, fitsColumn (columnType key) (item.columns key))
    (hsorted : form.items.Pairwise fun a b => itemLe a b) (h : held lib form = some live) :
    snapshot live = snapshot form := by
  rw [held] at h
  split at h
  · rename_i hheld
    rw [Bool.and_eq_true,List.all_eq_true] at hheld
    obtain rfl := Option.some.inj h
    have hsorted' : (form.items.map fun item => { item with columns := heldColumns lib item.columns }).Pairwise
        fun a b => itemLe a b := by
      rw [List.pairwise_map]
      exact hsorted
    rw [snapshot,snapshot,List.mergeSort_of_pairwise hsorted',List.mergeSort_of_pairwise hsorted,
      map_entries (heldColumns_fits hheld.1 hsettings),List.map_map]
    congr 5
    refine List.map_congr_left fun item hitem => congrArg Json.obj ?_
    exact map_entries (heldColumns_fits (hheld.2 item hitem) (hitems item hitem))
  · cases h

end Held

/-! ### The gate -/

section Gate

variable {ω : Type*} {lib : StudioLib ω}

/-- A preview of the draft as it is that finds nothing wrong. -/
def PassesPreview (lib : StudioLib ω) (s : State) (e : Event) : Prop :=
  ∃ user body, e = .action user .preview (.obj body) ∧ ∃ draft, s.draft = some draft ∧
    lib.preview s.site s.form (normalise lib.toDesignLib draft.config) body = .ok true ∧
    (∀ issue ∈ s.site.check (normalise lib.toDesignLib draft.config), issue.level ≠ "error") ∧
    ∃ tested, (step lib s e).draft = some tested ∧ tested.config = draft.config ∧
      tested.testedHash = some (lib.digest (normalise lib.toDesignLib draft.config))

/-- A preview, an opened builder or a change of what is around the draft. -/
def Event.mild : Event → Bool
  | .builder _ => true
  | .action _ .preview _ => true
  | .change _ _ _ => true
  | _ => false

/-- The rules of sections and relations are texts when a draft is published. -/
def PublishesTexts (s : State) : Event → Prop
  | .action _ .publish _ => ∀ draft, s.draft = some draft → TextRules draft.config
  | _ => True

def Tested (draft : Option FormDraft) : Prop := ∃ d, draft = some d ∧ d.testedHash ≠ none

theorem not_tested {draft : FormDraft} (h : draft.testedHash = none) : ¬Tested (some draft) := by
  rintro ⟨d,hd,htested⟩
  obtain rfl := Option.some.inj hd
  exact htested h

/-- A draft is tested by a preview that finds nothing wrong. -/
theorem step_tested (s : State) (e : Event) :
    (step lib s e).draft = s.draft ∨ ¬Tested (step lib s e).draft ∨ PassesPreview lib s e := by
  cases e with
  | action user name body =>
    rcases @action_cases _ lib s user name body with ⟨failure,haction⟩ | ⟨members,draft,s',rfl,hdraft,-,hcommit,haction⟩
    · exact Or.inl (by rw [step,perform,haction])
    have hstep : step lib s (.action user name (.obj members)) = s' := by rw [step,perform,haction]
    rw [hstep]
    cases name with
    | save =>
      obtain ⟨config,rfl,-⟩ := save_ok hcommit
      exact Or.inr (Or.inl (not_tested rfl))
    | preview =>
      obtain ⟨valid,hpreview,rfl,-⟩ := previewDraft_ok hcommit
      by_cases hvalid : (valid && !((s.site.check (normalise lib.toDesignLib draft.config)).any fun i => i.level = "error")) = true
      · right; right
        obtain ⟨rfl,hissues⟩ := Bool.and_eq_true_iff.mp hvalid
        refine ⟨user,members,rfl,draft,hdraft,hpreview,by simpa using hissues,?_⟩
        rw [hstep]
        exact ⟨_,rfl,rfl,if_pos hvalid⟩
      · exact Or.inr (Or.inl (not_tested (by simp only [if_neg hvalid])))
    | publish =>
      rw [(publish_ok hcommit).draft]
      exact Or.inr (Or.inl (not_tested rfl))
    | reset =>
      obtain rfl := Except.ok.inj hcommit
      exact Or.inr (Or.inl (not_tested rfl))
    | restore =>
      obtain ⟨revision,-,rfl,-⟩ := restore_ok hcommit
      exact Or.inr (Or.inl (not_tested rfl))
    | other => cases hcommit
  | apply user key body reviewed =>
    rcases @apply_cases _ lib s user key body reviewed with ⟨failure,hfail⟩ | ⟨s',hok,happly⟩
    · exact Or.inl (by rw [step,perform,hfail])
    · right; left
      obtain ⟨-,-,draft,hdraft,htested⟩ := applyTemplate_ok hok
      rw [step,perform,happly,hdraft]
      exact not_tested htested
  | builder user =>
    show (getDraft lib s user).draft = s.draft ∨ _
    rw [getDraft]
    split
    · exact Or.inl rfl
    · rename_i hnone
      right; left
      show ¬Tested (getDraft lib s user).draft
      rw [getDraft,hnone]
      exact not_tested rfl
  | change => exact Or.inl rfl

/-- Between a restored draft and its publication: previews and changes keep the configuration. -/
theorem step_mild {s : State} {e : Event} {draft : FormDraft} (hmild : e.mild = true) (hdraft : s.draft = some draft) :
    ∃ draft', (step lib s e).draft = some draft' ∧ draft'.config = draft.config := by
  cases e with
  | action user name body =>
    cases name with
    | preview =>
      rcases @action_cases _ lib s user .preview body with ⟨failure,haction⟩ | ⟨members,old,s',rfl,hold,-,hcommit,haction⟩
      · exact ⟨draft,by rw [step,perform,haction,hdraft],rfl⟩
      · obtain ⟨valid,-,rfl,-⟩ := previewDraft_ok hcommit
        obtain rfl : old = draft := Option.some.inj (hold.symm.trans hdraft)
        rw [step,perform,haction]
        exact ⟨_,rfl,rfl⟩
    | _ => cases hmild
  | builder user =>
    refine ⟨draft,?_,rfl⟩
    show (getDraft lib s user).draft = _
    rw [getDraft,hdraft]
    exact hdraft
  | change => exact ⟨draft,hdraft,rfl⟩
  | apply => cases hmild

theorem exec_mild {s : State} {es : List Event} {draft : FormDraft} (hmild : ∀ e ∈ es, e.mild = true)
    (hdraft : s.draft = some draft) :
    ∃ draft', (exec (step lib) s es).draft = some draft' ∧ draft'.config = draft.config := by
  induction es generalizing s draft with
  | nil => exact ⟨draft,hdraft,rfl⟩
  | cons e es ih =>
    obtain ⟨next,hnext,hconfig⟩ := step_mild (hmild e List.mem_cons_self) hdraft
    obtain ⟨last,hlast,hsame⟩ := ih (fun e' he' => hmild e' (List.mem_cons_of_mem e he')) hnext
    exact ⟨last,hlast,hsame.trans hconfig⟩

/-- A publication that succeeds is committed. -/
theorem publish_committed {s : State} {user : ℕ} {body : Json} (hok : Succeeds lib s (.action user .publish body)) :
    ∃ draft, s.draft = some draft ∧ Published lib s draft user (step lib s (.action user .publish body)) := by
  rcases @action_cases _ lib s user .publish body with ⟨failure,haction⟩ | ⟨members,draft,s',rfl,hdraft,-,hcommit,haction⟩
  · obtain ⟨answer,hanswer⟩ := hok
    rw [perform,haction] at hanswer
    cases hanswer
  · refine ⟨draft,hdraft,?_⟩
    rw [step,perform,haction]
    exact publish_ok hcommit

/-- A restoration that succeeds takes over the revision that it names. -/
theorem restore_committed {s : State} {user : ℕ} {body : Json} (hok : Succeeds lib s (.action user .restore body)) :
    ∃ revision draft, revisionOf s (membersOf body) = .ok revision ∧
      (step lib s (.action user .restore body)).draft = some draft ∧
      draft.config = normalise lib.toDesignLib revision.config := by
  rcases @action_cases _ lib s user .restore body with ⟨failure,haction⟩ | ⟨members,draft,s',rfl,-,-,hcommit,haction⟩
  · obtain ⟨answer,hanswer⟩ := hok
    rw [perform,haction] at hanswer
    cases hanswer
  · obtain ⟨revision,hrevision,rfl,-⟩ := restore_ok hcommit
    rw [step,perform,haction]
    exact ⟨revision,_,hrevision,rfl,rfl⟩

/-- What a publication of texts makes live. -/
theorem snapshot_published {s s' : State} {draft : FormDraft} {user : ℕ} (h : Published lib s draft user s')
    (htext : TextRules draft.config) : snapshot s'.form = content lib.toDesignLib draft.config := by
  have hitem : ∀ item ∈ (written lib s.form (normalise lib.toDesignLib draft.config)).items, ∀ key ∈ itemKeys,
      fitsColumn (columnType key) (item.columns key) := by
    intro item hitem key hkey
    obtain ⟨pos,hpos,rfl⟩ := List.mem_mapIdx.mp hitem
    exact items_fit h.checked htext (List.getElem_mem hpos) hkey
  rw [snapshot_held (fun key hkey => settings_fit h.checked hkey) hitem (written_sorted _ _) h.live,snapshot_written]
  rfl

/-- In a run from before the draft, whose publications store texts, what is published is the draft as it was last
previewed with success, on the live form and table it is based on. The live form then has the content of the
draft, and the draft is the live form; after a restoration it has the content of the revision. -/
theorem publish_gate {s : State} {es : List Event} {user : ℕ} {body : Json} (hstart : s.draft = none)
    (hrun : Meets (step lib) PublishesTexts s (es++[.action user .publish body]))
    (hok : Succeeds lib (exec (step lib) s es) (.action user .publish body)) :
    ∃ draft draft', (exec (step lib) s es).draft = some draft ∧
      (∃ before e after, es = before++e::after ∧ PassesPreview lib (exec (step lib) s before) e ∧
        ∀ mid, mid <+: after → (exec (step lib) s (before++e::mid)).draft = some draft) ∧
      draft.baseHash = liveHash lib.toDesignLib (exec (step lib) s es).site (exec (step lib) s es).form ∧
      (exec (step lib) s (es++[.action user .publish body])).draft = some draft' ∧
      snapshot (exec (step lib) s (es++[.action user .publish body])).form = content lib.toDesignLib draft.config ∧
      draft'.config = content lib.toDesignLib draft.config ∧
      draft'.baseHash = liveHash lib.toDesignLib (exec (step lib) s (es++[.action user .publish body])).site
        (exec (step lib) s (es++[.action user .publish body])).form ∧
      ∀ before user' body' between, es = before++.action user' .restore body'::between →
        Succeeds lib (exec (step lib) s before) (.action user' .restore body') → (∀ e ∈ between, e.mild = true) →
        ∃ revision, revisionOf (exec (step lib) s before) (membersOf body') = .ok revision ∧
          snapshot (exec (step lib) s (es++[.action user .publish body])).form = content lib.toDesignLib revision.config := by
  obtain ⟨draft,hdraft,hpublished⟩ := publish_committed hok
  have hlast : exec (step lib) s (es++[.action user .publish body]) =
      step lib (exec (step lib) s es) (.action user .publish body) := exec_append _ _ _ _
  have htexts : PublishesTexts (exec (step lib) s es) (.action user .publish body) := meets_at hrun
  have htext : TextRules draft.config := htexts draft hdraft
  have hlive := snapshot_published hpublished htext
  have hnone : ¬Tested s.draft := by
    rw [hstart]
    rintro ⟨d,hd,-⟩
    cases hd
  have htested : Tested (exec (step lib) s es).draft := ⟨draft,hdraft,by rw [hpublished.tested]; exact Option.some_ne_none _⟩
  obtain ⟨before,e,after,hes,hpasses,hkept⟩ := last_cause State.draft Tested (PassesPreview lib) step_tested hnone htested
  rw [hlast]
  refine ⟨draft,_,hdraft,⟨before,e,after,hes,hpasses,fun mid hmid => (hkept mid hmid).trans hdraft⟩,hpublished.based,
    hpublished.draft,hlive,rfl,?_,?_⟩
  · rw [liveHash,liveHash,hpublished.site,hlive,snapshot_written]
    rfl
  · rintro before user' body' between rfl hrestored hmild
    obtain ⟨revision,restored,hrevision,hrestore,hconfig⟩ := restore_committed hrestored
    obtain ⟨last,hlastdraft,hsame⟩ := exec_mild hmild hrestore
    refine ⟨revision,hrevision,?_⟩
    rw [exec_append,exec_cons] at hdraft
    obtain rfl : last = draft := Option.some.inj (hlastdraft.symm.trans hdraft)
    rw [hlive,hsame,hconfig,content_normalise]

end Gate

/-! ### A section with rules that are no text -/

section Sections

variable {rules : Json}

/-- A form with one section. -/
def sectionConfig (rules : Json) : Json := .obj (settings++[("items",.arr [.obj (section_ rules)])])

/-- A form without items, before its draft. -/
def fresh : State := ⟨⟨1,Json.get settings,[]⟩,none,[],emptySite,⟨fun _ => none,fun _ _ => .error .typeError,""⟩⟩

/-- A designer opens the builder, saves the section and previews it. -/
def drafting (rules : Json) : List Event :=
  [.builder 1,.action 1 .save (.obj [("version",.int 1),("config",sectionConfig rules)]),.action 1 .preview (versioned 2)]

def publishing : Event := .action 1 .publish (versioned 3)

theorem validate_section (hrules : parseRules studioLib.toFormLib rules = .ok []) :
    validateConfig studioLib.toDesignLib emptySite (sectionConfig rules) = .ok (sectionConfig rules,[]) := by
  have hcheck : ∀ used, checkRules studioLib.toDesignLib emptySite used (.obj (section_ rules)) = .ok [] := by
    intro used
    have hget : Json.get (section_ rules) "rules_json" = rules := rfl
    rw [checkRules,hget,hrules]
    rfl
  have hitem : checkItem emptySite [] (.obj (section_ rules)) = .ok [] := rfl
  have hitems : checkItems studioLib.toDesignLib emptySite [.obj (section_ rules)] = .ok () := by
    rw [checkItems,Outcome.foldlM_cons,hitem]
    simp only [Except.bind,List.foldlM_nil,List.mapM_cons,hcheck]
    rfl
  have hsettings : checkSettings (settings++[("items",.arr [.obj (section_ rules)])]) = .ok () := rfl
  have hkeys : hasKeys (settings++[("items",.arr [.obj (section_ rules)])]) = true := rfl
  have hget : Json.get (settings++[("items",.arr [.obj (section_ rules)])]) "items" = .arr [.obj (section_ rules)] := rfl
  rw [sectionConfig]
  simp only [validateConfig,hkeys,hsettings,hget,hitems]
  rfl

/-- The draft that has been previewed. -/
def previewed (rules : Json) : FormDraft :=
  ⟨sectionConfig rules,liveHash studioLib.toDesignLib emptySite fresh.form,3,some (write (sectionConfig rules)),some 1⟩

theorem step_committed {s s' : State} {draft : FormDraft} {user : ℕ} {name : ActionName} {body : Members}
    (hlock : lockDraft s (Json.get body "version") = .ok draft) (hcommit : commit studioLib s draft user body name = .ok s') :
    step studioLib s (.action user name (.obj body)) = s' := by
  simp only [step,perform,action,hlock,hcommit]

theorem exec_drafting (hrules : parseRules studioLib.toFormLib rules = .ok []) :
    exec (step studioLib) fresh (drafting rules) = { fresh with draft := some (previewed rules) } := by
  have hsave : commit studioLib (opened []) ⟨snapshot fresh.form,liveHash studioLib.toDesignLib emptySite fresh.form,1,none,some 1⟩
      1 [("version",.int 1),("config",sectionConfig rules)] .save =
      .ok { fresh with draft := some { previewed rules with version := 2, testedHash := none } } := by
    have hget : Json.get [("version",.int 1),("config",sectionConfig rules)] "config" = sectionConfig rules := rfl
    have hsite : (opened []).site = emptySite := rfl
    show save studioLib _ _ _ _ = _
    simp only [save,hget,hsite,validate_section hrules]
    rfl
  have hpreview : commit studioLib { fresh with draft := some { previewed rules with version := 2, testedHash := none } }
      { previewed rules with version := 2, testedHash := none } 1 [("version",.int 2)] .preview =
      .ok { fresh with draft := some (previewed rules) } := by
    have hsite : fresh.site = emptySite := rfl
    have hconfig : (previewed rules).config = sectionConfig rules := rfl
    show previewDraft studioLib _ _ [("version",.int 2)] = _
    simp only [previewDraft,hsite,hconfig,validate_section hrules]
    rfl
  have hopened : step studioLib fresh (.builder 1) = opened [] := rfl
  rw [drafting,exec_cons,exec_cons,exec_cons,exec_nil,hopened,step_committed rfl hsave,versioned,step_committed rfl hpreview]

/-- The live form that the section becomes. -/
def sectionForm (rules : Json) : MetaForm :=
  ⟨1,heldColumns studioLib (entry (sectionConfig rules)),[⟨1,0,heldColumns studioLib (Json.get (section_ rules))⟩]⟩

theorem held_section (hheld : (storeColumn "rules_json" rules).isSome = true) :
    held studioLib (written studioLib fresh.form (sectionConfig rules)) = some (sectionForm rules) := by
  have hsettings : holdable studioLib formKeys (entry (sectionConfig rules)) = true := rfl
  have hitem : holdable studioLib itemKeys (entry (.obj (section_ rules))) = true := by
    rw [holdable,List.all_eq_true]
    intro key hkey
    by_cases hrules : key = "rules_json"
    · subst hrules
      exact hheld
    · simp only [itemKeys,List.mem_cons,List.not_mem_nil,or_false,hrules,false_or] at hkey
      rcases hkey with rfl | rfl | rfl | rfl | rfl | rfl | rfl | rfl | rfl | rfl <;> rfl
  have hall : (holdable studioLib formKeys (written studioLib fresh.form (sectionConfig rules)).columns &&
      (written studioLib fresh.form (sectionConfig rules)).items.all fun item => holdable studioLib itemKeys item.columns) = true := by
    rw [Bool.and_eq_true]
    exact ⟨hsettings,List.all_eq_true.mpr fun item hitem' => by rw [List.mem_singleton.mp hitem']; exact hitem⟩
  rw [held,if_pos hall]
  rfl

theorem publish_section (hrules : parseRules studioLib.toFormLib rules = .ok [])
    (hheld : (storeColumn "rules_json" rules).isSome = true) :
    Succeeds studioLib (exec (step studioLib) fresh (drafting rules)) publishing ∧
      (exec (step studioLib) fresh (drafting rules++[publishing])).form = sectionForm rules := by
  have hcommit : ∃ s', commit studioLib { fresh with draft := some (previewed rules) } (previewed rules) 1
      [("version",.int 3)] .publish = .ok s' ∧ s'.form = sectionForm rules := by
    have hsite : fresh.site = emptySite := rfl
    have hconfig : (previewed rules).config = sectionConfig rules := rfl
    have hbase : (previewed rules).baseHash = liveHash studioLib.toDesignLib emptySite fresh.form := rfl
    have htested : (previewed rules).testedHash = some (studioLib.digest (sectionConfig rules)) := rfl
    show ∃ s', publish studioLib _ _ _ = .ok s' ∧ _
    simp only [publish,hsite,hconfig,hbase,htested,validate_section hrules,held_section hheld,ne_eq,not_true_eq_false,
      if_false,List.any_nil,Bool.false_eq_true]
    exact ⟨_,rfl,rfl⟩
  obtain ⟨s',hs',hform⟩ := hcommit
  obtain ⟨answer,hanswer⟩ := commit_answered (fun h => by cases h) hs'
  rw [exec_append,exec_cons,exec_nil,exec_drafting hrules,publishing,versioned,step_committed rfl hs']
  refine ⟨⟨answer,?_⟩,hform⟩
  have hlock : lockDraft { fresh with draft := some (previewed rules) } (Json.get [("version",.int 3)] "version") =
      .ok (previewed rules) := rfl
  simp only [perform,action,hlock,hs',hanswer]

/-- A published section without rules. -/
theorem publish_gate_section : ∃ draft, (exec (step studioLib) fresh (drafting .null)).draft = some draft ∧
    snapshot (exec (step studioLib) fresh (drafting .null++[publishing])).form = content studioLib.toDesignLib draft.config := by
  have hdraft : exec (step studioLib) fresh (drafting .null) = { fresh with draft := some (previewed .null) } :=
    exec_drafting rfl
  have htexts : Meets (step studioLib) PublishesTexts fresh (drafting .null++[publishing]) := by
    rw [meets_append,hdraft]
    refine ⟨⟨trivial,trivial,trivial,trivial⟩,?_,trivial⟩
    rintro draft hdraft
    obtain rfl := Option.some.inj hdraft
    intro item hitem _
    rw [List.mem_singleton.mp hitem]
    rfl
  obtain ⟨draft,draft',hbefore,-,-,-,hlive,-⟩ := publish_gate rfl htexts (publish_section rfl rfl).1
  exact ⟨draft,hbefore,hlive⟩

/-- A published section whose rules are `false`: the database holds a text in their place. -/
theorem publish_diverges : ¬∀ (s : State) (es : List Event) (user : ℕ) (body : Json) (draft : FormDraft), s.draft = none →
    (exec (step studioLib) s es).draft = some draft → Succeeds studioLib (exec (step studioLib) s es) (.action user .publish body) →
    snapshot (exec (step studioLib) s (es++[.action user .publish body])).form = content studioLib.toDesignLib draft.config := by
  intro hall
  obtain ⟨hok,hform⟩ : Succeeds studioLib (exec (step studioLib) fresh (drafting (.bool false))) publishing ∧ _ :=
    publish_section rfl rfl
  have hsame := hall fresh (drafting (.bool false)) 1 (versioned 3) (previewed (.bool false)) rfl
    (by rw [exec_drafting rfl]) hok
  have hform' : (exec (step studioLib) fresh (drafting (.bool false)++[.action 1 .publish (versioned 3)])).form =
    sectionForm (.bool false) := hform
  rw [hform',snapshot] at hsame
  have hitems := congrArg itemsOf hsame
  rw [itemsOf_settings,show (sectionForm (.bool false)).items.mergeSort itemLe = _ from List.mergeSort_singleton _] at hitems
  have hrules := congrArg (List.map fun item => entry item "rules_json") hitems
  cases show [Json.str "0"] = [Json.bool false] from hrules

end Sections

end Studio
end Biggy
