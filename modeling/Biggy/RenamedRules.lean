import Biggy.FormTrust

/-!
# Form rules under a rename

The rules of a form name their fields in texts, which a rename of a field leaves as they are. Where no rule names the
field, its old name aside its new one, the solutions of the rules are those before the rename.
-/
namespace Biggy
namespace FormRules

open Dependency

/-- A name after a rename. -/
def renameName (old new name : String) : String := if name = old then new else name

/-- What is held by name after a rename; the old name holds nothing. -/
def renameValues {α : Type*} (old new : String) (values : String → Option α) (name : String) : Option α :=
  if name = new then values old else if name = old then none else values name

section Names

variable {α : Type*} {old new name : String} {values : String → Option α}

@[simp] theorem renameValues_new : renameValues old new values new = values old := if_pos rfl

theorem renameValues_old (h : old ≠ new) : renameValues old new values old = none := by simp [renameValues,h]

theorem renameValues_other (hold : name ≠ old) (hnew : name ≠ new) : renameValues old new values name = values name := by
  simp [renameValues,hold,hnew]

theorem renameName_other (hold : name ≠ old) : renameName old new name = name := if_neg hold

theorem lookup_rename {β : Type*} {items : List (String × β)} (hne : old ≠ new) (hnew : new ∉ items.map Prod.fst) :
    (items.map fun p => (renameName old new p.1,p.2)).lookup name = renameValues old new (fun n => items.lookup n) name := by
  induction items with
  | nil => simp [renameValues]
  | cons p items ih =>
    simp only [List.map_cons,List.mem_cons,not_or] at hnew
    have hcons : ∀ (q : String × β) (qs : List (String × β)) (n : String),
        (q::qs).lookup n = if n = q.1 then some q.2 else qs.lookup n := by
      intro q qs n
      by_cases h : n = q.1
      · rw [List.lookup_cons,if_pos h,beq_iff_eq.mpr h]
      · rw [List.lookup_cons,if_neg h,beq_false_of_ne h]
    rw [List.map_cons,hcons,ih hnew.2]
    simp only [renameName,renameValues,hcons]
    by_cases hp : p.1 = old
    · rw [if_pos hp,hp]
      by_cases hn : name = new
      · simp [hn]
      · by_cases ho : name = old
        · simp [ho,hne]
        · simp [hn,ho]
    · rw [if_neg hp]
      by_cases hn : name = new
      · simp [hn,hnew.1,Ne.symm hp]
      · by_cases ho : name = old
        · simp [ho,hne,Ne.symm hp]
        · simp [hn,ho]

theorem nodup_rename {names : List String} (hnodup : names.Nodup) (hnew : new ∉ names) :
    (names.map (renameName old new)).Nodup := by
  refine List.Nodup.map_on (fun a ha b hb hsame => ?_) hnodup
  simp only [renameName] at hsame
  split at hsame
  · rename_i ha'
    split at hsame
    · rename_i hb'
      rw [ha',hb']
    · exact absurd (hsame ▸ hb) hnew
  · split at hsame
    · exact absurd (hsame ▸ ha) hnew
    · exact hsame

end Names

/-- The form with a field under its new name. -/
def FormConfig.renamed (config : FormConfig) (old new : String) (hnew : new ∉ config.names) : FormConfig where
  items := config.items.map fun p => (renameName old new p.1,p.2)
  nodup := by
    have hnodup : ((config.items.map Prod.fst).map (renameName old new)).Nodup := nodup_rename config.nodup hnew
    rwa [List.map_map] at hnodup ⊢

/-- No rule of the form names the field, by its old or its new name. -/
def FormConfig.Unnamed (config : FormConfig) (old new : String) : Prop :=
  ∀ p ∈ config.items, ∀ tree ∈ p.2.rules.trees, ∀ d ∈ references tree, d ≠ old ∧ d ≠ new

section Renamed

variable {ω : Type*} {lib : FormLib ω} {config : FormConfig} {old new : String} {hnew : new ∉ config.names}

theorem lookup_renamed (hne : old ≠ new) (name : String) :
    (config.renamed old new hnew).items.lookup name = renameValues old new (fun n => config.items.lookup n) name :=
  lookup_rename hne hnew

theorem item_renamed (hne : old ≠ new) : (config.renamed old new hnew).item new = config.item old := by
  rw [FormConfig.item,lookup_renamed hne,renameValues_new]
  rfl

theorem item_other (hne : old ≠ new) {name : String} (hname : name ≠ old) (hname' : name ≠ new) :
    (config.renamed old new hnew).item name = config.item name := by
  rw [FormConfig.item,lookup_renamed hne,renameValues_other hname hname']
  rfl

theorem item_old (hne : old ≠ new) : (config.renamed old new hnew).item old = {} := by
  rw [FormConfig.item,lookup_renamed hne,renameValues_old hne]
  rfl

theorem mem_renamed (hne : old ≠ new) {name : String} : name ∈ (config.renamed old new hnew).names ↔
    name = new ∧ old ∈ config.names ∨ name ≠ new ∧ name ≠ old ∧ name ∈ config.names := by
  have hnames : (config.renamed old new hnew).names = config.names.map (renameName old new) := by
    simp [FormConfig.names,FormConfig.renamed]
  rw [hnames,List.mem_map]
  constructor
  · rintro ⟨n,hn,rfl⟩
    by_cases ho : n = old
    · exact Or.inl ⟨by simp [renameName,ho],ho ▸ hn⟩
    · rw [renameName_other ho]
      exact Or.inr ⟨fun h => hnew (h ▸ hn),ho,hn⟩
  · rintro (⟨rfl,hn⟩ | ⟨-,ho,hn⟩)
    · exact ⟨old,hn,by simp [renameName]⟩
    · exact ⟨name,hn,renameName_other ho⟩

/-- The rules of a field name neither. -/
theorem Unnamed.item (hunnamed : config.Unnamed old new) (name : String) :
    ∀ tree ∈ (config.item name).rules.trees, ∀ d ∈ references tree, d ≠ old ∧ d ≠ new := by
  cases hlookup : config.items.lookup name with
  | none =>
    have hitem : config.item name = {} := by simp [FormConfig.item,hlookup]
    rw [hitem]
    exact fun tree htree => by cases htree
  | some item =>
    have hitem : config.item name = item := by simp [FormConfig.item,hlookup]
    rw [hitem]
    obtain ⟨before,after,hitems,-⟩ := List.lookup_eq_some_iff.mp hlookup
    exact hunnamed (name,item) (by simp [hitems])

/-- Rules that name neither give the same state. -/
theorem state_renamed (hne : old ≠ new) (hunnamed : config.Unnamed old new) (name : String)
    (env : String → Option (FieldData ω)) :
    (config.item name).state (leafMatches lib (config.renamed old new hnew).numericNames (renameValues old new env)) =
      (config.item name).state (leafMatches lib config.numericNames env) := by
  refine state_congr fun tree htree l hl => ?_
  obtain ⟨ho,hn⟩ := Unnamed.item hunnamed name tree htree l.field (List.mem_map_of_mem hl)
  simp only [leafMatches,renameValues_other ho hn,FormConfig.numericNames,lookup_renamed hne]

theorem edge_renamed (hne : old ≠ new) (hunnamed : config.Unnamed old new) {n d : String}
    (h : Edge (config.renamed old new hnew).dependencies n d) :
    Edge config.dependencies (if n = new then old else n) d ∧ d ≠ new := by
  obtain ⟨⟨tree,htree,hd⟩,hmem⟩ := mem_dependencies.mp h
  have hitem : tree ∈ (config.item (if n = new then old else n)).rules.trees := by
    by_cases hn : n = new
    · rw [hn,item_renamed hne] at htree
      rwa [if_pos hn]
    · by_cases ho : n = old
      · rw [ho,item_old hne] at htree
        cases htree
      · rw [item_other hne ho hn] at htree
        rwa [if_neg hn]
  obtain ⟨-,hn⟩ := Unnamed.item hunnamed _ tree hitem d hd
  rcases (mem_renamed hne).mp hmem with ⟨hnew',-⟩ | ⟨-,-,hmem⟩
  · exact absurd hnew' hn
  · exact ⟨mem_dependencies.mpr ⟨⟨tree,hitem,hd⟩,hmem⟩,hn⟩

/-- A rename makes no cycle of rules that do not name the field. -/
theorem acyclic_renamed (hne : old ≠ new) (hunnamed : config.Unnamed old new) (hacyclic : config.Acyclic) :
    (config.renamed old new hnew).Acyclic := by
  have hpath : ∀ {n m : String}, Relation.TransGen (Edge (config.renamed old new hnew).dependencies) n m →
      Relation.TransGen (Edge config.dependencies) (if n = new then old else n) m ∧ m ≠ new := by
    intro n m h
    induction h with
    | single hedge => exact ⟨.single (edge_renamed hne hunnamed hedge).1,(edge_renamed hne hunnamed hedge).2⟩
    | tail _ hedge ih =>
      obtain ⟨hedge,hm⟩ := edge_renamed hne hunnamed hedge
      rw [if_neg ih.2] at hedge
      exact ⟨ih.1.tail hedge,hm⟩
  intro n hcycle
  obtain ⟨h,hn⟩ := hpath hcycle
  rw [if_neg hn] at h
  exact hacyclic n h

/-- A form whose fields were put in order has no cycle. -/
theorem acyclic_of_order {arrangement : Arrangement} {names : List String} (h : order arrangement config = .ok names) :
    config.Acyclic := by
  simp only [order] at h
  split at h
  · rename_i names' hvisits
    obtain ⟨hordered,-,hall⟩ := visits_ok .nil hvisits
    have hdeps : Dependency.Acyclic fun name => arrangement.arrange (config.dependencies name) := by
      refine hordered.acyclic fun n hn => ?_
      refine List.eq_nil_iff_forall_not_mem.mpr fun d hd => ?_
      obtain ⟨⟨tree,htree,-⟩,-⟩ := mem_dependencies.mp ((arrangement.mem_arrange _ _).mp hd)
      exact hn (hall n (List.mem_map_of_mem (mem_items_of_tree htree)))
    have hedge : ∀ n d, Edge config.dependencies n d → Edge (fun name => arrangement.arrange (config.dependencies name)) n d :=
      fun n d h => (arrangement.mem_arrange _ _).mpr h
    exact fun n hcycle => hdeps n (Relation.TransGen.mono hedge n n hcycle)
  · cases h
  · cases h

theorem acyclic_of_states {arrangement : Arrangement} {values trusted : String → Option (FieldData ω)}
    {result : List (String × FieldState)} (h : states arrangement lib config values trusted = .ok result) : config.Acyclic := by
  simp only [states] at h
  cases horder : order arrangement config with
  | error e =>
    rw [horder] at h
    cases h
  | ok names => exact acyclic_of_order horder

theorem stored_renamed (trusted : String → Option (FieldData ω)) {name : String} (hname : name ≠ old) :
    stored (renameValues old new trusted) name = stored trusted (if name = new then old else name) := by
  by_cases hn : name = new
  · simp [stored,hn]
  · simp [stored,hn,renameValues_other hname hn]

/-- A solution of the rules is one after the rename. -/
theorem solves_renamed (hne : old ≠ new) (hunnamed : config.Unnamed old new)
    {values trusted env : String → Option (FieldData ω)}
    (h : (testSystem config (leafMatches lib config.numericNames) (stored trusted)).Solves config.names values env) :
    (testSystem (config.renamed old new hnew) (leafMatches lib (config.renamed old new hnew).numericNames)
      (stored (renameValues old new trusted))).Solves (config.renamed old new hnew).names (renameValues old new values)
      (renameValues old new env) := by
  constructor
  · intro name hname
    show _ = if (((config.renamed old new hnew).item name).state _).kept then _ else _
    rcases (mem_renamed hne).mp hname with ⟨rfl,hold⟩ | ⟨hn,ho,hmem⟩
    · rw [item_renamed hne,state_renamed hne hunnamed,renameValues_new,renameValues_new,stored_renamed trusted hne.symm,
        if_pos rfl]
      exact solves_inside h hold
    · rw [item_other hne ho hn,state_renamed hne hunnamed,renameValues_other ho hn,renameValues_other ho hn,
        stored_renamed trusted ho,if_neg hn]
      exact solves_inside h hmem
  · intro name hname
    rw [mem_renamed hne,not_or] at hname
    by_cases hn : name = new
    · rw [hn,renameValues_new,renameValues_new]
      exact h.outside old fun hold => hname.1 ⟨hn,hold⟩
    · by_cases ho : name = old
      · rw [ho,renameValues_old hne,renameValues_old hne]
      · rw [renameValues_other ho hn,renameValues_other ho hn]
        exact h.outside name fun hmem => hname.2 ⟨hn,ho,hmem⟩

/-- The states of the other fields are those before the rename. -/
theorem states_renamed (hne : old ≠ new) (hunnamed : config.Unnamed old new) {arrangement arrangement' : Arrangement}
    {values trusted : String → Option (FieldData ω)} {result : List (String × FieldState)}
    (h : states arrangement lib config values trusted = .ok result) :
    ∃ result', states arrangement' lib (config.renamed old new hnew) (renameValues old new values) (renameValues old new trusted) =
        .ok result' ∧ ∀ name, name ≠ old → name ≠ new → result'.lookup name = result.lookup name := by
  have hacyclic := acyclic_of_states h
  have hacyclic' : (config.renamed old new hnew).Acyclic := acyclic_renamed hne hunnamed hacyclic
  obtain ⟨result₁,env,hresult,hsolves,hlookup⟩ := states_solved arrangement lib hacyclic values trusted
  obtain rfl := Except.ok.inj (h.symm.trans hresult)
  obtain ⟨result',env',hresult',hsolves',hlookup'⟩ := states_solved arrangement' lib hacyclic' (renameValues old new values)
    (renameValues old new trusted)
  have henv := solution_unique leafMatches_reads hacyclic' hsolves' (solves_renamed hne hunnamed hsolves)
  refine ⟨result',hresult',fun name ho hn => ?_⟩
  have hmem : name ∈ (config.renamed old new hnew).names ↔ name ∈ config.names := by simp [mem_renamed hne,ho,hn]
  rw [hlookup,hlookup',henv]
  simp only [hmem,fieldState,item_other hne ho hn,state_renamed hne hunnamed]

/-- A field that is shown on one condition on the renamed field, which some text meets, is no longer shown for it. -/
theorem shown_lost (hne : old ≠ new) (hold : old ∈ config.names) {name : String} {item : Item} (hitem : (name,item) ∈ config.items)
    (hname : name ≠ old) {op : Op} {value : Literal} (hshown : item.rules.shown = some (.leaf ⟨old,op,value⟩)) {text : String}
    (htext : testLeaf lib (config.numericNames old) op text (literalText lib value) = true) :
    ∃ values : String → Option (FieldData ω), values new = none ∧ ∀ arrangement arrangement' result result',
      states arrangement lib config values values = .ok result →
      states arrangement' lib (config.renamed old new hnew) (renameValues old new values) (renameValues old new values) = .ok result' →
      (result.lookup name).map FieldState.visible = some true ∧ (result'.lookup name).map FieldState.visible = some false := by
  have hmem : name ∈ config.names := List.mem_map_of_mem hitem
  have hname' : name ≠ new := fun h => hnew (h ▸ hmem)
  refine ⟨fun n => if n = new then none else some (.text text),if_pos rfl,fun arrangement arrangement' result result' h h' => ?_⟩
  obtain ⟨_,env,hresult,hsolves,hlookup⟩ := states_solved arrangement lib (acyclic_of_states h) _ _
  obtain rfl := Except.ok.inj (h.symm.trans hresult)
  obtain ⟨_,env',hresult',hsolves',hlookup'⟩ := states_solved arrangement' lib (acyclic_of_states h') _ _
  obtain rfl := Except.ok.inj (h'.symm.trans hresult')
  have hheld : env old = some (.text text) := by
    rw [solves_inside hsolves hold]
    split <;> simp [stored,hne]
  have hgone : env' old = none := by
    rw [hsolves'.outside old (by simp [mem_renamed hne,hne]),renameValues_old hne]
  rw [hlookup,hlookup',if_pos hmem,if_pos ((mem_renamed hne).mpr (Or.inr ⟨hname',hname,hmem⟩))]
  simp only [Option.map_some,fieldState,item_other hne hname hname',item_of_mem hitem,Item.state,hshown,Option.elim_some,
    Node.holds,leafMatches,hheld,hgone,dataText,htext,and_self]

end Renamed

end FormRules
end Biggy
