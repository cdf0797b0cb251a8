import Biggy.RenamedRules

/-!
# The order of the rules

`order` lists every field of a form once, behind the fields that its rules refer to, exactly when no field refers to itself
through the rules. The states that are computed along such an order are the same however the fields are listed.
-/
namespace Biggy
namespace FormRules

open Dependency

/-- A rule of a field refers to another field of the form. -/
def FormConfig.Mentions (config : FormConfig) (name other : String) : Prop :=
  other ∈ config.names ∧ ∃ tree ∈ (config.item name).rules.trees, other ∈ references tree

/-- The rules of the fields refer to one another in a circle. -/
def FormConfig.Circular (config : FormConfig) : Prop := ∃ name, Relation.TransGen config.Mentions name name

/-- Every field of the form stands once, and behind the fields that its rules refer to. -/
structure Sorted (config : FormConfig) (names : List String) : Prop where
  perm : names.Perm config.names
  behind : ∀ before name after, names = before++name::after → ∀ other, config.Mentions name other → other ∈ before

variable {config : FormConfig}

theorem mentions_iff {name other : String} : config.Mentions name other ↔ Edge config.dependencies name other := by
  rw [Edge,mem_dependencies,FormConfig.Mentions,and_comm]

theorem circular_iff : config.Circular ↔ ¬config.Acyclic := by
  have hsame : config.Mentions = Edge config.dependencies := by
    funext name other
    exact propext mentions_iff
  rw [FormConfig.Circular,hsame,FormConfig.Acyclic,Dependency.Acyclic,not_forall_not]

/-! ### Correct and complete -/

theorem order_ok (arrangement : Arrangement) (hacyclic : config.Acyclic) :
    ∃ names, order arrangement config = .ok names ∧ Sorted config names := by
  have hdeps : ∀ name d, d ∈ arrangement.arrange (config.dependencies name) ↔ d ∈ config.dependencies name :=
    fun _ _ => arrangement.mem_arrange _ _
  obtain ⟨names,hvisits,hordered,hnames⟩ := visits_config hacyclic hdeps
  refine ⟨names,?_,(List.perm_ext_iff_of_nodup hordered.nodup config.nodup).mpr hnames,?_⟩
  · simp only [order,hvisits]
  · intro before name after hsplit other hother
    exact hordered.behind hsplit other ((hdeps name other).mpr (mentions_iff.mp hother))

/-- The fields of a form are put in order exactly when its rules are not circular; otherwise the cycle is reported. -/
theorem order_sorts (arrangement : Arrangement) (config : FormConfig) :
    ((∃ names, order arrangement config = .ok names ∧ Sorted config names) ↔ ¬config.Circular) ∧
      (config.Circular → order arrangement config = .error (.valueError "Conditional rules form a cycle.")) := by
  have hcircular : config.Circular → order arrangement config = .error (.valueError "Conditional rules form a cycle.") := by
    intro hcircular
    cases horder : order arrangement config with
    | error e => rw [order_error horder]
    | ok names => exact absurd (acyclic_of_order horder) (circular_iff.mp hcircular)
  refine ⟨⟨?_,fun h => order_ok arrangement (not_not.mp (circular_iff.not.mp h))⟩,hcircular⟩
  rintro ⟨names,horder,-⟩ h
  rw [hcircular h] at horder
  cases horder

/-! ### Listing the fields otherwise -/

section Perm

variable {config' : FormConfig}

theorem lookup_perm (h : config'.items.Perm config.items) (name : String) :
    config'.items.lookup name = config.items.lookup name := by
  cases hlookup : config.items.lookup name with
  | none =>
    rw [List.lookup_eq_none_iff] at hlookup ⊢
    exact fun p hp => hlookup p (h.mem_iff.mp hp)
  | some item =>
    obtain ⟨before,after,hitems,-⟩ := List.lookup_eq_some_iff.mp hlookup
    exact lookup_of_mem (h.mem_iff.mpr (by simp [hitems]))

theorem item_perm (h : config'.items.Perm config.items) : config'.item = config.item := by
  funext name
  rw [FormConfig.item,FormConfig.item,lookup_perm h]

theorem mem_names_perm (h : config'.items.Perm config.items) (name : String) : name ∈ config'.names ↔ name ∈ config.names :=
  (h.map Prod.fst).mem_iff

theorem acyclic_perm (h : config'.items.Perm config.items) (hacyclic : config.Acyclic) : config'.Acyclic := by
  have hsame : config'.Mentions = config.Mentions := by
    funext name other
    rw [FormConfig.Mentions,FormConfig.Mentions,item_perm h,mem_names_perm h]
  have hnot : ¬config'.Circular := by
    rw [FormConfig.Circular,hsame]
    exact circular_iff.not.mpr (not_not.mpr hacyclic)
  exact not_not.mp (circular_iff.not.mp hnot)

end Perm

/-- The fields get the same states however they are listed and however the references of a rule are gone through. -/
theorem states_perm {ω : Type*} (lib : FormLib ω) (config config' : FormConfig) (hperm : config'.items.Perm config.items)
    (hacyclic : ¬config.Circular) (first second : Arrangement) (values trusted : String → Option (FieldData ω)) :
    ∃ result result', states first lib config values trusted = .ok result ∧
      states second lib config' values trusted = .ok result' ∧ (∀ name ∈ config.names, (result.lookup name).isSome = true) ∧
        ∀ name, result.lookup name = result'.lookup name := by
  have hopen : config.Acyclic := not_not.mp (circular_iff.not.mp hacyclic)
  obtain ⟨result,env,hresult,hsolves,hlookup⟩ := states_solved first lib hopen values trusted
  obtain ⟨result',env',hresult',hsolves',hlookup'⟩ := states_solved second lib (acyclic_perm hperm hopen) values trusted
  have htypes : config'.numericNames = config.numericNames := by
    funext name
    simp only [FormConfig.numericNames,lookup_perm hperm]
  -- the rules of both listings are one system
  have hsystem : testSystem config' (leafMatches lib config'.numericNames) (stored trusted) =
      testSystem config (leafMatches lib config.numericNames) (stored trusted) := by
    simp only [testSystem,item_perm hperm,htypes]
  rw [hsystem] at hsolves'
  have henv : env = env' := solution_unique leafMatches_reads hopen hsolves (hsolves'.congr (mem_names_perm hperm))
  refine ⟨result,result',hresult,hresult',fun name hname => ?_,fun name => ?_⟩
  · rw [hlookup,if_pos hname]
    rfl
  · simp only [hlookup,hlookup',mem_names_perm hperm,fieldState,item_perm hperm,htypes,henv]

/-- The locked field behind the one that its value shows. -/
def lockedLast : FormConfig where
  items := [("b",{ rules := { shown := some (.leaf ⟨"a",.eq,.text "yes"⟩) } }),("a",{ locked := true })]
  nodup := by decide

theorem states_lockedLast : ∃ result, states ⟨id,fun _ _ => Iff.rfl⟩ plainLib lockedLast (submit "yes") (submit "no") =
    .ok result ∧ ∀ name, result.lookup name = List.lookup name [("a",⟨true,true,false⟩),("b",⟨false,false,false⟩)] := by
  obtain ⟨first,result,hfirst,hresult,-,hsame⟩ := states_perm plainLib lockedConfig lockedLast (List.Perm.swap _ _ _)
    (circular_iff.not.mpr (not_not.mpr acyclic_lockedConfig)) ⟨id,fun _ _ => Iff.rfl⟩ ⟨id,fun _ _ => Iff.rfl⟩
    (submit "yes") (submit "no")
  obtain rfl : [("a",⟨true,true,false⟩),("b",⟨false,false,false⟩)] = first := Except.ok.inj hfirst
  exact ⟨result,hresult,fun name => (hsame name).symm⟩

end FormRules
end Biggy
