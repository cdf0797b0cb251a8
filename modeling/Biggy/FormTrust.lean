import Biggy.FormRules

/-!
# What a submission can change

The states of a form solve the system of its rules, so they are the same for two submissions
that differ in hidden and locked fields only, whatever the order of the evaluation.
-/
namespace Biggy
namespace FormRules

open Dependency

section Matching

variable {test test' : Leaf → Bool}

mutual

/-- A condition is what its leaves make of it. -/
theorem holds_congr : ∀ node : Node, (∀ l ∈ node.leaves, test l = test' l) → node.holds test = node.holds test'
  | .all children, h => by
    simp only [Node.holds]
    exact allHold_congr children (by simpa only [Node.leaves] using h)
  | .any children, h => by
    simp only [Node.holds]
    exact anyHolds_congr children (by simpa only [Node.leaves] using h)
  | .leaf l, h => by
    simp only [Node.holds]
    exact h l (by simp [Node.leaves])

theorem allHold_congr : ∀ nodes : List Node, (∀ l ∈ Node.leavesOf nodes, test l = test' l) →
    Node.allHold test nodes = Node.allHold test' nodes
  | [], _ => by simp only [Node.allHold]
  | c::cs, h => by
    simp only [Node.leavesOf,List.mem_append] at h
    simp only [Node.allHold,holds_congr c fun l hl => h l (Or.inl hl),allHold_congr cs fun l hl => h l (Or.inr hl)]

theorem anyHolds_congr : ∀ nodes : List Node, (∀ l ∈ Node.leavesOf nodes, test l = test' l) →
    Node.anyHolds test nodes = Node.anyHolds test' nodes
  | [], _ => by simp only [Node.anyHolds]
  | c::cs, h => by
    simp only [Node.leavesOf,List.mem_append] at h
    simp only [Node.anyHolds,holds_congr c fun l hl => h l (Or.inl hl),anyHolds_congr cs fun l hl => h l (Or.inr hl)]

end

/-- The state of a field is what the leaves of its rules make of it. -/
theorem state_congr {item : Item} (h : ∀ tree ∈ item.rules.trees, ∀ l ∈ tree.leaves, test l = test' l) :
    item.state test = item.state test' := by
  have htree : ∀ tree : Option Node, (∀ node ∈ tree, node ∈ item.rules.trees) → ∀ absent : Bool,
      tree.elim absent (Node.holds test) = tree.elim absent (Node.holds test') := by
    intro tree hmem absent
    cases tree with
    | none => rfl
    | some node => exact holds_congr node (h node (hmem node rfl))
  simp only [Item.state]
  rw [htree item.rules.shown fun node hnode => by simp [Rules.trees,Option.mem_def.mp hnode],
    htree item.rules.readonly fun node hnode => by simp [Rules.trees,Option.mem_def.mp hnode],
    htree item.rules.require fun node hnode => by simp [Rules.trees,Option.mem_def.mp hnode]]

end Matching

section States

variable {ω : Type*} {lib : FormLib ω} {config : FormConfig}
  {values trusted : String → Option (FieldData ω)}

/-- No field depends on itself through the rules. -/
def FormConfig.Acyclic (config : FormConfig) : Prop := Dependency.Acyclic config.dependencies

theorem mem_dependencies {name d : String} : d ∈ config.dependencies name ↔
    (∃ tree ∈ (config.item name).rules.trees, d ∈ references tree) ∧ d ∈ config.names := by
  simp [FormConfig.dependencies]

/-- A rule belongs to a field of the form. -/
theorem mem_items_of_tree {name : String} {tree : Node} (h : tree ∈ (config.item name).rules.trees) :
    (name,config.item name) ∈ config.items := by
  cases hlookup : config.items.lookup name with
  | none =>
    have hitem : config.item name = {} := by simp [FormConfig.item,hlookup]
    rw [hitem] at h
    cases h
  | some item =>
    have hitem : config.item name = item := by simp [FormConfig.item,hlookup]
    obtain ⟨before,after,hitems,-⟩ := List.lookup_eq_some_iff.mp hlookup
    rw [hitem,hitems]
    exact List.mem_append_right _ List.mem_cons_self

/-- A rank that falls along the references leaves no cycle. -/
theorem acyclic_of_rank (rank : String → ℕ)
    (h : ∀ p ∈ config.items, ∀ tree ∈ p.2.rules.trees, ∀ d ∈ references tree, rank d < rank p.1) : config.Acyclic := by
  apply Acyclic.of_rank rank
  intro name d hd
  obtain ⟨⟨tree,htree,hmem⟩,-⟩ := mem_dependencies.mp hd
  exact h (name,config.item name) (mem_items_of_tree htree) tree htree d hmem

/-- A test of leaves that reads the field of the leaf only. -/
def ReadsField (test : (String → Option (FieldData ω)) → Leaf → Bool) : Prop :=
  ∀ env env' l, env l.field = env' l.field → test env l = test env' l

/-- The states that a test of leaves gives to the fields. -/
def testSystem (config : FormConfig) (test : (String → Option (FieldData ω)) → Leaf → Bool)
    (store : String → Option (FieldData ω)) : System String (Option (FieldData ω)) FieldState :=
  stateSystem (fun name values => (config.item name).state (test values)) store

/-- The state of a field is read off the fields it depends on and what is not on the form. -/
theorem testSystem_local {test : (String → Option (FieldData ω)) → Leaf → Bool} (htest : ReadsField test)
    {store : String → Option (FieldData ω)} {deps : String → List String}
    (hdeps : ∀ name d, d ∈ deps name ↔ d ∈ config.dependencies name) {names : List String}
    (hnames : ∀ name, name ∈ names ↔ name ∈ config.names) : (testSystem config test store).Local deps names := by
  intro name _ env env' hsame
  apply state_congr
  intro tree htree l hl
  apply htest
  apply hsame
  by_cases hin : l.field ∈ config.names
  · exact Or.inl ((hdeps name l.field).mpr (mem_dependencies.mpr ⟨⟨tree,htree,List.mem_map_of_mem hl⟩,hin⟩))
  · exact Or.inr fun hmem => hin ((hnames l.field).mp hmem)

/-- Without a cycle the fields are put in order. -/
theorem visits_config (hacyclic : config.Acyclic) {deps : String → List String}
    (hdeps : ∀ name d, d ∈ deps name ↔ d ∈ config.dependencies name) :
    ∃ names, config.names.foldlM (visit deps (config.names.length+1) []) [] = .ok names ∧ Ordered deps names ∧
      ∀ name, name ∈ names ↔ name ∈ config.names := by
  have hedge : ∀ {n d : String}, Edge deps n d → Edge config.dependencies n d := fun h => (hdeps _ _).mp h
  have hcyc : Dependency.Acyclic deps := fun n h => hacyclic n (Relation.TransGen.mono (fun _ _ => hedge) n n h)
  have hclosed : ∀ n ∈ config.names, ∀ d ∈ deps n, d ∈ config.names :=
    fun n _ d hd => (mem_dependencies.mp ((hdeps n d).mp hd)).2
  obtain ⟨names,hvisits,hsub⟩ := visits_acyclic hcyc hclosed (Nat.lt_succ_self _) (List.Subset.refl _)
    (List.nil_subset config.names)
  obtain ⟨hordered,-,hall⟩ := visits_ok .nil hvisits
  exact ⟨names,hvisits,hordered,fun name => ⟨fun h => hsub h,hall name⟩⟩

/-- A field that is not locked on the form comes in as it is submitted. -/
theorem withLocked_apply {store : String → Option (FieldData ω)} {name : String}
    (h : ∀ item, (name,item) ∈ config.items → item.locked = false) : withLocked config store values name = values name := by
  have hfold : ∀ (items : List (String × Item)) (vs : String → Option (FieldData ω)),
      (∀ item, (name,item) ∈ items → item.locked = false) →
      items.foldl (fun vs p => if p.2.locked then Function.update vs p.1 (store p.1) else vs) vs name = vs name := by
    intro items
    induction items with
    | nil => exact fun _ _ => rfl
    | cons p items ih =>
      intro vs hitems
      rw [List.foldl_cons,ih _ fun item hitem => hitems item (List.mem_cons_of_mem p hitem)]
      by_cases hlocked : p.2.locked = true
      · have hne : name ≠ p.1 := by
          rintro rfl
          have hopen := hitems p.2 List.mem_cons_self
          rw [hlocked] at hopen
          cases hopen
        rw [if_pos hlocked,Function.update_of_ne hne]
      · rw [if_neg hlocked]
  exact hfold config.items values h

theorem lookup_of_mem {name : String} {item : Item} (h : (name,item) ∈ config.items) :
    config.items.lookup name = some item := by
  have hnodup := config.nodup
  revert h hnodup
  induction config.items with
  | nil => exact fun h => by cases h
  | cons p items ih =>
    intro h hnodup
    rw [List.map_cons,List.nodup_cons] at hnodup
    rw [List.lookup_cons]
    rcases List.mem_cons.mp h with rfl | h
    · simp
    · have hne : name ≠ p.1 := fun heq => hnodup.1 (heq ▸ List.mem_map_of_mem (f := Prod.fst) h)
      have hb : (name == p.1) = false := by simpa using hne
      rw [hb]
      exact ih h hnodup.2

theorem item_of_mem {name : String} {item : Item} (h : (name,item) ∈ config.items) : config.item name = item := by
  simp [FormConfig.item,lookup_of_mem h]

section Run

variable {test : (String → Option (FieldData ω)) → Leaf → Bool} {store env env' : String → Option (FieldData ω)}

theorem solves_inside {names : List String} {name : String} (h : (testSystem config test store).Solves names values env)
    (hname : name ∈ names) :
    env name = if ((config.item name).state (test env)).kept then store name else values name := h.inside name hname

theorem open_of_not_kept {item : Item} {test : Leaf → Bool} (h : ¬(item.state test).kept = true) : item.locked = false := by
  by_contra hclosed
  simp [FieldState.kept,Item.state,hclosed] at h

/-- The locked fields need no replacement before the run: their state does it. -/
theorem solves_submitted (h : (testSystem config test store).Solves config.names (withLocked config store values) env) :
    (testSystem config test store).Solves config.names values env := by
  constructor
  · intro name hname
    have hvalue := solves_inside h hname
    show env name = if ((config.item name).state (test env)).kept then store name else values name
    by_cases hkept : ((config.item name).state (test env)).kept = true
    · rw [if_pos hkept] at hvalue ⊢
      exact hvalue
    · rw [if_neg hkept] at hvalue ⊢
      rw [hvalue]
      apply withLocked_apply
      intro item hitem
      have hopen : (config.item name).locked = false := open_of_not_kept hkept
      rwa [item_of_mem hitem] at hopen
  · intro name hname
    rw [h.outside name hname]
    exact withLocked_apply fun item hitem => absurd (List.mem_map_of_mem (f := Prod.fst) hitem) hname

/-- A run along an order of the fields solves the rules, and its results are the states. -/
theorem run_solved (htest : ReadsField test) (store values : String → Option (FieldData ω)) {deps : String → List String}
    (hdeps : ∀ name d, d ∈ deps name ↔ d ∈ config.dependencies name) {names : List String} (hordered : Ordered deps names)
    (hnames : ∀ name, name ∈ names ↔ name ∈ config.names) :
    ∃ env, (testSystem config test store).Solves config.names values env ∧
      ∀ name, ((testSystem config test store).run names (withLocked config store values)).2.lookup name =
        if name ∈ config.names then some ((config.item name).state (test env)) else none := by
  have hlocal : (testSystem config test store).Local deps names := testSystem_local htest hdeps hnames
  refine ⟨_,solves_submitted ((System.run_solves hlocal hordered).congr hnames),?_⟩
  intro name
  refine (System.run_lookup hlocal hordered name).trans ?_
  simp only [hnames]
  rfl

/-- The rules have one solution. -/
theorem solution_unique (htest : ReadsField test) (hacyclic : config.Acyclic)
    (h : (testSystem config test store).Solves config.names values env)
    (h' : (testSystem config test store).Solves config.names values env') : env = env' := by
  obtain ⟨names,-,hordered,hmem⟩ := visits_config hacyclic (fun _ _ => Iff.rfl)
  have hback : ∀ name, name ∈ config.names ↔ name ∈ names := fun name => (hmem name).symm
  exact System.Solves.unique (testSystem_local htest (fun _ _ => Iff.rfl) hmem) hordered (h.congr hback) (h'.congr hback)

end Run

theorem leafMatches_reads {types : String → Bool} : ReadsField (leafMatches lib types) := by
  intro env env' l h
  simp only [leafMatches,h]

/-- The states of a form are read off a solution of its rules for the submission. -/
theorem states_solved (arrangement : Arrangement) (lib : FormLib ω) (hacyclic : config.Acyclic)
    (values trusted : String → Option (FieldData ω)) :
    ∃ result env, states arrangement lib config values trusted = .ok result ∧
      (testSystem config (leafMatches lib config.numericNames) (stored trusted)).Solves config.names values env ∧
        ∀ name, result.lookup name = if name ∈ config.names then some (fieldState lib config name env) else none := by
  have hdeps : ∀ name d, d ∈ arrangement.arrange (config.dependencies name) ↔ d ∈ config.dependencies name :=
    fun _ _ => arrangement.mem_arrange _ _
  obtain ⟨names,hvisits,hordered,hnames⟩ := visits_config hacyclic hdeps
  obtain ⟨env,hsolves,hlookup⟩ := run_solved leafMatches_reads (stored trusted) values hdeps hordered hnames
  refine ⟨_,env,?_,hsolves,hlookup⟩
  simp only [states,order,hvisits]
  rfl

/-- Two submissions that agree outside the form and on the fields that the first one leaves
visible and writable. -/
def Agree (config : FormConfig) (states : List (String × FieldState)) (values values' : String → Option (FieldData ω)) :
    Prop := ∀ name, (name ∉ config.names ∨
      ∃ state, states.lookup name = some state ∧ state.visible = true ∧ state.readonly = false) → values name = values' name

end States

/-- The states of a form do not depend on what is submitted for hidden and locked fields, nor
on the order in which references are gone through. -/
theorem states_eq_of_agree {ω : Type*} (lib : FormLib ω) (config : FormConfig) (hacyclic : config.Acyclic)
    (first second : Arrangement) (trusted values values' : String → Option (FieldData ω)) :
    ∃ result result', states first lib config values trusted = .ok result ∧
      states second lib config values' trusted = .ok result' ∧
        (Agree config result values values' → ∀ name, result.lookup name = result'.lookup name) := by
  obtain ⟨result,env,hresult,hsolves,hlookup⟩ := states_solved first lib hacyclic values trusted
  obtain ⟨result',env',hresult',hsolves',hlookup'⟩ := states_solved second lib hacyclic values' trusted
  refine ⟨result,result',hresult,hresult',?_⟩
  intro hagree
  -- the first solution also solves the rules for the second submission
  have hsame : (testSystem config (leafMatches lib config.numericNames) (stored trusted)).Solves config.names values' env := by
    constructor
    · intro name hname
      have hvalue : env name = if (fieldState lib config name env).kept then stored trusted name else values name :=
        solves_inside hsolves hname
      show env name = if (fieldState lib config name env).kept then stored trusted name else values' name
      by_cases hkept : (fieldState lib config name env).kept = true
      · rwa [if_pos hkept] at hvalue ⊢
      · have hfree := hkept
        rw [FieldState.kept,Bool.not_eq_true,Bool.or_eq_false_iff,Bool.not_eq_false'] at hfree
        rw [if_neg hkept] at hvalue ⊢
        rw [hvalue]
        exact hagree name (Or.inr ⟨_,by rw [hlookup,if_pos hname],hfree⟩)
    · intro name hname
      rw [hsolves.outside name hname]
      exact hagree name (Or.inl hname)
  intro name
  rw [hlookup,hlookup',solution_unique leafMatches_reads hacyclic hsame hsolves']

/-! ### A locked controller -/

/-- Data of texts, and the digits of ASCII. -/
def plainLib : FormLib String where
  strOther := fun _ => ""
  float := fun _ => none
  int := fun _ => none
  isAlnum := Char.isAlphanum
  loads := fun _ => .error (.valueError "Expecting value")
  strData := id
  digit := Numerals.asciiDigit
  fits := fun _ _ => true

/-- The locked field `a`, and `b` that is shown when `a` is "yes". -/
def lockedConfig : FormConfig where
  items := [("a",{ locked := true }),("b",{ rules := { shown := some (.leaf ⟨"a",.eq,.text "yes"⟩) } })]
  nodup := by decide

def submit (a : String) (name : String) : Option (FieldData String) := if name = "a" then some (.text a) else none

theorem acyclic_lockedConfig : lockedConfig.Acyclic :=
  acyclic_of_rank (fun name => if name = "b" then 1 else 0) (by decide)

/-- A submitted "yes" for the locked field does not show the other one. -/
theorem states_lockedConfig : ∃ result, states ⟨id,fun _ _ => Iff.rfl⟩ plainLib lockedConfig (submit "yes") (submit "no") =
    .ok result ∧ ∀ name, result.lookup name = List.lookup name [("a",⟨true,true,false⟩),("b",⟨false,false,false⟩)] := by
  obtain ⟨honest,result,hhonest,hresult,hsame⟩ := states_eq_of_agree plainLib lockedConfig acyclic_lockedConfig
    ⟨id,fun _ _ => Iff.rfl⟩ ⟨id,fun _ _ => Iff.rfl⟩ (submit "no") (submit "no") (submit "yes")
  obtain rfl : [("a",⟨true,true,false⟩),("b",⟨false,false,false⟩)] = honest := Except.ok.inj hhonest
  refine ⟨result,hresult,fun name => (hsame ?_ name).symm⟩
  intro name hname
  by_cases ha : name = "a"
  · subst ha
    rcases hname with hout | ⟨state,hstate,-,hwritable⟩
    · exact absurd (by decide) hout
    · obtain rfl : ⟨true,true,false⟩ = state := Option.some.inj hstate
      cases hwritable
  · simp [submit,ha]

end FormRules
end Biggy
