import Biggy.TemplateRules

/-!
# What a draft changes

`comparison` finds the items of two configurations again by a key. An item whose key occurs once more further down is not
compared: `comparison_iff` says when a difference is missed.
-/
namespace Biggy
namespace FormComparison

open FormRules FormDesign FormTemplates

/-! ### Equality of values -/

mutual

/-- `==` of two JSON values. -/
def equals : Json → Json → Bool
  | .arr xs, .arr ys => equalsAll xs ys
  | .obj xs, .obj ys => equalsMembers [] xs ys && ys.all fun p => (xs.lookup p.1).isSome
  | a, b => equal a b

def equalsAll : List Json → List Json → Bool
  | [], [] => true
  | x::xs, y::ys => equals x y && equalsAll xs ys
  | _, _ => false

/-- Every member, of which the first of a name counts, has an equal one. -/
def equalsMembers : List String → Members → Members → Bool
  | _, [], _ => true
  | seen, (key,value)::xs, ys =>
    (key ∈ seen || (ys.lookup key).any (equals value)) && equalsMembers (key::seen) xs ys

end

/-- `before.get(name) == after.get(name)`. -/
def matched : Option Json → Option Json → Bool
  | none, none => true
  | some a, some b => equals a b
  | _, _ => false

/-! ### The comparison -/

structure Change where
  setting : String
  before : Json
  after : Json

section Comparison

variable (other : Json → String)

/-- A value in a text; what is neither a text nor an integer is written by `other`. -/
def text : Json → String
  | .str s => s
  | .int n => toString n
  | value => other value

/-- `item.get('field_id') or item.get('relation_id') or index`. -/
def reference (item : Members) (index : ℕ) : Json :=
  if (Json.get item "field_id").truthy then Json.get item "field_id"
  else if (Json.get item "relation_id").truthy then Json.get item "relation_id"
  else .int index

/-- `key(item, index)`. -/
def itemKey (item : Members) (index : ℕ) : Except PyError String :=
  match item.lookup "kind" with
  | none => .error .keyError
  | some kind => .ok (text other kind++":"++text other (reference item index))

/-- `{'position':n, **i}`: an item's own position would come first. -/
def positioned (item : Members) (n : ℕ) : Json := .obj (item++[("position",.int n)])

def keyedItem (p : Json × ℕ) : Except PyError (String × Json) :=
  match p.1 with
  | .obj item => (itemKey other item p.2).map fun key => (key,positioned item p.2)
  | _ => .error .typeError

/-- `config['items']`. -/
def listed (config : Members) : Except PyError (List Json) :=
  match config.lookup "items" with
  | none => .error .keyError
  | some (.arr items) => .ok items
  | some (.obj members) => if members.isEmpty then .ok [] else .error .typeError
  | some (.str s) => if s = "" then .ok [] else .error .typeError
  | some _ => .error .typeError

/-- `{key(i,n): {'position':n, **i} for n,i in enumerate(config['items'])}`. -/
def keyedItems (config : Members) : Except PyError (List (String × Json)) :=
  match listed config with
  | .error e => .error e
  | .ok items => (items.zipIdx.mapM (keyedItem other)).map (Keyed.puts Prod.fst)

def changedSettings (live draft : Members) : List Change :=
  (formKeys.filter fun key => !equals (Json.get live key) (Json.get draft key)).map fun key =>
    ⟨key,Json.get live key,Json.get draft key⟩

/-- `comparison`; the union of the keys is a set. -/
def comparison (arrangement : Arrangement) (live draft : Members) : Except PyError (List Change) :=
  match keyedItems other live, keyedItems other draft with
  | .error e, _ => .error e
  | _, .error e => .error e
  | .ok before, .ok after =>
    let names := arrangement.arrange (before.map Prod.fst++after.map Prod.fst)
    let changed := names.filter fun name => !matched (before.lookup name) (after.lookup name)
    .ok (changedSettings live draft++changed.map fun name =>
      ⟨name,(before.lookup name).getD .null,(after.lookup name).getD .null⟩)

end Comparison

/-! ### Equal values -/

theorem equalsMembers_iff {seen : List String} {xs ys : Members} : equalsMembers seen xs ys = true ↔
    ∀ key, key ∉ seen → ∀ value, xs.lookup key = some value → ∃ other, ys.lookup key = some other ∧ equals value other = true := by
  induction xs generalizing seen with
  | nil =>
    rw [equalsMembers]
    exact ⟨fun _ key _ value hvalue => (by cases hvalue),fun _ => rfl⟩
  | cons p xs ih =>
    obtain ⟨name,first⟩ := p
    rw [equalsMembers,Bool.and_eq_true,Bool.or_eq_true,decide_eq_true_eq,Option.any_eq_true,ih]
    constructor
    · rintro ⟨hfirst,hrest⟩ key hkey value hvalue
      rw [List.lookup_cons] at hvalue
      cases hbeq : key == name with
      | true =>
        rw [hbeq] at hvalue
        obtain rfl := Option.some.inj hvalue
        obtain rfl := beq_iff_eq.mp hbeq
        exact hfirst.resolve_left hkey
      | false =>
        rw [hbeq] at hvalue
        refine hrest key ?_ value hvalue
        rw [List.mem_cons,not_or]
        exact ⟨beq_eq_false_iff_ne.mp hbeq,hkey⟩
    · intro hall
      refine ⟨?_,fun key hkey value hvalue => ?_⟩
      · by_cases hseen : name ∈ seen
        · exact Or.inl hseen
        · exact Or.inr (hall name hseen first (by rw [List.lookup_cons,beq_self_eq_true]))
      · rw [List.mem_cons,not_or] at hkey
        refine hall key hkey.2 value ?_
        rw [List.lookup_cons,beq_eq_false_iff_ne.mpr hkey.1]
        exact hvalue

theorem matched_iff {a b : Option Json} : matched a b = true ↔
    (∀ value, a = some value → ∃ other, b = some other ∧ equals value other = true) ∧ (b.isSome = true → a.isSome = true) := by
  cases a with
  | none => cases b <;> simp [matched]
  | some value => cases b <;> simp [matched]

/-- Objects are equal when they have the same names with equal values. -/
theorem equals_obj {xs ys : Members} : equals (.obj xs) (.obj ys) = true ↔
    ∀ key, matched (xs.lookup key) (ys.lookup key) = true := by
  rw [equals,Bool.and_eq_true,equalsMembers_iff,List.all_eq_true]
  simp only [matched_iff,forall_and]
  refine and_congr ⟨fun h key => h key List.not_mem_nil,fun h key _ => h key⟩ ⟨fun h key hkey => ?_,fun h p hp => ?_⟩
  · obtain ⟨p,hp,rfl⟩ := List.mem_map.mp (lookup_isSome.mp hkey)
    exact h p hp
  · exact h p.1 (lookup_isSome.mpr (List.mem_map_of_mem hp))

theorem equalsAll_iff {xs ys : List Json} : equalsAll xs ys = true ↔ ∀ n : ℕ, matched xs[n]? ys[n]? = true := by
  induction xs generalizing ys with
  | nil =>
    cases ys with
    | nil => simp [equalsAll,matched]
    | cons y ys =>
      simp only [equalsAll,Bool.false_eq_true,false_iff,not_forall]
      exact ⟨0,by simp [matched]⟩
  | cons x xs ih =>
    cases ys with
    | nil =>
      simp only [equalsAll,Bool.false_eq_true,false_iff,not_forall]
      exact ⟨0,by simp [matched]⟩
    | cons y ys =>
      rw [equalsAll,Bool.and_eq_true,ih]
      constructor
      · rintro ⟨hfirst,hrest⟩ n
        cases n with
        | zero => exact hfirst
        | succ n => exact hrest n
      · intro h
        exact ⟨h 0,fun n => h (n+1)⟩

theorem matched_get {xs ys : Members} (h : equals (.obj xs) (.obj ys) = true) (key : String) :
    xs.lookup key = none ∧ ys.lookup key = none ∨
      ∃ a b, xs.lookup key = some a ∧ ys.lookup key = some b ∧ equals a b = true := by
  have hkey := equals_obj.mp h key
  cases ha : xs.lookup key <;> cases hb : ys.lookup key <;> rw [ha,hb] at hkey
  · exact Or.inl ⟨rfl,rfl⟩
  · cases hkey
  · cases hkey
  · exact Or.inr ⟨_,_,rfl,rfl,hkey⟩

/-! ### The items of a configuration -/

/-- What the check of a configuration says of an item, as far as the comparison uses it. -/
structure Comparable (item : Json) : Prop where
  object : item = .obj (membersOf item)
  kind : ∃ kind, entry item "kind" = .str kind
  field : validId (entry item "field_id") = true
  relation : validId (entry item "relation_id") = true
  unplaced : (membersOf item).lookup "position" = none

section Items

variable (other : Json → String)

/-- The key of an item that has a kind. -/
def keyOf (item : Json) (n : ℕ) : String := text other (entry item "kind")++":"++text other (reference (membersOf item) n)

/-- The item is the last one with its key. -/
def Last (items : List Json) (n : ℕ) : Prop :=
  ∃ item, items[n]? = some item ∧ ∀ m item', n < m → items[m]? = some item' → keyOf other item' m ≠ keyOf other item n

variable {other}

theorem keyedItem_comparable {item : Json} (h : Comparable item) (n : ℕ) :
    keyedItem other (item,n) = .ok (keyOf other item n,positioned (membersOf item) n) := by
  obtain ⟨kind,hkind⟩ := h.kind
  have hlookup : (membersOf item).lookup "kind" = some (entry item "kind") := by
    cases hvalue : (membersOf item).lookup "kind" with
    | none =>
      rw [entry,Json.get,hvalue] at hkind
      cases hkind
    | some value => rw [entry,Json.get,hvalue,Option.getD_some]
  have hitem : itemKey other (membersOf item) n = .ok (keyOf other item n) := by rw [itemKey,hlookup,keyOf]
  obtain ⟨members,hmembers⟩ : ∃ members, item = .obj members := ⟨_,h.object⟩
  subst hmembers
  rw [keyedItem]
  dsimp only
  rw [show itemKey other members n = .ok (keyOf other (.obj members) n) from hitem]
  rfl

/-- A text, an integer or nothing. -/
def simpleValue : Json → Bool
  | .null | .int _ | .str _ => true
  | _ => false

theorem eq_of_equals {a b : Json} (ha : simpleValue a = true) (hb : simpleValue b = true) (h : equals a b = true) : a = b := by
  cases a <;> cases b <;> simp_all [simpleValue,equals,equal,FormTemplates.number]

theorem simple_validId {value : Json} (h : validId value = true) : simpleValue value = true := by
  cases value <;> first | rfl | cases h

theorem entry_of_equals {item item' : Json} (hitem : Comparable item) (hitem' : Comparable item') (h : equals item item' = true)
    {key : String} (hsimple : simpleValue (entry item key) = true) (hsimple' : simpleValue (entry item' key) = true) :
    entry item key = entry item' key := by
  rw [hitem.object,hitem'.object] at h
  rcases matched_get h key with ⟨hnone,hnone'⟩ | ⟨a,b,ha,hb,hequals⟩
  · rw [entry,entry,Json.get,Json.get,hnone,hnone']
  · rw [entry,Json.get,ha] at hsimple
    rw [entry,Json.get,hb] at hsimple'
    rw [entry,entry,Json.get,Json.get,ha,hb]
    exact eq_of_equals hsimple hsimple' hequals

/-- Equal items have the same key at the same place. -/
theorem keyOf_equals {item item' : Json} (hitem : Comparable item) (hitem' : Comparable item') (h : equals item item' = true)
    (n : ℕ) : keyOf other item n = keyOf other item' n := by
  obtain ⟨kind,hkind⟩ := hitem.kind
  obtain ⟨kind',hkind'⟩ := hitem'.kind
  have hsame : entry item "kind" = entry item' "kind" :=
    entry_of_equals hitem hitem' h (by rw [hkind]; rfl) (by rw [hkind']; rfl)
  have hfield := entry_of_equals hitem hitem' h (simple_validId hitem.field) (simple_validId hitem'.field)
  have hrelation := entry_of_equals hitem hitem' h (simple_validId hitem.relation) (simple_validId hitem'.relation)
  have href : reference (membersOf item) n = reference (membersOf item') n := by
    rw [entry,entry] at hfield hrelation
    rw [reference,reference,hfield,hrelation]
  rw [keyOf,keyOf,hsame,href]

theorem lookup_positioned {item : Members} (h : item.lookup "position" = none) (n : ℕ) (key : String) :
    (item++[("position",Json.int n)]).lookup key = if key = "position" then some (.int n) else item.lookup key := by
  rw [List.lookup_append]
  by_cases hkey : key = "position"
  · rw [if_pos hkey,hkey,h]
    rfl
  · have hbeq : (key == "position") = false := beq_eq_false_iff_ne.mpr hkey
    rw [if_neg hkey,List.lookup_cons,hbeq,List.lookup_nil,Option.or_none]

/-- Items are equal with their places when they are equal and stand at the same place. -/
theorem equals_positioned {item item' : Members} (h : item.lookup "position" = none) (h' : item'.lookup "position" = none) {n n' : ℕ} :
    equals (positioned item n) (positioned item' n') = true ↔ equals (.obj item) (.obj item') = true ∧ n = n' := by
  have hplace : matched (some (.int n)) (some (.int n')) = true ↔ n = n' := by
    simp [matched,equals,equal,FormTemplates.number]
  rw [positioned,positioned,equals_obj,equals_obj]
  simp only [lookup_positioned h,lookup_positioned h']
  constructor
  · intro hall
    refine ⟨fun key => ?_,?_⟩
    · by_cases hkey : key = "position"
      · rw [hkey,h,h']
        rfl
      · have hsame := hall key
        rwa [if_neg hkey,if_neg hkey] at hsame
    · have hsame := hall "position"
      rw [if_pos rfl,if_pos rfl] at hsame
      exact hplace.mp hsame
  · rintro ⟨hall,rfl⟩ key
    by_cases hkey : key = "position"
    · rw [if_pos hkey,if_pos hkey]
      exact hplace.mpr rfl
    · rw [if_neg hkey,if_neg hkey]
      exact hall key

/-! ### The dictionaries -/

variable (other)

/-- The items with their keys. -/
def pairs (items : List Json) : Members := items.zipIdx.map fun p => (keyOf other p.1 p.2,positioned (membersOf p.1) p.2)

variable {other}

variable (other) in
theorem getElem?_pairs (items : List Json) (n : ℕ) :
    (pairs other items)[n]? = items[n]?.map fun item => (keyOf other item n,positioned (membersOf item) n) := by
  rw [pairs,List.getElem?_map,List.getElem?_zipIdx,Option.map_map,Nat.zero_add]
  rfl

/-- Under a key stands the last item that has it. -/
theorem lookup_pairs {items : List Json} {key : String} {value : Json} :
    (Keyed.puts Prod.fst (pairs other items)).lookup key = some value ↔
      ∃ n item, items[n]? = some item ∧ keyOf other item n = key ∧ value = positioned (membersOf item) n ∧ Last other items n := by
  rw [Keyed.lookup_puts_iff]
  constructor
  · rintro ⟨before,later,hpairs,hlater⟩
    have hget := getElem?_pairs other items before.length
    rw [hpairs,List.getElem?_append_right (Nat.le_refl _),Nat.sub_self,List.getElem?_cons_zero] at hget
    obtain ⟨item,hitem,hpair⟩ := Option.map_eq_some_iff.mp hget.symm
    obtain ⟨hkey,hvalue⟩ := Prod.mk.inj hpair
    refine ⟨before.length,item,hitem,hkey,hvalue.symm,item,hitem,fun m item' hm hitem' => ?_⟩
    have hget' := getElem?_pairs other items m
    rw [hpairs,hitem',List.getElem?_append_right hm.le,Option.map_some] at hget'
    obtain ⟨k,hk⟩ : ∃ k, m-before.length = k+1 := ⟨m-before.length-1,by omega⟩
    rw [hk,List.getElem?_cons_succ] at hget'
    rw [hkey]
    exact hlater _ (List.mem_of_getElem? hget')
  · rintro ⟨n,item,hitem,rfl,rfl,item',hitem',hlast⟩
    obtain rfl := Option.some.inj (hitem.symm.trans hitem')
    have hget := getElem?_pairs other items n
    rw [hitem,Option.map_some] at hget
    obtain ⟨hn,hvalue⟩ := List.getElem?_eq_some_iff.mp hget
    refine ⟨(pairs other items).take n,(pairs other items).drop (n+1),?_,fun p hp => ?_⟩
    · rw [← hvalue,← List.drop_eq_getElem_cons hn,List.take_append_drop]
    · obtain ⟨k,hk⟩ := List.mem_iff_getElem?.mp hp
      rw [List.getElem?_drop,getElem?_pairs] at hk
      obtain ⟨later,hlater,rfl⟩ := Option.map_eq_some_iff.mp hk
      exact hlast _ later (by omega) hlater

variable (other) in
/-- The item that stands under a key is the last one that has it. -/
theorem exists_last {items : List Json} {n : ℕ} {item : Json} (hitem : items[n]? = some item) :
    ∃ m last, n ≤ m ∧ items[m]? = some last ∧ keyOf other last m = keyOf other item n ∧ Last other items m := by
  have hmem : keyOf other item n ∈ (pairs other items).reverse.map Prod.fst := by
    have hget := getElem?_pairs other items n
    rw [hitem,Option.map_some] at hget
    exact List.mem_map_of_mem (List.mem_reverse.mpr (List.mem_of_getElem? hget))
  obtain ⟨value,hvalue⟩ := Option.isSome_iff_exists.mp (lookup_isSome.mpr hmem)
  rw [← Keyed.lookup_puts] at hvalue
  obtain ⟨m,last,hlast,hkey,-,hwhole⟩ := lookup_pairs.mp hvalue
  refine ⟨m,last,?_,hlast,hkey,hwhole⟩
  obtain ⟨last',hlast',hlater⟩ := hwhole
  obtain rfl := Option.some.inj (hlast.symm.trans hlast')
  by_contra hlt
  exact hlater n item (not_le.mp hlt) hitem hkey.symm

variable {items items' : List Json}

/-- The items at a place are equal, or there is none in either list. -/
def Agree (items items' : List Json) (n : ℕ) : Prop := matched items[n]? items'[n]? = true

theorem agree_some {n : ℕ} {item : Json} (h : Agree items items' n) (hitem : items[n]? = some item) :
    ∃ item', items'[n]? = some item' ∧ equals item item' = true := by
  rw [Agree,hitem,matched_iff] at h
  exact h.1 item rfl

theorem agree_some' {n : ℕ} {item' : Json} (h : Agree items items' n) (hitem' : items'[n]? = some item') :
    ∃ item, items[n]? = some item ∧ equals item item' = true := by
  rw [Agree] at h
  cases hitem : items[n]? with
  | none =>
    rw [hitem,hitem'] at h
    cases h
  | some item =>
    rw [hitem,hitem'] at h
    exact ⟨item,rfl,h⟩

section Compared

variable (hitems : ∀ item ∈ items, Comparable item) (hitems' : ∀ item ∈ items', Comparable item)

include hitems hitems' in
theorem equals_at {n : ℕ} {item item' : Json} (hitem : items[n]? = some item) (hitem' : items'[n]? = some item')
    (h : equals item item' = true) : keyOf other item n = keyOf other item' n :=
  keyOf_equals (hitems item (List.mem_of_getElem? hitem)) (hitems' item' (List.mem_of_getElem? hitem')) h n

include hitems hitems' in
theorem equals_placed {n n' : ℕ} {item item' : Json} (hitem : items[n]? = some item) (hitem' : items'[n']? = some item') :
    equals (positioned (membersOf item) n) (positioned (membersOf item') n') = true ↔ equals item item' = true ∧ n = n' := by
  have hshape := hitems item (List.mem_of_getElem? hitem)
  have hshape' := hitems' item' (List.mem_of_getElem? hitem')
  rw [equals_positioned hshape.unplaced hshape'.unplaced,← hshape.object,← hshape'.object]

include hitems hitems' in
/-- The dictionaries are equal when the lists agree wherever an item is the last one with its key. -/
theorem matched_pairs : (∀ key, matched ((Keyed.puts Prod.fst (pairs other items)).lookup key)
      ((Keyed.puts Prod.fst (pairs other items')).lookup key) = true) ↔
    ∀ n, Last other items n ∨ Last other items' n → Agree items items' n := by
  constructor
  · rintro hall n (hlast | hlast)
    · obtain ⟨item,hitem,-⟩ := id hlast
      have hvalue := lookup_pairs.mpr ⟨n,item,hitem,rfl,rfl,hlast⟩
      obtain ⟨value',hvalue',hequals⟩ := (matched_iff.mp (hall (keyOf other item n))).1 _ hvalue
      obtain ⟨n',item',hitem',-,rfl,-⟩ := lookup_pairs.mp hvalue'
      obtain ⟨hsame,rfl⟩ := (equals_placed hitems hitems' hitem hitem').mp hequals
      rw [Agree,hitem,hitem']
      exact hsame
    · obtain ⟨item',hitem',-⟩ := id hlast
      have hvalue' := lookup_pairs.mpr ⟨n,item',hitem',rfl,rfl,hlast⟩
      have hmatched := matched_iff.mp (hall (keyOf other item' n))
      obtain ⟨value,hvalue⟩ := Option.isSome_iff_exists.mp (hmatched.2 (by rw [hvalue']; rfl))
      obtain ⟨other',hother',hequals⟩ := hmatched.1 value hvalue
      obtain rfl := Option.some.inj (hvalue'.symm.trans hother')
      obtain ⟨n',item,hitem,-,rfl,-⟩ := lookup_pairs.mp hvalue
      obtain ⟨hsame,rfl⟩ := (equals_placed hitems hitems' hitem hitem').mp hequals
      rw [Agree,hitem,hitem']
      exact hsame
  · intro hall key
    cases hvalue : (Keyed.puts Prod.fst (pairs other items)).lookup key with
    | some value =>
      obtain ⟨n,item,hitem,rfl,rfl,hlast⟩ := lookup_pairs.mp hvalue
      obtain ⟨item',hitem',hsame⟩ := agree_some (hall n (Or.inl hlast)) hitem
      have hkey : keyOf other item n = keyOf other item' n := equals_at hitems hitems' hitem hitem' hsame
      -- the last item with this key stands at the same place in the other list
      obtain ⟨m,last,hle,hat,hsamekey,hlast'⟩ := exists_last other hitem'
      have hm : m = n := by
        by_contra hne
        obtain ⟨twin,htwin,hequals⟩ := agree_some' (hall m (Or.inr hlast')) hat
        obtain ⟨item'',hitem'',hlater⟩ := hlast
        obtain rfl := Option.some.inj (hitem.symm.trans hitem'')
        refine hlater m twin (lt_of_le_of_ne hle (Ne.symm hne)) htwin ?_
        rw [equals_at hitems hitems' htwin hat hequals,hsamekey,hkey]
      subst hm
      rw [lookup_pairs.mpr ⟨m,item',hitem',hkey.symm,rfl,hlast'⟩]
      exact (equals_placed hitems hitems' hitem hitem').mpr ⟨hsame,rfl⟩
    | none =>
      cases hvalue' : (Keyed.puts Prod.fst (pairs other items')).lookup key with
      | none => rfl
      | some value' =>
        obtain ⟨n,item',hitem',rfl,rfl,hlast⟩ := lookup_pairs.mp hvalue'
        obtain ⟨item,hitem,hsame⟩ := agree_some' (hall n (Or.inr hlast)) hitem'
        obtain ⟨m,last,-,hat,hsamekey,hlast'⟩ := exists_last other hitem
        have hfound := lookup_pairs.mpr ⟨m,last,hat,hsamekey,rfl,hlast'⟩
        rw [equals_at hitems hitems' hitem hitem' hsame,hvalue] at hfound
        cases hfound

end Compared

end Items

/-! ### Accepted configurations -/

section Admitted

variable {ω : Type*} {lib : DesignLib ω} {site : Site} {config : Json} {result : Json × List Issue}

/-- The configuration passes the check, or is what the check makes of one that does. -/
def Admitted (lib : DesignLib ω) (site : Site) (config : Json) : Prop :=
  ∃ source result, validateConfig lib site source = .ok result ∧ (config = source ∨ config = result.1)

/-- What the comparison uses of a configuration. -/
structure Listed (config : Json) : Prop where
  items : (membersOf config).lookup "items" = some (.arr (itemsOf config))
  comparable : ∀ item ∈ itemsOf config, Comparable item

theorem unplaced_of_keys {members : Members} (h : (members.all fun p => p.1 ∈ itemKeys) = true) :
    members.lookup "position" = none := by
  rw [List.lookup_eq_none_iff]
  intro p hp
  have hkey : p.1 ∈ itemKeys := of_decide_eq_true (List.all_eq_true.mp h p hp)
  rw [bne_iff_ne]
  intro heq
  rw [← heq] at hkey
  revert hkey
  decide

theorem comparable_of_shape {item : Json} {members : Members} {kind : String} (h : checkShape item = .ok (members,kind)) :
    Comparable item ∧ Comparable (normalItem lib item) := by
  have hkeys := checkShape_keys h
  obtain ⟨rfl,hkind,hids,-⟩ := checkShape_ok h
  refine ⟨⟨rfl,⟨kind,hkind⟩,hids _ (by decide),hids _ (by decide),unplaced_of_keys hkeys⟩,⟨rfl,⟨kind,?_⟩,?_,?_,?_⟩⟩
  · rw [entry_normal (by decide)]
    exact hkind
  · rw [entry_normal (by decide)]
    exact hids _ (by decide)
  · rw [entry_normal (by decide)]
    exact hids _ (by decide)
  · exact unplaced_of_keys (keys_normal lib hkeys)

/-- The items of an accepted configuration have passed the check of their shape. -/
theorem shapes_of_validate (h : validateConfig lib site config = .ok result) : result.1 = normalise lib config ∧
    Json.get (membersOf config) "items" = .arr (itemsOf config) ∧
    ∀ item ∈ itemsOf config, ∃ members kind, checkShape item = .ok (members,kind) := by
  obtain ⟨rfl,-,hitems,-,hchecked⟩ := validateConfig_passes h
  obtain ⟨used,entries,hfold,-⟩ := checkItems_passes hchecked
  refine ⟨rfl,hitems,fun item hitem => ?_⟩
  obtain ⟨t,t',hstep⟩ := Outcome.foldlM_mem hfold hitem
  rw [checkItem] at hstep
  split at hstep
  · cases hstep
  · rename_i members kind hshape
    exact ⟨members,kind,hshape⟩

theorem listed_of_admitted (h : Admitted lib site config) : Listed config := by
  obtain ⟨source,result,hvalid,hconfig⟩ := h
  obtain ⟨hresult,hitems,hshapes⟩ := shapes_of_validate hvalid
  rcases hconfig with rfl | rfl
  · refine ⟨Json.lookup_of_get hitems (by simp),fun item hitem => ?_⟩
    obtain ⟨members,kind,hshape⟩ := hshapes item hitem
    have hcomparable : Comparable item ∧ Comparable (normalItem lib item) := comparable_of_shape hshape
    exact hcomparable.1
  · rw [hresult]
    have hget : Json.get (membersOf (normalise lib source)) "items" = .arr (itemsOf (normalise lib source)) := by
      cases source with
      | obj members =>
        rw [itemsOf_normalise]
        have hmembers : Json.get members "items" = .arr (itemsOf (.obj members)) := hitems
        simp only [normalise,hmembers,membersOf,get_set_self]
      | _ => cases hitems
    refine ⟨Json.lookup_of_get hget (by simp),fun item hitem => ?_⟩
    rw [itemsOf_normalise] at hitem
    obtain ⟨origin,horigin,rfl⟩ := List.mem_map.mp hitem
    obtain ⟨members,kind,hshape⟩ := hshapes origin horigin
    exact (comparable_of_shape hshape).2

end Admitted

/-! ### Completeness -/

section Complete

variable {other : Json → String} {live draft : Json}

/-- The form settings are equal, and the items one by one. -/
def SameConfig (live draft : Json) : Prop :=
  (∀ key ∈ formKeys, equals (entry live key) (entry draft key) = true) ∧ equalsAll (itemsOf live) (itemsOf draft) = true

/-- Where the settings are equal and the items are not, items differ at a place where one of the two is the last item with
its key. -/
def Exposed (other : Json → String) (live draft : Json) : Prop :=
  (∀ key ∈ formKeys, equals (entry live key) (entry draft key) = true) →
    (∃ n, ¬Agree (itemsOf live) (itemsOf draft) n) →
      ∃ n, ¬Agree (itemsOf live) (itemsOf draft) n ∧ (Last other (itemsOf live) n ∨ Last other (itemsOf draft) n)

theorem keyedItems_listed (h : Listed live) :
    keyedItems other (membersOf live) = .ok (Keyed.puts Prod.fst (pairs other (itemsOf live))) := by
  have hmap : ∀ ps : List (Json × ℕ), (∀ p ∈ ps, Comparable p.1) →
      ps.mapM (keyedItem other) = .ok (ps.map fun p => (keyOf other p.1 p.2,positioned (membersOf p.1) p.2)) := by
    intro ps hps
    induction ps with
    | nil => rfl
    | cons p ps ih =>
      rw [List.mapM_cons,show p = (p.1,p.2) from rfl,keyedItem_comparable (hps p List.mem_cons_self),
        ih fun q hq => hps q (List.mem_cons_of_mem _ hq)]
      rfl
  rw [keyedItems,listed,h.items]
  dsimp only
  rw [hmap _ fun p hp => h.comparable p.1 (List.fst_mem_of_mem_zipIdx hp)]
  rfl

theorem matched_absent {before after : Members} {key : String} (h : key ∉ before.map Prod.fst++after.map Prod.fst) :
    matched (before.lookup key) (after.lookup key) = true := by
  rw [List.mem_append,not_or,← lookup_isSome,← lookup_isSome,Option.not_isSome_iff_eq_none,Option.not_isSome_iff_eq_none] at h
  rw [h.1,h.2]
  rfl

/-- No change is reported when the settings are equal and the items agree wherever one is the last with its key. -/
theorem comparison_nil (arrangement : Arrangement) (hlive : Listed live) (hdraft : Listed draft) :
    comparison other arrangement (membersOf live) (membersOf draft) = .ok [] ↔
      (∀ key ∈ formKeys, equals (entry live key) (entry draft key) = true) ∧
        ∀ n, Last other (itemsOf live) n ∨ Last other (itemsOf draft) n → Agree (itemsOf live) (itemsOf draft) n := by
  rw [comparison,keyedItems_listed hlive,keyedItems_listed hdraft,← matched_pairs hlive.comparable hdraft.comparable]
  dsimp only
  rw [Except.ok.injEq,List.append_eq_nil_iff,changedSettings,List.map_eq_nil_iff,List.map_eq_nil_iff,List.filter_eq_nil_iff,
    List.filter_eq_nil_iff]
  refine and_congr (forall₂_congr fun key _ => ?_) ⟨fun h key => ?_,fun h key _ => ?_⟩
  · rw [Bool.not_eq_true',Bool.not_eq_false]
    rfl
  · by_cases hkey : key ∈ (Keyed.puts Prod.fst (pairs other (itemsOf live))).map Prod.fst++
        (Keyed.puts Prod.fst (pairs other (itemsOf draft))).map Prod.fst
    · have hnot := h key ((arrangement.mem_arrange _ _).mpr hkey)
      rwa [Bool.not_eq_true',Bool.not_eq_false] at hnot
    · exact matched_absent hkey
  · rw [h key]
    decide

end Complete

/-- The comparison of two configurations is complete exactly when they do not differ only in items whose key occurs again
further down. -/
theorem comparison_iff {ω : Type*} (lib : DesignLib ω) (site : Site) (other : Json → String) (arrangement : Arrangement)
    (live draft : Json) (hlive : Admitted lib site live) (hdraft : Admitted lib site draft) :
    (comparison other arrangement (membersOf live) (membersOf draft) = .ok [] ↔ SameConfig live draft) ↔
      Exposed other live draft := by
  rw [comparison_nil arrangement (listed_of_admitted hlive) (listed_of_admitted hdraft),SameConfig,equalsAll_iff]
  constructor
  · rintro hcomplete hsettings ⟨n,hn⟩
    by_contra hnone
    refine hn ((hcomplete.mp ⟨hsettings,fun m hlast => ?_⟩).2 n)
    by_contra hm
    exact hnone ⟨m,hm,hlast⟩
  · intro hexposed
    refine ⟨fun ⟨hsettings,hlast⟩ => ⟨hsettings,fun n => ?_⟩,fun ⟨hsettings,hall⟩ => ⟨hsettings,fun n _ => hall n⟩⟩
    by_contra hn
    obtain ⟨m,hm,hmlast⟩ := hexposed hsettings ⟨n,hn⟩
    exact hm (hlast m hmlast)

/-! ### A relation that is shown twice -/

/-- A relation under a heading of its own. -/
def headed (heading : String) : Json :=
  .obj [("kind",.str "relation"),("field_id",.null),("relation_id",.int 7),("parent_field_id",.null),("filter_field_id",.null),
    ("label_override",.str heading),("help_text",.null),("required",.bool false),("readonly",.bool false),("rules_json",.null),
    ("widget",.null)]

theorem admitted_pair (first second : String) (h : first = "Parents" ∨ first = "Children") (h' : second = "Parents") :
    Admitted templateLib sourceSchema.toSite (configOf [headed first,headed second]) := by
  subst h'
  rcases h with rfl | rfl <;> exact ⟨_,_,rfl,Or.inl rfl⟩

theorem comparison_parents : Admitted templateLib sourceSchema.toSite (configOf [headed "Parents",headed "Parents"]) ∧
    ((comparison (fun _ => "") templateLib.arrangement (membersOf (configOf [headed "Parents",headed "Parents"]))
        (membersOf (configOf [headed "Parents",headed "Parents"])) = .ok [] ↔
      SameConfig (configOf [headed "Parents",headed "Parents"]) (configOf [headed "Parents",headed "Parents"])) ↔
      Exposed (fun _ => "") (configOf [headed "Parents",headed "Parents"]) (configOf [headed "Parents",headed "Parents"])) :=
  have h := admitted_pair "Parents" "Parents" (Or.inl rfl) rfl
  ⟨h,comparison_iff templateLib sourceSchema.toSite (fun _ => "") templateLib.arrangement _ _ h h⟩

/-- The first of two items of a relation gets another heading, and no change is reported. -/
theorem heading_missed : ¬∀ (lib : DesignLib String) (site : Site) (other : Json → String) (arrangement : Arrangement)
    (live draft : Json), Admitted lib site live → Admitted lib site draft →
      (comparison other arrangement (membersOf live) (membersOf draft) = .ok [] ↔ SameConfig live draft) := by
  intro h
  have hcomplete := h templateLib sourceSchema.toSite (fun _ => "") templateLib.arrangement _ _
    (admitted_pair "Parents" "Parents" (Or.inl rfl) rfl) (admitted_pair "Children" "Parents" (Or.inr rfl) rfl)
  have hsame := (hcomplete.mp rfl).2
  exact absurd hsame (by decide)

end FormComparison
end Biggy
