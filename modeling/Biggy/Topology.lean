import Biggy.Access
import Biggy.Relations
import Biggy.Search
import Mathlib.Algebra.Order.BigOperators.Group.List
import Mathlib.Algebra.Order.Group.Nat

/-!
# The dependency map

`graph_for` walks the relations from a root record: to the children that refer to it, to the parents it refers to
and to its peers. Children come from `list_records`, parents and peers are only asked for their table and company;
`visibleOnly_iff` says when all the nodes are records that the user may read.
-/
namespace Biggy
namespace Topology

open Companies RowScope Access Relations

inductive Direction
  | upstream | downstream | both
  deriving DecidableEq

/-- Any other text asks for both directions. -/
def Direction.parse (s : String) : Direction :=
  if s = "upstream" then .upstream else if s = "downstream" then .downstream else .both

/-- A record: its table's id and its key. -/
abbrev Item := ℕ × Value

/-- `_node_id`: the table's id and the text of the key. -/
abbrev NodeId := ℕ × String

/-- The metadata, the stored tables and the junction tables that a map is made of. The key column is the one that the
metadata names, and a stored key is found under its text, as in the address of its record. -/
structure Graph extends Schema where
  session : Session
  stored : ∀ mt : MetaTable, Stored mt
  junctions : String → List Row
  sql : Sql
  arrange : MetaTable → List Row → List Row
  label : MetaTable → Value → Option String
  str : Value → String
  perm : ∀ mt rows, (arrange mt rows).Perm rows
  keyed : ∀ mt ∈ tables, (stored mt).data.pk = mt.pkCol
  spelled : ∀ mt ∈ tables, ∀ row ∈ (stored mt).data.rows, (stored mt).data.key (.text (str (row mt.pkCol))) = row mt.pkCol

structure Node where
  id : NodeId
  tableLabel : String
  label : String
  depth : ℕ

structure Edge where
  source : NodeId
  target : NodeId
  label : String
  kind : RelationKind
  directed : Bool

/-- A neighbour with the edge to it; the edge from a child comes in. -/
structure Link where
  item : Item
  label : String
  kind : RelationKind
  incoming : Bool

section Map

variable (G : Graph) (user : User)

def Graph.nodeId (x : Item) : NodeId := (x.1,G.str x.2)

/-! ### Companies -/

def allowedCompanies : Option (Finset ℕ) :=
  if user.isDesigner then none else allowedForUser G.session.accounts G.session.companies (some user.id)

/-- `_company_visible`. -/
def companyVisible (t : MetaTable) (pk : Value) : Bool :=
  match allowedCompanies G user with
  | none => true
  | some allowed =>
    match t.fields.find? fun f => decide (f.dataType = .company) with
    | none => true
    | some cf => ((G.stored t).data.getRow pk).any fun row => inCompanies allowed (row cf.physName)

def allows (x : Item) : Bool := (G.table x.1).any fun t => companyVisible G user t x.2

/-! ### Neighbours -/

/-- The rows whose foreign key points at the record; `perPage` is the node limit. -/
def children (t : MetaTable) (pk : Value) (perPage : Option ℕ) : List Link :=
  (G.incomingM1 t).flatMap fun (child,fkCol,rel) =>
    if canView G.session user child then
      (listRecords G.session.accounts G.session.companies child (ctx user) G.sql (G.stored child).data false
        [.one ⟨fkCol,.compare .eq pk,false⟩] ⟨G.arrange child,G.perm child,1,perPage⟩).1.map fun row =>
          ⟨(child.id,row child.pkCol),if rel.name = "" then fkCol else rel.name,.m1,true⟩
    else []

/-- The records that the record's own foreign keys name. -/
def parents (t : MetaTable) (pk : Value) : List Link :=
  let row := ((G.stored t).data.getRow pk).getD fun _ => .null
  G.relations.filterMap fun rel =>
    if rel.kind = .m1 ∧ rel.fromTableId = t.id then
      match G.table rel.toTableId, rel.fromFieldId.bind G.field with
      | some parent, some fk =>
        if canView G.session user parent ∧ (row fk.physName).blank = false then
          some ⟨(parent.id,row fk.physName),if rel.name = "" then fk.physName else rel.name,.m1,false⟩
        else none
      | _, _ => none
    else none

/-- `get_links`. -/
def getLinks (jname thisCol : String) (id : Value) (otherCol : String) : List Value :=
  ((G.junctions jname).filter fun row => row thisCol ≠ .null && G.sql.test .eq (row thisCol) id).map fun row => row otherCol

def peers (t : MetaTable) (pk : Value) : List Link :=
  (G.mnLinks t).flatMap fun (rel,jname,thisCol,otherCol,other) =>
    if canView G.session user other then
      (getLinks G jname thisCol pk otherCol).map fun oid =>
        ⟨(other.id,oid),if rel.name = "" then other.label else rel.name,.mn,false⟩
    else []

/-- The neighbours of a record in the order of the search. -/
def neighbours (direction : Direction) (perPage : Option ℕ) (x : Item) : List Link :=
  match G.table x.1 with
  | none => []
  | some t =>
    (if direction ≠ .upstream then children G user t x.2 perPage else []) ++
      (if direction ≠ .downstream then parents G user t x.2 else []) ++
        if direction = .both then peers G user t x.2 else []

/-! ### The search -/

/-- `add_edge`. -/
def addEdge (source target : Option NodeId) (label : String) (kind : RelationKind) (directed : Bool) (edges : List Edge) :
    List Edge :=
  match source, target with
  | some a, some b =>
    if a = b ∨ edges.any (fun e => decide (e.source = a ∧ e.target = b ∧ e.kind = kind)) then edges
    else edges ++ [⟨a,b,label,kind,directed⟩]
  | _, _ => edges

/-- The edge of a link, in its direction. -/
def noteLink (cur : NodeId) (found : Option NodeId) (l : Link) (edges : List Edge) : List Edge :=
  if l.incoming then addEdge found (some cur) l.label l.kind true edges
  else addEdge (some cur) found l.label l.kind (decide (l.kind = .m1)) edges

def problem (direction : Direction) (depth maxNodes : ℕ) : Search.Problem Item Link NodeId (List Edge) where
  key := G.nodeId
  allows := allows G user
  next := neighbours G user direction (some maxNodes)
  item := Link.item
  note := noteLink
  limit := maxNodes
  depth := depth

def node (p : Item × ℕ) : Node where
  id := G.nodeId p.1
  tableLabel := ((G.table p.1.1).map MetaTable.label).getD ""
  label := ((G.table p.1.1).bind fun t => G.label t p.1.2).getD ("#" ++ G.str p.1.2)
  depth := p.2

structure Result where
  root : Option NodeId
  rootLabel : String
  nodes : List Node
  edges : List Edge
  truncated : Bool
  direction : Direction
  depth : ℕ

def graphFor (root : Item) (direction : String) (depth maxNodes : ℕ) : Result :=
  let direction := Direction.parse direction
  let s := Search.run (problem G user direction depth maxNodes) root []
  let nodes := s.found.map (node G)
  { root := nodes.head?.map Node.id
    rootLabel := (nodes.head?.map Node.label).getD ("#" ++ G.str root.2)
    nodes := nodes
    edges := s.notes
    truncated := s.full
    direction := direction
    depth := depth }

/-! ### Visible records -/

/-- The record that a node names is of a table that the user may view, and the user may read it. -/
def Readable (id : NodeId) : Prop :=
  ∃ t, G.table id.1 = some t ∧ canView G.session user t = true ∧
    (getRecord G.session.accounts G.session.companies t (ctx user) (G.stored t).data (.text id.2) false).isSome = true

/-- On every map the nodes other than the root are records that the user may read. -/
def VisibleOnly : Prop :=
  ∀ (root : Item) (direction : String) (depth maxNodes : ℕ), ∀ n ∈ (graphFor G user root direction depth maxNodes).nodes,
    n.id ≠ G.nodeId root → Readable G user n.id

/-- The neighbours that pass the test on the company are readable, for every record that passes it itself. -/
structure Covered : Prop where
  parents : ∀ x t, G.table x.1 = some t → allows G user x = true → ∀ l ∈ parents G user t x.2,
    allows G user l.item = true → G.nodeId l.item ≠ G.nodeId x → Readable G user (G.nodeId l.item)
  peers : ∀ x t, G.table x.1 = some t → allows G user x = true → ∀ l ∈ peers G user t x.2,
    allows G user l.item = true → G.nodeId l.item ≠ G.nodeId x → Readable G user (G.nodeId l.item)
  children : ∀ x t, G.table x.1 = some t → allows G user x = true → ∀ l ∈ children G user t x.2 none,
    allows G user l.item = true → G.nodeId l.item ≠ G.nodeId x →
      ∀ child, G.table l.item.1 = some child → ownerDropped (ctx user) (G.stored child) = false

end Map

section Proofs

variable {G : Graph} {user : User}

/-- The test on the company is the one of the company scope. -/
theorem companyVisible_eq (t : MetaTable) (pk : Value) : companyVisible G user t pk =
    (companyScope G.session.accounts G.session.companies t (ctx user)).all fun sc =>
      ((G.stored t).data.getRow pk).any fun row => inCompanies sc.2 (row sc.1) := by
  have hcaller : allowedForUser G.session.accounts G.session.companies (some user.id) = none ∨ noId (some user.id) = false := by
    cases hid : noId (some user.id) with
    | true => exact Or.inl (by simp [allowedForUser,hid])
    | false => exact Or.inr rfl
  simp only [companyVisible,allowedCompanies,companyScope,ctx]
  by_cases hdesigner : user.isDesigner = true
  · simp [hdesigner]
  · simp only [hdesigner,Bool.false_eq_true,if_false,Bool.false_or]
    cases t.fields.find? fun f => decide (f.dataType = .company) with
    | none => cases allowedForUser G.session.accounts G.session.companies (some user.id) <;> simp
    | some cf =>
      rcases hcaller with hnone | hid
      · simp [hnone]
      · cases allowedForUser G.session.accounts G.session.companies (some user.id) <;> simp [hid]

theorem listed_mem {t : MetaTable} {filters : List Filter} {args : ListArgs} {row : Row}
    (h : row ∈ (listRecords G.session.accounts G.session.companies t (ctx user) G.sql (G.stored t).data false filters args).1) :
    row ∈ (G.stored t).data.rows ∧ applyFilters G.sql (G.stored t).data.columns
      (scopeFilters G.session.accounts G.session.companies t (ctx user) false) row = true := by
  have hbase : row ∈ args.arrange ((G.stored t).data.rows.filter (applyFilters G.sql (G.stored t).data.columns
      (filters ++ scopeFilters G.session.accounts G.session.companies t (ctx user) false))) := by
    simp only [listRecords,listRows] at h
    split at h
    · exact h
    · exact Paging.mem_of_mem_page h
  obtain ⟨hrow,hpass⟩ := List.mem_filter.mp ((args.perm _).mem_iff.mp hbase)
  rw [applyFilters,List.all_append,Bool.and_eq_true] at hpass
  exact ⟨hrow,hpass.2⟩

/-- What is known of a child on the map. -/
theorem mem_children {t : MetaTable} {pk : Value} {perPage : Option ℕ} {l : Link} (h : l ∈ children G user t pk perPage) :
    ∃ child row, G.table child.id = some child ∧ canView G.session user child = true ∧ l.item = (child.id,row child.pkCol) ∧
      row ∈ (G.stored child).data.rows ∧ applyFilters G.sql (G.stored child).data.columns
        (scopeFilters G.session.accounts G.session.companies child (ctx user) false) row = true := by
  obtain ⟨⟨child,fkCol,rel⟩,hrel,hl⟩ := List.mem_flatMap.mp h
  have hchild : G.table child.id = some child := by
    obtain ⟨-,-,-,hfrom,-⟩ := Schema.mem_incomingM1 hrel
    rw [(Schema.table_mem hfrom).2]
    exact hfrom
  dsimp only at hl
  split at hl
  · rename_i hview
    obtain ⟨row,hrow,rfl⟩ := List.mem_map.mp hl
    obtain ⟨hmem,hpass⟩ := listed_mem hrow
    exact ⟨child,row,hchild,hview,rfl,hmem,hpass⟩
  · cases hl

/-- A stored row is found under its key and under the text of it. -/
theorem getRow_of_mem {t : MetaTable} (ht : t ∈ G.tables) {row : Row} (hrow : row ∈ (G.stored t).data.rows) :
    (G.stored t).data.getRow (row t.pkCol) = some row ∧
      (G.stored t).data.getRow (.text (G.str (row t.pkCol))) = some row := by
  have hkey : row t.pkCol = (G.stored t).data.keyOf row := by rw [Physical.keyOf,G.keyed t ht]
  have hfind : (G.stored t).data.rowAt (row t.pkCol) = some row := by
    rw [hkey]
    exact Keyed.find_of_mem (G.stored t).keys hrow
  constructor
  · rw [Physical.getRow,hkey,(G.stored t).own row hrow,← hkey]
    exact hfind
  · rw [Physical.getRow,G.spelled t ht row hrow]
    exact hfind

/-- A child that passes the test on the company is readable when the filter on the owner is not left out. -/
theorem child_readable {t : MetaTable} {pk : Value} {perPage : Option ℕ} {l : Link} (hl : l ∈ children G user t pk perPage)
    (hallowed : allows G user l.item = true)
    (howner : ∀ child, G.table l.item.1 = some child → ownerDropped (ctx user) (G.stored child) = false) :
    Readable G user (G.nodeId l.item) := by
  obtain ⟨child,row,hchild,hview,hitem,hrow,hpass⟩ := mem_children hl
  obtain ⟨hget,htext⟩ := getRow_of_mem (Schema.table_mem hchild).1 hrow
  rw [hitem] at hallowed howner ⊢
  refine ⟨child,hchild,hview,?_⟩
  have hcompany : companyOk G.session.accounts G.session.companies (ctx user) child row = true := by
    have hvisible : companyVisible G user child (row child.pkCol) = true := by simpa [allows,hchild] using hallowed
    rw [companyVisible_eq,hget] at hvisible
    simpa [companyOk] using hvisible
  rw [applyFilters_eq hrow,howner child hchild] at hpass
  simp only [Bool.false_or,Bool.and_eq_true] at hpass
  have hreadable : rowReadable child (ctx user) false
      (companyScope G.session.accounts G.session.companies child (ctx user)) row = true := by
    rw [rowReadable_eq,hpass.1.1,hpass.1.2,hcompany]
    rfl
  simp [getRecord,Graph.nodeId,htext,hreadable]

/-- A record of a table whose rows have no owner is nobody's. -/
theorem unowned_hidden {t : MetaTable} (howner : ownerDropped (ctx user) (G.stored t) = true) (pk : Value) :
    getRecord G.session.accounts G.session.companies t (ctx user) (G.stored t).data pk false = none := by
  have hmissing : "created_by" ∉ (G.stored t).data.columns := by
    simp only [ownerDropped,Bool.and_eq_true,Bool.or_eq_true] at howner
    simpa [ctx] using howner.2
  simp only [getRecord]
  split
  · rfl
  · rename_i row hrow
    rw [if_neg]
    rw [rowReadable_eq,ownerOk,owned_of_dropped howner,(G.stored t).absent row (Keyed.mem_of_find hrow) _ hmissing]
    simp [ctx,RecordService.userValue]

/-! ### The links of the search -/

theorem mem_neighbours {direction : Direction} {perPage : Option ℕ} {x : Item} {l : Link}
    (h : l ∈ neighbours G user direction perPage x) : ∃ t, G.table x.1 = some t ∧
      (l ∈ children G user t x.2 perPage ∨ l ∈ parents G user t x.2 ∨ l ∈ peers G user t x.2) := by
  simp only [neighbours] at h
  split at h
  · cases h
  · rename_i t ht
    have hpart : ∀ {p : Prop} [Decidable p] {ls : List Link}, l ∈ (if p then ls else []) → l ∈ ls := by
      intro p _ ls hl
      split at hl
      · exact hl
      · cases hl
    rcases List.mem_append.mp h with h | h
    · rcases List.mem_append.mp h with h | h
      · exact ⟨t,ht,Or.inl (hpart h)⟩
      · exact ⟨t,ht,Or.inr (Or.inl (hpart h))⟩
    · exact ⟨t,ht,Or.inr (Or.inr (hpart h))⟩

/-- A page of the children holds children. -/
theorem children_page {t : MetaTable} {pk : Value} {n : ℕ} {l : Link} (h : l ∈ children G user t pk (some n)) :
    l ∈ children G user t pk none := by
  obtain ⟨⟨child,fkCol,rel⟩,hrel,hl⟩ := List.mem_flatMap.mp h
  refine List.mem_flatMap.mpr ⟨⟨child,fkCol,rel⟩,hrel,?_⟩
  dsimp only at hl ⊢
  split at hl
  · rename_i hview
    obtain ⟨row,hrow,rfl⟩ := List.mem_map.mp hl
    rw [if_pos hview]
    exact List.mem_map_of_mem (Paging.mem_of_mem_page hrow)
  · cases hl

theorem visibleOnly_of_covered (h : Covered G user) : VisibleOnly G user := by
  intro root direction depth maxNodes n hn hne
  obtain ⟨p,hp,rfl⟩ := List.mem_map.mp hn
  refine (Search.run_sound (P := problem G user (Direction.parse direction) depth maxNodes) []
    (fun x => Readable G user (G.nodeId x)) ?_ p hp).resolve_left hne
  intro x hx l hl hallowed hkey
  obtain ⟨t,ht,hlink⟩ := mem_neighbours hl
  rcases hlink with hchild | hparent | hpeer
  · exact child_readable hchild hallowed (h.children x t ht hx l (children_page hchild) hallowed hkey)
  · exact h.parents x t ht hx l hparent hallowed hkey
  · exact h.peers x t ht hx l hpeer hallowed hkey

/-- A limit that no table exceeds cuts off no children. -/
theorem children_all {n : ℕ} (hn : ∀ child ∈ G.tables, (G.stored child).data.rows.length ≤ n) (t : MetaTable) (pk : Value) :
    children G user t pk (some n) = children G user t pk none := by
  simp only [children,List.flatMap_def]
  refine congrArg List.flatten (List.map_congr_left ?_)
  rintro ⟨child,fkCol,rel⟩ hrel
  have hchild : child ∈ G.tables := by
    obtain ⟨-,-,-,hfrom,-⟩ := Schema.mem_incomingM1 hrel
    exact (Schema.table_mem hfrom).1
  dsimp only
  split
  · congr 1
    have hfirst : ((max 1 (1:ℤ)).toNat-1)*n = 0 := by simp
    simp only [listRecords,listRows,Paging.page]
    rw [hfirst,List.drop_zero]
    refine List.take_of_length_le ?_
    rw [(G.perm child _).length_eq]
    exact (List.length_filter_le _ _).trans (hn child hchild)
  · rfl

/-- Every neighbour that passes the test on the company is a node of some map. -/
theorem neighbour_readable (h : VisibleOnly G user) {x : Item} {t : MetaTable} (ht : G.table x.1 = some t)
    (hx : allows G user x = true) {l : Link}
    (hl : l ∈ children G user t x.2 none ∨ l ∈ parents G user t x.2 ∨ l ∈ peers G user t x.2)
    (hallowed : allows G user l.item = true) (hne : G.nodeId l.item ≠ G.nodeId x) : Readable G user (G.nodeId l.item) := by
  let total := (G.tables.map fun child => (G.stored child).data.rows.length).sum
  let limit := (neighbours G user .both none x).length + total + 1
  have hrows : ∀ child ∈ G.tables, (G.stored child).data.rows.length ≤ limit := by
    intro child hchild
    have hle : (G.stored child).data.rows.length ≤ total := List.le_sum_of_mem (List.mem_map_of_mem hchild)
    omega
  have hall : neighbours G user .both (some limit) x = neighbours G user .both none x := by
    simp only [neighbours,ht,children_all hrows]
  have hmem : l ∈ neighbours G user .both (some limit) x := by
    rw [hall]
    simp only [neighbours,ht]
    rcases hl with hl | hl | hl
    · exact List.mem_append_left _ (List.mem_append_left _ hl)
    · exact List.mem_append_left _ (List.mem_append_right _ hl)
    · exact List.mem_append_right _ hl
  obtain ⟨p,hp,hkey⟩ := Search.run_first (P := problem G user .both 1 limit) [] hx Nat.one_pos
    (by change (neighbours G user .both (some limit) x).length < limit; rw [hall]; omega) hmem hallowed
  have hnode : node G p ∈ (graphFor G user x "both" 1 limit).nodes := List.mem_map_of_mem hp
  have hid : (node G p).id = G.nodeId l.item := hkey
  have hreadable := h x "both" 1 limit (node G p) hnode (by rw [hid]; exact hne)
  rwa [hid] at hreadable

theorem covered_of_visibleOnly (h : VisibleOnly G user) : Covered G user := by
  refine ⟨fun x t ht hx l hl => neighbour_readable h ht hx (Or.inr (Or.inl hl)),
    fun x t ht hx l hl => neighbour_readable h ht hx (Or.inr (Or.inr hl)),?_⟩
  intro x t ht hx l hl hallowed hne child hchild
  obtain ⟨child',hchild',-,hget⟩ := neighbour_readable h ht hx (Or.inl hl) hallowed hne
  obtain rfl : child = child' := Option.some.inj (hchild.symm.trans hchild')
  cases howner : ownerDropped (ctx user) (G.stored child) with
  | false => rfl
  | true =>
    rw [unowned_hidden howner] at hget
    cases hget

/-- All the nodes of all maps, the roots apart, are records that the user may read exactly when the neighbours of every
record are covered. -/
theorem visibleOnly_iff (G : Graph) (user : User) : VisibleOnly G user ↔ Covered G user :=
  ⟨covered_of_visibleOnly,visibleOnly_of_covered⟩

end Proofs

/-! ### A service in the trash -/

def onServer : MetaField where
  id := 1
  physName := "service"
  label := "Service"
  dataType := .relation
  relatedTableId := some 2

def servers : MetaTable where
  id := 1
  physName := "servers"
  label := "Servers"
  fields := [onServer]
  idsNodup := by decide
  namesNodup := by decide
  namesFree := by decide

def services : MetaTable where
  id := 2
  physName := "services"
  label := "Services"
  fields := []
  softDelete := true
  idsNodup := List.nodup_nil
  namesNodup := List.nodup_nil
  namesFree := unmanaged_fields

/-- One row: the server 1, which runs on the service 1, or that service, which is in the trash. -/
def onlyRow (column : String) (v : Value) : Row := Row.write (fun _ => .null) [("id",.int 1),(column,v)]

/-- The key 1, also under its text. -/
def oneKey (v : Value) : Value := if v = .text "1" then .int 1 else v

/-- The column of the row, and what it holds. -/
def lastColumn (mt : MetaTable) : String × Value := if mt.softDelete then ("deleted_at",.datetime 1) else ("service",.int 1)

def oneRow (mt : MetaTable) (h : mt.rowOwned = false ∧ ∀ f ∈ mt.fields, f.dataType ≠ .company) : Stored mt where
  data := ⟨["id",(lastColumn mt).1],"id",[onlyRow (lastColumn mt).1 (lastColumn mt).2],oneKey,fun _ => true⟩
  owners howned := by rw [h.1] at howned; cases howned
  companies f hf htype := absurd htype (h.2 f hf)
  absent row hrow other hother := by
    obtain rfl := List.mem_singleton.mp hrow
    simp only [List.mem_cons,List.not_mem_nil,or_false,not_or] at hother
    have hid : (other == "id") = false := by simpa using hother.1
    have hcolumn : (other == (lastColumn mt).1) = false := by simpa using hother.2
    simp only [onlyRow,Row.write,List.lookup_cons,hid,hcolumn,List.lookup_nil,Option.getD_none]
  keys := by simp
  own row hrow := by
    obtain rfl := List.mem_singleton.mp hrow
    rfl

def noRow (mt : MetaTable) : Stored mt where
  data := ⟨[],"id",[],oneKey,fun _ => true⟩
  owners := by simp
  companies := by simp
  absent := by simp
  keys := by simp
  own := by simp

def serversGraph : Graph where
  session := ⟨[⟨1,1,.view,false⟩,⟨2,2,.view,false⟩],[],[],[],[]⟩
  tables := [servers,services]
  relations := [⟨"runs on",.m1,1,2,some 1,none⟩]
  stored := fun mt =>
    if h : mt.rowOwned = false ∧ ∀ f ∈ mt.fields, f.dataType ≠ .company then oneRow mt h else noRow mt
  junctions := fun _ => []
  sql := plainSql
  arrange := fun _ => id
  label := fun _ _ => none
  str := fun v => if v = .int 1 then "1" else ""
  perm := fun _ => List.Perm.refl
  keyed mt hmt := by
    rcases List.mem_pair.mp hmt with rfl | rfl <;> rfl
  spelled mt hmt row hrow := by
    rcases List.mem_pair.mp hmt with rfl | rfl
    · obtain rfl : row = onlyRow "service" (.int 1) := List.mem_singleton.mp hrow
      rfl
    · obtain rfl : row = onlyRow "deleted_at" (.datetime 1) := List.mem_singleton.mp hrow
      rfl

/-- The user 7 sees the service in the trash on the map of its server. -/
theorem trash_on_map : ¬∀ (G : Graph) (user : User), VisibleOnly G user := by
  intro h
  have hnodes : (graphFor serversGraph { id := 7, role := "user" } (1,.int 1) "upstream" 1 10).nodes =
      [⟨(1,"1"),"Servers","#1",0⟩,⟨(2,"1"),"Services","#1",1⟩] := rfl
  obtain ⟨t,ht,-,hget⟩ := h serversGraph { id := 7, role := "user" } (1,.int 1) "upstream" 1 10 ⟨(2,"1"),"Services","#1",1⟩
    (by rw [hnodes]; exact List.mem_cons_of_mem _ List.mem_cons_self) (by decide)
  obtain rfl : services = t := Option.some.inj ht
  revert hget
  decide

end Topology
end Biggy
