import ApiContract.Proofs.Types.Components

/-! # Types refer to entries

A type is resolved when each bean and each enum in it is an entry of the tables, or the
type of a component that has not failed and is entered in the same pass. Mapping keeps
the tables linked: the fields of all beans and the types of all aliases are resolved,
and no entry stands under the name of a failed component.
-/
namespace ApiContract

namespace TypeRef

mutual

def nodes : TypeRef → List TypeRef
  | mk kind name qualified args => mk kind name qualified args :: argumentNodes args

def argumentNodes : List TypeRef → List TypeRef
  | [] => []
  | a :: rest => a.nodes ++ argumentNodes rest

end

variable {Q : TypeRef → Prop} {kind : TypeKind} {name : String} {qualified : Option String}

theorem forall_nodes_leaf (h : Q (.mk kind name qualified [])) :
    ∀ node ∈ (TypeRef.mk kind name qualified []).nodes, Q node := by
  intro node hnode
  simp only [nodes, argumentNodes, List.mem_singleton] at hnode
  exact hnode ▸ h

theorem forall_nodes_wrapped {type : TypeRef} (own : Q (.mk kind name qualified [type]))
    (h : ∀ node ∈ type.nodes, Q node) :
    ∀ node ∈ (TypeRef.mk kind name qualified [type]).nodes, Q node := by
  intro node hnode
  simp only [nodes, argumentNodes, List.append_nil, List.mem_cons] at hnode
  rcases hnode with rfl | hnode
  · exact own
  · exact h node hnode

end TypeRef

namespace TypeTables

def hasBean (s : Schema) : Bool := !s.isExternal && s.isObject

def hasEnum (s : Schema) : Bool := !s.isExternal && s.isEnumeration

/-- The name of the type of a component of a form that has not failed. -/
def Promised (contract : Contract) (form : Schema → Bool) (t : TypeTables) (n : String) : Prop :=
  ∃ c ∈ contract.schemas, form c.2 = true ∧ c.1 ∉ Table.keys t.failed ∧
    Table.get? t.typeNames c.1 = some n

def KnownBean (contract : Contract) (t : TypeTables) (n : String) : Prop :=
  n ∈ Table.keys t.beans ∨ Promised contract hasBean t n

def KnownEnum (contract : Contract) (t : TypeTables) (n : String) : Prop :=
  n ∈ Table.keys t.enums ∨ Promised contract hasEnum t n

/-- A bean or an enum of a type has an entry or gets one in the same pass. -/
structure Known (contract : Contract) (t : TypeTables) (node : TypeRef) : Prop where
  bean : node.kind = .bean → KnownBean contract t node.name
  enum : node.kind = .enum → KnownEnum contract t node.name

def Resolved (contract : Contract) (t : TypeTables) (type : TypeRef) : Prop :=
  ∀ node ∈ type.nodes, Known contract t node

/-- Tables in which the components are known in the same way and no entry is lost. -/
structure Reaches (t t' : TypeTables) : Prop where
  typeNames : t'.typeNames = t.typeNames
  failed : t'.failed = t.failed
  taken : ∀ n ∈ t.taken, n ∈ t'.taken
  beans : ∀ n ∈ Table.keys t.beans, n ∈ Table.keys t'.beans
  enums : ∀ n ∈ Table.keys t.enums, n ∈ Table.keys t'.enums

structure Linked (contract : Contract) (t : TypeTables) : Prop extends Consistent t where
  beansApart : (Table.keys t.beans).Nodup
  enumsApart : (Table.keys t.enums).Nodup
  beanNames : ∀ e ∈ t.beans, e.2.name = e.1
  enumNames : ∀ e ∈ t.enums, e.2.name = e.1
  sound : ∀ n ∈ t.entryNames, ∀ c ∈ Table.keys t.failed, Table.get? t.typeNames c ≠ some n
  fields : ∀ e ∈ t.beans, ∀ f ∈ e.2.fields, Resolved contract t f.type
  aliases : ∀ e ∈ t.aliases, Resolved contract t e.2

variable {contract : Contract} {t t' u : TypeTables}

theorem Resolved.of_leaf {kind : TypeKind} {name : String} {qualified : Option String}
    (hb : kind ≠ .bean) (he : kind ≠ .enum) :
    Resolved contract t (.mk kind name qualified []) :=
  TypeRef.forall_nodes_leaf ⟨fun h => absurd h hb, fun h => absurd h he⟩

theorem Resolved.wrapped {kind : TypeKind} {type : TypeRef} (h : Resolved contract t type)
    (hb : kind ≠ .bean) (he : kind ≠ .enum) :
    Resolved contract t (.mk kind "" none [type]) :=
  TypeRef.forall_nodes_wrapped ⟨fun h => absurd h hb, fun h => absurd h he⟩ h

theorem Resolved.of_bean {name : String} (h : KnownBean contract t name) :
    Resolved contract t (.bean name) :=
  TypeRef.forall_nodes_leaf ⟨fun _ => h, nofun⟩

theorem Resolved.of_enum {name : String} (h : KnownEnum contract t name) :
    Resolved contract t (.enum name) :=
  TypeRef.forall_nodes_leaf ⟨nofun, fun _ => h⟩

theorem Promised.reaches {form : Schema → Bool} {n : String} (h : Promised contract form t n)
    (hr : t.Reaches t') : Promised contract form t' n := by
  obtain ⟨c, hc, hform, hsound, hname⟩ := h
  exact ⟨c, hc, hform, hr.failed ▸ hsound, hr.typeNames ▸ hname⟩

theorem Resolved.reaches {type : TypeRef} (h : Resolved contract t type) (hr : t.Reaches t') :
    Resolved contract t' type := by
  intro node hnode
  have hknown := h node hnode
  exact
    { bean := fun hk => (hknown.bean hk).imp (hr.beans _) fun hp => hp.reaches hr
      enum := fun hk => (hknown.enum hk).imp (hr.enums _) fun hp => hp.reaches hr }

theorem Reaches.refl (t : TypeTables) : t.Reaches t :=
  ⟨rfl, rfl, fun _ h => h, fun _ h => h, fun _ h => h⟩

theorem Reaches.trans (h : t.Reaches u) (h' : u.Reaches t') : t.Reaches t' where
  typeNames := h'.typeNames.trans h.typeNames
  failed := h'.failed.trans h.failed
  taken := fun n hn => h'.taken n (h.taken n hn)
  beans := fun n hn => h'.beans n (h.beans n hn)
  enums := fun n hn => h'.enums n (h.enums n hn)

theorem Grows.reaches (h : t.Grows t') (ht : t.Reserved) : t.Reaches t' := by
  obtain ⟨a, -, rfl⟩ := h ht
  exact ⟨rfl, rfl, fun n hn => List.mem_append_right _ hn, fun n hn => by simp [hn],
    fun n hn => by simp [hn]⟩

theorem Blank.linked (h : t.Blank) : Linked contract t :=
  { h.consistent with
    beansApart := by simp [h.beans]
    enumsApart := by simp [h.enums]
    beanNames := by simp [h.beans]
    enumNames := by simp [h.enums]
    sound := by simp [entryNames, h.beans, h.enums]
    fields := by simp [h.beans]
    aliases := by simp [h.aliases] }

theorem Named.ne_of_notMem (h : t.Named) {n : String} (hn : n ∉ t.taken) (c : String) :
    Table.get? t.typeNames c ≠ some n :=
  fun hc => hn (h.taken c n hc)

theorem Named.ne_of_failed (h : t.Named) {component n : String}
    (hs : component ∉ Table.keys t.failed) (hn : Table.get? t.typeNames component = some n) :
    ∀ c ∈ Table.keys t.failed, Table.get? t.typeNames c ≠ some n := by
  intro c hc hcn
  exact hs (h.distinct c component n hcn hn ▸ hc)

theorem Linked.of_entries (h : Linked contract t) (hr : t.Reaches t')
    (hb : t'.beans = t.beans) (he : t'.enums = t.enums)
    (ha : ∀ e ∈ t'.aliases, Resolved contract t' e.2) : Linked contract t' where
  reserved := by
    intro n hn
    rw [entryNames, hb, he] at hn
    exact hr.taken n (h.reserved n hn)
  named := h.named.of_typeNames hr.typeNames hr.taken
  beansApart := hb ▸ h.beansApart
  enumsApart := he ▸ h.enumsApart
  beanNames := hb ▸ h.beanNames
  enumNames := he ▸ h.enumNames
  sound := by
    intro n hn
    rw [entryNames, hb, he] at hn
    rw [hr.failed, hr.typeNames]
    exact h.sound n hn
  fields := by
    intro e hmem f hf
    rw [hb] at hmem
    exact (h.fields e hmem f hf).reaches hr
  aliases := ha

theorem reaches_take (t : TypeTables) (n : String) : t.Reaches (t.take n) :=
  ⟨rfl, rfl, fun _ hm => List.mem_cons_of_mem _ hm, fun _ hm => hm, fun _ hm => hm⟩

theorem Linked.take (h : Linked contract t) (n : String) : Linked contract (t.take n) :=
  h.of_entries (reaches_take t n) rfl rfl fun e he => (h.aliases e he).reaches (reaches_take t n)

end TypeTables

namespace Types

open TypeTables

variable {contract : Contract} {map : Mapping} {t : TypeTables}

theorem reaches_withBean (t : TypeTables) (bean : Bean) : t.Reaches (withBean t bean) :=
  ⟨rfl, rfl, fun _ h => h, fun _ h => Table.mem_keys_put.mpr (Or.inr h), fun _ h => h⟩

theorem reaches_withEnum (t : TypeTables) (enum : EnumType) : t.Reaches (withEnum t enum) :=
  ⟨rfl, rfl, fun _ h => h, fun _ h => h, fun _ h => Table.mem_keys_put.mpr (Or.inr h)⟩

theorem reaches_entering (t : TypeTables) (name : String) : t.Reaches (entering t name) :=
  ⟨rfl, rfl, fun _ h => h, fun _ h => h, fun _ h => h⟩

theorem reaches_learning (t : TypeTables) (name : String) (type : TypeRef) :
    t.Reaches (learning (leaving t name) name type) :=
  ⟨rfl, rfl, fun _ h => h, fun _ h => h, fun _ h => h⟩

theorem mem_entryNames_withBean {bean : Bean} {n : String}
    (h : n ∈ (withBean t bean).entryNames) : n = bean.name ∨ n ∈ t.entryNames := by
  rcases List.mem_append.mp h with h | h
  · exact (Table.mem_keys_put.mp h).imp id (List.mem_append_left _)
  · exact Or.inr (List.mem_append_right _ h)

theorem mem_entryNames_withEnum {enum : EnumType} {n : String}
    (h : n ∈ (withEnum t enum).entryNames) : n = enum.name ∨ n ∈ t.entryNames := by
  rcases List.mem_append.mp h with h | h
  · exact Or.inr (List.mem_append_left _ h)
  · exact (Table.mem_keys_put.mp h).imp id (List.mem_append_right _)

/-- A bean of resolved fields keeps the tables linked, under a name that was given out
and is not that of a failed component. -/
theorem linked_withBean (h : Linked contract t) {bean : Bean} (htaken : bean.name ∈ t.taken)
    (hsound : ∀ c ∈ Table.keys t.failed, Table.get? t.typeNames c ≠ some bean.name)
    (hfields : ∀ f ∈ bean.fields, Resolved contract t f.type) :
    Linked contract (withBean t bean) where
  reserved := reserved_withBean h.reserved htaken
  named := (frame_withBean t bean).named h.named
  beansApart := Table.nodup_keys_put h.beansApart _ _
  enumsApart := h.enumsApart
  beanNames := by
    intro e he
    rcases Table.mem_put he with he | rfl
    · exact h.beanNames e he
    · rfl
  enumNames := h.enumNames
  sound := by
    intro n hn
    rcases mem_entryNames_withBean hn with rfl | hn
    · exact hsound
    · exact h.sound n hn
  fields := by
    intro e he f hf
    rcases Table.mem_put he with he | rfl
    · exact (h.fields e he f hf).reaches (reaches_withBean t bean)
    · exact (hfields f hf).reaches (reaches_withBean t bean)
  aliases := fun e he => (h.aliases e he).reaches (reaches_withBean t bean)

theorem linked_withEnum (h : Linked contract t) {enum : EnumType} (htaken : enum.name ∈ t.taken)
    (hsound : ∀ c ∈ Table.keys t.failed, Table.get? t.typeNames c ≠ some enum.name) :
    Linked contract (withEnum t enum) where
  reserved := reserved_withEnum h.reserved htaken
  named := (frame_withEnum t enum).named h.named
  beansApart := h.beansApart
  enumsApart := Table.nodup_keys_put h.enumsApart _ _
  beanNames := h.beanNames
  enumNames := by
    intro e he
    rcases Table.mem_put he with he | rfl
    · exact h.enumNames e he
    · rfl
  sound := by
    intro n hn
    rcases mem_entryNames_withEnum hn with rfl | hn
    · exact hsound
    · exact h.sound n hn
  fields := fun e he f hf => (h.fields e he f hf).reaches (reaches_withEnum t enum)
  aliases := fun e he => (h.aliases e he).reaches (reaches_withEnum t enum)

/-- What a way to map keeps when it succeeds: linked tables, and a resolved type. -/
def Linking (contract : Contract) (map : Mapping) : Prop :=
  ∀ schema owner role w type w', map schema owner role w = .ok type w' →
    Linked contract w.tables → Linked contract w'.tables ∧ Resolved contract w'.tables type

theorem linked_beanFields (hmap : Linking contract map) (hgrow : Growing map) {owner : String}
    {required : List Scalar} {properties : List (Scalar × Schema)} {fields : List BeanField}
    {w w' : Workspace} (h : properties.mapM (beanField map owner required) w = .ok fields w')
    (hw : Linked contract w.tables) :
    Linked contract w'.tables ∧ ∀ f ∈ fields, Resolved contract w'.tables f.type := by
  induction properties generalizing w fields with
  | nil =>
    cases h
    exact ⟨hw, by simp⟩
  | cons p rest ih =>
    rw [List.mapM_cons] at h
    obtain ⟨field, v, hfield, h⟩ := Step.bind_eq_ok.mp h
    obtain ⟨others, u, hothers, h⟩ := Step.bind_eq_ok.mp h
    cases h
    obtain ⟨type, u, htype, h⟩ := Step.bind_eq_ok.mp hfield
    cases h
    obtain ⟨hv, hresolved⟩ := hmap _ _ _ _ _ _ htype hw
    obtain ⟨hw', hrest⟩ := ih hothers hv
    have hgrows := (keeps_beanFields hgrow owner required rest).of_ok hothers
    refine ⟨hw', ?_⟩
    intro f hf
    rcases List.mem_cons.mp hf with rfl | hf
    · exact hresolved.reaches (hgrows.reaches hv.reserved)
    · exact hrest f hf

theorem linked_buildBean (hmap : Linking contract map) (hgrow : Growing map) {name : String}
    {s : Schema} {w w' : Workspace} (h : buildBean contract map name s w = .ok () w')
    (hw : Linked contract w.tables) (htaken : name ∈ w.tables.taken)
    (hsound : ∀ c ∈ Table.keys w.tables.failed, Table.get? w.tables.typeNames c ≠ some name) :
    Linked contract w'.tables ∧ name ∈ Table.keys w'.tables.beans := by
  obtain ⟨merged, fields, v, -, hfields, ht⟩ := buildBean_eq_ok h
  obtain ⟨hv, hresolved⟩ := linked_beanFields hmap hgrow hfields hw
  have hframe := ((keeps_beanFields hgrow name merged.required merged.properties).of_ok
    hfields).frame hw.reserved
  rw [ht]
  refine ⟨linked_withBean hv (hframe.taken name htaken) ?_ hresolved, ?_⟩
  · rw [hframe.failed, hframe.typeNames]
    exact hsound
  · exact Table.mem_keys_put.mpr (Or.inl rfl)

theorem linked_buildEnum {name : String} {s : Schema} {values : List Tree} {w w' : Workspace}
    (h : buildEnum name s values w = .ok () w') (hw : Linked contract w.tables)
    (htaken : name ∈ w.tables.taken)
    (hsound : ∀ c ∈ Table.keys w.tables.failed, Table.get? w.tables.typeNames c ≠ some name) :
    Linked contract w'.tables ∧ name ∈ Table.keys w'.tables.enums := by
  rw [buildEnum_eq_ok h]
  exact ⟨linked_withEnum hw htaken hsound, Table.mem_keys_put.mpr (Or.inl rfl)⟩

theorem linked_resolveAlias (hmap : Linking contract map) {name javaName location : String}
    {s : Schema} {type : TypeRef} {w w' : Workspace}
    (h : resolveAlias map name javaName location s w = .ok type w')
    (hw : Linked contract w.tables) :
    Linked contract w'.tables ∧ Resolved contract w'.tables type := by
  rcases resolveAlias_cases map name javaName location s w with
    ⟨known, hknown, he⟩ | ⟨-, he⟩ | ⟨-, -, ⟨type', v, hm, he⟩ | ⟨e, v, -, he⟩⟩
  · cases he.symm.trans h
    exact ⟨hw, hw.aliases _ (Table.mem_of_get? hknown)⟩
  · cases he.symm.trans h
  · cases he.symm.trans h
    have hentered := reaches_entering w.tables name
    obtain ⟨hv, hresolved⟩ := hmap _ _ _ _ _ _ hm
      (hw.of_entries hentered rfl rfl fun e he => (hw.aliases e he).reaches hentered)
    have hlearned := reaches_learning v.tables name type
    refine ⟨hv.of_entries hlearned rfl rfl ?_, hresolved.reaches hlearned⟩
    intro e he
    rcases Table.mem_put he with he | rfl
    · exact (hv.aliases e he).reaches hlearned
    · exact hresolved.reaches hlearned
  · cases he.symm.trans h

theorem linked_referenceWith (hmap : Linking contract map) {name location : String}
    {type : TypeRef} {w w' : Workspace}
    (h : referenceWith contract map name location w = .ok type w')
    (hw : Linked contract w.tables) :
    Linked contract w'.tables ∧ Resolved contract w'.tables type := by
  obtain ⟨hsound, href⟩ := referred_of_eq_ok h
  cases href with
  | external => exact ⟨hw, .of_leaf (by decide) (by decide)⟩
  | bean found own object named =>
    have hpromised := Table.mem_of_get? found
    exact ⟨hw, .of_bean (Or.inr ⟨_, hpromised, by simp [hasBean, own, object], hsound, named⟩)⟩
  | enum found own enumeration named =>
    have hpromised := Table.mem_of_get? found
    exact ⟨hw, .of_enum (Or.inr ⟨_, hpromised, by simp [hasEnum, own, enumeration], hsound, named⟩)⟩
  | aliased found resolved => exact linked_resolveAlias hmap resolved hw

theorem linking_mapNode (hmap : Linking contract map) (hgrow : Growing map) :
    Linking contract (mapNode contract map) := by
  intro schema owner role w type w' h hw
  cases schema with
  | none =>
    cases h
    exact ⟨hw, .of_leaf (by decide) (by decide)⟩
  | some s =>
    cases mapped_of_eq_ok h with
    | external => exact ⟨hw, .of_leaf (by decide) (by decide)⟩
    | reference referred => exact linked_referenceWith hmap referred hw
    | primitive => exact ⟨hw, .of_leaf (by decide) (by decide)⟩
    | binary => exact ⟨hw, .of_leaf (by decide) (by decide)⟩
    | any => exact ⟨hw, .of_leaf (by decide) (by decide)⟩
    | array element =>
      obtain ⟨hw', hresolved⟩ := hmap _ _ _ _ _ _ element hw
      exact ⟨hw', hresolved.wrapped (by decide) (by decide)⟩
    | map element =>
      obtain ⟨hw', hresolved⟩ := hmap _ _ _ _ _ _ element hw
      exact ⟨hw', hresolved.wrapped (by decide) (by decide)⟩
    | enumeration new built =>
      obtain ⟨hw', hkey⟩ := linked_buildEnum built (hw.take _) List.mem_cons_self
        fun c _ => hw.named.ne_of_notMem new c
      exact ⟨hw', .of_enum (Or.inl hkey)⟩
    | emptyObject =>
      exact ⟨hw, Resolved.wrapped (.of_leaf (by decide) (by decide)) (by decide) (by decide)⟩
    | object _ new built =>
      obtain ⟨hw', hkey⟩ := linked_buildBean hmap hgrow built (hw.take _) List.mem_cons_self
        fun c _ => hw.named.ne_of_notMem new c
      exact ⟨hw', .of_bean (Or.inl hkey)⟩

theorem linking_mapWithin (depth : Nat) : Linking contract (mapWithin contract depth) := by
  induction depth with
  | zero =>
    intro schema owner role w type w' h
    cases h
  | succ depth ih => exact linking_mapNode ih (growing_mapWithin depth)

theorem linking_mapSchema : Linking contract (mapSchema contract) := by
  intro schema owner role
  exact linking_mapWithin _ schema owner role

end Types

end ApiContract
